import Mathlib

/-!
# Computations that decide

A computation over a state that keeps an invariant `Inv`, whatever the state.  `Yields` says what
holds of its result, and `Decides` that its result is the truth of a proposition: so it does not
depend on the state that it starts in.
-/

namespace Base

variable {σ α β : Type} {Inv : σ → Prop}

/-- From a state with the invariant, the computation ends in one, with such a result. -/
def Yields (Inv : σ → Prop) (m : StateM σ α) (Q : α → Prop) : Prop :=
  ∀ s, Inv s → Q (m.run s).1 ∧ Inv (m.run s).2

/-- The computation finds out whether a proposition holds. -/
def Decides (Inv : σ → Prop) (m : StateM σ Bool) (P : Prop) : Prop :=
  Yields Inv m fun found => found = true ↔ P

namespace Yields

variable {m : StateM σ α} {f : α → StateM σ β} {Q Q' : α → Prop} {R : β → Prop}

theorem pure {a : α} (h : Q a) : Yields Inv (Pure.pure a : StateM σ α) Q := fun _ hs => ⟨h, hs⟩

theorem bind (h : Yields Inv m Q) (hf : ∀ a, Q a → Yields Inv (f a) R) :
    Yields Inv (m >>= f) R := fun s hs => by
  obtain ⟨hresult, hstate⟩ := h s hs
  exact hf _ hresult _ hstate

theorem mono (h : Yields Inv m Q) (hQ : ∀ a, Q a → Q' a) : Yields Inv m Q' := fun s hs =>
  ⟨hQ _ (h s hs).1, (h s hs).2⟩

/-- The state is read. -/
theorem get : Yields Inv (MonadState.get : StateM σ σ) Inv := fun _ hs => ⟨hs, hs⟩

/-- The state is changed. -/
theorem modify {g : σ → σ} (h : ∀ s, Inv s → Inv (g s)) :
    Yields Inv (modify g : StateM σ PUnit) fun _ => True := fun s hs => ⟨trivial, h s hs⟩

/-- One computation for each element of a list. -/
theorem mapM {f : α → StateM σ β} {g : α → β} :
    ∀ {items : List α}, (∀ a ∈ items, Yields Inv (f a) (· = g a)) →
      Yields Inv (items.mapM f) (· = items.map g)
  | [], _ => by
    rw [List.mapM_nil]
    exact pure rfl
  | a :: items, h => by
    rw [List.mapM_cons]
    refine bind (h a List.mem_cons_self) fun b hb => ?_
    refine bind (mapM fun a ha => h a (List.mem_cons_of_mem _ ha)) fun rest hrest => pure ?_
    rw [hb, hrest, List.map_cons]

end Yields

namespace Decides

variable {m m' : StateM σ Bool} {P P' : Prop}

theorem pure {b : Bool} (h : b = true ↔ P) : Decides Inv (Pure.pure b : StateM σ Bool) P :=
  Yields.pure h

theorem congr (h : Decides Inv m P) (hP : P ↔ P') : Decides Inv m P' :=
  Yields.mono h fun _ hb => hb.trans hP

/-- A computation goes on in one way or another, after what it found. -/
theorem bind {Q : Prop} {f : Bool → StateM σ Bool} (h : Decides Inv m Q)
    (htrue : Q → Decides Inv (f true) P) (hfalse : ¬ Q → Decides Inv (f false) P) :
    Decides Inv (m >>= f) P :=
  Yields.bind h fun found hfound => by
    cases found with
    | true => exact htrue (hfound.mp rfl)
    | false => exact hfalse fun hq => Bool.false_ne_true (hfound.mpr hq)

/-- One test, and then another one if it failed. -/
theorem or (h : Decides Inv m P) (h' : Decides Inv m' P') :
    Decides Inv (m >>= fun found => if found then Pure.pure true else m') (P ∨ P') :=
  h.bind (fun hP => pure (by simp [hP])) fun hP => h'.congr (by simp [hP])

theorem not (h : Decides Inv m P) : Decides Inv (m >>= fun found => Pure.pure !found) (¬ P) :=
  h.bind (fun hP => pure (by simp [hP])) fun hP => pure (by simp [hP])

/-- Some element of a list passes a test. -/
theorem anyM {test : α → StateM σ Bool} {T : α → Prop} :
    ∀ {items : List α}, (∀ a ∈ items, Decides Inv (test a) (T a)) →
      Decides Inv (items.anyM test) (∃ a ∈ items, T a)
  | [], _ => pure (by simp)
  | a :: items, h => by
    have hrest := anyM fun b hb => h b (List.mem_cons_of_mem a hb)
    refine Decides.congr ?_ (show (T a ∨ ∃ b ∈ items, T b) ↔ _ by simp)
    rw [List.anyM]
    refine (h a List.mem_cons_self).bind (fun ha => pure (by simp [ha])) fun ha => ?_
    exact hrest.congr (by simp [ha])

end Decides

end Base
