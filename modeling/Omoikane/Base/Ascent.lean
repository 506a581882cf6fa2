import Mathlib

/-!
# Links upwards

Each element has at most one element above it.  `Ascends up a chain` says that the walk up from `a`
ends, and that `chain` has the elements it meets, `a` first.  Where every walk ends
(`Rooted`), nothing is above itself.  Taking a link away keeps that, and so does a
new link from an element that the walk from the other end does not meet.
-/

namespace Base

variable {α : Type} {up up' : α → Option α} {a b c : α} {chain chain' : List α}

/-- The elements that a walk up meets. -/
inductive Ascends (up : α → Option α) : α → List α → Prop
  | top {a : α} : up a = none → Ascends up a [a]
  | step {a b : α} {chain : List α} : up a = some b → Ascends up b chain → Ascends up a (a :: chain)

/-- Every walk up ends. -/
def Rooted (up : α → Option α) : Prop := ∀ a, ∃ chain, Ascends up a chain

/-- An element is directly below another. -/
def Below (up : α → Option α) (a b : α) : Prop := up a = some b

namespace Ascends

theorem mem_self (h : Ascends up a chain) : a ∈ chain := by
  cases h with
  | top => exact List.mem_singleton_self a
  | step => exact List.mem_cons_self

/-- There is one walk. -/
theorem unique (h : Ascends up a chain) (h' : Ascends up a chain') : chain = chain' := by
  induction h generalizing chain' with
  | top hnone =>
    cases h' with
    | top => rfl
    | step hsome => rw [hnone] at hsome; cases hsome
  | step hsome _ ih =>
    cases h' with
    | top hnone => rw [hsome] at hnone; cases hnone
    | step hsome' hrest =>
      rw [hsome] at hsome'
      cases hsome'
      rw [ih hrest]

/-- The walk goes on from each element as the walk from that element does. -/
theorem from_mem (h : Ascends up a chain) (hb : b ∈ chain) :
    ∃ before after, chain = before ++ after ∧ Ascends up b after := by
  induction h with
  | top hnone =>
    cases List.mem_singleton.mp hb
    exact ⟨[], _, rfl, .top hnone⟩
  | step hsome hrest ih =>
    rcases List.mem_cons.mp hb with rfl | hb
    · exact ⟨[], _, rfl, .step hsome hrest⟩
    · obtain ⟨before, after, rfl, hafter⟩ := ih hb
      exact ⟨_ :: before, after, rfl, hafter⟩

theorem mem_iff (h : Ascends up a chain) : b ∈ chain ↔ Relation.ReflTransGen (Below up) a b := by
  constructor
  · intro hb
    induction h with
    | top => rw [List.mem_singleton.mp hb]
    | step hsome _ ih =>
      rcases List.mem_cons.mp hb with rfl | hb
      · exact .refl
      · exact .head hsome (ih hb)
  · intro hreach
    induction hreach with
    | refl => exact h.mem_self
    | @tail middle last _ hlast ih =>
      obtain ⟨before, after, rfl, hafter⟩ := h.from_mem ih
      cases hafter with
      | top hnone => rw [Below, hnone] at hlast; cases hlast
      | step hsome hrest =>
        rw [Below, hsome] at hlast
        cases hlast
        exact List.mem_append_right _ (List.mem_cons_of_mem _ hrest.mem_self)

/-- Links of elements that the walk does not meet do not matter. -/
theorem congr (h : Ascends up a chain) (heq : ∀ b ∈ chain, up' b = up b) :
    Ascends up' a chain := by
  induction h with
  | top hnone => exact .top ((heq _ List.mem_cons_self).trans hnone)
  | step hsome _ ih =>
    exact .step ((heq _ List.mem_cons_self).trans hsome)
      (ih fun b hb => heq b (List.mem_cons_of_mem _ hb))

end Ascends

namespace Rooted

/-- Nothing is above itself. -/
theorem irreflexive (h : Rooted up) : ¬ Relation.TransGen (Below up) a a := by
  intro hloop
  obtain ⟨chain, hchain⟩ := h a
  obtain ⟨b, hab, hba⟩ := Relation.TransGen.head'_iff.mp hloop
  cases hchain with
  | top hnone => rw [Below, hnone] at hab; cases hab
  | @step _ b' rest hsome hrest =>
    rw [Below, hsome] at hab
    cases hab
    obtain ⟨before, after, hsplit, hafter⟩ := hrest.from_mem (hrest.mem_iff.mpr hba)
    have hlength := congrArg List.length (hafter.unique (.step hsome hrest))
    rw [hsplit, List.length_cons, List.length_append] at hlength
    omega

variable [DecidableEq α]

/-- A link is taken away. -/
theorem cut (h : Rooted up) (c : α) : Rooted (Function.update up c none) := by
  intro a
  obtain ⟨chain, hchain⟩ := h a
  induction hchain with
  | @top a hnone =>
    refine ⟨[a], .top ?_⟩
    by_cases hc : a = c
    · rw [hc, Function.update_self]
    · rw [Function.update_of_ne hc, hnone]
  | @step a b rest hsome _ ih =>
    by_cases hc : a = c
    · exact ⟨[a], .top (by rw [hc, Function.update_self])⟩
    · obtain ⟨chain, hchain⟩ := ih
      exact ⟨_, .step ((Function.update_of_ne hc ..).trans hsome) hchain⟩

/-- An element gets a link to one that is not below it. -/
theorem link (h : Rooted up) (hb : Ascends up b chain) (hc : c ∉ chain) :
    Rooted (Function.update up c (some b)) := by
  have hkeep : Ascends (Function.update up c (some b)) b chain :=
    hb.congr fun d hd => Function.update_of_ne (fun heq : d = c => hc (heq ▸ hd)) ..
  intro a
  obtain ⟨chain', hchain'⟩ := h a
  induction hchain' with
  | @top a hnone =>
    by_cases hac : a = c
    · exact ⟨_, .step (by rw [hac, Function.update_self]) hkeep⟩
    · exact ⟨_, .top ((Function.update_of_ne hac ..).trans hnone)⟩
  | @step a d rest hsome _ ih =>
    by_cases hac : a = c
    · exact ⟨_, .step (by rw [hac, Function.update_self]) hkeep⟩
    · obtain ⟨chain', hchain'⟩ := ih
      exact ⟨_, .step ((Function.update_of_ne hac ..).trans hsome) hchain'⟩

end Rooted

/-! ## The search -/

section

variable [DecidableEq α]

/-- Whether a walk up meets an element; `none` if it takes more than `limit` steps. -/
def climb (up : α → Option α) (target : α) : Nat → Option α → Option Bool
  | 0, _ => none
  | _ + 1, none => some false
  | limit + 1, some a => if a = target then some true else climb up target limit (up a)

/-- A walk that ends is searched. -/
theorem Ascends.climb_eq (h : Ascends up a chain) (target : α) {limit : Nat}
    (hlimit : chain.length < limit) :
    climb up target limit (some a) = some (decide (target ∈ chain)) := by
  induction h generalizing limit with
  | @top a hnone =>
    obtain ⟨limit, rfl⟩ := Nat.exists_eq_add_of_lt hlimit
    rw [climb, hnone]
    by_cases ha : a = target
    · rw [if_pos ha, ha, decide_eq_true (List.mem_singleton_self target)]
    · rw [if_neg ha, decide_eq_false fun hm => ha (List.mem_singleton.mp hm).symm]
      rw [List.length_singleton, Nat.add_comm, climb]
  | @step a b rest hsome _ ih =>
    cases limit with
    | zero => cases hlimit
    | succ limit =>
      rw [climb, hsome]
      by_cases ha : a = target
      · rw [if_pos ha, ha, decide_eq_true List.mem_cons_self]
      · rw [if_neg ha, ih (Nat.lt_of_succ_lt_succ hlimit)]
        refine congrArg some (decide_eq_decide.mpr ⟨List.mem_cons_of_mem _, fun hm => ?_⟩)
        exact (List.mem_cons.mp hm).resolve_left (Ne.symm ha)

/-- A bound that was not reached may be raised. -/
theorem climb_mono {target : α} {limit limit' : Nat} {start : Option α} {found : Bool}
    (h : climb up target limit start = some found) (hlimit : limit ≤ limit') :
    climb up target limit' start = some found := by
  induction limit generalizing limit' start with
  | zero => cases h
  | succ limit ih =>
    cases limit' with
    | zero => cases hlimit
    | succ limit' =>
      cases start with
      | none => exact h
      | some a =>
        rw [climb] at h ⊢
        split
        next heq => rwa [if_pos heq] at h
        next hne =>
          rw [if_neg hne] at h
          exact ih h (Nat.le_of_succ_le_succ hlimit)

end

end Base

/-!
## Acyclic relations

Nothing leads back to itself.  An edge may be taken away, and one may be added from `a` to `b`
exactly when `b` does not lead to `a`.  An acyclic relation on finitely many elements can be followed
in either direction only so far.
-/

namespace Base

open Relation

variable {α : Type} {r r' : α → α → Prop} {a b : α}

/-- Nothing leads back to itself. -/
def Acyclic (r : α → α → Prop) : Prop := ∀ a, ¬ TransGen r a a

namespace Acyclic

theorem mono (h : Acyclic r) (hsub : ∀ x y, r' x y → r x y) : Acyclic r' :=
  fun a hloop => h a (TransGen.mono hsub _ _ hloop)

/-- What leads somewhere over an additional edge goes through that edge or needs it not. -/
theorem transGen_add (hsub : ∀ x y, r' x y → r x y ∨ (x = a ∧ y = b)) {x y : α}
    (h : TransGen r' x y) : TransGen r x y ∨ (ReflTransGen r x a ∧ ReflTransGen r b y) := by
  induction h with
  | @single y hedge =>
    rcases hsub x y hedge with hedge | ⟨rfl, rfl⟩
    · exact .inl (.single hedge)
    · exact .inr ⟨.refl, .refl⟩
  | @tail y z _ hedge ih =>
    rcases hsub y z hedge with hedge | ⟨rfl, rfl⟩
    · rcases ih with ih | ⟨hxa, hby⟩
      · exact .inl (ih.tail hedge)
      · exact .inr ⟨hxa, hby.tail hedge⟩
    · rcases ih with ih | ⟨hxa, _⟩
      · exact .inr ⟨ih.to_reflTransGen, .refl⟩
      · exact .inr ⟨hxa, .refl⟩

/-- An edge is added to an element that does not lead back. -/
theorem add (h : Acyclic r) (hsub : ∀ x y, r' x y → r x y ∨ (x = a ∧ y = b))
    (hab : ¬ ReflTransGen r b a) : Acyclic r' := by
  intro x hloop
  rcases transGen_add hsub hloop with hloop | ⟨hxa, hbx⟩
  · exact h x hloop
  · exact hab (hbx.trans hxa)

/-- A way from an element never comes back to it, so that it stays when edges to the element go. -/
theorem keeps_way (h : Acyclic r) (hkeep : ∀ x y, r x y → y ≠ b → r' x y)
    (hway : ReflTransGen r b a) : ReflTransGen r' b a := by
  induction hway with
  | refl => exact .refl
  | @tail x y hway hedge ih =>
    refine ih.tail (hkeep x y hedge ?_)
    rintro rfl
    exact h y (.tail' hway hedge)

/-- No other edge can be added. -/
theorem not_leads_back (h : Acyclic r) (hab : r a b) : ¬ ReflTransGen r b a :=
  fun hba => h a (.head' hab hba)

/-- The relation cannot be followed backwards forever. -/
theorem wellFounded (h : Acyclic r) {s : Set α} (hs : s.Finite)
    (hmem : ∀ x y, r x y → x ∈ s ∧ y ∈ s) : WellFounded r := by
  have : Finite s := hs
  -- elements outside of the set have no edges, and are all one
  let lower : s → s → Prop := fun x y => TransGen r x y
  have : IsTrans s lower := ⟨fun _ _ _ => TransGen.trans⟩
  have : Std.Irrefl lower := ⟨fun x => h x⟩
  have hlower : WellFounded lower := Finite.wellFounded_of_trans_of_irrefl lower
  have hacc : ∀ x : s, Acc r x := fun x => by
    induction hlower.apply x with
    | intro x _ ih => exact ⟨_, fun y hy => ih ⟨y, (hmem y x hy).1⟩ (.single hy)⟩
  exact ⟨fun x => ⟨x, fun y hy => hacc ⟨y, (hmem y x hy).1⟩⟩⟩

theorem swap (h : Acyclic r) : Acyclic (fun x y => r y x) :=
  fun a hloop => h a (TransGen.swap _ _ hloop)

/-- The relation cannot be followed forever. -/
theorem wellFounded_swap (h : Acyclic r) {s : Set α} (hs : s.Finite)
    (hmem : ∀ x y, r x y → x ∈ s ∧ y ∈ s) : WellFounded (fun x y => r y x) :=
  h.swap.wellFounded hs fun x y hedge => (hmem y x hedge).symm

end Acyclic

end Base
