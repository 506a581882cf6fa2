import Mathlib

/-!
# Computations with a limit

A walk whose code has no bound gets a limit of steps, and gives nothing when it takes more.
`Settles f b` says that such a computation ends with `b`, whatever the limit is once it is large enough,
and with nothing else.
-/

namespace Base

variable {α β γ σ : Type} {f : Nat → Option β} {a : α} {b b' : β}

/-- A computation ends, and with this. -/
structure Settles (f : Nat → Option β) (b : β) : Prop where
  ends : ∃ limit, ∀ limit', limit ≤ limit' → f limit' = some b
  only : ∀ limit b', f limit = some b' → b' = b

namespace Settles

theorem pure (b : β) : Settles (fun _ => some b) b := ⟨⟨0, fun _ _ => rfl⟩, fun _ _ h => (Option.some.inj h).symm⟩

/-- The first step of a computation takes one from the limit. -/
theorem of_succ (hzero : f 0 = none) (h : Settles (fun limit => f (limit + 1)) b) : Settles f b := by
  obtain ⟨⟨limit, hends⟩, honly⟩ := h
  refine ⟨⟨limit + 1, fun limit' hle => ?_⟩, fun limit' b' hb' => ?_⟩
  · obtain ⟨previous, rfl⟩ : ∃ previous, limit' = previous + 1 := ⟨limit' - 1, by omega⟩
    exact hends previous (by omega)
  · cases limit' with
    | zero => rw [hzero] at hb'; cases hb'
    | succ previous => exact honly previous b' hb'

theorem bind {f : Nat → Option α} {g : Nat → α → Option β} (h : Settles f a) (h' : Settles (g · a) b) :
    Settles (fun limit => (f limit).bind (g limit)) b := by
  obtain ⟨⟨limit, hends⟩, honly⟩ := h
  obtain ⟨⟨limit', hends'⟩, honly'⟩ := h'
  refine ⟨⟨max limit limit', fun larger hle => ?_⟩, fun larger b' hb' => ?_⟩
  · rw [hends larger (by omega), Option.bind_some]
    exact hends' larger (by omega)
  · obtain ⟨a', ha', hb'⟩ := Option.bind_eq_some_iff.mp hb'
    rw [honly larger a' ha'] at hb'
    exact honly' larger b' hb'

theorem map {f : Nat → Option α} (h : Settles f a) (g : α → β) :
    Settles (fun limit => (f limit).map g) (g a) := by
  simp only [Option.map_eq_bind]
  exact h.bind (.pure (g a))

/-- A computation over a list, element by element. -/
theorem mapM {f : Nat → α → Option β} {g : α → β} {as : List α}
    (h : ∀ a ∈ as, Settles (f · a) (g a)) : Settles (fun limit => as.mapM (f limit)) (as.map g) := by
  induction as with
  | nil => exact .pure []
  | cons a as ih =>
    simp only [List.mapM_cons, List.map_cons]
    refine (h a List.mem_cons_self).bind ?_
    exact (ih fun a ha => h a (List.mem_cons_of_mem _ ha)).bind (.pure _)

end Settles

/-- A computation over a list gives at least what one does that gives less at each element. -/
theorem mapM_mono {f g : α → Option β} (h : ∀ a b, f a = some b → g a = some b) :
    ∀ {as : List α} {bs : List β}, as.mapM f = some bs → as.mapM g = some bs
  | [], _, hf => hf
  | a :: as, bs, hf => by
    rw [List.mapM_cons] at hf ⊢
    obtain ⟨b, hb, hf⟩ := Option.bind_eq_some_iff.mp hf
    obtain ⟨rest, hrest, hf⟩ := Option.bind_eq_some_iff.mp hf
    exact Option.bind_eq_some_iff.mpr
      ⟨b, h a b hb, Option.bind_eq_some_iff.mpr ⟨rest, mapM_mono h hrest, hf⟩⟩

end Base
