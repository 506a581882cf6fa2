import Mathlib

/-!
# Taking the greatest

`takeGreatest` takes a greatest element out of a bag, as the `pop` of a priority
queue does.  The bag is a list whose order means nothing, so the facts are up to
permutation.
-/

namespace Base

variable {α : Type} {cmp : α → α → Ordering}

/-- A greatest element and the others. -/
def takeGreatest (cmp : α → α → Ordering) : List α → Option (α × List α)
  | [] => none
  | a :: bag =>
    match takeGreatest cmp bag with
    | none => some (a, [])
    | some (b, rest) => if (cmp a b).isLT then some (b, a :: rest) else some (a, b :: rest)

theorem takeGreatest_eq_none_iff {bag : List α} : takeGreatest cmp bag = none ↔ bag = [] := by
  cases bag with
  | nil => simp [takeGreatest]
  | cons a bag =>
    unfold takeGreatest
    split
    · simp
    · split <;> simp

/-- Nothing is lost. -/
theorem perm_of_takeGreatest {bag rest : List α} {a : α}
    (h : takeGreatest cmp bag = some (a, rest)) : bag.Perm (a :: rest) := by
  induction bag generalizing a rest with
  | nil => cases h
  | cons b bag ih =>
    unfold takeGreatest at h
    split at h
    next hnone =>
      rw [takeGreatest_eq_none_iff] at hnone
      cases h
      rw [hnone]
    next c others hsome =>
      have hperm := (ih hsome).cons b
      split at h
      · cases h
        exact hperm.trans (List.Perm.swap ..)
      · cases h
        exact hperm

/-- What is taken is not less than anything that was there. -/
theorem greatest_of_takeGreatest [Std.TransCmp cmp] {bag rest : List α} {a : α}
    (h : takeGreatest cmp bag = some (a, rest)) : ∀ b ∈ bag, (cmp b a).isLE = true := by
  induction bag generalizing a rest with
  | nil => cases h
  | cons b bag ih =>
    unfold takeGreatest at h
    split at h
    next hnone =>
      rw [takeGreatest_eq_none_iff] at hnone
      cases h
      intro c hc
      rw [hnone, List.mem_singleton] at hc
      rw [hc]
      exact Std.ReflCmp.isLE_rfl
    next c others hsome =>
      have hothers := ih hsome
      split at h
      next hlt =>
        cases h
        intro d hd
        rcases List.mem_cons.mp hd with rfl | hd
        · exact Ordering.isLE_of_eq_lt (Ordering.isLT_iff_eq_lt.mp hlt)
        · exact hothers d hd
      next hnot =>
        cases h
        have hle : (cmp c b).isLE = true := by
          rw [← Std.OrientedCmp.isGE_iff_isLE]
          cases hcmp : cmp b c with
          | lt =>
            rw [hcmp] at hnot
            exact absurd rfl hnot
          | eq => rfl
          | gt => rfl
        intro d hd
        rcases List.mem_cons.mp hd with rfl | hd
        · exact Std.ReflCmp.isLE_rfl
        · exact Std.TransCmp.isLE_trans (hothers d hd) hle

end Base
