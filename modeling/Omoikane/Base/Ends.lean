import Mathlib

/-!
# Taking from both ends

`takeEnds` takes elements from either end of a list, as a double-ended iterator
does.  Whatever the order of the ends, each element comes once.
-/

namespace Base

variable {α : Type}

/-- An end of a list. -/
inductive End where
  | front
  | back
deriving DecidableEq, Repr

/-- The element at an end, and the others. -/
def takeEnd : End → List α → Option (α × List α)
  | _, [] => none
  | .front, x :: xs => some (x, xs)
  | .back, x :: xs => some ((x :: xs).getLast (List.cons_ne_nil _ _), (x :: xs).dropLast)

/-- What is taken from some ends in turn; nothing once the list is empty. -/
def takeEnds : List End → List α → List (Option α)
  | [], _ => []
  | e :: ends, xs =>
    match takeEnd e xs with
    | none => none :: takeEnds ends []
    | some (x, rest) => some x :: takeEnds ends rest

theorem takeEnd_perm {e : End} {x : α} {xs rest : List α} (h : takeEnd e xs = some (x, rest)) :
    xs.Perm (x :: rest) := by
  cases xs with
  | nil => cases e <;> cases h
  | cons y ys =>
    cases e with
    | front =>
      cases h
      exact List.Perm.refl _
    | back =>
      cases h
      have happend := List.dropLast_append_getLast (List.cons_ne_nil y ys)
      exact (List.Perm.of_eq happend.symm).trans (List.perm_append_singleton ..)

theorem takeEnd_eq_none {e : End} {xs : List α} (h : takeEnd e xs = none) : xs = [] := by
  cases xs with
  | nil => rfl
  | cons y ys => cases e <;> cases h

theorem takeEnd_concat (xs : List α) (x : α) : takeEnd .back (xs ++ [x]) = some (x, xs) := by
  cases xs with
  | nil => rfl
  | cons y ys =>
    show some ((y :: (ys ++ [x])).getLast _, (y :: (ys ++ [x])).dropLast) = _
    simp only [← List.cons_append, List.getLast_append_singleton, List.dropLast_concat]

theorem takeEnd_map {β : Type} (f : α → β) (e : End) (xs : List α) :
    takeEnd e (xs.map f) = (takeEnd e xs).map fun taken => (f taken.1, taken.2.map f) := by
  rcases List.eq_nil_or_concat xs with rfl | ⟨init, last, rfl⟩
  · cases e <;> rfl
  · rw [List.concat_eq_append]
    cases e with
    | back => rw [List.map_append, List.map_singleton, takeEnd_concat, takeEnd_concat]; rfl
    | front => cases init <;> rfl

/-- Taking and mapping commute. -/
theorem takeEnds_map {β : Type} (f : α → β) (ends : List End) (xs : List α) :
    takeEnds ends (xs.map f) = (takeEnds ends xs).map (Option.map f) := by
  induction ends generalizing xs with
  | nil => rfl
  | cons e ends ih =>
    rw [takeEnds, takeEnds, takeEnd_map]
    cases takeEnd e xs with
    | none => exact congrArg (none :: ·) (ih [])
    | some taken => exact congrArg (some (f taken.1) :: ·) (ih taken.2)

theorem reduceOption_takeEnds_nil (ends : List End) :
    (takeEnds ends ([] : List α)).reduceOption = [] := by
  induction ends with
  | nil => rfl
  | cons e ends ih => cases e <;> exact ih

/-- Enough calls take every element once. -/
theorem takeEnds_perm {ends : List End} {xs : List α} (h : xs.length ≤ ends.length) :
    (takeEnds ends xs).reduceOption.Perm xs := by
  induction ends generalizing xs with
  | nil =>
    rw [List.eq_nil_of_length_eq_zero (Nat.le_zero.mp h)]
    exact List.Perm.nil
  | cons e ends ih =>
    unfold takeEnds
    split
    next hnone =>
      rw [takeEnd_eq_none hnone]
      exact .of_eq (reduceOption_takeEnds_nil ends)
    next x rest hsome =>
      have hperm := takeEnd_perm hsome
      have hlength := hperm.length_eq
      rw [List.length_cons] at h hlength
      rw [List.reduceOption_cons_of_some]
      exact ((ih (by omega)).cons x).trans hperm.symm

theorem takeEnds_front (xs : List α) :
    takeEnds (List.replicate xs.length .front) xs = xs.map some := by
  induction xs with
  | nil => rfl
  | cons x xs ih => exact congrArg (some x :: ·) ih

theorem takeEnds_back (xs : List α) :
    takeEnds (List.replicate xs.length .back) xs = xs.reverse.map some := by
  induction xs using List.reverseRecOn with
  | nil => rfl
  | append_singleton xs x ih =>
    rw [List.length_append, List.length_singleton, List.replicate_succ, takeEnds,
      takeEnd_concat, List.reverse_append]
    exact congrArg (some x :: ·) ih

end Base
