import Omoikane.Base.Text

/-!
# Balanced brackets

A list is balanced if every bracket in it has its partner.  A loop that counts the brackets is where it
was behind a balanced part (`Balanced.foldlM`).
-/

namespace Base

/-- What opens and what closes. -/
structure Brackets (α : Type) where
  opens : α → Bool
  closes : α → Bool

namespace Brackets

variable {α : Type}

/-- Every bracket has its partner. -/
inductive Balanced (brackets : Brackets α) : List α → Prop
  | nil : Balanced brackets []
  | atom {x : α} (hopens : brackets.opens x = false) (hcloses : brackets.closes x = false) :
      Balanced brackets [x]
  | append {xs ys : List α} (hxs : Balanced brackets xs) (hys : Balanced brackets ys) :
      Balanced brackets (xs ++ ys)
  | enclose {x y : α} {xs : List α} (hopens : brackets.opens x = true)
      (hcloses : brackets.closes y = true) (hxs : Balanced brackets xs) :
      Balanced brackets (x :: (xs ++ [y]))

variable {brackets : Brackets α} {x y : α} {xs ys : List α}

namespace Balanced

theorem cons (hopens : brackets.opens x = false) (hcloses : brackets.closes x = false)
    (h : brackets.Balanced xs) : brackets.Balanced (x :: xs) := (atom hopens hcloses).append h

theorem of_forall (h : ∀ x ∈ xs, brackets.opens x = false ∧ brackets.closes x = false) :
    brackets.Balanced xs := by
  induction xs with
  | nil => exact .nil
  | cons x xs ih =>
    obtain ⟨hopens, hcloses⟩ := h x List.mem_cons_self
    exact cons hopens hcloses (ih fun y hy => h y (List.mem_cons_of_mem _ hy))

/-- A loop whose state tells the depth has the same state behind a balanced part. -/
theorem foldlM {σ : Type} {step : σ → α → Option σ} {level : Nat → σ}
    (hatom : ∀ depth x, brackets.opens x = false → brackets.closes x = false → x ∈ xs →
      step (level (depth + 1)) x = some (level (depth + 1)))
    (hopen : ∀ depth x, brackets.opens x = true → step (level depth) x = some (level (depth + 1)))
    (hclose : ∀ depth x, brackets.closes x = true → step (level (depth + 1)) x = some (level depth))
    (h : brackets.Balanced xs) (depth : Nat) :
    xs.foldlM step (level (depth + 1)) = some (level (depth + 1)) := by
  induction h generalizing depth with
  | nil => rfl
  | atom hopens hcloses =>
    rw [List.foldlM_cons, hatom depth _ hopens hcloses List.mem_cons_self]
    rfl
  | append _ _ ihxs ihys =>
    rw [List.foldlM_append, ihxs fun d x hx hx' hmem => hatom d x hx hx' (List.mem_append_left _ hmem)]
    exact ihys (fun d x hx hx' hmem => hatom d x hx hx' (List.mem_append_right _ hmem)) depth
  | enclose hopens hcloses _ ih =>
    have hinner := ih (fun d x hx hx' hmem => hatom d x hx hx'
      (List.mem_cons_of_mem _ (List.mem_append_left _ hmem))) (depth + 1)
    rw [List.foldlM_cons, hopen _ _ hopens]
    refine (List.foldlM_append).trans ?_
    rw [hinner]
    exact congrArg (· >>= pure) (hclose _ _ hcloses)

end Balanced

end Brackets

end Base
