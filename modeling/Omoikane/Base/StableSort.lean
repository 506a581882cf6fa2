import Mathlib

/-!
# Stable sorting

`List.mergeSort` is stable: sorting a list with one more element in front places
that element before those it may precede (`mergeSort_cons_eq`).  So sorting and
filtering commute (`filter_mergeSort`), and a list whose elements with a property
all come before the others is sorted part by part (`mergeSort_split`).
-/

namespace Base

namespace StableSort

variable {α : Type} {le : α → α → Bool}

/-- `a` before the first element of `xs` that it may precede. -/
def place (le : α → α → Bool) (a : α) (xs : List α) : List α :=
  xs.takeWhile (fun b => !le a b) ++ a :: xs.dropWhile (fun b => !le a b)

theorem mergeSort_cons_eq (trans : ∀ a b c, le a b → le b c → le a c)
    (total : ∀ a b, (le a b || le b a) = true) (a : α) (xs : List α) :
    (a :: xs).mergeSort le = place le a (xs.mergeSort le) := by
  obtain ⟨before, after, hcons, hxs, hbefore⟩ := List.mergeSort_cons trans total a xs
  have hsorted := List.pairwise_mergeSort trans total (a :: xs)
  rw [hcons] at hsorted
  have hafter : ∀ b ∈ after, le a b = true :=
    fun b hb => List.rel_of_pairwise_cons (List.pairwise_append.mp hsorted).2.1 hb
  have htake : after.takeWhile (fun b => !le a b) = [] ∧
      after.dropWhile (fun b => !le a b) = after := by
    cases after with
    | nil => exact ⟨rfl, rfl⟩
    | cons b after =>
      have hb : (!le a b) = false := by rw [hafter b (List.mem_cons_self ..)]; rfl
      simp [hb]
  rw [hcons, hxs, place, List.takeWhile_append_of_pos hbefore, List.dropWhile_append_of_pos hbefore,
    htake.1, htake.2, List.append_nil]

/-- In a sorted list the elements before which `a` is not placed come first. -/
theorem filter_takeWhile (trans : ∀ a b c, le a b → le b c → le a c) (p : α → Bool) (a : α) :
    ∀ {xs : List α}, xs.Pairwise (le · ·) →
      (xs.takeWhile fun b => !le a b).filter p = (xs.filter p).takeWhile (fun b => !le a b) ∧
        (xs.dropWhile fun b => !le a b).filter p = (xs.filter p).dropWhile fun b => !le a b
  | [], _ => ⟨rfl, rfl⟩
  | x :: xs, h => by
    obtain ⟨hx, hxs⟩ := List.pairwise_cons.mp h
    cases hle : le a x with
    | false =>
      have ih := filter_takeWhile trans p a hxs
      cases hp : p x <;> simp [hle, hp, ih.1, ih.2]
    | true =>
      have hall : ∀ b ∈ (x :: xs).filter p, (!le a b) = false := by
        intro b hb
        have hab : le a b = true := by
          rcases List.mem_cons.mp (List.mem_filter.mp hb).1 with rfl | hin
          · exact hle
          · exact trans a x b hle (hx b hin)
        rw [hab]
        rfl
      have hnone : ((x :: xs).filter p).takeWhile (fun b => !le a b) = [] ∧
          ((x :: xs).filter p).dropWhile (fun b => !le a b) = (x :: xs).filter p := by
        revert hall
        cases (x :: xs).filter p with
        | nil => exact fun _ => ⟨rfl, rfl⟩
        | cons b rest =>
          intro hall
          simp [hall b (List.mem_cons_self ..)]
      rw [hnone.1, hnone.2]
      simp [hle]

theorem filter_mergeSort (trans : ∀ a b c, le a b → le b c → le a c)
    (total : ∀ a b, (le a b || le b a) = true) (p : α → Bool) (xs : List α) :
    (xs.mergeSort le).filter p = (xs.filter p).mergeSort le := by
  induction xs with
  | nil => rw [List.mergeSort_nil, List.filter_nil, List.mergeSort_nil]
  | cons a xs ih =>
    have hsplit := filter_takeWhile trans p a (List.pairwise_mergeSort trans total xs)
    rw [mergeSort_cons_eq trans total, place, List.filter_append, hsplit.1, List.filter_cons,
      hsplit.2, ih]
    cases hp : p a with
    | true =>
      rw [if_pos rfl, List.filter_cons_of_pos hp, mergeSort_cons_eq trans total]
      rfl
    | false =>
      have hnot : ¬ p a = true := by rw [hp]; exact Bool.false_ne_true
      rw [if_neg Bool.false_ne_true, List.filter_cons_of_neg hnot, List.takeWhile_append_dropWhile]

/-- In a sorted list the elements with a property come first, if none of them may
follow one without it. -/
theorem filter_append_filter_not {p : α → Bool}
    (hp : ∀ a b, p a = true → p b = false → le b a = false) :
    ∀ {xs : List α}, xs.Pairwise (le · ·) → xs.filter p ++ xs.filter (fun a => !p a) = xs
  | [], _ => rfl
  | x :: xs, h => by
    obtain ⟨hx, hxs⟩ := List.pairwise_cons.mp h
    have ih := filter_append_filter_not hp hxs
    cases hpx : p x with
    | true => simp [hpx, ih]
    | false =>
      have hnone : ∀ b ∈ xs, p b = false := by
        intro b hb
        cases hpb : p b with
        | false => rfl
        | true => exact absurd (hx b hb) (by rw [hp b x hpb hpx]; exact Bool.false_ne_true)
      rw [List.filter_cons_of_neg (by rw [hpx]; exact Bool.false_ne_true),
        List.filter_eq_nil_iff.mpr fun b hb => by rw [hnone b hb]; exact Bool.false_ne_true,
        List.nil_append]
      refine List.filter_eq_self.mpr fun b hb => ?_
      rcases List.mem_cons.mp hb with rfl | hin
      · rw [hpx]; rfl
      · rw [hnone b hin]; rfl

theorem mergeSort_split (trans : ∀ a b c, le a b → le b c → le a c)
    (total : ∀ a b, (le a b || le b a) = true) {p : α → Bool}
    (hp : ∀ a b, p a = true → p b = false → le b a = false) (xs : List α) :
    xs.mergeSort le = (xs.filter p).mergeSort le ++ (xs.filter fun a => !p a).mergeSort le := by
  rw [← filter_mergeSort trans total, ← filter_mergeSort trans total]
  exact (filter_append_filter_not hp (List.pairwise_mergeSort trans total xs)).symm

end StableSort

end Base
