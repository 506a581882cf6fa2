import Mathlib

/-!
# Assignments

Places of a list are assigned to one after the other.  Where no place is assigned to twice, each assigned
place has its value and the order of the assignments means nothing: it is a parallel assignment.
-/

namespace Base

namespace Assignments

variable {α : Type}

/-- The list after assignments to its places, in order. -/
def assign (writes : List (Nat × α)) (places : List α) : List α :=
  writes.foldl (fun places write => places.set write.1 write.2) places

@[simp] theorem assign_nil (places : List α) : assign [] places = places := rfl

theorem assign_cons (write : Nat × α) (writes : List (Nat × α)) (places : List α) :
    assign (write :: writes) places = assign writes (places.set write.1 write.2) := rfl

theorem assign_append (first second : List (Nat × α)) (places : List α) :
    assign (first ++ second) places = assign second (assign first places) := List.foldl_append

@[simp] theorem length_assign : ∀ (writes : List (Nat × α)) (places : List α),
    (assign writes places).length = places.length
  | [], _ => rfl
  | write :: writes, places => by rw [assign_cons, length_assign writes, List.length_set]

/-- A place that is not assigned to stays. -/
theorem getElem?_assign_of_not_mem : ∀ {writes : List (Nat × α)} {place : Nat} (places : List α),
    place ∉ writes.map Prod.fst → (assign writes places)[place]? = places[place]?
  | [], _, _, _ => rfl
  | write :: writes, place, places, h => by
    rw [List.map_cons, List.mem_cons, not_or] at h
    rw [assign_cons, getElem?_assign_of_not_mem _ h.2, List.getElem?_set_ne (Ne.symm h.1)]

/-- A place that is assigned to once has its value. -/
theorem getElem?_assign : ∀ {writes : List (Nat × α)} {place : Nat} {value : α} {places : List α},
    (writes.map Prod.fst).Nodup → (place, value) ∈ writes → place < places.length →
    (assign writes places)[place]? = some value
  | write :: writes, place, value, places, hdistinct, hmem, hplace => by
    rw [List.map_cons, List.nodup_cons] at hdistinct
    rw [assign_cons]
    rcases List.mem_cons.mp hmem with rfl | hmem
    · rw [getElem?_assign_of_not_mem _ hdistinct.1, List.getElem?_set_self hplace]
    · exact getElem?_assign hdistinct.2 hmem (by rw [List.length_set]; exact hplace)

/-- The order of the assignments means nothing. -/
theorem assign_perm {writes writes' : List (Nat × α)} (hperm : writes.Perm writes')
    (hdistinct : (writes.map Prod.fst).Nodup) (places : List α) : assign writes places = assign writes' places := by
  have hdistinct' : (writes'.map Prod.fst).Nodup := (hperm.map Prod.fst).nodup_iff.mp hdistinct
  refine List.ext_getElem? fun place => ?_
  by_cases hmem : place ∈ writes.map Prod.fst
  · obtain ⟨⟨assigned, value⟩, hwrite, heq⟩ := List.mem_map.mp hmem
    obtain rfl : assigned = place := heq
    rcases Nat.lt_or_ge assigned places.length with hlt | hge
    · rw [getElem?_assign hdistinct hwrite hlt, getElem?_assign hdistinct' (hperm.mem_iff.mp hwrite) hlt]
    · rw [List.getElem?_eq_none (by rw [length_assign]; exact hge),
        List.getElem?_eq_none (by rw [length_assign]; exact hge)]
  · have hmem' : place ∉ writes'.map Prod.fst := fun h => hmem ((hperm.map Prod.fst).mem_iff.mpr h)
    rw [getElem?_assign_of_not_mem _ hmem, getElem?_assign_of_not_mem _ hmem']

/-- Two selections of a list that exclude each other are one. -/
theorem filterMap_append_perm {β γ : Type} {f g : β → Option γ} : ∀ {l : List β},
    (∀ b ∈ l, f b = none ∨ g b = none) →
    (l.filterMap f ++ l.filterMap g).Perm (l.filterMap fun b => (f b).or (g b))
  | [], _ => List.Perm.refl _
  | b :: l, h => by
    have ih := filterMap_append_perm fun other hother => h other (List.mem_cons_of_mem b hother)
    rcases h b List.mem_cons_self with hf | hg
    · cases hg : g b with
      | none =>
        simp only [List.filterMap_cons, hf, hg, Option.none_or]
        exact ih
      | some c =>
        simp only [List.filterMap_cons, hf, hg, Option.none_or]
        exact List.perm_middle.trans (ih.cons c)
    · cases hf : f b with
      | none =>
        simp only [List.filterMap_cons, hf, hg, Option.none_or]
        exact ih
      | some c =>
        simp only [List.filterMap_cons, hf, hg, Option.some_or]
        exact ih.cons c

/-- The places of selected assignments are distinct where those of all are. -/
theorem nodup_filterMap {β : Type} {place : β → Nat} {f : β → Option (Nat × α)} {l : List β}
    (h : (l.map place).Nodup) (hplace : ∀ b write, f b = some write → write.1 = place b) :
    ((l.filterMap f).map Prod.fst).Nodup := by
  have hsub : ((l.filterMap f).map Prod.fst).Sublist (l.map place) := by
    induction l with
    | nil => exact List.Sublist.slnil
    | cons b l ih =>
      rw [List.map_cons, List.nodup_cons] at h
      rw [List.filterMap_cons, List.map_cons]
      cases hf : f b with
      | none => exact (ih h.2).cons _
      | some write =>
        rw [List.map_cons, hplace b write hf]
        exact (ih h.2).cons_cons _
  exact h.sublist hsub

end Assignments

end Base
