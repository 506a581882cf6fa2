import Mathlib

/-!
# Erasing elements by their indices

The elements that are to go are known by their indices, in ascending order.  They are erased from the
last to the first, so that no erasure moves an index that is still to come.
-/

namespace Base.Erasure

variable {α : Type} (goes : α × Nat → Bool)

/-- The indices that are erased, where the first index is `first`. -/
def erased (items : List α) (first : Nat) : List Nat :=
  ((items.zipIdx first).filter goes).map Prod.snd

/-- The indices that stay. -/
def staying (items : List α) (first : Nat) : List Nat :=
  ((items.zipIdx first).filter (!goes ·)).map Prod.snd

theorem mem_erased {items : List α} {first index : Nat} :
    index ∈ erased goes items first ↔
      ∃ item, (item, index) ∈ items.zipIdx first ∧ goes (item, index) = true := by
  simp [erased]

theorem mem_staying {items : List α} {first index : Nat} :
    index ∈ staying goes items first ↔
      ∃ item, (item, index) ∈ items.zipIdx first ∧ goes (item, index) = false := by
  simp [staying]

theorem erased_append (front back : List α) (first : Nat) :
    erased goes (front ++ back) first =
      erased goes front first ++ erased goes back (first + front.length) := by
  simp [erased, List.zipIdx_append]

theorem staying_append (front back : List α) (first : Nat) :
    staying goes (front ++ back) first =
      staying goes front first ++ staying goes back (first + front.length) := by
  simp [staying, List.zipIdx_append]

theorem le_of_mem_erased {items : List α} {first index : Nat} (h : index ∈ erased goes items first) :
    first ≤ index ∧ index < first + items.length := by
  obtain ⟨item, hmem, -⟩ := (mem_erased goes).mp h
  obtain ⟨hle, hlt, -⟩ := List.mem_zipIdx hmem
  exact ⟨hle, hlt⟩

theorem pairwise_staying (items : List α) (first : Nat) :
    (staying goes items first).Pairwise (· < ·) := by
  have := List.pairwise_lt_range' (s := first) (n := items.length)
  rw [← List.zipIdx_map_snd] at this
  exact this.sublist (List.filter_sublist.map _)

/-- Every index is erased or stays. -/
theorem length_erased_add_staying (items : List α) (first : Nat) :
    (erased goes items first).length + (staying goes items first).length = items.length := by
  have := List.length_eq_length_filter_add (l := items.zipIdx first) goes
  simpa [erased, staying] using this.symm

theorem foldr_eraseIdx_cons (item : α) (items : List α) (first : Nat) :
    ∀ indices : List Nat, (∀ index ∈ indices, first < index) →
      indices.foldr (fun index items => items.eraseIdx (index - first)) (item :: items) =
        item :: indices.foldr (fun index items => items.eraseIdx (index - (first + 1))) items
  | [], _ => rfl
  | index :: indices, h => by
    obtain ⟨hindex, hindices⟩ := List.forall_mem_cons.mp h
    rw [List.foldr_cons, List.foldr_cons, foldr_eraseIdx_cons item items first indices hindices,
      show index - first = (index - (first + 1)) + 1 by omega, List.eraseIdx_cons_succ]

theorem foldr_eraseIdx_erased (items : List α) (first : Nat) :
    (erased goes items first).foldr (fun index items => items.eraseIdx (index - first)) items =
      ((items.zipIdx first).filter (!goes ·)).map Prod.fst := by
  induction items generalizing first with
  | nil => rfl
  | cons item items ih =>
    have hcons := foldr_eraseIdx_cons item items first (erased goes items (first + 1))
      fun index hindex => (le_of_mem_erased goes hindex).1
    cases hgoes : goes (item, first) with
    | false =>
      have hsame : erased goes (item :: items) first = erased goes items (first + 1) := by
        simp [erased, hgoes]
      simp [hsame, hcons, ih, hgoes]
    | true =>
      have hmore : erased goes (item :: items) first = first :: erased goes items (first + 1) := by
        simp [erased, hgoes]
      simp [hmore, hcons, ih, hgoes]

/-- Erasing the indices from the last to the first leaves the elements that stay. -/
theorem foldl_eraseIdx_erased (items : List α) :
    (erased goes items 0).reverse.foldl List.eraseIdx items =
      (items.zipIdx.filter (!goes ·)).map Prod.fst := by
  rw [List.foldl_reverse]
  exact foldr_eraseIdx_erased goes items 0

/-- The indices that stay are those of the elements that stay. -/
theorem map_getElem?_staying (items : List α) :
    (staying goes items 0).map (items[·]?) =
      ((items.zipIdx.filter (!goes ·)).map Prod.fst).map some := by
  simp only [staying, List.map_map]
  refine List.map_congr_left fun item hitem => ?_
  exact List.mem_zipIdx_iff_getElem?.mp (List.mem_filter.mp hitem).1

/-- Before an index, as many indices are erased as the first ones that are below it. -/
theorem takeWhile_erased (items : List α) {index : Nat} (hindex : index ≤ items.length) :
    (erased goes items 0).takeWhile (· < index) = erased goes (items.take index) 0 := by
  have hsplit := erased_append goes (items.take index) (items.drop index) 0
  rw [List.take_append_drop, List.length_take_of_le hindex, Nat.zero_add] at hsplit
  rw [hsplit, List.takeWhile_append_of_pos]
  · have hnone : (erased goes (items.drop index) index).takeWhile (· < index) = [] := by
      cases hrest : erased goes (items.drop index) index with
      | nil => rfl
      | cons next rest =>
        have := (le_of_mem_erased goes (hrest ▸ List.mem_cons_self :
          next ∈ erased goes (items.drop index) index)).1
        simp [this]
    rw [hnone, List.append_nil]
  · intro other hother
    have := (le_of_mem_erased goes hother).2
    rw [List.length_take_of_le hindex] at this
    simpa using this

/-- An index that stays moves down by the number of indices below it that are erased. -/
theorem staying_getElem? (items : List α) {item : α} {index : Nat} (hitem : items[index]? = some item)
    (hstays : goes (item, index) = false) :
    (staying goes items 0)[index - (erased goes (items.take index) 0).length]? = some index := by
  obtain ⟨hlt, rfl⟩ := List.getElem?_eq_some_iff.mp hitem
  have hcount := length_erased_add_staying goes (items.take index) 0
  have hsplit := staying_append goes (items.take index) (items.drop index) 0
  rw [List.take_append_drop, List.length_take_of_le (Nat.le_of_lt hlt), Nat.zero_add] at hsplit
  rw [List.length_take_of_le (Nat.le_of_lt hlt)] at hcount
  have hhead : staying goes (items.drop index) index =
      index :: staying goes (items.drop (index + 1)) (index + 1) := by
    rw [List.drop_eq_getElem_cons hlt, staying, List.zipIdx_cons,
      List.filter_cons_of_pos (by simp [hstays])]
    rfl
  rw [hsplit, show index - _ = (staying goes (items.take index) 0).length from by omega,
    List.getElem?_append_right (Nat.le_refl _), hhead]
  simp

/-- No index is erased among those that stay. -/
theorem length_erased_take_add (items : List α) {index : Nat} (span : Nat)
    (hstays : ∀ other item, items[other]? = some item → index ≤ other → other < index + span →
      goes (item, other) = false) :
    (erased goes (items.take (index + span)) 0).length =
      (erased goes (items.take index) 0).length := by
  rw [List.take_add, erased_append, List.length_append]
  suffices erased goes ((items.drop index).take span) (0 + (items.take index).length) = [] by
    rw [this]
    rfl
  refine List.eq_nil_iff_forall_not_mem.mpr fun other hother => ?_
  obtain ⟨item, hmem, hgoes⟩ := (mem_erased goes).mp hother
  obtain ⟨hle, hlt, hitem⟩ := List.mem_zipIdx hmem
  simp only [Nat.zero_add, List.length_take, List.length_drop, List.getElem_take,
    List.getElem_drop] at hle hlt hitem
  have hget : items[other]? = some item := by
    rw [hitem, List.getElem?_eq_some_iff]
    exact ⟨by omega, by congr 1; omega⟩
  rw [hstays other item hget (by omega) (by omega)] at hgoes
  exact Bool.false_ne_true hgoes

end Base.Erasure
