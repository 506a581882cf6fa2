import Omoikane.Dom.ChildList

/-!
# The order of the children

Whatever is asked of the children is answered as the list they represent answers:
an iterator takes from the ends of that list (`Walks`), and an operation on the
children is an operation on the list (`Holds`).
-/

namespace Omoikane.Dom

open Base

/-! ## Iteration -/

theorem Iter.next_eq {iter : Iter} {i : Nat} {node : NodeHandle} {previous next : Option Nat}
    (hremaining : iter.remaining ≠ 0) (hfirst : iter.first = some i)
    (hslot : iter.slots[i]? = some ⟨some node, previous, next⟩) :
    iter.next = some (some node, { iter with first := next, remaining := iter.remaining - 1 }) := by
  rw [Iter.next, if_neg hremaining, hfirst]
  simp only [Option.bind_eq_bind, Option.bind_some, hslot]
  rfl

theorem Iter.nextBack_eq {iter : Iter} {i : Nat} {node : NodeHandle} {previous next : Option Nat}
    (hremaining : iter.remaining ≠ 0) (hlast : iter.last = some i)
    (hslot : iter.slots[i]? = some ⟨some node, previous, next⟩) :
    iter.nextBack =
      some (some node, { iter with last := previous, remaining := iter.remaining - 1 }) := by
  rw [Iter.nextBack, if_neg hremaining, hlast]
  simp only [Option.bind_eq_bind, Option.bind_some, hslot]
  rfl

/-- An iterator stands for some entries that follow each other. -/
structure Walks (storage : Storage) (iter : Iter) (entries : List (Nat × NodeHandle)) : Prop where
  slots : iter.slots = storage.slots
  node : ∀ i node, (i, node) ∈ entries → storage.node i = some node
  segment : ∃ before after, Link.Segment storage.links before (slotsOf entries) after
  first : entries ≠ [] → iter.first = (slotsOf entries).head?
  last : entries ≠ [] → iter.last = (slotsOf entries).getLast?
  remaining : iter.remaining = entries.length

namespace Walks

variable {storage : Storage} {iter : Iter} {entries rest : List (Nat × NodeHandle)}
  {entry : Nat × NodeHandle}

theorem next (h : Walks storage iter (entry :: rest)) :
    ∃ iter', iter.next = some (some entry.2, iter') ∧ Walks storage iter' rest := by
  obtain ⟨i, node⟩ := entry
  obtain ⟨before, after, hlink, hrest⟩ := h.segment
  have hslot := Storage.slot_eq hlink (h.node i node (List.mem_cons_self ..))
  have hremaining : iter.remaining ≠ 0 := by
    rw [h.remaining]
    exact Nat.succ_ne_zero _
  have hfirst : iter.first = some i := h.first (List.cons_ne_nil _ _)
  rw [← h.slots] at hslot
  refine ⟨_, Iter.next_eq hremaining hfirst hslot, h.slots, fun j other hm => h.node j other (List.mem_cons_of_mem _ hm), ⟨_, _, hrest⟩,
    fun hne => ?_, fun hne => ?_, ?_⟩
  · show (slotsOf rest).head?.or after = _
    cases rest with
    | nil => exact absurd rfl hne
    | cons => rfl
  · show iter.last = _
    rw [h.last (List.cons_ne_nil _ _)]
    cases rest with
    | nil => exact absurd rfl hne
    | cons => rfl
  · show iter.remaining - 1 = _
    rw [h.remaining]
    rfl

theorem nextBack (h : Walks storage iter (rest ++ [entry])) :
    ∃ iter', iter.nextBack = some (some entry.2, iter') ∧ Walks storage iter' rest := by
  obtain ⟨i, node⟩ := entry
  obtain ⟨before, after, hsegment⟩ := h.segment
  have hslots : slotsOf (rest ++ [(i, node)]) = slotsOf rest ++ [i] := List.map_append
  rw [hslots] at hsegment
  obtain ⟨hrest, hlink⟩ := hsegment.last
  have hne : rest ++ [(i, node)] ≠ [] := List.append_ne_nil_of_right_ne_nil _ (List.cons_ne_nil _ _)
  have hslot := Storage.slot_eq hlink
    (h.node i node (List.mem_append_right _ (List.mem_singleton_self _)))
  have hlength : iter.remaining = rest.length + 1 := h.remaining.trans (List.length_append ..)
  have hremaining : iter.remaining ≠ 0 := by
    rw [hlength]
    exact Nat.succ_ne_zero _
  have hlast : iter.last = some i := by
    rw [h.last hne, hslots, List.getLast?_concat]
  rw [← h.slots] at hslot
  refine ⟨_, Iter.nextBack_eq hremaining hlast hslot, h.slots, fun j other hm => h.node j other (List.mem_append_left _ hm), ⟨_, _, hrest⟩,
    fun hrestNe => ?_, fun hrestNe => ?_, ?_⟩
  · show iter.first = _
    rw [h.first hne, hslots]
    cases rest with
    | nil => exact absurd rfl hrestNe
    | cons => rfl
  · show (slotsOf rest).getLast?.or before = _
    rcases List.eq_nil_or_concat rest with rfl | ⟨init, last, rfl⟩
    · exact absurd rfl hrestNe
    · simp
  · show iter.remaining - 1 = _
    rw [hlength]
    rfl

/-- A call takes the entry at its end. -/
theorem pull (h : Walks storage iter entries) (e : End) :
    match takeEnd e entries with
    | none => iter.pull e = some (none, iter)
    | some (entry, rest) =>
      ∃ iter', iter.pull e = some (some entry.2, iter') ∧ Walks storage iter' rest := by
  rcases List.eq_nil_or_concat entries with rfl | ⟨init, last, rfl⟩
  · have hremaining : iter.remaining = 0 := h.remaining
    cases e with
    | front => exact if_pos hremaining
    | back => exact if_pos hremaining
  · rw [List.concat_eq_append] at h ⊢
    cases e with
    | back =>
      rw [takeEnd_concat]
      exact h.nextBack
    | front =>
      cases init with
      | nil => exact h.next
      | cons entry init => exact h.next

/-- Calls take the entries at their ends. -/
theorem pulls (h : Walks storage iter entries) (ends : List End) :
    ∃ iter', Iter.pulls ends iter =
      some ((takeEnds ends (entries.map Prod.snd)), iter') := by
  rw [takeEnds_map]
  induction ends generalizing iter entries with
  | nil => exact ⟨iter, rfl⟩
  | cons e ends ih =>
    have hpull := h.pull e
    rw [Iter.pulls, takeEnds]
    split at hpull
    next hnone =>
      rw [takeEnd_eq_none hnone] at h
      obtain ⟨iter', hrest⟩ := ih h
      refine ⟨iter', ?_⟩
      rw [hpull, hnone]
      simp only [Option.bind_eq_bind, Option.bind_some, hrest]
      rfl
    next entry rest hsome =>
      obtain ⟨iter₁, hfirst, hwalks⟩ := hpull
      obtain ⟨iter', hrest⟩ := ih hwalks
      refine ⟨iter', ?_⟩
      rw [hfirst, hsome]
      simp only [Option.bind_eq_bind, Option.bind_some, hrest]
      rfl

end Walks

/-! ## Children -/

/-- The children are some entries. -/
def Holds (children : Children) (entries : List (Nat × NodeHandle)) : Prop :=
  ∃ free, Represents (children.storage.getD .default) entries free

theorem Children.getSlot_eq (children : Children) (slot : Nat) :
    children.getSlot slot = (children.storage.getD .default).node slot := by
  unfold Children.getSlot
  cases children.storage <;> rfl

namespace Holds

variable {children : Children} {entries pre post : List (Nat × NodeHandle)}

theorem default : Holds .default [] := ⟨[], .default⟩

theorem getSlot_iff (h : Holds children entries) {slot : Nat} {node : NodeHandle} :
    children.getSlot slot = some node ↔ (slot, node) ∈ entries := by
  obtain ⟨free, h⟩ := h
  rw [children.getSlot_eq, h.node_iff]

theorem len_eq (h : Holds children entries) : children.len = entries.length := by
  obtain ⟨free, h⟩ := h
  rw [← h.len, Children.len]
  cases children.storage <;> rfl

theorem iter (h : Holds children entries) :
    Walks (children.storage.getD .default) children.iter entries := by
  obtain ⟨free, h⟩ := h
  unfold Children.iter
  cases hstorage : children.storage with
  | none =>
    rw [hstorage] at h
    exact ⟨rfl, fun i node hm => (h.node_iff i node).mpr hm, ⟨_, _, h.segment⟩, fun _ => h.first,
      fun _ => h.last, h.len⟩
  | some storage =>
    rw [hstorage] at h
    exact ⟨rfl, fun i node hm => (h.node_iff i node).mpr hm, ⟨_, _, h.segment⟩, fun _ => h.first,
      fun _ => h.last, h.len⟩

theorem first_eq (h : Holds children entries) :
    children.first = (entries.map Prod.snd).head? := by
  have hfirst : children.first = (slotsOf entries).head?.bind children.getSlot := by
    obtain ⟨free, h⟩ := h
    rw [← h.first, Children.first]
    cases children.storage <;> rfl
  rw [hfirst]
  cases entries with
  | nil => rfl
  | cons entry rest => exact h.getSlot_iff.mpr (List.mem_cons_self ..)

theorem last_eq (h : Holds children entries) :
    children.last = (entries.map Prod.snd).getLast? := by
  have hlast : children.last = (slotsOf entries).getLast?.bind children.getSlot := by
    obtain ⟨free, h⟩ := h
    rw [← h.last, Children.last]
    cases children.storage <;> rfl
  rw [hlast]
  rcases List.eq_nil_or_concat entries with rfl | ⟨init, entry, rfl⟩
  · rfl
  · rw [List.concat_eq_append] at h ⊢
    have hentry := h.getSlot_iff.mpr
      (List.mem_append_right init (List.mem_singleton_self (entry.1, entry.2)))
    rw [slotsOf, List.map_append, List.map_append, List.map_singleton, List.map_singleton,
      List.getLast?_concat, List.getLast?_concat]
    exact hentry

/-- The slot of an entry is linked to the slots of its neighbors. -/
theorem slot_eq {slot : Nat} {node : NodeHandle} (h : Holds children (pre ++ (slot, node) :: post)) :
    ∃ storage free, children.storage = some storage ∧
      Represents storage (pre ++ (slot, node) :: post) free ∧
      storage.slots[slot]? = some ⟨some node, (slotsOf pre).getLast?, (slotsOf post).head?⟩ := by
  obtain ⟨free, h⟩ := h
  have hnode := (h.node_iff slot node).mpr (List.mem_append_right _ (List.mem_cons_self ..))
  have hslots : slotsOf (pre ++ (slot, node) :: post) = slotsOf pre ++ slot :: slotsOf post :=
    List.map_append
  obtain ⟨-, hlink, -⟩ := Link.segment_append.mp (hslots ▸ h.segment)
  rw [Option.or_none, Option.or_none] at hlink
  have hslot := Storage.slot_eq hlink hnode
  cases hstorage : children.storage with
  | none =>
    rw [hstorage] at hslot
    cases hslot
  | some storage =>
    rw [hstorage] at h hslot
    exact ⟨storage, free, rfl, h, hslot⟩

theorem adjacent_eq {slot : Nat} {node : NodeHandle}
    (h : Holds children (pre ++ (slot, node) :: post)) :
    children.adjacent slot true = (pre.map Prod.snd).getLast? ∧
      children.adjacent slot false = (post.map Prod.snd).head? := by
  obtain ⟨storage, free, hstorage, -, hslot⟩ := h.slot_eq
  constructor
  · have hprevious : children.adjacent slot true =
        (slotsOf pre).getLast?.bind children.getSlot := by
      rw [Children.adjacent, hstorage]
      simp only [Option.bind_eq_bind, Option.bind_some, hslot, if_true]
    rw [hprevious]
    rcases List.eq_nil_or_concat pre with rfl | ⟨init, entry, rfl⟩
    · rfl
    · rw [List.concat_eq_append] at h ⊢
      have hentry := h.getSlot_iff.mpr (List.mem_append_left _
        (List.mem_append_right init (List.mem_singleton_self (entry.1, entry.2))))
      rw [slotsOf, List.map_append, List.map_append, List.map_singleton, List.map_singleton,
        List.getLast?_concat, List.getLast?_concat]
      exact hentry
  · have hnext : children.adjacent slot false = (slotsOf post).head?.bind children.getSlot := by
      rw [Children.adjacent, hstorage]
      simp only [Option.bind_eq_bind, Option.bind_some, hslot, Bool.false_eq_true, if_false]
    rw [hnext]
    cases post with
    | nil => rfl
    | cons entry rest =>
      refine h.getSlot_iff.mpr (List.mem_append_right _ (List.mem_cons_of_mem _ ?_))
      exact List.mem_cons_self ..

/-! ## Operations -/

theorem push (h : Holds children entries) (node : NodeHandle) :
    ∃ index children', children.push node = some (index, children') ∧
      index ∉ slotsOf entries ∧ Holds children' (entries ++ [(index, node)]) := by
  obtain ⟨free, h⟩ := h
  rw [← List.append_nil entries] at h
  obtain ⟨index, storage', rest, hinsert, hfresh, hrepresents⟩ := h.insertBetween node
  rw [List.append_nil] at h hfresh
  refine ⟨index, { storage := some storage' }, ?_, hfresh, rest, hrepresents⟩
  have hinsert : (children.storage.getD .default).insertBetween node
      (slotsOf entries).getLast? none = some (index, storage') := hinsert
  rw [Children.push, h.last, hinsert]
  rfl

theorem insertBefore {reference : Nat} {other : NodeHandle}
    (h : Holds children (pre ++ (reference, other) :: post)) (node : NodeHandle) :
    ∃ index children', children.insertBefore node reference = some (index, children') ∧
      index ∉ slotsOf (pre ++ (reference, other) :: post) ∧
      Holds children' (pre ++ (index, node) :: (reference, other) :: post) := by
  obtain ⟨storage, free, hstorage, h, hslot⟩ := h.slot_eq
  obtain ⟨index, storage', rest, hinsert, hfresh, hrepresents⟩ := h.insertBetween node
  refine ⟨index, { storage := some storage' }, ?_, hfresh, rest, hrepresents⟩
  have hinsert : storage.insertBetween node (slotsOf pre).getLast? (some reference) =
      some (index, storage') := hinsert
  rw [Children.insertBefore, hstorage]
  simp only [Option.bind_eq_bind, Option.bind_some, hslot, hinsert]
  rfl

theorem remove {slot : Nat} {node : NodeHandle}
    (h : Holds children (pre ++ (slot, node) :: post)) :
    ∃ children', children.remove slot = some (node, children') ∧
      Holds children' (pre ++ post) := by
  obtain ⟨storage, free, hstorage, h, -⟩ := h.slot_eq
  obtain ⟨entry, storage', hslot, hnode, hunlink, hrepresents⟩ := h.unlink
  refine ⟨{ storage := some storage' }, ?_, _, hrepresents⟩
  rw [Children.remove, hstorage]
  simp only [Option.bind_eq_bind, Option.bind_some, hslot, hnode, hunlink]
  rfl

end Holds

end Omoikane.Dom
