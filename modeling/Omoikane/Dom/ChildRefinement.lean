import Omoikane.Dom.ChildOrder

/-!
# Children refine a list

Over any operations the children are the list that the same operations give on an
ordinary list, and each child is at the slot it holds (`children_refine`).
-/

namespace Omoikane.Dom

open Base

/-! ## The same operations on a list -/

/-- Operations on an ordinary list of nodes, each under the name of its slot. -/
inductive Edit where
  | append (entry : Nat × NodeHandle)
  | insertBefore (entry : Nat × NodeHandle) (reference : Nat)
  | remove (slot : Nat)

/-- The list after an operation. -/
def Edit.apply (entries : List (Nat × NodeHandle)) : Edit → List (Nat × NodeHandle)
  | .append entry => entries ++ [entry]
  | .insertBefore entry reference =>
    entries.flatMap fun other => if other.1 = reference then [entry, other] else [other]
  | .remove slot => entries.filter fun entry => entry.1 ≠ slot

/-- The operations on the list that an operation on the children stands for. -/
def Family.edits (family : Family) : Operation → List Edit
  | .push node =>
    ((family.children.push node).map fun inserted => Edit.append (inserted.1, node)).toList
  | .insertBefore node reference =>
    ((family.children.insertBefore node reference).map fun inserted =>
      Edit.insertBefore (inserted.1, node) reference).toList
  | .remove slot => [.remove slot]
  | .elsewhere _ _ => []

/-- An operation that is about live slots, or about a node that is no child. -/
def Family.Valid (family : Family) : Operation → Prop
  | .push _ => True
  | .insertBefore _ reference => ∃ node, family.children.getSlot reference = some node
  | .remove slot => ∃ node, family.children.getSlot slot = some node
  | .elsewhere node _ => ∀ slot, family.children.getSlot slot ≠ some node

/-- An inserted node is detached from its parent first. -/
def Family.Detached (family : Family) : Operation → Prop
  | .push node | .insertBefore node _ => ∀ slot, family.children.getSlot slot ≠ some node
  | .remove _ | .elsewhere _ _ => True

theorem Edit.insertBefore_apply {pre post : List (Nat × NodeHandle)}
    {entry other : Nat × NodeHandle} (h : ∀ entry ∈ pre ++ post, entry.1 ≠ other.1) :
    Edit.apply (pre ++ other :: post) (.insertBefore entry other.1) =
      pre ++ entry :: other :: post := by
  have hkeep : ∀ entries : List (Nat × NodeHandle), (∀ entry ∈ entries, entry.1 ≠ other.1) →
      (entries.flatMap fun kept => if kept.1 = other.1 then [entry, kept] else [kept]) =
        entries := by
    intro entries hne
    induction entries with
    | nil => rfl
    | cons kept entries ih =>
      rw [List.flatMap_cons, if_neg (hne kept (List.mem_cons_self ..)),
        ih fun entry he => hne entry (List.mem_cons_of_mem _ he)]
      rfl
  rw [Edit.apply, List.flatMap_append, List.flatMap_cons, if_pos rfl,
    hkeep pre fun entry he => h entry (List.mem_append_left _ he),
    hkeep post fun entry he => h entry (List.mem_append_right _ he)]
  rfl

theorem Edit.remove_apply {pre post : List (Nat × NodeHandle)} {other : Nat × NodeHandle}
    (h : ∀ entry ∈ pre ++ post, entry.1 ≠ other.1) :
    Edit.apply (pre ++ other :: post) (.remove other.1) = pre ++ post := by
  have hkeep : ∀ entries : List (Nat × NodeHandle), (∀ entry ∈ entries, entry.1 ≠ other.1) →
      (entries.filter fun entry => entry.1 ≠ other.1) = entries := fun entries hne =>
    List.filter_eq_self.mpr fun entry he => decide_eq_true (hne entry he)
  rw [Edit.apply, List.filter_append, List.filter_cons_of_neg (by simp),
    hkeep pre fun entry he => h entry (List.mem_append_left _ he),
    hkeep post fun entry he => h entry (List.mem_append_right _ he)]

/-- Slots name entries. -/
theorem Holds.slot_ne {children : Children} {pre post : List (Nat × NodeHandle)}
    {entry : Nat × NodeHandle} (h : Holds children (pre ++ entry :: post)) :
    ∀ other ∈ pre ++ post, other.1 ≠ entry.1 := by
  obtain ⟨free, h⟩ := h
  have hnodup := (List.nodup_append.mp h.nodup).1
  have hperm : (pre ++ entry :: post).Perm (entry :: (pre ++ post)) := List.perm_middle
  have hcons := (hperm.map Prod.fst).nodup_iff.mp hnodup
  intro other hother heq
  exact (List.nodup_cons.mp hcons).1 (heq ▸ List.mem_map_of_mem hother)

/-- A valid operation does not panic, and does on the children what its edits do on the list. -/
theorem Family.apply_spec {family : Family} {entries : List (Nat × NodeHandle)}
    (h : Holds family.children entries) {operation : Operation}
    (hvalid : family.Valid operation) :
    ∃ family', family.apply operation = some family' ∧
      Holds family'.children (Run.run Edit.apply entries (family.edits operation)) := by
  cases operation with
  | push node =>
    obtain ⟨index, children', hpush, -, hholds⟩ := h.push node
    refine ⟨_, by rw [Family.apply, hpush]; rfl, ?_⟩
    rw [Family.edits, hpush]
    exact hholds
  | insertBefore node reference =>
    obtain ⟨other, hother⟩ := hvalid
    obtain ⟨pre, post, rfl⟩ := List.append_of_mem (h.getSlot_iff.mp hother)
    obtain ⟨index, children', hinsert, -, hholds⟩ := h.insertBefore node
    refine ⟨_, by rw [Family.apply, hinsert]; rfl, ?_⟩
    rw [Family.edits, hinsert]
    have hedit : Edit.apply (pre ++ (reference, other) :: post)
        (.insertBefore (index, node) reference) = _ := Edit.insertBefore_apply h.slot_ne
    show Holds children' (Edit.apply (pre ++ (reference, other) :: post)
      (.insertBefore (index, node) reference))
    rw [hedit]
    exact hholds
  | remove slot =>
    obtain ⟨node, hnode⟩ := hvalid
    obtain ⟨pre, post, rfl⟩ := List.append_of_mem (h.getSlot_iff.mp hnode)
    obtain ⟨children', hremove, hholds⟩ := h.remove
    refine ⟨_, by rw [Family.apply, hremove]; rfl, ?_⟩
    have hedit : Edit.apply (pre ++ (slot, node) :: post) (.remove slot) = _ :=
      Edit.remove_apply h.slot_ne
    show Holds children' (Edit.apply (pre ++ (slot, node) :: post) (.remove slot))
    rw [hedit]
    exact hholds
  | elsewhere node slot => exact ⟨_, rfl, h⟩

theorem Family.step_holds {family : Family} {entries : List (Nat × NodeHandle)}
    (h : Holds family.children entries) {operation : Operation}
    (hvalid : family.Valid operation) :
    Holds (family.step operation).children
      (Run.run Edit.apply entries (family.edits operation)) := by
  obtain ⟨family', happly, hholds⟩ := Family.apply_spec h hvalid
  rw [Family.step, happly]
  exact hholds

/-- Over any valid operations, the children are the list with the same operations. -/
theorem Family.run_holds (operations : List Operation) {family : Family}
    {entries : List (Nat × NodeHandle)} (h : Holds family.children entries)
    (hvalid : Run.Along Family.step Family.Valid family operations) :
    Holds (Run.run Family.step family operations).children
      (Run.run Edit.apply entries (Run.emitted Family.step Family.edits family operations)) := by
  induction operations generalizing family entries with
  | nil => exact h
  | cons operation operations ih =>
    rw [Run.emitted_cons, Run.run_append]
    exact ih (Family.step_holds h hvalid.1) hvalid.2

/-! ## Positions -/

/-- The children are distinct, and each holds its slot. -/
structure Attached (family : Family) (entries : List (Nat × NodeHandle)) : Prop where
  distinct : (entries.map Prod.snd).Nodup
  parentSlot : ∀ entry ∈ entries, family.parentSlot entry.2 = entry.1

/-- A node that is no child is put in. -/
theorem Attached.inserted {family : Family} {pre post : List (Nat × NodeHandle)}
    (h : Attached family (pre ++ post)) {index : Nat} {node : NodeHandle}
    (hnew : node ∉ (pre ++ post).map Prod.snd) (children : Children) :
    Attached (family.inserted node (index, children)) (pre ++ (index, node) :: post) where
  distinct := by
    have hperm : (pre ++ (index, node) :: post).Perm ((index, node) :: (pre ++ post)) :=
      List.perm_middle
    exact (hperm.map Prod.snd).nodup_iff.mpr (List.nodup_cons.mpr ⟨hnew, h.distinct⟩)
  parentSlot entry hentry := by
    rcases List.mem_cons.mp (List.perm_middle.mem_iff.mp hentry) with rfl | hold
    · exact Function.update_self ..
    · have hne : entry.2 ≠ node := fun heq => hnew (heq ▸ List.mem_map_of_mem hold)
      exact (Function.update_of_ne hne ..).trans (h.parentSlot entry hold)

theorem Attached.step {family : Family} {entries : List (Nat × NodeHandle)}
    (hholds : Holds family.children entries) (h : Attached family entries)
    {operation : Operation} (hvalid : family.Valid operation)
    (hdetached : family.Detached operation) :
    Attached (family.step operation) (Run.run Edit.apply entries (family.edits operation)) := by
  have hnew : ∀ node, (∀ slot, family.children.getSlot slot ≠ some node) →
      node ∉ entries.map Prod.snd := by
    intro node hnone hm
    obtain ⟨entry, hentry, rfl⟩ := List.mem_map.mp hm
    exact hnone entry.1 (hholds.getSlot_iff.mpr hentry)
  cases operation with
  | push node =>
    obtain ⟨index, children', hpush, -, -⟩ := hholds.push node
    rw [Family.step, Family.apply, Family.edits, hpush]
    have hnone : node ∉ (entries ++ []).map Prod.snd := by
      rw [List.append_nil]
      exact hnew node hdetached
    rw [← List.append_nil entries] at h
    exact h.inserted hnone children'
  | insertBefore node reference =>
    obtain ⟨other, hother⟩ := hvalid
    obtain ⟨pre, post, rfl⟩ := List.append_of_mem (hholds.getSlot_iff.mp hother)
    obtain ⟨index, children', hinsert, -, -⟩ := hholds.insertBefore node
    rw [Family.step, Family.apply, Family.edits, hinsert]
    have hedit : Edit.apply (pre ++ (reference, other) :: post)
        (.insertBefore (index, node) reference) = _ := Edit.insertBefore_apply hholds.slot_ne
    show Attached (family.inserted node (index, children'))
      (Edit.apply (pre ++ (reference, other) :: post) (.insertBefore (index, node) reference))
    rw [hedit]
    exact h.inserted (hnew node hdetached) children'
  | remove slot =>
    obtain ⟨node, hnode⟩ := hvalid
    obtain ⟨pre, post, rfl⟩ := List.append_of_mem (hholds.getSlot_iff.mp hnode)
    obtain ⟨children', hremove, -⟩ := hholds.remove
    have hedit : Edit.apply (pre ++ (slot, node) :: post) (.remove slot) = _ :=
      Edit.remove_apply hholds.slot_ne
    have hsublist : (pre ++ post).Sublist (pre ++ (slot, node) :: post) :=
      (List.sublist_cons_self ..).append_left _
    rw [Family.step, Family.apply, hremove]
    show Attached { family with children := children' }
      (Edit.apply (pre ++ (slot, node) :: post) (.remove slot))
    rw [hedit]
    exact ⟨h.distinct.sublist (hsublist.map _), fun entry he =>
      h.parentSlot entry (hsublist.subset he)⟩
  | elsewhere node slot =>
    refine ⟨h.distinct, fun entry he => ?_⟩
    have hne : entry.2 ≠ node := fun heq =>
      hnew node hvalid (heq ▸ List.mem_map_of_mem he)
    exact (Function.update_of_ne hne ..).trans (h.parentSlot entry he)

theorem Attached.run (operations : List Operation) {family : Family}
    {entries : List (Nat × NodeHandle)} (hholds : Holds family.children entries)
    (h : Attached family entries)
    (hvalid : Run.Along Family.step Family.Valid family operations)
    (hdetached : Run.Along Family.step Family.Detached family operations) :
    Attached (Run.run Family.step family operations)
      (Run.run Edit.apply entries (Run.emitted Family.step Family.edits family operations)) := by
  induction operations generalizing family entries with
  | nil => exact h
  | cons operation operations ih =>
    rw [Run.emitted_cons, Run.run_append]
    exact ih (Family.step_holds hholds hvalid.1) (h.step hholds hvalid.1 hdetached.1) hvalid.2
      hdetached.2

/-- An entry stays until its slot is removed. -/
theorem mem_run_edits {entry : Nat × NodeHandle} (operations : List Operation) {family : Family}
    {entries : List (Nat × NodeHandle)} (hentry : entry ∈ entries)
    (hstays : .remove entry.1 ∉ operations) :
    entry ∈ Run.run Edit.apply entries
      (Run.emitted Family.step Family.edits family operations) := by
  have hedit : ∀ {entries : List (Nat × NodeHandle)} {edit : Edit}, entry ∈ entries →
      edit ≠ .remove entry.1 → entry ∈ Edit.apply entries edit := by
    intro entries edit hm hne
    cases edit with
    | append other => exact List.mem_append_left _ hm
    | insertBefore other reference =>
      refine List.mem_flatMap.mpr ⟨entry, hm, ?_⟩
      split
      · exact List.mem_cons_of_mem _ (List.mem_singleton_self _)
      · exact List.mem_singleton_self _
    | remove slot =>
      refine List.mem_filter.mpr ⟨hm, decide_eq_true ?_⟩
      rintro rfl
      exact hne rfl
  induction operations generalizing family entries with
  | nil => exact hentry
  | cons operation operations ih =>
    rw [Run.emitted_cons, Run.run_append]
    refine ih ?_ fun hm => hstays (List.mem_cons_of_mem _ hm)
    cases operation with
    | push node =>
      rw [Family.edits]
      cases family.children.push node with
      | none => exact hentry
      | some inserted =>
        show entry ∈ Edit.apply entries (.append (inserted.1, node))
        exact hedit hentry nofun
    | insertBefore node reference =>
      rw [Family.edits]
      cases family.children.insertBefore node reference with
      | none => exact hentry
      | some inserted =>
        show entry ∈ Edit.apply entries (.insertBefore (inserted.1, node) reference)
        exact hedit hentry nofun
    | remove slot =>
      show entry ∈ Edit.apply entries (.remove slot)
      refine hedit hentry ?_
      rintro heq
      cases heq
      exact hstays (List.mem_cons_self ..)
    | elsewhere node slot => exact hentry

/-! ## Refinement -/

/-- The slots of the children. -/
def Children.slots (children : Children) : List Slot := (children.storage.getD .default).slots

/-- Children are observed to be a list of nodes, each under the name of its slot. -/
structure Lists (children : Children) (entries : List (Nat × NodeHandle)) : Prop where
  len : children.len = entries.length
  forward : ∃ iter, Iter.pulls (List.replicate entries.length .front) children.iter =
    some ((entries.map Prod.snd).map some, iter)
  backward : ∃ iter, Iter.pulls (List.replicate entries.length .back) children.iter =
    some ((entries.map Prod.snd).reverse.map some, iter)
  /-- Any calls take from the two ends of the list, and enough calls every node once. -/
  interleaved : ∀ ends, ∃ nodes iter, Iter.pulls ends children.iter = some (nodes, iter) ∧
    nodes = takeEnds ends (entries.map Prod.snd) ∧
    (entries.length ≤ ends.length → nodes.reduceOption.Perm (entries.map Prod.snd))
  first : children.first = (entries.map Prod.snd).head?
  last : children.last = (entries.map Prod.snd).getLast?
  adjacent : ∀ pre slot node post, entries = pre ++ (slot, node) :: post →
    children.adjacent slot true = (pre.map Prod.snd).getLast? ∧
      children.adjacent slot false = (post.map Prod.snd).head?
  live : ∀ slot node, children.getSlot slot = some node ↔ (slot, node) ∈ entries
  /-- The free list has the slots that are not live. -/
  free : ∃ free, (children.storage.getD .default).free = free.head? ∧
    FreeChain children.slots free ∧
    (entries.map Prod.fst ++ free).Perm (List.range children.slots.length)

theorem Holds.lists {children : Children} {entries : List (Nat × NodeHandle)}
    (h : Holds children entries) : Lists children entries where
  len := h.len_eq
  forward := by
    obtain ⟨iter, hpulls⟩ := h.iter.pulls (List.replicate entries.length .front)
    have hfront := takeEnds_front (entries.map Prod.snd)
    rw [List.length_map] at hfront
    rw [hfront] at hpulls
    exact ⟨iter, hpulls⟩
  backward := by
    obtain ⟨iter, hpulls⟩ := h.iter.pulls (List.replicate entries.length .back)
    have hback := takeEnds_back (entries.map Prod.snd)
    rw [List.length_map] at hback
    rw [hback] at hpulls
    exact ⟨iter, hpulls⟩
  interleaved ends := by
    obtain ⟨iter, hpulls⟩ := h.iter.pulls ends
    refine ⟨_, iter, hpulls, rfl, fun hlength => takeEnds_perm ?_⟩
    rw [List.length_map]
    exact hlength
  first := h.first_eq
  last := h.last_eq
  adjacent pre slot node post heq := (heq ▸ h).adjacent_eq
  live _ _ := h.getSlot_iff
  free := by
    obtain ⟨free, h⟩ := h
    exact ⟨free, h.free_head, h.free_chain, h.partition⟩

/-- Over any operations on live slots the children are an ordinary list with the same
operations, and no operation panics.  If inserted nodes are detached first, every
child holds its slot, at which it stays until it is removed, and no slot holds a
removed node. -/
theorem children_refine (parentSlot : NodeHandle → Nat) (operations : List Operation)
    (hvalid : Run.Along Family.step Family.Valid (.new parentSlot) operations) :
    let family := Run.run Family.step (.new parentSlot) operations
    let entries := Run.run Edit.apply []
      (Run.emitted Family.step Family.edits (.new parentSlot) operations)
    Lists family.children entries ∧
    (∀ operation, family.Valid operation → (family.apply operation).isSome = true) ∧
    (∀ slot, family.Valid (.remove slot) →
      (family.step (.remove slot)).children.getSlot slot = none) ∧
    (Run.Along Family.step Family.Detached (.new parentSlot) operations →
      (∀ slot node, (slot, node) ∈ entries → family.parentSlot node = slot) ∧
      (∀ slot node, family.children.getSlot slot = some node →
        ∀ entry ∈ (family.step (.remove slot)).children.slots, entry.node ≠ some node) ∧
      ∀ later, Run.Along Family.step Family.Valid family later →
        Run.Along Family.step Family.Detached family later →
        ∀ slot node, (slot, node) ∈ entries → .remove slot ∉ later →
          let family' := Run.run Family.step family later
          family'.children.getSlot slot = some node ∧
            family'.parentSlot node = family.parentSlot node) := by
  intro family entries
  have hholds : Holds family.children entries := Family.run_holds operations .default hvalid
  have hremoved : ∀ slot node, family.children.getSlot slot = some node →
      ∃ pre post, entries = pre ++ (slot, node) :: post ∧
        Holds (family.step (.remove slot)).children (pre ++ post) := by
    intro slot node hnode
    obtain ⟨pre, post, hentries⟩ := List.append_of_mem (hholds.getSlot_iff.mp hnode)
    refine ⟨pre, post, hentries, ?_⟩
    have hlive : family.Valid (.remove slot) := ⟨node, hnode⟩
    have hstep := Family.step_holds hholds hlive
    have hedit : Edit.apply entries (.remove slot) = pre ++ post := by
      rw [hentries] at hholds ⊢
      exact Edit.remove_apply hholds.slot_ne
    rw [← hedit]
    exact hstep
  refine ⟨hholds.lists, fun operation hop => ?_, fun slot hop => ?_, fun hdetached => ?_⟩
  · obtain ⟨family', happly, -⟩ := Family.apply_spec hholds hop
    rw [happly]
    rfl
  · obtain ⟨node, hnode⟩ := hop
    obtain ⟨pre, post, hentries, hnext⟩ := hremoved slot node hnode
    rw [Option.eq_none_iff_forall_ne_some]
    intro other hother
    rw [hentries] at hholds
    exact hholds.slot_ne _ (hnext.getSlot_iff.mp hother) rfl
  · have hattached : Attached family entries :=
      Attached.run operations .default ⟨List.nodup_nil, fun _ he => by cases he⟩ hvalid hdetached
    refine ⟨fun slot node hmem => hattached.parentSlot _ hmem, fun slot node hnode entry he => ?_,
      fun later hvalidLater hdetachedLater slot node hmem hstays => ?_⟩
    · obtain ⟨pre, post, hentries, hnext⟩ := hremoved slot node hnode
      intro heq
      obtain ⟨i, hi⟩ := List.mem_iff_getElem?.mp he
      have hsome : (family.step (.remove slot)).children.getSlot i = some node := by
        rw [Children.getSlot_eq, Storage.node]
        exact (congrArg (Option.bind · Slot.node) hi).trans heq
      have hold := hnext.getSlot_iff.mp hsome
      have hdistinct := hattached.distinct
      rw [hentries] at hdistinct
      have hperm : (pre ++ (slot, node) :: post).Perm ((slot, node) :: (pre ++ post)) :=
        List.perm_middle
      have hgone := (List.nodup_cons.mp ((hperm.map Prod.snd).nodup_iff.mp hdistinct)).1
      exact hgone (List.mem_map.mpr ⟨_, hold, rfl⟩)
    · have hlater := Family.run_holds later hholds hvalidLater
      have hmemLater : (slot, node) ∈ Run.run Edit.apply entries
          (Run.emitted Family.step Family.edits family later) := mem_run_edits later hmem hstays
      have hattachedLater := Attached.run later hholds hattached hvalidLater hdetachedLater
      refine ⟨hlater.getSlot_iff.mpr hmemLater, ?_⟩
      rw [hattached.parentSlot _ hmem]
      exact hattachedLater.parentSlot _ hmemLater

/-- Three nodes are put in, the second is removed, and a fourth takes its slot. -/
def reuse : List Operation := [.push 1, .push 2, .push 3, .remove 1, .insertBefore 4 0]

theorem children_refine_reuse :
    let family := Run.run Family.step (.new fun _ => 0) reuse
    Lists family.children [(1, 4), (0, 1), (2, 3)] ∧ family.parentSlot 4 = 1 := by
  have hvalid : Run.Along Family.step Family.Valid (.new fun _ => 0) reuse :=
    ⟨trivial, trivial, trivial, ⟨2, rfl⟩, ⟨1, rfl⟩, trivial⟩
  have hdetached : Run.Along Family.step Family.Detached (.new fun _ => 0) reuse := by
    refine ⟨?_, ?_, ?_, trivial, ?_, trivial⟩ <;>
    · intro slot hslot
      rcases slot with _ | _ | _ | slot <;> cases hslot
  have hrefine := children_refine (fun _ => 0) reuse hvalid
  exact ⟨hrefine.1, (hrefine.2.2.2 hdetached).1 1 4 (List.mem_cons_self ..)⟩

end Omoikane.Dom
