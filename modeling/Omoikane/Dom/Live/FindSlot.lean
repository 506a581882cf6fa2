import Omoikane.Base.Ascent
import Omoikane.Base.TreeOrder
import Omoikane.Dom.Live.Consistency

/-!
# Find a slot, find slottables

What the assignments of slots are for, without a snapshot: a node has at most one slot
(`findSlot`), and a slot has some nodes (`findSlottables`).  `Fresh` says that no snapshot of the
current epoch is out of date; then `assigned_slot` and `assigned_nodes` give these.
-/

namespace Omoikane.Dom.Live

open Base Relation

/-- The nodes that were assigned to a slot of the root by hand. -/
def ShadowRoot.manuallyAssigned (root : ShadowRoot) (slot : NodeHandle) : List NodeHandle :=
  ((root.manualAssignments slot).map Prod.snd).getD []

namespace Documents

variable (dom : Documents)

/-- The children of a node. -/
def children (node : NodeHandle) : List NodeHandle := (dom.childNodes node).getD []

/-- The slots below a node, in tree order. -/
noncomputable def slotsBelow (node : NodeHandle) : List NodeHandle :=
  (descendants dom.children node).filter dom.isHtmlSlot

/-- Find a slot: of the shadow root of a slottable's parent, the slot it was assigned to or the first
one with the name it asks for. -/
noncomputable def findSlot (node : NodeHandle) : Option NodeHandle :=
  if dom.isSlottable node then
    match (dom.parentNode node).bind dom.shadowRoot with
    | none => none
    | some root => (dom.shadowRoot? root).bind fun payload =>
      if payload.settings.manualSlotAssignment then
        (dom.slotsBelow root).find? (node ∈ payload.manuallyAssigned ·)
      else (dom.slotsBelow root).find? (dom.slotName · == dom.requestedName node)
  else none

/-- Find slottables: where the root of a slot is a shadow root, the nodes that were assigned to the
slot and are children of the host, or the children of the host that find the slot. -/
noncomputable def findSlottables (slot : NodeHandle) : List NodeHandle :=
  if dom.isHtmlSlot slot then
    match dom.shadowRoot? (top dom.parentNode slot) with
    | none => []
    | some payload =>
      if payload.settings.manualSlotAssignment then
        (payload.manuallyAssigned slot).filter (dom.parentNode · = some payload.host)
      else (dom.children payload.host).filter fun node =>
        dom.isSlottable node ∧ dom.findSlot node = some slot
  else []

/-- The assignments of a root, made anew. -/
noncomputable def freshAssignments (node : NodeHandle) (root : ShadowRoot) : SlotAssignments :=
  dom.assignments root (dom.slotsBelow node) (dom.children root.host)

end Documents

/-! ## Collected assignments -/

namespace SlotAssignments

variable {pairs : List (NodeHandle × NodeHandle)} {assignments : SlotAssignments}
  {slot node : NodeHandle}

@[simp] theorem push_bySlot_self (pair : NodeHandle × NodeHandle) :
    (assignments.push pair).bySlot pair.1 = (assignments.bySlot pair.1).map (· ++ [pair.2]) :=
  Function.update_self ..

@[simp] theorem push_bySlot_of_ne {pair : NodeHandle × NodeHandle} (h : slot ≠ pair.1) :
    (assignments.push pair).bySlot slot = assignments.bySlot slot := Function.update_of_ne h ..

@[simp] theorem push_byNode_self (pair : NodeHandle × NodeHandle) :
    (assignments.push pair).byNode pair.2 = some pair.1 := Function.update_self ..

@[simp] theorem push_byNode_of_ne {pair : NodeHandle × NodeHandle} (h : node ≠ pair.2) :
    (assignments.push pair).byNode node = assignments.byNode node := Function.update_of_ne h ..

/-- A slot gets the nodes of its pairs, in order. -/
theorem bySlot_foldl : (pairs.foldl push assignments).bySlot slot =
    (assignments.bySlot slot).map (· ++ (pairs.filter (·.1 = slot)).map Prod.snd) := by
  induction pairs generalizing assignments with
  | nil => simp
  | cons pair pairs ih =>
    rw [List.foldl_cons, ih]
    by_cases hslot : slot = pair.1
    · subst hslot
      rw [push_bySlot_self, Option.map_map, List.filter_cons_of_pos (by simp)]
      refine congrArg (Option.map · _) (funext fun nodes => ?_)
      simp
    · rw [push_bySlot_of_ne hslot, List.filter_cons_of_neg (by simpa using Ne.symm hslot)]

/-- The node is in no pair. -/
theorem byNode_foldl_of_not_mem (h : ∀ pair ∈ pairs, pair.2 ≠ node) :
    (pairs.foldl push assignments).byNode node = assignments.byNode node := by
  induction pairs generalizing assignments with
  | nil => rfl
  | cons pair pairs ih =>
    rw [List.foldl_cons, ih fun other hmem => h other (List.mem_cons_of_mem _ hmem)]
    exact push_byNode_of_ne (h pair List.mem_cons_self).symm

/-- All pairs with the node have the same slot. -/
theorem byNode_foldl_of_mem (hmem : (slot, node) ∈ pairs)
    (hall : ∀ pair ∈ pairs, pair.2 = node → pair.1 = slot) :
    (pairs.foldl push assignments).byNode node = some slot := by
  induction pairs generalizing assignments with
  | nil => cases hmem
  | cons pair pairs ih =>
    rw [List.foldl_cons]
    by_cases hrest : (slot, node) ∈ pairs
    · exact ih hrest fun other hother => hall other (List.mem_cons_of_mem _ hother)
    · have hpair : (slot, node) = pair := (List.mem_cons.mp hmem).resolve_right hrest
      subst hpair
      rw [byNode_foldl_of_not_mem]
      · exact push_byNode_self _
      · rintro ⟨slot', node'⟩ hother rfl
        have hslot : slot' = slot := hall _ (List.mem_cons_of_mem _ hother) rfl
        exact hrest (hslot ▸ hother)

theorem empty_bySlot_of_mem {slots : List NodeHandle} (h : slot ∈ slots) :
    (empty slots).bySlot slot = some [] := if_pos h

end SlotAssignments

/-! ## Walks of a tree -/

section

variable {dom : Documents} {lists : ChildLists} {limit : Nat} {node other : NodeHandle}

namespace Consistent

theorem children_eq (h : Consistent dom lists) : dom.children = lists := by
  funext node
  rw [Documents.children, h.childNodes]
  rfl

theorem rooted (h : Consistent dom lists) : Rooted dom.parentNode := h.linked.rooted

theorem wellFounded_children (h : Consistent dom lists) :
    WellFounded fun child parent => child ∈ lists parent := by
  have hacyclic : Acyclic fun child parent => child ∈ lists parent := by
    intro node
    rw [← h.linked.below_eq]
    exact h.rooted.irreflexive
  exact hacyclic.wellFounded (Set.finite_lt_nat dom.nextId) fun child parent hmem =>
    (h.known parent child hmem).symm

theorem treeOrder (h : Consistent dom lists) (node : NodeHandle) :
    TreeOrder lists (lists node) (descendants lists node) := by
  obtain ⟨order, horder⟩ := TreeOrder.exists_of_wellFounded h.wellFounded_children (lists node)
  rwa [horder.descendants_eq]

theorem mem_descendants (h : Consistent dom lists) :
    other ∈ descendants lists node ↔ TransGen (Below dom.parentNode) other node := by
  have hbelow : Below dom.parentNode = fun child parent => child ∈ lists parent := h.linked.below_eq
  rw [(h.treeOrder node).mem_iff, TransGen.tail'_iff, hbelow]
  constructor
  · rintro ⟨child, hchild, hway⟩
    exact ⟨child, hway, hchild⟩
  · rintro ⟨child, hway, hchild⟩
    exact ⟨child, hchild, hway⟩

theorem nodup_descendants (h : Consistent dom lists) (node : NodeHandle) :
    (descendants lists node).Nodup := by
  refine (h.treeOrder node).nodup h.rooted (fun child parent => h.parent_iff.symm)
    h.linked.nodup (h.linked.nodup node) fun child hchild child' hchild' => ?_
  exact (h.parent_iff.mpr hchild).trans (h.parent_iff.mpr hchild').symm

theorem mem_slotsBelow (h : Consistent dom lists) : other ∈ dom.slotsBelow node ↔
    TransGen (Below dom.parentNode) other node ∧ dom.isHtmlSlot other = true := by
  rw [Documents.slotsBelow, List.mem_filter, h.children_eq, h.mem_descendants]

theorem nodup_slotsBelow (h : Consistent dom lists) (node : NodeHandle) :
    (dom.slotsBelow node).Nodup := by
  rw [Documents.slotsBelow, h.children_eq]
  exact (h.nodup_descendants node).filter _

theorem collectSlots_succ (h : Consistent dom lists) : dom.collectSlots (limit + 1) node =
    ((lists node).mapM fun child => (dom.collectSlots limit child).map fun below =>
      if dom.isHtmlSlot child then child :: below else below).map List.flatten := by
  rw [Documents.collectSlots, h.childNodes]
  simp [Option.map_eq_bind]

/-- `collect_slots`, if it ends, gives the slots in tree order. -/
theorem collectSlots_eq (h : Consistent dom lists) {slots : List NodeHandle}
    (hcollect : dom.collectSlots limit node = some slots) : slots = dom.slotsBelow node := by
  suffices hexists : ∃ order, TreeOrder lists (lists node) order ∧
      slots = order.filter dom.isHtmlSlot by
    obtain ⟨order, horder, rfl⟩ := hexists
    rw [Documents.slotsBelow, h.children_eq, horder.descendants_eq]
  induction limit generalizing node slots with
  | zero => cases hcollect
  | succ limit ih =>
    rw [h.collectSlots_succ] at hcollect
    obtain ⟨found, hfound, rfl⟩ := Option.map_eq_some_iff.mp hcollect
    clear hcollect
    revert found
    generalize lists node = roots
    induction roots with
    | nil =>
      intro found hfound
      cases hfound
      exact ⟨[], .nil, rfl⟩
    | cons child roots ihroots =>
      intro found hfound
      rw [List.mapM_cons] at hfound
      obtain ⟨first, hfirst, hfound⟩ := Option.bind_eq_some_iff.mp hfound
      obtain ⟨rest, hrest, heq⟩ := Option.bind_eq_some_iff.mp hfound
      cases heq
      obtain ⟨below, hbelow, rfl⟩ := Option.map_eq_some_iff.mp hfirst
      obtain ⟨order, horder, rfl⟩ := ih hbelow
      obtain ⟨after, hafter, heq⟩ := ihroots rest hrest
      refine ⟨_, .cons horder hafter, ?_⟩
      rw [List.flatten_cons, heq, List.filter_cons, List.filter_append]
      split <;> rfl

/-- `collect_slots` ends. -/
theorem collectSlots_ends (h : Consistent dom lists) (node : NodeHandle) :
    ∃ limit, ∀ limit', limit ≤ limit' →
      dom.collectSlots limit' node = some (dom.slotsBelow node) := by
  have hends : ∀ {roots order : List NodeHandle}, TreeOrder lists roots order →
      ∃ limit, ∀ limit', limit ≤ limit' → ∃ found, (roots.mapM fun child =>
        (dom.collectSlots limit' child).map fun below =>
          if dom.isHtmlSlot child then child :: below else below) = some found := by
    intro roots order horder
    induction horder with
    | nil => exact ⟨0, fun _ _ => ⟨[], rfl⟩⟩
    | @cons child roots below after _ _ ihbelow ihafter =>
      obtain ⟨first, hfirst⟩ := ihbelow
      obtain ⟨rest, hrest⟩ := ihafter
      refine ⟨max (first + 1) rest, fun limit hlimit => ?_⟩
      obtain ⟨limit, rfl⟩ : ∃ previous, limit = previous + 1 := ⟨limit - 1, by omega⟩
      obtain ⟨found, hfound⟩ := hfirst limit (by omega)
      obtain ⟨found', hfound'⟩ := hrest (limit + 1) (by omega)
      rw [List.mapM_cons, h.collectSlots_succ, hfound, hfound']
      exact ⟨_, rfl⟩
  obtain ⟨limit, hlimit⟩ := hends (h.treeOrder node)
  refine ⟨limit + 1, fun limit' hle => ?_⟩
  obtain ⟨limit', rfl⟩ : ∃ previous, limit' = previous + 1 := ⟨limit' - 1, by omega⟩
  obtain ⟨found, hfound⟩ := hlimit limit' (by omega)
  have hcollect : dom.collectSlots (limit' + 1) node = some found.flatten := by
    rw [h.collectSlots_succ, hfound]
    rfl
  exact hcollect.trans (congrArg some (h.collectSlots_eq hcollect))

/-- `containing_shadow_root`, if it ends, gives the root of the tree, if that is a shadow root: the
others have no parent. -/
theorem containingShadowRoot_eq (h : Consistent dom lists) {found : Option NodeHandle}
    (hrootless : ∀ node, (dom.shadowRoot? node).isSome → dom.parentNode node = none)
    (hfound : dom.containingShadowRoot limit node = some found) :
    found = (dom.shadowRoot? (top dom.parentNode node)).map fun _ => top dom.parentNode node := by
  rw [Documents.containingShadowRoot] at hfound
  induction limit generalizing node with
  | zero => cases hfound
  | succ limit ih =>
    rw [Documents.containingShadowRootFrom] at hfound
    split at hfound
    next hroot =>
      cases hfound
      rw [top_eq .refl (hrootless node hroot)]
      obtain ⟨root, hroot⟩ := Option.isSome_iff_exists.mp hroot
      rw [hroot, Option.map_some]
    next hroot =>
      cases hparent : dom.parentNode node with
      | none =>
        rw [hparent] at hfound
        have hnone : found = none := by
          cases limit with
          | zero => cases hfound
          | succ => cases hfound; rfl
        rw [hnone, top_eq .refl hparent, Option.not_isSome_iff_eq_none.mp hroot, Option.map_none]
      | some parent =>
        rw [hparent] at hfound
        have hway : ReflTransGen (Below dom.parentNode) node parent := .single hparent
        rw [h.rooted.top_of_leads hway]
        exact ih hfound

/-- `containing_shadow_root` ends. -/
theorem containingShadowRoot_ends (h : Consistent dom lists) (node : NodeHandle) :
    ∃ limit found, ∀ limit', limit ≤ limit' → dom.containingShadowRoot limit' node = some found := by
  obtain ⟨chain, hchain⟩ := h.rooted node
  have hends : ∃ limit found, ∀ limit', limit ≤ limit' →
      dom.containingShadowRootFrom limit' (some node) = some found := by
    induction hchain with
    | @top node hnone =>
      refine ⟨2, if (dom.shadowRoot? node).isSome then some node else none, fun limit hlimit => ?_⟩
      obtain ⟨limit, rfl⟩ : ∃ previous, limit = previous + 2 := ⟨limit - 2, by omega⟩
      rw [Documents.containingShadowRootFrom, hnone]
      split <;> rfl
    | @step node parent _ hsome _ ih =>
      obtain ⟨limit, found, hfound⟩ := ih
      by_cases hroot : (dom.shadowRoot? node).isSome
      · refine ⟨1, some node, fun limit hlimit => ?_⟩
        obtain ⟨limit, rfl⟩ : ∃ previous, limit = previous + 1 := ⟨limit - 1, by omega⟩
        rw [Documents.containingShadowRootFrom, if_pos hroot]
      · refine ⟨limit + 1, found, fun limit' hlimit => ?_⟩
        obtain ⟨limit', rfl⟩ : ∃ previous, limit' = previous + 1 := ⟨limit' - 1, by omega⟩
        rw [Documents.containingShadowRootFrom, if_neg hroot, hsome]
        exact hfound limit' (by omega)
  exact hends

end Consistent

end

/-! ## Snapshots -/

/-- The entries of a root are for the slots they are stored with, and no node is in two of them. -/
structure ShadowRoot.Sorted (root : ShadowRoot) : Prop where
  stored : ∀ slot stored nodes, root.manualAssignments slot = some (stored, nodes) → stored = slot
  apart : ∀ slot slot' node, node ∈ root.manuallyAssigned slot → node ∈ root.manuallyAssigned slot' →
    slot = slot'

/-- Shadow roots are the roots of their trees, their entries are of slottables, and no snapshot of the
current epoch is out of date. -/
structure Fresh (dom : Documents) : Prop where
  rootless : ∀ node root, dom.data node = .shadowRoot root → dom.parentNode node = none
  sorted : ∀ node root, dom.data node = .shadowRoot root → root.Sorted
  slottable : ∀ node root slot other, dom.data node = .shadowRoot root →
    other ∈ root.manuallyAssigned slot → other < dom.nextId ∧ dom.isSlottable other = true
  past : ∀ node root epoch assignments, dom.data node = .shadowRoot root →
    root.assignments = some (epoch, assignments) → epoch ≤ dom.epochs.slotAssignment
  cached : ∀ node root assignments, dom.data node = .shadowRoot root →
    root.assignments = some (dom.epochs.slotAssignment, assignments) →
    assignments = dom.freshAssignments node root

section

variable {dom dom' : Documents} {lists : ChildLists} {limit : Nat} {node slot : NodeHandle}
  {root : ShadowRoot}

theorem Fresh.isSome_rootless (h : Fresh dom) (node : NodeHandle)
    (hroot : (dom.shadowRoot? node).isSome) : dom.parentNode node = none := by
  obtain ⟨root, hroot⟩ := Option.isSome_iff_exists.mp hroot
  exact h.rootless node root (Documents.shadowRoot?_eq_some_iff.mp hroot)

/-- The pairs that are assigned by name. -/
theorem mem_namedPairs {slots children : List NodeHandle} :
    (slot, node) ∈ dom.namedPairs slots children ↔
      node ∈ children ∧ dom.isSlottable node = true ∧
        dom.firstSlotByName slots (dom.requestedName node) = some slot := by
  simp only [Documents.namedPairs, List.mem_filterMap, List.mem_filter, Option.map_eq_some_iff,
    Prod.mk.injEq]
  constructor
  · rintro ⟨child, ⟨hchild, hslottable⟩, _, hfirst, rfl, rfl⟩
    exact ⟨hchild, hslottable, hfirst⟩
  · rintro ⟨hchild, hslottable, hfirst⟩
    exact ⟨node, ⟨hchild, hslottable⟩, slot, hfirst, rfl, rfl⟩

/-- The pairs that are assigned by hand. -/
theorem mem_manualPairs (hsorted : root.Sorted) {slots : List NodeHandle} :
    (slot, node) ∈ dom.manualPairs root slots ↔
      slot ∈ slots ∧ node ∈ root.manuallyAssigned slot ∧ dom.parentNode node = some root.host := by
  rw [Documents.manualPairs, List.mem_flatMap]
  constructor
  · rintro ⟨slot', hslot', hpair⟩
    split at hpair
    next => cases hpair
    next stored nodes hentry =>
      rw [if_pos (hsorted.stored _ _ _ hentry)] at hpair
      obtain ⟨node', hnode', heq⟩ := List.mem_map.mp hpair
      cases heq
      obtain ⟨hnodes, hparent⟩ := List.mem_filter.mp hnode'
      refine ⟨hslot', ?_, of_decide_eq_true hparent⟩
      rw [ShadowRoot.manuallyAssigned, hentry]
      exact hnodes
  · rintro ⟨hslot, hnode, hparent⟩
    refine ⟨slot, hslot, ?_⟩
    rw [ShadowRoot.manuallyAssigned] at hnode
    cases hentry : root.manualAssignments slot with
    | none =>
      rw [hentry] at hnode
      cases hnode
    | some entry =>
      obtain ⟨stored, nodes⟩ := entry
      rw [hentry] at hnode
      dsimp only
      rw [if_pos (hsorted.stored _ _ _ hentry)]
      exact List.mem_map_of_mem (List.mem_filter.mpr ⟨hnode, decide_eq_true hparent⟩)

theorem flatMap_eq_of_unique {α β : Type} {items : List α} {item : α} {give : α → List β}
    (hnodup : items.Nodup) (hitem : item ∈ items)
    (hothers : ∀ other ∈ items, other ≠ item → give other = []) : items.flatMap give = give item := by
  induction items with
  | nil => cases hitem
  | cons first items ih =>
    obtain ⟨hfirst, hnodup⟩ := List.nodup_cons.mp hnodup
    rw [List.flatMap_cons]
    rcases List.mem_cons.mp hitem with rfl | hmem
    · have hrest : items.flatMap give = [] := List.flatMap_eq_nil_iff.mpr fun other hother =>
        hothers other (List.mem_cons_of_mem _ hother) fun heq => hfirst (heq ▸ hother)
      rw [hrest, List.append_nil]
    · rw [hothers first List.mem_cons_self fun heq => hfirst (heq ▸ hmem), List.nil_append]
      exact ih hnodup hmem fun other hother => hothers other (List.mem_cons_of_mem _ hother)

/-- What is assigned to a slot by hand. -/
theorem manualPairs_of_slot (hsorted : root.Sorted) {slots : List NodeHandle} (hnodup : slots.Nodup)
    (hslot : slot ∈ slots) :
    ((dom.manualPairs root slots).filter (·.1 = slot)).map Prod.snd =
      (root.manuallyAssigned slot).filter (dom.parentNode · = some root.host) := by
  rw [Documents.manualPairs, List.filter_flatMap, flatMap_eq_of_unique hnodup hslot]
  · rw [ShadowRoot.manuallyAssigned]
    cases hentry : root.manualAssignments slot with
    | none => rfl
    | some entry =>
      obtain ⟨stored, nodes⟩ := entry
      dsimp only
      rw [if_pos (hsorted.stored _ _ _ hentry), List.filter_map, List.map_map]
      simp [Function.comp_def]
  · intro other _ hne
    refine List.filter_eq_nil_iff.mpr fun pair hpair => ?_
    split at hpair
    next => cases hpair
    next =>
      split at hpair
      next =>
        obtain ⟨node, -, rfl⟩ := List.mem_map.mp hpair
        simpa using hne
      next => cases hpair

/-- What is assigned to a slot by name. -/
theorem namedPairs_of_slot {slots children : List NodeHandle} :
    ((dom.namedPairs slots children).filter (·.1 = slot)).map Prod.snd =
      children.filter fun node => dom.isSlottable node ∧
        dom.firstSlotByName slots (dom.requestedName node) = some slot := by
  rw [Documents.namedPairs]
  induction children with
  | nil => rfl
  | cons child children ih =>
    by_cases hslottable : dom.isSlottable child = true
    · rw [List.filter_cons_of_pos hslottable, List.filterMap_cons]
      cases hfirst : dom.firstSlotByName slots (dom.requestedName child) with
      | none =>
        rw [Option.map_none, ih, List.filter_cons_of_neg (by simp [hfirst])]
      | some first =>
        rw [Option.map_some]
        by_cases hslot : first = slot
        · rw [List.filter_cons_of_pos (by simpa using hslot), List.map_cons, ih,
            List.filter_cons_of_pos (by simp [hfirst, hslot, hslottable])]
        · rw [List.filter_cons_of_neg (by simpa using hslot), ih,
            List.filter_cons_of_neg (by simp [hfirst, hslot])]
    · rw [List.filter_cons_of_neg hslottable, ih, List.filter_cons_of_neg (by simp [hslottable])]

/-- What a child of a host finds in the shadow tree. -/
theorem findSlot_of_parent (h : Consistent dom lists)
    (hroot : dom.data node = .shadowRoot root) {child : NodeHandle}
    (hslottable : dom.isSlottable child = true) (hparent : dom.parentNode child = some root.host) :
    dom.findSlot child = if root.settings.manualSlotAssignment then
        (dom.slotsBelow node).find? (child ∈ root.manuallyAssigned ·)
      else dom.firstSlotByName (dom.slotsBelow node) (dom.requestedName child) := by
  have hleads : dom.shadowRoot root.host = some node :=
    (h.root_iff _ _).mpr (Documents.shadowHost_eq_some_iff.mpr ⟨root, hroot, rfl⟩)
  rw [Documents.findSlot, if_pos hslottable, hparent, Option.bind_some, hleads]
  dsimp only
  rw [Documents.shadowRoot?_eq_some_iff.mpr hroot, Option.bind_some]
  rfl

/-- A slot gets what it finds. -/
theorem Fresh.bySlot (hfresh : Fresh dom) (h : Consistent dom lists)
    (hroot : dom.data node = .shadowRoot root) (hslot : slot ∈ dom.slotsBelow node) :
    (dom.freshAssignments node root).bySlot slot = some (dom.findSlottables slot) := by
  obtain ⟨hway, hhtml⟩ := h.mem_slotsBelow.mp hslot
  have htop : top dom.parentNode slot = node :=
    top_eq hway.to_reflTransGen (hfresh.rootless node root hroot)
  rw [Documents.freshAssignments, Documents.assignments, SlotAssignments.bySlot_foldl,
    SlotAssignments.empty_bySlot_of_mem hslot, Option.map_some, List.nil_append,
    Documents.findSlottables, if_pos hhtml, htop, Documents.shadowRoot?_eq_some_iff.mpr hroot]
  dsimp only
  split
  next => rw [manualPairs_of_slot (hfresh.sorted node root hroot) (h.nodup_slotsBelow node) hslot]
  next hnamed =>
    rw [namedPairs_of_slot]
    refine congrArg some (List.filter_congr fun child hchild => ?_)
    rw [h.children_eq] at hchild
    have hparent : dom.parentNode child = some root.host := h.parent_iff.mpr hchild
    by_cases hslottable : dom.isSlottable child = true
    · rw [findSlot_of_parent h hroot hslottable hparent, if_neg hnamed]
    · simp [hslottable]

/-- A node gets the slot that it finds. -/
theorem Fresh.byNode (hfresh : Fresh dom) (h : Consistent dom lists)
    (hroot : dom.data node = .shadowRoot root) {child : NodeHandle}
    (hslottable : dom.isSlottable child = true) (hparent : dom.parentNode child = some root.host) :
    (dom.freshAssignments node root).byNode child = dom.findSlot child := by
  have hsorted := hfresh.sorted node root hroot
  rw [findSlot_of_parent h hroot hslottable hparent, Documents.freshAssignments,
    Documents.assignments]
  split
  next =>
    cases hfind : (dom.slotsBelow node).find? (child ∈ root.manuallyAssigned ·) with
    | none =>
      refine SlotAssignments.byNode_foldl_of_not_mem ?_
      rintro ⟨slot, _⟩ hpair rfl
      obtain ⟨hslot, hmem, -⟩ := (mem_manualPairs hsorted).mp hpair
      exact List.find?_eq_none.mp hfind slot hslot (decide_eq_true hmem)
    | some slot =>
      have hfound := List.find?_some hfind
      have hmem : child ∈ root.manuallyAssigned slot := of_decide_eq_true hfound
      refine SlotAssignments.byNode_foldl_of_mem ((mem_manualPairs hsorted).mpr
        ⟨List.mem_of_find?_eq_some hfind, hmem, hparent⟩) ?_
      rintro ⟨slot', _⟩ hpair rfl
      exact hsorted.apart _ _ _ ((mem_manualPairs hsorted).mp hpair).2.1 hmem
  next =>
    cases hfind : dom.firstSlotByName (dom.slotsBelow node) (dom.requestedName child) with
    | none =>
      refine SlotAssignments.byNode_foldl_of_not_mem ?_
      rintro ⟨slot, _⟩ hpair rfl
      rw [(mem_namedPairs.mp hpair).2.2] at hfind
      cases hfind
    | some slot =>
      have hmem : child ∈ dom.children root.host := by
        rw [h.children_eq]
        exact h.parent_iff.mp hparent
      refine SlotAssignments.byNode_foldl_of_mem (mem_namedPairs.mpr ⟨hmem, hslottable, hfind⟩) ?_
      rintro ⟨slot', _⟩ hpair rfl
      rw [(mem_namedPairs.mp hpair).2.2] at hfind
      exact Option.some.inj hfind

/-- The assignments of a root are fresh ones, from a snapshot or made now. -/
theorem Fresh.slotAssignments (hfresh : Fresh dom) (h : Consistent dom lists)
    (hroot : dom.data node = .shadowRoot root) {assignments : Option SlotAssignments}
    (hassignments : dom.slotAssignments limit node = some (dom', assignments)) :
    assignments = some (dom.freshAssignments node root) := by
  cases Documents.slotAssigned hassignments with
  | other hnone =>
    rw [Documents.shadowRoot?_eq_some_iff.mpr hroot] at hnone
    cases hnone
  | cached hroot' hcached =>
    rw [hroot] at hroot'
    cases hroot'
    rw [hfresh.cached node root _ hroot hcached]
  | made hroot' _ hslots hchildren =>
    rw [hroot] at hroot'
    cases hroot'
    rw [h.childNodes] at hchildren
    cases hchildren
    rw [h.collectSlots_eq hslots, Documents.freshAssignments, h.children_eq]

theorem slotAssignments_of_collectSlots (h : Consistent dom lists) {slots : List NodeHandle}
    (hslots : dom.collectSlots limit node = some slots) :
    ∃ result, dom.slotAssignments limit node = some result := by
  rw [Documents.slotAssignments]
  split
  next => exact ⟨_, rfl⟩
  next root _ =>
    dsimp only
    split
    next => exact ⟨_, rfl⟩
    next =>
      rw [hslots, h.childNodes]
      exact ⟨_, rfl⟩

theorem slotAssignments_ends (h : Consistent dom lists) (node : NodeHandle) :
    ∃ limit, ∀ limit', limit ≤ limit' → ∃ result, dom.slotAssignments limit' node = some result := by
  obtain ⟨limit, hlimit⟩ := h.collectSlots_ends node
  exact ⟨limit, fun limit' hle => slotAssignments_of_collectSlots h (hlimit limit' hle)⟩

/-- A slot in a shadow tree is a slot of its root. -/
theorem mem_slotsBelow_top (h : Consistent dom lists) (hhtml : dom.isHtmlSlot slot = true)
    (hroot : dom.data (top dom.parentNode slot) = .shadowRoot root) :
    slot ∈ dom.slotsBelow (top dom.parentNode slot) := by
  refine h.mem_slotsBelow.mpr ⟨?_, hhtml⟩
  rcases (reflTransGen_iff_eq_or_transGen.mp (h.rooted.top_spec slot).1) with heq | hway
  · rw [heq] at hroot
    rw [Documents.isHtmlSlot, Documents.element?, hroot] at hhtml
    cases hhtml
  · exact hway

/-- `assigned_nodes` finds slottables. -/
theorem Fresh.assignedNodes_eq (hfresh : Fresh dom) (h : Consistent dom lists)
    {nodes : List NodeHandle} (hnodes : dom.assignedNodes limit slot = some (dom', nodes)) :
    nodes = dom.findSlottables slot := by
  rw [Documents.assignedNodes] at hnodes
  split at hnodes
  next hhtml =>
    obtain ⟨found, hfound, hnodes⟩ := Option.bind_eq_some_iff.mp hnodes
    have hfound := h.containingShadowRoot_eq hfresh.isSome_rootless hfound
    cases hroot : dom.shadowRoot? (top dom.parentNode slot) with
    | none =>
      rw [hroot, Option.map_none] at hfound
      subst hfound
      cases hnodes
      rw [Documents.findSlottables, if_pos hhtml, hroot]
    | some root =>
      rw [hroot, Option.map_some] at hfound
      subst hfound
      obtain ⟨⟨dom'', assignments⟩, hassignments, heq⟩ := Option.bind_eq_some_iff.mp hnodes
      cases heq
      have hroot := Documents.shadowRoot?_eq_some_iff.mp hroot
      rw [hfresh.slotAssignments h hroot hassignments, Option.bind_some,
        hfresh.bySlot h hroot (mem_slotsBelow_top h hhtml hroot), Option.getD_some]
  next hhtml =>
    cases hnodes
    rw [Documents.findSlottables, if_neg hhtml]

/-- `assigned_nodes` ends. -/
theorem assignedNodes_ends (h : Consistent dom lists) (slot : NodeHandle) :
    ∃ limit, ∀ limit', limit ≤ limit' → ∃ result, dom.assignedNodes limit' slot = some result := by
  obtain ⟨limit, found, hfound⟩ := h.containingShadowRoot_ends slot
  have hassignments : ∃ limit, ∀ limit', limit ≤ limit' → ∀ root, found = some root →
      ∃ result, dom.slotAssignments limit' root = some result := by
    cases found with
    | none => exact ⟨0, fun _ _ _ heq => by cases heq⟩
    | some root =>
      obtain ⟨limit, hlimit⟩ := slotAssignments_ends h root
      exact ⟨limit, fun limit' hle _ heq => by cases heq; exact hlimit limit' hle⟩
  obtain ⟨below, hbelow⟩ := hassignments
  refine ⟨max limit below, fun limit' hle => ?_⟩
  rw [Documents.assignedNodes]
  split
  next =>
    rw [hfound limit' ((Nat.le_max_left ..).trans hle)]
    cases found with
    | none => exact ⟨_, rfl⟩
    | some root =>
      obtain ⟨result, hresult⟩ := hbelow limit' ((Nat.le_max_right ..).trans hle) root rfl
      rw [Option.bind_eq_bind, Option.bind_some]
      dsimp only
      rw [hresult]
      exact ⟨_, rfl⟩
  next => exact ⟨_, rfl⟩

/-- `assigned_slot` finds a slot. -/
theorem Fresh.assignedSlot_eq (hfresh : Fresh dom) (h : Consistent dom lists)
    {found : Option NodeHandle} (hfound : dom.assignedSlot limit node = some (dom', found)) :
    found = dom.findSlot node := by
  rw [Documents.assignedSlot] at hfound
  split at hfound
  next hslottable =>
    split at hfound
    next hnone =>
      cases hfound
      rw [Documents.findSlot, if_pos hslottable, hnone]
    next root hsome =>
      obtain ⟨⟨dom'', assignments⟩, hassignments, heq⟩ := Option.bind_eq_some_iff.mp hfound
      cases heq
      obtain ⟨parent, hparent, hleads⟩ := Option.bind_eq_some_iff.mp hsome
      obtain ⟨payload, hroot, rfl⟩ := Documents.shadowHost_eq_some_iff.mp ((h.root_iff _ _).mp hleads)
      rw [hfresh.slotAssignments h hroot hassignments, Option.bind_some]
      exact hfresh.byNode h hroot hslottable hparent
  next hslottable =>
    cases hfound
    rw [Documents.findSlot, if_neg hslottable]

/-- `assigned_slot` ends. -/
theorem assignedSlot_ends (h : Consistent dom lists) (node : NodeHandle) :
    ∃ limit, ∀ limit', limit ≤ limit' → ∃ result, dom.assignedSlot limit' node = some result := by
  cases hroot : (dom.parentNode node).bind dom.shadowRoot with
  | none =>
    refine ⟨0, fun limit' _ => ?_⟩
    rw [Documents.assignedSlot]
    split
    next => exact ⟨(dom, none), by rw [hroot]⟩
    next => exact ⟨_, rfl⟩
  | some root =>
    obtain ⟨limit, hlimit⟩ := slotAssignments_ends h root
    refine ⟨limit, fun limit' hle => ?_⟩
    obtain ⟨result, hresult⟩ := hlimit limit' hle
    rw [Documents.assignedSlot]
    split
    next =>
      rw [hroot]
      dsimp only
      rw [hresult]
      exact ⟨_, rfl⟩
    next => exact ⟨_, rfl⟩

/-- A node finds a slot exactly when the slot finds the node. -/
theorem Fresh.findSlot_iff (hfresh : Fresh dom) (h : Consistent dom lists) {child : NodeHandle} :
    dom.findSlot child = some slot ↔ child ∈ dom.findSlottables slot := by
  constructor
  · intro hfind
    have hfind' := hfind
    rw [Documents.findSlot] at hfind
    split at hfind
    next hslottable =>
      split at hfind
      next => cases hfind
      next node hsome =>
        obtain ⟨parent, hparent, hleads⟩ := Option.bind_eq_some_iff.mp hsome
        obtain ⟨root, hroot, rfl⟩ := Documents.shadowHost_eq_some_iff.mp ((h.root_iff _ _).mp hleads)
        rw [Documents.shadowRoot?_eq_some_iff.mpr hroot, Option.bind_some] at hfind
        have hslot : slot ∈ dom.slotsBelow node := by
          split at hfind <;> exact List.mem_of_find?_eq_some hfind
        obtain ⟨hway, hhtml⟩ := h.mem_slotsBelow.mp hslot
        have htop : top dom.parentNode slot = node :=
          top_eq hway.to_reflTransGen (hfresh.rootless node root hroot)
        rw [Documents.findSlottables, if_pos hhtml, htop, Documents.shadowRoot?_eq_some_iff.mpr hroot]
        dsimp only
        split at hfind
        next hmanual =>
          rw [if_pos hmanual]
          have hfound := List.find?_some hfind
          have hmem : child ∈ root.manuallyAssigned slot := of_decide_eq_true hfound
          exact List.mem_filter.mpr ⟨hmem, decide_eq_true hparent⟩
        next hnamed =>
          rw [if_neg hnamed]
          refine List.mem_filter.mpr ⟨?_, decide_eq_true ⟨hslottable, hfind'⟩⟩
          rw [h.children_eq]
          exact h.parent_iff.mp hparent
    next => cases hfind
  · intro hmem
    rw [Documents.findSlottables] at hmem
    split at hmem
    next hhtml =>
      split at hmem
      next => cases hmem
      next root hroot =>
        have hroot := Documents.shadowRoot?_eq_some_iff.mp hroot
        split at hmem
        next hmanual =>
          obtain ⟨hassigned, hparent⟩ := List.mem_filter.mp hmem
          have hparent : dom.parentNode child = some root.host := of_decide_eq_true hparent
          have hslottable := (hfresh.slottable _ root slot child hroot hassigned).2
          rw [findSlot_of_parent h hroot hslottable hparent, if_pos hmanual]
          have hslot := mem_slotsBelow_top h hhtml hroot
          cases hfind : (dom.slotsBelow (top dom.parentNode slot)).find?
              (child ∈ root.manuallyAssigned ·) with
          | none => exact (List.find?_eq_none.mp hfind slot hslot (decide_eq_true hassigned)).elim
          | some slot' =>
            have hfound := List.find?_some hfind
            have hassigned' : child ∈ root.manuallyAssigned slot' := of_decide_eq_true hfound
            rw [(hfresh.sorted _ root hroot).apart _ _ _ hassigned hassigned']
        next => exact (of_decide_eq_true (List.mem_filter.mp hmem).2).2
    next => cases hmem

end

end Omoikane.Dom.Live
