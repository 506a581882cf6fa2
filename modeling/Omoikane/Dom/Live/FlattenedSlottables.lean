import Omoikane.Dom.Live.InclusiveTree
import Omoikane.Dom.Live.SlotEffects

/-!
# Flattened slottables

`Flattened` is what finding the flattened slottables of a slot gives, by the definition that
`assigned_nodes` follows.  `flatten_slotables` does not look whether a slot in a slot is in a shadow
tree, and takes all children of a slot without assigned nodes, comments too.  So it gives what it
should exactly where it meets no such slot and no such child, and where it ends
(`flattened_iff_flattenable`).
-/

namespace Omoikane.Dom.Live

open Base Relation

namespace Documents

variable (dom : Documents)

open Classical in
/-- The shadow root of the tree of a node. -/
noncomputable def shadowTree (node : NodeHandle) : Option NodeHandle :=
  if h : ∃ found limit, dom.containingShadowRoot limit node = some found then h.choose else none

/-- The snapshot that a root is read with. -/
noncomputable def snapshot (node : NodeHandle) (root : ShadowRoot) : SlotAssignments :=
  match root.assignments.filter (·.1 == dom.epochs.slotAssignment) with
  | some (_, assignments) => assignments
  | none => dom.freshAssignments node root

/-- The nodes that are assigned to a slot. -/
noncomputable def assignedTo (slot : NodeHandle) : List NodeHandle :=
  if dom.isHtmlSlot slot then
    ((((dom.shadowTree slot).bind fun node =>
      (dom.shadowRoot? node).map (dom.snapshot node)).bind (·.bySlot slot))).getD []
  else []

/-- A slot in a shadow tree. -/
def Nested (node : NodeHandle) : Prop :=
  dom.isHtmlSlot node = true ∧ (dom.shadowTree node).isSome

/-- The slottables of a slot: what is assigned to it, or its children that are elements or texts. -/
noncomputable def slottables (slot : NodeHandle) : List NodeHandle :=
  if dom.assignedTo slot = [] then (dom.children slot).filter dom.isSlottable
  else dom.assignedTo slot

/-- Slots in shadow trees are replaced by what is in them; other nodes are kept. -/
inductive Flattens : List NodeHandle → List NodeHandle → Prop
  | nil : Flattens [] []
  | kept {node : NodeHandle} {nodes after : List NodeHandle} : ¬ dom.Nested node →
      Flattens nodes after → Flattens (node :: nodes) (node :: after)
  | replaced {slot : NodeHandle} {nodes below after : List NodeHandle} : dom.Nested slot →
      Flattens (dom.slottables slot) below → Flattens nodes after →
      Flattens (slot :: nodes) (below ++ after)

/-- The flattened slottables of a slot: none, where it is not in a shadow tree. -/
def Flattened (slot : NodeHandle) (nodes : List NodeHandle) : Prop :=
  (dom.Nested slot → dom.Flattens (dom.slottables slot) nodes) ∧ (¬ dom.Nested slot → nodes = [])

/-! ## What the code does -/

/-- The nodes that the code takes for a slot. -/
noncomputable def source (slot : NodeHandle) : List NodeHandle :=
  if dom.assignedTo slot = [] then dom.children slot else dom.assignedTo slot

/-- All slots are replaced. -/
inductive Replaces : List NodeHandle → List NodeHandle → Prop
  | nil : Replaces [] []
  | kept {node : NodeHandle} {nodes after : List NodeHandle} : dom.isHtmlSlot node = false →
      Replaces nodes after → Replaces (node :: nodes) (node :: after)
  | replaced {slot : NodeHandle} {nodes below after : List NodeHandle} : dom.isHtmlSlot slot = true →
      Replaces (dom.source slot) below → Replaces nodes after →
      Replaces (slot :: nodes) (below ++ after)

/-- The code takes a node for a slot. -/
def Takes (slot node : NodeHandle) : Prop := dom.isHtmlSlot slot = true ∧ node ∈ dom.source slot

/-- A slottable that is in a shadow tree, if it is a slot. -/
def Fits (node : NodeHandle) : Prop :=
  dom.isSlottable node = true ∧ (dom.isHtmlSlot node = true → (dom.shadowTree node).isSome)

/-- What is taken for a slot in a shadow tree, and for the slots in it, comes to an end and fits. -/
def Flattenable (slot : NodeHandle) : Prop :=
  dom.Nested slot → Acc (fun node slot => dom.Takes slot node) slot ∧
    ∀ node, TransGen dom.Takes slot node → dom.Fits node

end Documents

section

variable {dom dom' : Documents} {lists : ChildLists} {limit : Nat} {node slot : NodeHandle}

namespace Documents

theorem containingShadowRootFrom_mono {found : Option NodeHandle} :
    ∀ {limit limit' : Nat} {node : Option NodeHandle},
      dom.containingShadowRootFrom limit node = some found → limit ≤ limit' →
      dom.containingShadowRootFrom limit' node = some found
  | limit + 1, limit' + 1, none, h, _ => h
  | limit + 1, limit' + 1, some node, h, hlimit => by
    rw [containingShadowRootFrom] at h ⊢
    split at h
    next hroot => rwa [if_pos hroot]
    next hroot =>
      rw [if_neg hroot]
      exact containingShadowRootFrom_mono h (Nat.le_of_succ_le_succ hlimit)

theorem shadowTree_eq {found : Option NodeHandle}
    (h : dom.containingShadowRoot limit node = some found) : dom.shadowTree node = found := by
  have hexists : ∃ found limit, dom.containingShadowRoot limit node = some found := ⟨found, limit, h⟩
  obtain ⟨limit', h'⟩ := hexists.choose_spec
  rw [shadowTree, dif_pos hexists]
  have hlong := containingShadowRootFrom_mono h (Nat.le_max_left limit limit')
  have hlong' := containingShadowRootFrom_mono h' (Nat.le_max_right limit limit')
  exact Option.some.inj (hlong'.symm.trans hlong)

end Documents

theorem slotAssignments_eq (h : Consistent dom lists) {root : ShadowRoot}
    (hroot : dom.data node = .shadowRoot root) {assignments : Option SlotAssignments}
    (hassignments : dom.slotAssignments limit node = some (dom', assignments)) :
    assignments = some (dom.snapshot node root) := by
  cases Documents.slotAssigned hassignments with
  | other hnone =>
    rw [Documents.shadowRoot?_eq_some_iff.mpr hroot] at hnone
    cases hnone
  | cached hroot' hcached =>
    rw [hroot] at hroot'
    cases hroot'
    rw [Documents.snapshot, hcached, Option.filter_some_pos (by simp)]
  | made hroot' hnone hslots hchildren =>
    rw [hroot] at hroot'
    cases hroot'
    rw [h.childNodes] at hchildren
    cases hchildren
    rw [Documents.snapshot, hnone, h.collectSlots_eq hslots, Documents.freshAssignments, h.children_eq]

/-- `assigned_nodes`, if it ends, gives what is assigned. -/
theorem assignedNodes_eq (h : Consistent dom lists) {nodes : List NodeHandle}
    (hnodes : dom.assignedNodes limit slot = some (dom', nodes)) :
    nodes = dom.assignedTo slot ∧ (dom' = dom ∨ ∃ limit node assignments,
      dom.slotAssignments limit node = some (dom', assignments)) := by
  rw [Documents.assignedNodes] at hnodes
  split at hnodes
  next hhtml =>
    rw [Documents.assignedTo, if_pos hhtml]
    obtain ⟨found, hfound, hnodes⟩ := Option.bind_eq_some_iff.mp hnodes
    rw [Documents.shadowTree_eq hfound]
    cases found with
    | none =>
      cases hnodes
      exact ⟨rfl, .inl rfl⟩
    | some node =>
      obtain ⟨⟨dom'', assignments⟩, hassignments, heq⟩ := Option.bind_eq_some_iff.mp hnodes
      cases heq
      refine ⟨?_, .inr ⟨limit, node, assignments, hassignments⟩⟩
      rw [Option.bind_some]
      cases hroot : dom.shadowRoot? node with
      | none =>
        cases Documents.slotAssigned hassignments with
        | other => rfl
        | cached hroot' | made hroot' =>
          rw [Documents.shadowRoot?_eq_some_iff.mpr hroot'] at hroot
          cases hroot
      | some root =>
        rw [slotAssignments_eq h (Documents.shadowRoot?_eq_some_iff.mp hroot) hassignments]
        rfl
  next hhtml =>
    cases hnodes
    rw [Documents.assignedTo, if_neg hhtml]
    exact ⟨rfl, .inl rfl⟩

/-! ## Reading -/

/-- Documents that are read the same way. -/
structure Reads (dom : Documents) (lists : ChildLists) (dom' : Documents) : Prop where
  consistent : Consistent dom' lists
  isHtmlSlot : dom'.isHtmlSlot = dom.isHtmlSlot
  containingShadowRoot : dom'.containingShadowRoot = dom.containingShadowRoot
  snapshot : ∀ node, (dom'.shadowRoot? node).map (dom'.snapshot node) =
    (dom.shadowRoot? node).map (dom.snapshot node)

theorem Reads.refl (h : Consistent dom lists) : Reads dom lists dom := ⟨h, rfl, rfl, fun _ => rfl⟩

theorem Reads.trans {dom'' : Documents} (h : Reads dom lists dom') (h' : Reads dom' lists dom'') :
    Reads dom lists dom'' where
  consistent := h'.consistent
  isHtmlSlot := h'.isHtmlSlot.trans h.isHtmlSlot
  containingShadowRoot := h'.containingShadowRoot.trans h.containingShadowRoot
  snapshot node := (h'.snapshot node).trans (h.snapshot node)

theorem Reads.assignedTo (h : Reads dom lists dom') : dom'.assignedTo = dom.assignedTo := by
  funext slot
  rw [Documents.assignedTo, Documents.assignedTo, h.isHtmlSlot, Documents.shadowTree,
    Documents.shadowTree, h.containingShadowRoot]
  simp only [h.snapshot]

/-- Whether a node has a shadow root above it, or is one. -/
theorem containingShadowRoot_congr (hparent : dom'.parentNode = dom.parentNode)
    (hroots : ∀ node, (dom'.shadowRoot? node).isSome = (dom.shadowRoot? node).isSome) :
    dom'.containingShadowRoot = dom.containingShadowRoot := by
  have hfrom : ∀ limit node,
      dom'.containingShadowRootFrom limit node = dom.containingShadowRootFrom limit node := by
    intro limit
    induction limit with
    | zero => exact fun _ => rfl
    | succ limit ih =>
      intro node
      cases node with
      | none => rfl
      | some node =>
        rw [Documents.containingShadowRootFrom, Documents.containingShadowRootFrom, hroots,
          hparent, ih]
  funext limit node
  exact hfrom limit (some node)

/-- A snapshot is made of a root, as it would be read. -/
theorem reads_setSnapshot (h : Consistent dom lists) {root : ShadowRoot}
    (hroot : dom.data node = .shadowRoot root)
    (hnone : root.assignments.filter (·.1 == dom.epochs.slotAssignment) = none) :
    Reads dom lists (dom.setData node (.shadowRoot { root with
      assignments := some (dom.epochs.slotAssignment, dom.freshAssignments node root) })) := by
  have hresembles := @resembles_setData dom node (.shadowRoot { root with
    assignments := some (dom.epochs.slotAssignment, dom.freshAssignments node root) })
    (by rw [hroot]; exact .shadowRoot)
  have hkeeps := @Documents.keeps_setShadowRoot dom node root { root with
    assignments := some (dom.epochs.slotAssignment, dom.freshAssignments node root) } hroot
  have h' := @Consistent.setShadowRoot dom lists node h root { root with
    assignments := some (dom.epochs.slotAssignment, dom.freshAssignments node root) } hroot rfl
  have hnamed := NamedAlike.of_records (.of_resembles hkeeps.nextId fun other _ => hresembles other)
    fun other hother => by rw [hkeeps.records other hother]
  have hroots : ∀ other, other ≠ node → (dom.setData node (.shadowRoot { root with
      assignments := some (dom.epochs.slotAssignment, dom.freshAssignments node root) })).shadowRoot? other =
        dom.shadowRoot? other := by
    intro other hother
    rw [Documents.shadowRoot?, Documents.setData_of_ne _ hother]
    rfl
  have hself := @Documents.setData_self dom node (.shadowRoot { root with
    assignments := some (dom.epochs.slotAssignment, dom.freshAssignments node root) })
  refine ⟨h', funext fun other => isHtmlSlot_congr (hresembles other),
    containingShadowRoot_congr rfl fun other => ?_, fun other => ?_⟩
  · by_cases hother : other = node
    · rw [hother, Documents.shadowRoot?_eq_some_iff.mpr hself, Documents.shadowRoot?_eq_some_iff.mpr hroot]
      rfl
    · rw [hroots other hother]
  · by_cases hother : other = node
    · rw [hother, Documents.shadowRoot?_eq_some_iff.mpr hself,
        Documents.shadowRoot?_eq_some_iff.mpr hroot, Option.map_some, Option.map_some,
        Documents.snapshot, Documents.snapshot, hnone]
      dsimp only
      rw [Option.filter_some_pos (by simp [Documents.setData])]
    · rw [hroots other hother]
      refine Option.map_congr fun root' _ => ?_
      rw [Documents.snapshot, Documents.snapshot, freshAssignments_same h h' hnamed rfl rfl rfl]
      rfl

/-- A root is read. -/
theorem reads_slotAssignments (h : Consistent dom lists) {assignments : Option SlotAssignments}
    (hassignments : dom.slotAssignments limit node = some (dom', assignments)) :
    Reads dom lists dom' := by
  cases Documents.slotAssigned hassignments with
  | other | cached => exact .refl h
  | @made root _ _ hroot hnone hslots hchildren =>
    rw [h.childNodes] at hchildren
    cases hchildren
    have hfresh : dom.assignments root (dom.slotsBelow node) (lists root.host) =
        dom.freshAssignments node root := by
      rw [Documents.freshAssignments, h.children_eq]
    rw [h.collectSlots_eq hslots, hfresh]
    exact reads_setSnapshot h hroot hnone

theorem reads_assignedNodes (h : Consistent dom lists) {nodes : List NodeHandle}
    (hnodes : dom.assignedNodes limit slot = some (dom', nodes)) : Reads dom lists dom' := by
  rcases (assignedNodes_eq h hnodes).2 with rfl | ⟨_, _, _, hassignments⟩
  · exact .refl h
  · exact reads_slotAssignments h hassignments

/-! ## `flatten_slotables` -/

/-- What `flatten_slotables` does with a node. -/
def Documents.flattenNode (limit : Nat) (progress : Documents × List NodeHandle) (node : NodeHandle) :
    Option (Documents × List NodeHandle) :=
  if progress.1.isHtmlSlot node then do
    let (dom, assigned) ← progress.1.assignedNodes limit node
    let nested ← (if assigned.isEmpty then dom.childNodes node else some assigned)
    let (dom, flattened) ← Documents.flattenSlotables limit dom nested
    return (dom, progress.2 ++ flattened)
  else some (progress.1, progress.2 ++ [node])

theorem flattenSlotables_succ (nodes : List NodeHandle) :
    Documents.flattenSlotables (limit + 1) dom nodes =
      nodes.foldlM (Documents.flattenNode limit) (dom, []) := by
  rw [Documents.flattenSlotables]
  rfl

/-- The nodes that are taken for a slot. -/
theorem Reads.source (hreads : Reads dom lists dom') (h : Consistent dom lists) {between : Documents}
    {assigned : List NodeHandle} (hbetween : Reads dom lists between)
    (hassigned : dom'.assignedNodes limit slot = some (between, assigned)) :
    (if assigned.isEmpty then between.childNodes slot else some assigned) =
      some (dom.source slot) := by
  obtain ⟨heq, -⟩ := assignedNodes_eq hreads.consistent hassigned
  rw [hreads.assignedTo] at heq
  rw [Documents.source, ← heq, h.children_eq, hbetween.consistent.childNodes]
  cases assigned <;> rfl

/-- What `flatten_slotables` gives, if it ends, is the nodes with all slots replaced. -/
theorem replaces_of_flattenSlotables (h : Consistent dom lists) {nodes output : List NodeHandle}
    (hreads : Reads dom lists dom') {dom'' : Documents}
    (hflatten : Documents.flattenSlotables limit dom' nodes = some (dom'', output)) :
    Reads dom lists dom'' ∧ dom.Replaces nodes output := by
  induction limit generalizing dom' dom'' nodes output with
  | zero => cases hflatten
  | succ limit ih =>
    rw [flattenSlotables_succ] at hflatten
    suffices hall : ∀ {before : List NodeHandle}, nodes.foldlM (Documents.flattenNode limit)
        (dom', before) = some (dom'', output) →
        Reads dom lists dom'' ∧ ∃ after, output = before ++ after ∧ dom.Replaces nodes after by
      obtain ⟨hreads, after, heq, hreplaces⟩ := hall hflatten
      exact ⟨hreads, heq ▸ hreplaces⟩
    clear hflatten
    induction nodes generalizing dom' with
    | nil =>
      intro before heq
      cases heq
      exact ⟨hreads, [], (List.append_nil _).symm, .nil⟩
    | cons node nodes ihnodes =>
      intro before hflatten
      rw [List.foldlM_cons] at hflatten
      obtain ⟨⟨between, made⟩, hnode, hrest⟩ := Option.bind_eq_some_iff.mp hflatten
      rw [Documents.flattenNode] at hnode
      dsimp only at hnode
      rw [hreads.isHtmlSlot] at hnode
      split at hnode
      next hslot =>
        obtain ⟨⟨read, assigned⟩, hassigned, hnode⟩ := Option.bind_eq_some_iff.mp hnode
        have hread := hreads.trans (reads_assignedNodes hreads.consistent hassigned)
        obtain ⟨nested, hnested, hnode⟩ := Option.bind_eq_some_iff.mp hnode
        rw [hreads.source h hread hassigned] at hnested
        cases hnested
        obtain ⟨⟨flat, below⟩, hbelow, heq⟩ := Option.bind_eq_some_iff.mp hnode
        cases heq
        obtain ⟨hflat, hreplaces⟩ := ih hread hbelow
        obtain ⟨hlast, after, rfl, hafter⟩ := ihnodes hflat hrest
        exact ⟨hlast, below ++ after, by rw [List.append_assoc], .replaced hslot hreplaces hafter⟩
      next hslot =>
        cases hnode
        obtain ⟨hlast, after, rfl, hafter⟩ := ihnodes hreads hrest
        refine ⟨hlast, node :: after, by rw [List.append_assoc]; rfl, .kept ?_ hafter⟩
        exact Bool.eq_false_iff.mpr hslot

theorem Reads.collectSlots (hreads : Reads dom lists dom') (h : Consistent dom lists) :
    ∀ limit node, dom'.collectSlots limit node = dom.collectSlots limit node := by
  intro limit
  induction limit with
  | zero => exact fun _ => rfl
  | succ limit ih =>
    intro node
    rw [h.collectSlots_succ, hreads.consistent.collectSlots_succ, hreads.isHtmlSlot]
    simp only [ih]

/-- `assigned_nodes` of documents that are read the same way ends with one bound. -/
theorem Reads.assignedNodes_ends (h : Consistent dom lists) (slot : NodeHandle) :
    ∃ limit, ∀ limit', limit ≤ limit' → ∀ dom', Reads dom lists dom' →
      ∃ result, dom'.assignedNodes limit' slot = some result := by
  obtain ⟨first, found, hfound⟩ := h.containingShadowRoot_ends slot
  obtain ⟨below, hbelow⟩ : ∃ below, ∀ root, found = some root → ∀ limit', below ≤ limit' →
      dom.collectSlots limit' root = some (dom.slotsBelow root) := by
    cases found with
    | none => exact ⟨0, fun _ heq => by cases heq⟩
    | some root =>
      obtain ⟨limit, hlimit⟩ := h.collectSlots_ends root
      exact ⟨limit, fun _ heq => by cases heq; exact hlimit⟩
  refine ⟨max first below, fun limit hle dom' hreads => ?_⟩
  rw [Documents.assignedNodes]
  split
  next =>
    rw [hreads.containingShadowRoot, hfound limit (by omega), Option.bind_eq_bind, Option.bind_some]
    cases found with
    | none => exact ⟨_, rfl⟩
    | some root =>
      dsimp only
      have hslots : dom'.collectSlots limit root = some (dom.slotsBelow root) := by
        rw [hreads.collectSlots h, hbelow root rfl limit (by omega)]
      obtain ⟨result, hresult⟩ := slotAssignments_of_collectSlots hreads.consistent hslots
      rw [hresult]
      exact ⟨_, rfl⟩
  next => exact ⟨_, rfl⟩

/-- `flatten_slotables` ends where all slots can be replaced. -/
theorem flattenSlotables_ends (h : Consistent dom lists) {nodes output : List NodeHandle}
    (hreplaces : dom.Replaces nodes output) :
    ∃ limit, ∀ limit', limit ≤ limit' → ∀ dom', Reads dom lists dom' →
      ∀ before, ∃ dom'', Reads dom lists dom'' ∧
        nodes.foldlM (Documents.flattenNode limit') (dom', before) = some (dom'', before ++ output) := by
  induction hreplaces with
  | nil => exact ⟨0, fun _ _ dom' hreads before => ⟨dom', hreads, by rw [List.append_nil]; rfl⟩⟩
  | @kept node nodes after hslot _ ih =>
    obtain ⟨limit, hlimit⟩ := ih
    refine ⟨limit, fun limit' hle dom' hreads before => ?_⟩
    obtain ⟨dom'', hreads', hrest⟩ := hlimit limit' hle dom' hreads (before ++ [node])
    refine ⟨dom'', hreads', ?_⟩
    rw [List.foldlM_cons, Documents.flattenNode]
    dsimp only
    rw [hreads.isHtmlSlot, hslot, if_neg Bool.false_ne_true, Option.bind_eq_bind, Option.bind_some,
      hrest, List.append_assoc]
    rfl
  | @replaced slot nodes below after hslot _ _ ihbelow ihafter =>
    obtain ⟨assigns, hassigns⟩ := Reads.assignedNodes_ends h slot
    obtain ⟨inner, hinner⟩ := ihbelow
    obtain ⟨rest, hrest⟩ := ihafter
    refine ⟨max assigns (max (inner + 1) rest), fun limit' hle dom' hreads before => ?_⟩
    obtain ⟨limit', rfl⟩ : ∃ previous, limit' = previous + 1 := ⟨limit' - 1, by omega⟩
    obtain ⟨⟨read, assigned⟩, hassigned⟩ := hassigns (limit' + 1) (by omega) dom' hreads
    have hread := hreads.trans (reads_assignedNodes hreads.consistent hassigned)
    obtain ⟨flat, hflat, hbelow⟩ := hinner limit' (by omega) read hread []
    obtain ⟨dom'', hlast, hafter⟩ := hrest (limit' + 1) (by omega) flat hflat (before ++ below)
    refine ⟨dom'', hlast, ?_⟩
    rw [List.foldlM_cons]
    refine Option.bind_eq_some_iff.mpr ⟨(flat, before ++ below), ?_, ?_⟩
    · rw [Documents.flattenNode]
      dsimp only
      rw [hreads.isHtmlSlot, hslot, if_pos rfl, hassigned, Option.bind_eq_bind, Option.bind_some]
      dsimp only
      rw [hreads.source h hread hassigned, Option.bind_eq_bind, Option.bind_some,
        flattenSlotables_succ, hbelow]
      rfl
    · rw [hafter, List.append_assoc]

theorem not_nested (hnot : ¬ dom.Nested slot) (hhtml : dom.isHtmlSlot slot = true) :
    dom.shadowTree slot = none := by
  rw [← Option.not_isSome_iff_eq_none]
  exact fun hsome => hnot ⟨hhtml, hsome⟩

/-- `assigned_nodes` with `flatten` goes on from what is assigned to a slot in a shadow tree. -/
theorem assignedNodesFlattened_eq (hhtml : dom.isHtmlSlot slot = true) {root : NodeHandle}
    (hroot : dom.containingShadowRoot limit slot = some (some root)) :
    dom.assignedNodesFlattened limit slot = (dom.assignedNodes limit slot).bind fun read =>
      (if read.2.isEmpty then read.1.childNodes slot else some read.2).bind
        (Documents.flattenSlotables limit read.1) := by
  rw [Documents.assignedNodesFlattened, Documents.assignedNodes, if_pos hhtml, if_pos hhtml, hroot]
  simp only [Option.bind_eq_bind, Option.bind_some, Option.pure_def, Option.bind_assoc]

/-- What `assigned_nodes` with `flatten` gives for a slot in a shadow tree. -/
theorem flattened_iff_replaces (h : Consistent dom lists) (hnested : dom.Nested slot)
    {output : List NodeHandle} :
    (∃ limit dom', dom.assignedNodesFlattened limit slot = some (dom', output)) ↔
      dom.Replaces (dom.source slot) output := by
  obtain ⟨hhtml, hsome⟩ := hnested
  obtain ⟨first, found, hfound⟩ := h.containingShadowRoot_ends slot
  obtain ⟨root, rfl⟩ : ∃ root, found = some root := by
    rw [Documents.shadowTree_eq (hfound first le_rfl)] at hsome
    exact Option.isSome_iff_exists.mp hsome
  constructor
  · rintro ⟨limit, dom', hflattened⟩
    have hroot : dom.containingShadowRoot limit slot = some (some root) := by
      have hends : ∃ found, dom.containingShadowRoot limit slot = some found := by
        rw [Documents.assignedNodesFlattened, if_pos hhtml] at hflattened
        obtain ⟨found, hfound, -⟩ := Option.bind_eq_some_iff.mp hflattened
        exact ⟨found, hfound⟩
      obtain ⟨found, hends⟩ := hends
      rw [hends, ← Documents.shadowTree_eq hends, Documents.shadowTree_eq (hfound first le_rfl)]
    rw [assignedNodesFlattened_eq hhtml hroot] at hflattened
    obtain ⟨⟨read, assigned⟩, hassigned, hflattened⟩ := Option.bind_eq_some_iff.mp hflattened
    obtain ⟨source, hsource, hflattened⟩ := Option.bind_eq_some_iff.mp hflattened
    have hread := reads_assignedNodes h hassigned
    rw [(Reads.refl h).source h hread hassigned] at hsource
    cases hsource
    exact (replaces_of_flattenSlotables h hread hflattened).2
  · intro hreplaces
    obtain ⟨assigns, hassigns⟩ := Reads.assignedNodes_ends h slot
    obtain ⟨below, hbelow⟩ := flattenSlotables_ends h hreplaces
    have hlimit : first ≤ max first (max assigns below) + 1 ∧ assigns ≤ max first (max assigns below) + 1 ∧
        below ≤ max first (max assigns below) := by omega
    generalize max first (max assigns below) = limit at hlimit
    obtain ⟨⟨read, assigned⟩, hassigned⟩ := hassigns (limit + 1) hlimit.2.1 dom (.refl h)
    have hread := reads_assignedNodes h hassigned
    obtain ⟨dom', -, hflatten⟩ := hbelow limit hlimit.2.2 read hread []
    refine ⟨limit + 1, dom', ?_⟩
    rw [assignedNodesFlattened_eq hhtml (hfound _ hlimit.1), hassigned, Option.bind_some,
      (Reads.refl h).source h hread hassigned, Option.bind_some, flattenSlotables_succ, hflatten]
    rfl

/-- A slot that is not in a shadow tree has no flattened slottables. -/
theorem flattened_of_not_nested (h : Consistent dom lists) (hnot : ¬ dom.Nested slot)
    {output : List NodeHandle} :
    (∃ limit dom', dom.assignedNodesFlattened limit slot = some (dom', output)) ↔ output = [] := by
  by_cases hhtml : dom.isHtmlSlot slot = true
  · have hnone := not_nested hnot hhtml
    constructor
    · rintro ⟨limit, dom', hflattened⟩
      rw [Documents.assignedNodesFlattened, if_pos hhtml] at hflattened
      obtain ⟨found, hfound, hflattened⟩ := Option.bind_eq_some_iff.mp hflattened
      rw [Documents.shadowTree_eq hfound] at hnone
      subst hnone
      cases hflattened
      rfl
    · rintro rfl
      obtain ⟨limit, found, hfound⟩ := h.containingShadowRoot_ends slot
      rw [Documents.shadowTree_eq (hfound limit le_rfl)] at hnone
      subst hnone
      refine ⟨limit, dom, ?_⟩
      rw [Documents.assignedNodesFlattened, if_pos hhtml, hfound limit le_rfl]
      rfl
  · simp [Documents.assignedNodesFlattened, hhtml, eq_comm]

/-! ## What is met -/

theorem acc_of_replaces {nodes output : List NodeHandle} (h : dom.Replaces nodes output) :
    ∀ node ∈ nodes, Acc (fun node slot => dom.Takes slot node) node := by
  induction h with
  | nil => exact fun node hmem => by cases hmem
  | @kept node nodes after hslot _ ih =>
    intro other hmem
    rcases List.mem_cons.mp hmem with rfl | hmem
    · refine ⟨_, fun below htakes => ?_⟩
      rw [htakes.1] at hslot
      cases hslot
    · exact ih other hmem
  | @replaced slot nodes below after _ _ _ ihbelow ihafter =>
    intro other hmem
    rcases List.mem_cons.mp hmem with rfl | hmem
    · exact ⟨_, fun below htakes => ihbelow below htakes.2⟩
    · exact ihafter other hmem

theorem exists_replaces {nodes : List NodeHandle}
    (h : ∀ node ∈ nodes, Acc (fun node slot => dom.Takes slot node) node) :
    ∃ output, dom.Replaces nodes output := by
  have hlist : ∀ nodes : List NodeHandle, (∀ node ∈ nodes, dom.isHtmlSlot node = true →
      ∃ below, dom.Replaces (dom.source node) below) → ∃ output, dom.Replaces nodes output := by
    intro nodes hbelow
    induction nodes with
    | nil => exact ⟨[], .nil⟩
    | cons node nodes ih =>
      obtain ⟨after, hafter⟩ := ih fun other hmem => hbelow other (List.mem_cons_of_mem _ hmem)
      cases hslot : dom.isHtmlSlot node with
      | false => exact ⟨_, .kept hslot hafter⟩
      | true =>
        obtain ⟨below, hbelow⟩ := hbelow node List.mem_cons_self hslot
        exact ⟨_, .replaced hslot hbelow hafter⟩
  refine hlist nodes fun node hmem hslot => ?_
  have hacc := h node hmem
  clear hmem h
  induction hacc with
  | intro node _ ih => exact hlist _ fun below hbelow hslot' => ih below ⟨hslot, hbelow⟩ hslot'

/-- Only slottables are assigned, by hand or in a snapshot, and by a snapshot of the current epoch only
children of the host. -/
structure AssignsSlottables (dom : Documents) : Prop where
  manual : ∀ node root slot other, dom.data node = .shadowRoot root →
    other ∈ root.manuallyAssigned slot → other < dom.nextId ∧ dom.isSlottable other = true
  past : ∀ node root epoch assignments, dom.data node = .shadowRoot root →
    root.assignments = some (epoch, assignments) → epoch ≤ dom.epochs.slotAssignment
  snapshot : ∀ node root epoch assignments slot nodes, dom.data node = .shadowRoot root →
    root.assignments = some (epoch, assignments) → assignments.bySlot slot = some nodes →
    ∀ other ∈ nodes, other < dom.nextId ∧ dom.isSlottable other = true
  current : ∀ node root assignments slot nodes, dom.data node = .shadowRoot root →
    root.assignments = some (dom.epochs.slotAssignment, assignments) →
    assignments.bySlot slot = some nodes →
    ∀ other ∈ nodes, dom.parentNode other = some root.host

theorem of_mem_manualPairs {root : ShadowRoot} {slots : List NodeHandle} {other : NodeHandle}
    (h : (slot, other) ∈ dom.manualPairs root slots) :
    other ∈ root.manuallyAssigned slot ∧ dom.parentNode other = some root.host := by
  rw [Documents.manualPairs] at h
  obtain ⟨slot', -, hpair⟩ := List.mem_flatMap.mp h
  split at hpair
  next => cases hpair
  next stored nodes hentry =>
    split at hpair
    next =>
      obtain ⟨other', hother, heq⟩ := List.mem_map.mp hpair
      cases heq
      obtain ⟨hother, hparent⟩ := List.mem_filter.mp hother
      rw [ShadowRoot.manuallyAssigned, hentry]
      exact ⟨hother, of_decide_eq_true hparent⟩
    next => cases hpair

/-- Fresh assignments are of slottable children of the host. -/
theorem AssignsSlottables.fresh (hslottables : AssignsSlottables dom) (h : Consistent dom lists)
    {root : ShadowRoot} (hroot : dom.data node = .shadowRoot root) {nodes : List NodeHandle}
    (hnodes : (dom.freshAssignments node root).bySlot slot = some nodes) :
    ∀ other ∈ nodes, (other < dom.nextId ∧ dom.isSlottable other = true) ∧
      dom.parentNode other = some root.host := by
  intro other hother
  rw [Documents.freshAssignments, Documents.assignments, SlotAssignments.bySlot_foldl] at hnodes
  obtain ⟨before, hbefore, rfl⟩ := Option.map_eq_some_iff.mp hnodes
  have hempty : before = [] := by
    rw [SlotAssignments.empty] at hbefore
    dsimp only at hbefore
    split at hbefore
    next => exact (Option.some.inj hbefore).symm
    next => cases hbefore
  rw [hempty, List.nil_append] at hother
  obtain ⟨⟨slot', other'⟩, hpair, rfl⟩ := List.mem_map.mp hother
  have hpair := (List.mem_filter.mp hpair).1
  split at hpair
  next =>
    obtain ⟨hassigned, hparent⟩ := of_mem_manualPairs hpair
    exact ⟨hslottables.manual node root slot' other' hroot hassigned, hparent⟩
  next =>
    obtain ⟨hchild, hslottable, -⟩ := mem_namedPairs.mp hpair
    rw [h.children_eq] at hchild
    exact ⟨⟨(h.known _ _ hchild).2, hslottable⟩, h.parent_iff.mpr hchild⟩

theorem assignsSlottables_initial : AssignsSlottables .initial where
  manual _ _ _ _ hroot := by cases hroot
  past _ _ _ _ hroot := by cases hroot
  snapshot _ _ _ _ _ _ hroot := by cases hroot
  current _ _ _ _ _ hroot := by cases hroot

theorem AssignsSlottables.step {mutation : Mutation} (hslottables : AssignsSlottables dom)
    (h : Consistent dom lists) (hends : mutation.Ends dom dom') : AssignsSlottables dom' := by
  have heffects := effects_of_ends h hends
  have hepoch : dom.epochs.slotAssignment ≤ dom'.epochs.slotAssignment :=
    heffects.links.elim Nat.le_of_lt fun hsame => hsame.1.ge
  have hlater : ∀ {other : NodeHandle}, other < dom.nextId ∧ dom.isSlottable other = true →
      other < dom'.nextId ∧ dom'.isSlottable other = true := fun hother =>
    ⟨hother.1.trans_le heffects.alike.nextId,
      (heffects.alike.isSlottable _ hother.1).trans hother.2⟩
  refine ⟨fun _ _ _ _ => heffects.grown.slottable heffects.alike hslottables.manual,
    fun node root' epoch assignments hroot' hassignments => ?_,
    fun node root' epoch assignments slot nodes hroot' hassignments hnodes other hother => ?_,
    fun node root' assignments slot nodes hroot' hassignments hnodes other hother => ?_⟩
  · rcases heffects.grown node root' hroot' with ⟨-, _, _, rfl⟩ | ⟨root, hroot, -, -, hsame | hmade⟩
    · cases hassignments
    · exact (hslottables.past node root epoch assignments hroot (hsame ▸ hassignments)).trans hepoch
    · rw [hmade] at hassignments
      cases hassignments
      exact hepoch
  · rcases heffects.grown node root' hroot' with ⟨-, _, _, rfl⟩ | ⟨root, hroot, -, -, hsame | hmade⟩
    · cases hassignments
    · exact hlater (hslottables.snapshot node root epoch assignments slot nodes hroot
        (hsame ▸ hassignments) hnodes other hother)
    · rw [hmade] at hassignments
      cases hassignments
      exact hlater (hslottables.fresh h hroot hnodes other hother).1
  · have hparent : ∀ {host : NodeHandle}, dom'.epochs.slotAssignment ≤ dom.epochs.slotAssignment →
        dom.parentNode other = some host → dom'.parentNode other = some host := by
      intro host hle hparent
      rcases heffects.links with hlt | ⟨-, h'⟩
      · exact (Nat.not_lt_of_le hle hlt).elim
      · exact h'.parent_iff.mpr (h.parent_iff.mp hparent)
    rcases heffects.grown node root' hroot' with
      ⟨-, _, _, rfl⟩ | ⟨root, hroot, hhost, -, hsame | hmade⟩
    · cases hassignments
    · have hassignments : root.assignments = some (dom'.epochs.slotAssignment, assignments) :=
        hsame ▸ hassignments
      have hle := hslottables.past node root _ assignments hroot hassignments
      rw [Nat.le_antisymm hle hepoch] at hassignments
      rw [hhost]
      exact hparent hle (hslottables.current node root assignments slot nodes hroot hassignments
        hnodes other hother)
    · rw [hmade] at hassignments
      obtain ⟨heq, rfl⟩ := Prod.mk.inj (Option.some.inj hassignments)
      rw [hhost]
      exact hparent heq.ge (hslottables.fresh h hroot hnodes other hother).2

/-- After any calls, only slottables are assigned. -/
theorem assignsSlottables_of_reachable (h : dom.Reachable) : AssignsSlottables dom := by
  obtain ⟨steps, hsteps⟩ := h
  have hboth := hsteps.invariant (I := fun dom => (∃ lists, Consistent dom lists) ∧ AssignsSlottables dom)
    (fun step _ ⟨⟨_, h⟩, hslottables⟩ => ⟨⟨_, h.step step.ends⟩, hslottables.step h step.ends⟩)
    ⟨⟨_, .initial⟩, assignsSlottables_initial⟩
  exact hboth.2

/-- What is assigned to a slot are slottable children of the host of its tree. -/
theorem AssignsSlottables.assignedTo (hslottables : AssignsSlottables dom) (h : Consistent dom lists)
    {other : NodeHandle} (hother : other ∈ dom.assignedTo slot) : dom.isSlottable other = true ∧
      ∃ node host, dom.shadowTree slot = some node ∧ dom.shadowHost node = some host ∧
        dom.parentNode other = some host := by
  rw [Documents.assignedTo] at hother
  split at hother
  next =>
    cases hnodes : ((dom.shadowTree slot).bind fun node =>
        (dom.shadowRoot? node).map (dom.snapshot node)).bind (·.bySlot slot) with
    | none =>
      rw [hnodes] at hother
      cases hother
    | some nodes =>
      rw [hnodes, Option.getD_some] at hother
      obtain ⟨snapshot, hsnapshot, hnodes⟩ := Option.bind_eq_some_iff.mp hnodes
      obtain ⟨node, hnode, hsnapshot⟩ := Option.bind_eq_some_iff.mp hsnapshot
      obtain ⟨root, hroot, rfl⟩ := Option.map_eq_some_iff.mp hsnapshot
      have hroot := Documents.shadowRoot?_eq_some_iff.mp hroot
      have hhost := Documents.shadowHost_eq_some_iff.mpr ⟨root, hroot, rfl⟩
      rw [Documents.snapshot] at hnodes
      split at hnodes
      next hcached =>
        obtain ⟨hassignments, hepoch⟩ := Option.filter_eq_some_iff.mp hcached
        refine ⟨(hslottables.snapshot node root _ _ slot nodes hroot hassignments hnodes other
          hother).2, node, root.host, hnode, hhost, ?_⟩
        have hepoch := beq_iff_eq.mp hepoch
        dsimp only at hepoch
        rw [hepoch] at hassignments
        exact hslottables.current node root _ slot nodes hroot hassignments hnodes other hother
      next =>
        obtain ⟨⟨-, hslottable⟩, hparent⟩ := hslottables.fresh h hroot hnodes other hother
        exact ⟨hslottable, node, root.host, hnode, hhost, hparent⟩
  next => cases hother

/-- The slottables of a slot are those among the nodes that are taken for it. -/
theorem slottables_eq (hslottables : AssignsSlottables dom) (h : Consistent dom lists) :
    dom.slottables slot = (dom.source slot).filter dom.isSlottable := by
  rw [Documents.slottables, Documents.source]
  split
  next => rfl
  next => exact (List.filter_eq_self.mpr fun _ hmem => (hslottables.assignedTo h hmem).1).symm

/-! ## The two ways compared -/

theorem isSlottable_of_isHtmlSlot (h : dom.isHtmlSlot node = true) : dom.isSlottable node = true := by
  rw [Documents.isHtmlSlot, Documents.element?] at h
  rw [Documents.isSlottable]
  revert h
  cases dom.data node with
  | element => exact fun _ => rfl
  | _ => exact fun h => by cases h

/-- The code leaves no slots. -/
theorem not_slot_of_replaces {nodes output : List NodeHandle} (h : dom.Replaces nodes output) :
    ∀ node ∈ output, dom.isHtmlSlot node = false := by
  induction h with
  | nil => exact fun node hmem => by cases hmem
  | kept hslot _ ih =>
    intro other hmem
    rcases List.mem_cons.mp hmem with rfl | hmem
    · exact hslot
    · exact ih other hmem
  | replaced _ _ _ ihbelow ihafter =>
    intro other hmem
    rcases List.mem_append.mp hmem with hmem | hmem
    · exact ihbelow other hmem
    · exact ihafter other hmem

/-- Flattened slottables are slottables. -/
theorem slottable_of_flattens (hslottables : AssignsSlottables dom) (h : Consistent dom lists)
    {nodes output : List NodeHandle} (hflattens : dom.Flattens nodes output)
    (hnodes : ∀ node ∈ nodes, dom.isSlottable node = true) :
    ∀ node ∈ output, dom.isSlottable node = true := by
  induction hflattens with
  | nil => exact fun node hmem => by cases hmem
  | kept _ _ ih =>
    intro other hmem
    rcases List.mem_cons.mp hmem with rfl | hmem
    · exact hnodes other List.mem_cons_self
    · exact ih (fun node hnode => hnodes node (List.mem_cons_of_mem _ hnode)) other hmem
  | replaced _ _ _ ihbelow ihafter =>
    intro other hmem
    rcases List.mem_append.mp hmem with hmem | hmem
    · refine ihbelow (fun node hnode => ?_) other hmem
      rw [slottables_eq hslottables h] at hnode
      exact (List.mem_filter.mp hnode).2
    · exact ihafter (fun node hnode => hnodes node (List.mem_cons_of_mem _ hnode)) other hmem

/-- Where all that is met fits, the code does what it should. -/
theorem flattens_of_fits (hslottables : AssignsSlottables dom) (h : Consistent dom lists)
    {nodes output : List NodeHandle} (hreplaces : dom.Replaces nodes output)
    (hfits : ∀ node ∈ nodes, ∀ other, ReflTransGen dom.Takes node other → dom.Fits other) :
    dom.Flattens nodes output := by
  induction hreplaces with
  | nil => exact .nil
  | kept hslot _ ih =>
    refine .kept (fun hnested => ?_) (ih fun node hnode => hfits node (List.mem_cons_of_mem _ hnode))
    rw [hnested.1] at hslot
    cases hslot
  | @replaced slot _ _ _ hslot _ _ ihbelow ihafter =>
    have hbelow : ∀ node ∈ dom.source slot, ∀ other, ReflTransGen dom.Takes node other →
        dom.Fits other := fun node hnode other hway =>
      hfits slot List.mem_cons_self other (.head ⟨hslot, hnode⟩ hway)
    refine .replaced ⟨hslot, (hfits slot List.mem_cons_self slot .refl).2 hslot⟩ ?_
      (ihafter fun node hnode => hfits node (List.mem_cons_of_mem _ hnode))
    rw [slottables_eq hslottables h, List.filter_eq_self.mpr fun node hnode => (hbelow node hnode node .refl).1]
    exact ihbelow hbelow

/-- Where the code leaves slottables only, and slots are not left by the other way, all that is met
fits. -/
theorem fits_of_flattens (hslottables : AssignsSlottables dom) (h : Consistent dom lists)
    {nodes output output' : List NodeHandle} (hreplaces : dom.Replaces nodes output)
    (hflattens : dom.Flattens (nodes.filter dom.isSlottable) output')
    (houtput : ∀ node ∈ output, dom.isSlottable node = true)
    (houtput' : ∀ node ∈ output', dom.isHtmlSlot node = false) :
    ∀ node ∈ nodes, ∀ other, ReflTransGen dom.Takes node other → dom.Fits other := by
  induction hreplaces generalizing output' with
  | nil => exact fun node hmem => by cases hmem
  | @kept node nodes after hslot _ ih =>
    have hslottable := houtput node List.mem_cons_self
    rw [List.filter_cons_of_pos hslottable] at hflattens
    cases hflattens with
    | replaced hnested =>
      rw [hnested.1] at hslot
      cases hslot
    | kept _ hafter =>
      intro other hmem below hway
      rcases List.mem_cons.mp hmem with rfl | hmem
      · -- nothing is taken for a node that is no slot
        rcases ReflTransGen.cases_head hway with rfl | ⟨next, htakes, -⟩
        · exact ⟨hslottable, fun hslot' => by rw [hslot] at hslot'; cases hslot'⟩
        · rw [htakes.1] at hslot
          cases hslot
      · exact ih hafter (fun node hnode => houtput node (List.mem_cons_of_mem _ hnode))
          (fun node hnode => houtput' node (List.mem_cons_of_mem _ hnode)) other hmem below hway
  | @replaced slot nodes below after hslot _ _ ihbelow ihafter =>
    have hslottable := isSlottable_of_isHtmlSlot hslot
    rw [List.filter_cons_of_pos hslottable] at hflattens
    cases hflattens with
    | kept =>
      have hleft := houtput' slot List.mem_cons_self
      rw [hslot] at hleft
      cases hleft
    | replaced hnested hbelow hafter =>
      rw [slottables_eq hslottables h] at hbelow
      intro other hmem last hway
      rcases List.mem_cons.mp hmem with rfl | hmem
      · rcases ReflTransGen.cases_head hway with rfl | ⟨next, htakes, hway⟩
        · exact ⟨hslottable, fun _ => hnested.2⟩
        · exact ihbelow hbelow (fun node hnode => houtput node (List.mem_append_left _ hnode))
            (fun node hnode => houtput' node (List.mem_append_left _ hnode)) next htakes.2 last hway
      · exact ihafter hafter (fun node hnode => houtput node (List.mem_append_right _ hnode))
          (fun node hnode => houtput' node (List.mem_append_right _ hnode)) other hmem last hway

end

/-- In any documents that calls lead to, `assigned_nodes` with `flatten` ends and gives the flattened
slottables of a node exactly where these can be found in the way of the code. -/
theorem flattened_iff_flattenable {dom : Documents} (hreachable : dom.Reachable) (slot : NodeHandle) :
    (∃ nodes, (∃ limit dom', dom.assignedNodesFlattened limit slot = some (dom', nodes)) ∧
      dom.Flattened slot nodes) ↔ dom.Flattenable slot := by
  obtain ⟨lists, h⟩ := Consistent.reachable hreachable
  have hslottables := assignsSlottables_of_reachable hreachable
  by_cases hnested : dom.Nested slot
  · simp only [flattened_iff_replaces h hnested]
    constructor
    · rintro ⟨nodes, hreplaces, hflattened⟩ -
      have hflattens := hflattened.1 hnested
      rw [slottables_eq hslottables h] at hflattens
      have hacc := acc_of_replaces hreplaces
      have hfits := fits_of_flattens hslottables h hreplaces hflattens
        (slottable_of_flattens hslottables h hflattens fun node hnode => (List.mem_filter.mp hnode).2)
        (not_slot_of_replaces hreplaces)
      refine ⟨⟨_, fun node htakes => hacc node htakes.2⟩, fun node hway => ?_⟩
      obtain ⟨next, htakes, hway⟩ := TransGen.head'_iff.mp hway
      exact hfits next htakes.2 node hway
    · intro hflattenable
      obtain ⟨hacc, hfits⟩ := hflattenable hnested
      have htakes : ∀ node ∈ dom.source slot, dom.Takes slot node := fun node hnode =>
        ⟨hnested.1, hnode⟩
      obtain ⟨output, hreplaces⟩ := exists_replaces fun node hnode => hacc.inv (htakes node hnode)
      refine ⟨output, hreplaces, fun _ => ?_, fun hnot => (hnot hnested).elim⟩
      have hall : ∀ node ∈ dom.source slot, ∀ other, ReflTransGen dom.Takes node other →
          dom.Fits other := fun node hnode other hway =>
        hfits other (.head' (htakes node hnode) hway)
      rw [slottables_eq hslottables h,
        List.filter_eq_self.mpr fun node hnode => (hall node hnode node .refl).1]
      exact flattens_of_fits hslottables h hreplaces hall
  · simp only [flattened_of_not_nested h hnested]
    exact iff_of_true ⟨[], rfl, fun hnested' => (hnested hnested').elim, fun _ => rfl⟩
      fun hnested' => (hnested hnested').elim

/-- A slot in a shadow tree and a text of the host, which then goes into a slot of the host. -/
def lightSlot : List Mutation :=
  [.create (.element (.new "div".toList)), .attachShadow 0 .opened,
    .create (.element (.new "slot".toList)), .tree (.appendChild 1 2), .create .text,
    .tree (.appendChild 0 3), .create (.element (.new "slot".toList)), .tree (.appendChild 0 4),
    .tree (.appendChild 4 3)]

/-- The text is the flattened slottable while it is in the host. -/
theorem flattened_text : ∃ steps dom, Steps .initial steps dom ∧
    steps.map Step.mutation = lightSlot.take 6 ∧ dom.Nested 2 ∧ dom.Takes 2 3 ∧ dom.Flattenable 2 := by
  obtain ⟨steps, hsteps, hmutations⟩ := @Steps.of_performAll 9 (lightSlot.take 6) .initial
    (.after 9 (lightSlot.take 6)) rfl
  let dom : Documents := .after 9 (lightSlot.take 6)
  obtain ⟨lists, h⟩ := Consistent.reachable ⟨steps, hsteps⟩
  have hassigned : dom.assignedTo 2 = [3] :=
    ((assignedNodes_eq h (rfl : dom.assignedNodes 9 2 = some (_, [3]))).1).symm
  have hnested : dom.Nested 2 := by
    refine ⟨by decide, ?_⟩
    rw [@Documents.shadowTree_eq dom 9 2 (some 1) rfl]
    rfl
  have hflattened : dom.Flattened 2 [3] := by
    refine ⟨fun _ => ?_, fun hnot => (hnot hnested).elim⟩
    rw [Documents.slottables, hassigned, if_neg (by decide)]
    exact .kept (fun hnested => by cases hnested.1) .nil
  refine ⟨steps, dom, hsteps, hmutations, hnested, ⟨by decide, ?_⟩,
    (flattened_iff_flattenable ⟨steps, hsteps⟩ 2).mp ⟨[3], ⟨9, _, rfl⟩, hflattened⟩⟩
  rw [Documents.source, hassigned]
  decide

/-- The slot of the host is in no shadow tree, and is replaced by the text. -/
theorem light_slot_replaced : ∃ steps dom, Steps .initial steps dom ∧
    steps.map Step.mutation = lightSlot ∧
    (dom.assignedNodesFlattened 9 2).map Prod.snd = some [3] ∧ dom.Flattened 2 [4] := by
  obtain ⟨steps, hsteps, hmutations⟩ := @Steps.of_performAll 9 lightSlot .initial
    (.after 9 lightSlot) rfl
  let dom : Documents := .after 9 lightSlot
  obtain ⟨lists, h⟩ := Consistent.reachable ⟨steps, hsteps⟩
  have hassigned : dom.assignedTo 2 = [4] :=
    ((assignedNodes_eq h (rfl : dom.assignedNodes 9 2 = some (_, [4]))).1).symm
  have hnested : dom.Nested 2 := by
    refine ⟨by decide, ?_⟩
    rw [@Documents.shadowTree_eq dom 9 2 (some 1) rfl]
    rfl
  have hlight : ¬ dom.Nested 4 := by
    intro hnested
    have hsome := hnested.2
    rw [@Documents.shadowTree_eq dom 9 4 none rfl] at hsome
    cases hsome
  refine ⟨steps, dom, hsteps, hmutations, by decide, fun _ => ?_, fun hnot => (hnot hnested).elim⟩
  rw [Documents.slottables, hassigned, if_neg (by decide)]
  exact .kept hlight .nil

end Omoikane.Dom.Live
