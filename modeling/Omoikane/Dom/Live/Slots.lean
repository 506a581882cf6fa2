import Omoikane.Dom.Live.Document

/-!
# Slots

The slots of a shadow tree and what is assigned to them.  All slots of a root share a snapshot
(`slotAssignments`), which is kept with the epoch it was made in.
-/

namespace Omoikane.Dom.Live

open Base

/-- Nodes are assigned to a slot by hand, and taken from the other slots of the root. -/
def ShadowRoot.assign (root : ShadowRoot) (slot : NodeHandle) (nodes : List NodeHandle) :
    ShadowRoot :=
  let retained := fun key => (root.manualAssignments key).map fun (stored, assigned) =>
    (stored, assigned.filter (· ∉ nodes))
  { root with
    manualAssignments := Function.update retained slot (some (slot, nodes.eraseDups)) }

namespace SlotAssignments

/-- The assignments of some slots, before anything is assigned. -/
def empty (slots : List NodeHandle) : SlotAssignments where
  bySlot slot := if slot ∈ slots then some [] else none
  byNode _ := none

/-- A node is assigned to a slot. -/
def push (assignments : SlotAssignments) (pair : NodeHandle × NodeHandle) : SlotAssignments where
  bySlot := Function.update assignments.bySlot pair.1
    ((assignments.bySlot pair.1).map (· ++ [pair.2]))
  byNode := Function.update assignments.byNode pair.2 (some pair.1)

end SlotAssignments

namespace Documents

variable (dom : Documents)

/-- `is_html_slot`. -/
def isHtmlSlot (node : NodeHandle) : Bool :=
  match dom.element? node with
  | some element =>
    element.html && Text.eqIgnoreAsciiCase element.localNameOrTag "slot".toList
  | none => false

/-- `is_slottable`. -/
def isSlottable (node : NodeHandle) : Bool :=
  match dom.data node with
  | .element _ | .text => true
  | _ => false

/-- The loop of `containing_shadow_root`. -/
def containingShadowRootFrom : Nat → Option NodeHandle → Option (Option NodeHandle)
  | 0, _ => none
  | _ + 1, none => some none
  | limit + 1, some node =>
    if (dom.shadowRoot? node).isSome then some (some node)
    else containingShadowRootFrom limit (dom.parentNode node)

/-- `containing_shadow_root`. -/
def containingShadowRoot (limit : Nat) (node : NodeHandle) : Option (Option NodeHandle) :=
  dom.containingShadowRootFrom limit (some node)

/-- `collect_slots`. -/
def collectSlots : Nat → NodeHandle → Option (List NodeHandle)
  | 0, _ => none
  | limit + 1, node => do
    let slots ← (← dom.childNodes node).mapM fun child => do
      let below ← collectSlots limit child
      return if dom.isHtmlSlot child then child :: below else below
    return slots.flatten

/-- The name of a slot. -/
def slotName (slot : NodeHandle) : Text := (dom.getAttribute slot "name".toList).getD []

/-- The name of the slot that a node asks for. -/
def requestedName (node : NodeHandle) : Text :=
  match dom.data node with
  | .element element => (element.getAttribute "slot".toList).getD []
  | _ => []

/-- `first_slot_by_name`: a name is entered for the first slot that has it. -/
def firstSlotByName (slots : List NodeHandle) (name : Text) : Option NodeHandle :=
  slots.find? fun slot => dom.slotName slot == name

/-- The loop over the children of the host, with what it assigns. -/
def namedPairs (slots children : List NodeHandle) : List (NodeHandle × NodeHandle) :=
  (children.filter dom.isSlottable).filterMap fun child =>
    (dom.firstSlotByName slots (dom.requestedName child)).map (·, child)

/-- The loop over the slots of a root with manual assignment, with what it assigns. -/
def manualPairs (root : ShadowRoot) (slots : List NodeHandle) : List (NodeHandle × NodeHandle) :=
  slots.flatMap fun slot =>
    match root.manualAssignments slot with
    | none => []
    | some (stored, nodes) =>
      if stored = slot then
        (nodes.filter fun node => dom.parentNode node = some root.host).map (slot, ·)
      else []

/-- The assignments of a root, made anew. -/
def assignments (root : ShadowRoot) (slots children : List NodeHandle) : SlotAssignments :=
  let pairs :=
    if root.settings.manualSlotAssignment then dom.manualPairs root slots
    else dom.namedPairs slots children
  pairs.foldl .push (.empty slots)

/-- `slot_assignments`. -/
def slotAssignments (limit : Nat) (node : NodeHandle) :
    Option (Documents × Option SlotAssignments) :=
  match dom.shadowRoot? node with
  | none => some (dom, none)
  | some root =>
    let epoch := dom.epochs.slotAssignment
    match root.assignments.filter fun cached => cached.1 == epoch with
    | some (_, assignments) => some (dom, some assignments)
    | none => do
      let slots ← dom.collectSlots limit node
      let children ← dom.childNodes root.host
      let assignments := dom.assignments root slots children
      return (dom.setData node (.shadowRoot { root with assignments := some (epoch, assignments) }),
        some assignments)

/-- `assigned_slot`. -/
def assignedSlot (limit : Nat) (node : NodeHandle) : Option (Documents × Option NodeHandle) :=
  if dom.isSlottable node then
    match (dom.parentNode node).bind dom.shadowRoot with
    | none => some (dom, none)
    | some root => do
      let (dom, assignments) ← dom.slotAssignments limit root
      return (dom, assignments.bind (·.byNode node))
  else some (dom, none)

/-- `assigned_nodes` of a node, without `flatten`. -/
def assignedNodes (limit : Nat) (node : NodeHandle) : Option (Documents × List NodeHandle) :=
  if dom.isHtmlSlot node then do
    match ← dom.containingShadowRoot limit node with
    | none => return (dom, [])
    | some root =>
      let (dom, assignments) ← dom.slotAssignments limit root
      return (dom, (assignments.bind (·.bySlot node)).getD [])
  else some (dom, [])

/-- `assign_slottables`. -/
def assignSlottables (limit : Nat) (slot : NodeHandle) (nodes : List NodeHandle) :
    Option (Documents × Bool) :=
  if !dom.isHtmlSlot slot || nodes.any (!dom.isSlottable ·) then some (dom, false)
  else do
    match ← dom.containingShadowRoot limit slot with
    | none => return (dom, false)
    | some node =>
      match dom.shadowRoot? node with
      | none => return (dom, false)
      | some root =>
        if root.settings.manualSlotAssignment then
          let dom := dom.setData node (.shadowRoot (root.assign slot nodes))
          return (← dom.invalidateSlotAssignments, true)
        else return (dom, false)

/-- `flatten_slotables`. -/
def flattenSlotables : Nat → Documents → List NodeHandle → Option (Documents × List NodeHandle)
  | 0, _, _ => none
  | limit + 1, dom, nodes =>
    nodes.foldlM (fun (dom, output) node =>
      if dom.isHtmlSlot node then do
        let (dom, assigned) ← dom.assignedNodes limit node
        let nested ← (if assigned.isEmpty then dom.childNodes node else some assigned)
        let (dom, flattened) ← flattenSlotables limit dom nested
        return (dom, output ++ flattened)
      else some (dom, output ++ [node])) (dom, [])

/-- `assigned_nodes` of a node, with `flatten`. -/
def assignedNodesFlattened (limit : Nat) (node : NodeHandle) :
    Option (Documents × List NodeHandle) :=
  if dom.isHtmlSlot node then do
    match ← dom.containingShadowRoot limit node with
    | none => return (dom, [])
    | some root =>
      let (dom, assignments) ← dom.slotAssignments limit root
      let assigned := (assignments.bind (·.bySlot node)).getD []
      let source ← (if assigned.isEmpty then dom.childNodes node else some assigned)
      flattenSlotables limit dom source
  else some (dom, [])

/-! ## What the calls do -/

variable {dom} {dom' : Documents} {limit : Nat} {node slot : NodeHandle}

/-- `slot_assignments` is of no use on other nodes, finds a snapshot of the current epoch, or makes
one. -/
inductive SlotAssigned (dom : Documents) (limit : Nat) (node : NodeHandle) :
    Documents → Option SlotAssignments → Prop
  | other : dom.shadowRoot? node = none → SlotAssigned dom limit node dom none
  | cached {root : ShadowRoot} {assignments : SlotAssignments} : dom.data node = .shadowRoot root →
      root.assignments = some (dom.epochs.slotAssignment, assignments) →
      SlotAssigned dom limit node dom (some assignments)
  | made {root : ShadowRoot} {slots children : List NodeHandle} : dom.data node = .shadowRoot root →
      root.assignments.filter (·.1 == dom.epochs.slotAssignment) = none →
      dom.collectSlots limit node = some slots → dom.childNodes root.host = some children →
      SlotAssigned dom limit node
        (dom.setData node (.shadowRoot { root with
          assignments := some (dom.epochs.slotAssignment, dom.assignments root slots children) }))
        (some (dom.assignments root slots children))

theorem slotAssigned {assignments : Option SlotAssignments}
    (h : dom.slotAssignments limit node = some (dom', assignments)) :
    SlotAssigned dom limit node dom' assignments := by
  unfold slotAssignments at h
  split at h
  next hnone =>
    cases h
    exact .other hnone
  next root hroot =>
    have hdata := shadowRoot?_eq_some_iff.mp hroot
    dsimp only at h
    split at h
    next epoch assignments hcached =>
      cases h
      obtain ⟨hassignments, hepoch⟩ := Option.filter_eq_some_iff.mp hcached
      rw [beq_iff_eq] at hepoch
      exact .cached hdata (hepoch ▸ hassignments)
    next hnone =>
      obtain ⟨slots, hslots, h⟩ := Option.bind_eq_some_iff.mp h
      obtain ⟨children, hchildren, h⟩ := Option.bind_eq_some_iff.mp h
      cases h
      exact .made hdata hnone hslots hchildren

/-- `assign_slottables` does nothing, or assigns slottables to a slot of a manual root. -/
inductive SlottablesAssigned (dom : Documents) (limit : Nat) (slot : NodeHandle)
    (nodes : List NodeHandle) : Documents → Prop
  | refused : SlottablesAssigned dom limit slot nodes dom
  | assigned {node : NodeHandle} {root : ShadowRoot} {dom' : Documents} :
      (∀ node ∈ nodes, dom.isSlottable node = true) → dom.data node = .shadowRoot root →
      root.settings.manualSlotAssignment = true →
      (dom.setData node (.shadowRoot (root.assign slot nodes))).invalidateSlotAssignments = some dom' →
      SlottablesAssigned dom limit slot nodes dom'

theorem slottablesAssigned {nodes : List NodeHandle} {assigned : Bool}
    (h : dom.assignSlottables limit slot nodes = some (dom', assigned)) :
    SlottablesAssigned dom limit slot nodes dom' := by
  unfold assignSlottables at h
  split at h
  next =>
    cases h
    exact .refused
  next hallowed =>
    obtain ⟨container, -, h⟩ := Option.bind_eq_some_iff.mp h
    cases container with
    | none =>
      cases h
      exact .refused
    | some node =>
      dsimp only at h
      split at h
      next =>
        cases h
        exact .refused
      next root hroot =>
        split at h
        next hmanual =>
          obtain ⟨between, hbetween, h⟩ := Option.bind_eq_some_iff.mp h
          cases h
          refine .assigned (fun node hnode => ?_) (shadowRoot?_eq_some_iff.mp hroot) hmanual hbetween
          by_contra hnot
          refine hallowed (Bool.or_eq_true _ _ ▸ .inr (List.any_eq_true.mpr ⟨node, hnode, ?_⟩))
          rw [Bool.eq_false_of_not_eq_true hnot]
          rfl
        next =>
          cases h
          exact .refused

/-- `set_shadow_root_settings` does nothing, or writes the settings of a root and invalidates if the
mode of assignment changed. -/
inductive SettingsSet (dom : Documents) (node : NodeHandle) (settings : ShadowRootSettings) :
    Documents → Prop
  | other : SettingsSet dom node settings dom
  | same {root : ShadowRoot} : dom.data node = .shadowRoot root →
      root.settings.manualSlotAssignment = settings.manualSlotAssignment →
      SettingsSet dom node settings (dom.setData node (.shadowRoot { root with settings }))
  | changed {root : ShadowRoot} {dom' : Documents} : dom.data node = .shadowRoot root →
      (dom.setData node (.shadowRoot { root with settings })).invalidateSlotAssignments = some dom' →
      SettingsSet dom node settings dom'

theorem settingsSet {settings : ShadowRootSettings} {changed : Bool}
    (h : dom.setShadowRootSettings node settings = some (dom', changed)) :
    SettingsSet dom node settings dom' := by
  unfold setShadowRootSettings at h
  split at h
  next root hroot =>
    dsimp only at h
    split at h
    next =>
      obtain ⟨between, hbetween, heq⟩ := Option.map_eq_some_iff.mp h
      cases heq
      exact .changed hroot hbetween
    next hsame =>
      cases h
      refine .same hroot ?_
      simpa using hsame
  next =>
    cases h
    exact .other

end Documents

end Omoikane.Dom.Live
