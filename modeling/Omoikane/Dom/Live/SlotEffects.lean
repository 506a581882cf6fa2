import Omoikane.Dom.Live.FindSlot

/-!
# What calls do to slots

`effects_of_ends` says it for all calls at once.  Every call keeps the kinds of nodes, and changes a
shadow root in a few ways only.  A call that is settled, moreover, advances the epoch of slot
assignments, or leaves everything that slots are assigned by.
-/

namespace Omoikane.Dom.Live

open Base Relation

/-- An attribute that slots are assigned by. -/
def assigning (record : AttributeRecord) : Bool := assigns record.qualifiedName

/-- A call that changes a `slot` or `name` attribute passes that name, and a call on the tree does not
make a child of a shadow root. -/
def Mutation.Settled (dom : Documents) : Mutation → Prop
  | .attributes node call => ∀ element, dom.data node = .element element →
      call.Announces assigning (·.any assigns) element
  | .tree (.appendChild _ child) | .tree (.insertBefore _ child _) => dom.shadowRoot? child = none
  | _ => True

/-! ## Entries of a root -/

section

variable {root root' : ShadowRoot} {slot other node : NodeHandle} {nodes : List NodeHandle}

theorem ShadowRoot.manuallyAssigned_assign_self :
    (root.assign slot nodes).manuallyAssigned slot = nodes.eraseDups := by
  rw [manuallyAssigned, assign]
  dsimp only
  rw [Function.update_self]
  rfl

theorem ShadowRoot.manuallyAssigned_assign_of_ne (h : other ≠ slot) :
    (root.assign slot nodes).manuallyAssigned other =
      (root.manuallyAssigned other).filter (· ∉ nodes) := by
  rw [manuallyAssigned, assign, manuallyAssigned]
  dsimp only
  rw [Function.update_of_ne h]
  cases root.manualAssignments other <;> rfl

/-- What is assigned is in the entry of the slot, and in no other. -/
theorem ShadowRoot.Sorted.assign (h : root.Sorted) : (root.assign slot nodes).Sorted := by
  refine ⟨fun key stored assigned hentry => ?_, fun key key' other hother hother' => ?_⟩
  · rw [ShadowRoot.assign] at hentry
    dsimp only at hentry
    by_cases hkey : key = slot
    · rw [hkey, Function.update_self] at hentry
      cases hentry
      exact hkey.symm
    · rw [Function.update_of_ne hkey] at hentry
      obtain ⟨⟨stored', assigned'⟩, hentry', heq⟩ := Option.map_eq_some_iff.mp hentry
      cases heq
      exact h.stored key _ _ hentry'
  · have hout : ∀ {key : NodeHandle}, key ≠ slot →
        other ∈ (root.assign slot nodes).manuallyAssigned key → other ∉ nodes := by
      intro key hkey hmem
      rw [manuallyAssigned_assign_of_ne hkey] at hmem
      exact of_decide_eq_true (List.mem_filter.mp hmem).2
    by_cases hkey : key = slot
    · by_cases hkey' : key' = slot
      · rw [hkey, hkey']
      · rw [hkey, manuallyAssigned_assign_self, List.mem_eraseDups] at hother
        exact (hout hkey' hother' hother).elim
    · by_cases hkey' : key' = slot
      · rw [hkey', manuallyAssigned_assign_self, List.mem_eraseDups] at hother'
        exact (hout hkey hother hother').elim
      · rw [manuallyAssigned_assign_of_ne hkey] at hother
        rw [manuallyAssigned_assign_of_ne hkey'] at hother'
        exact h.apart _ _ _ (List.mem_filter.mp hother).1 (List.mem_filter.mp hother').1

theorem ShadowRoot.Sorted.congr (h : root.Sorted)
    (hsame : root'.manualAssignments = root.manualAssignments) : root'.Sorted := by
  refine ⟨fun key stored assigned hentry => ?_, fun key key' other hother hother' => ?_⟩
  · exact h.stored key stored assigned (hsame ▸ hentry)
  · rw [ShadowRoot.manuallyAssigned, hsame] at hother hother'
    exact h.apart key key' other hother hother'

end

/-! ## Names and kinds -/

section

variable {dom dom' : Documents} {lists : ChildLists}

/-- Fresh assignments depend on the names of slots and of what asks for them. -/
theorem assignments_congr {root root' : ShadowRoot} {slots children : List NodeHandle}
    (hsettings : root'.settings.manualSlotAssignment = root.settings.manualSlotAssignment)
    (hmanual : root'.manualAssignments = root.manualAssignments) (hhost : root'.host = root.host)
    (hparent : dom'.parentNode = dom.parentNode)
    (hslots : ∀ slot ∈ slots, dom'.slotName slot = dom.slotName slot)
    (hchildren : ∀ child ∈ children, dom'.isSlottable child = dom.isSlottable child ∧
      dom'.requestedName child = dom.requestedName child) :
    dom'.assignments root' slots children = dom.assignments root slots children := by
  have hfirst : ∀ name, dom'.firstSlotByName slots name = dom.firstSlotByName slots name := fun name =>
    List.find?_congr fun slot hslot => by rw [hslots slot hslot]
  have hnamed : dom'.namedPairs slots children = dom.namedPairs slots children := by
    rw [Documents.namedPairs, Documents.namedPairs,
      List.filter_congr fun child hchild => (hchildren child hchild).1]
    refine List.filterMap_congr fun child hchild => ?_
    rw [hfirst, (hchildren child (List.mem_of_mem_filter hchild)).2]
  rw [Documents.assignments, Documents.assignments, Documents.manualPairs, Documents.manualPairs,
    hsettings, hmanual, hhost, hparent, hnamed]

/-- Nodes that there were are the slots and slottables they were. -/
structure Alike (dom dom' : Documents) : Prop where
  nextId : dom.nextId ≤ dom'.nextId
  isHtmlSlot : ∀ node < dom.nextId, dom'.isHtmlSlot node = dom.isHtmlSlot node
  isSlottable : ∀ node < dom.nextId, dom'.isSlottable node = dom.isSlottable node

/-- They have the names they had, too. -/
structure NamedAlike (dom dom' : Documents) : Prop extends Alike dom dom' where
  slotName : ∀ node < dom.nextId, dom'.slotName node = dom.slotName node
  requestedName : ∀ node < dom.nextId, dom'.requestedName node = dom.requestedName node

/-- The assignments of a root stay, if names and links do. -/
theorem freshAssignments_same (h : Consistent dom lists) (h' : Consistent dom' lists)
    (halike : NamedAlike dom dom') {node : NodeHandle} {root root' : ShadowRoot}
    (hsettings : root'.settings.manualSlotAssignment = root.settings.manualSlotAssignment)
    (hmanual : root'.manualAssignments = root.manualAssignments) (hhost : root'.host = root.host) :
    dom'.freshAssignments node root' = dom.freshAssignments node root := by
  have hknown : ∀ slot ∈ descendants lists node, slot < dom.nextId := by
    intro slot hslot
    obtain ⟨parent, hparent, -⟩ := TransGen.head'_iff.mp (h.mem_descendants.mp hslot)
    exact (h.known parent slot (h.parent_iff.mp hparent)).2
  have hslots : dom'.slotsBelow node = dom.slotsBelow node := by
    rw [Documents.slotsBelow, Documents.slotsBelow, h.children_eq, h'.children_eq]
    exact List.filter_congr fun slot hslot => halike.isHtmlSlot slot (hknown slot hslot)
  have hparent : dom'.parentNode = dom.parentNode := by
    funext child
    refine Option.ext fun parent => ?_
    rw [h.parent_iff, h'.parent_iff]
  rw [Documents.freshAssignments, Documents.freshAssignments, hslots, hhost, h.children_eq,
    h'.children_eq]
  refine assignments_congr hsettings hmanual hhost hparent (fun slot hslot => ?_) fun child hchild => ?_
  · rw [Documents.slotsBelow, h.children_eq] at hslot
    exact halike.slotName slot (hknown slot (List.mem_of_mem_filter hslot))
  · have hchild := (h.known _ child hchild).2
    exact ⟨halike.isSlottable child hchild, halike.requestedName child hchild⟩

end

/-! ## Payloads after a call -/

section

variable {dom dom' : Documents} {lists : ChildLists} {node : NodeHandle}

/-- A payload of the same kind, of a slot where it was one. -/
inductive Resembles : NodeData → NodeData → Prop
  | same {data : NodeData} : Resembles data data
  | element {element element' : Element} : element'.html = element.html →
      element'.localNameOrTag = element.localNameOrTag →
      Resembles (.element element) (.element element')
  | shadowRoot {root root' : ShadowRoot} : Resembles (.shadowRoot root) (.shadowRoot root')

theorem isHtmlSlot_congr (h : Resembles (dom.data node) (dom'.data node)) :
    dom'.isHtmlSlot node = dom.isHtmlSlot node := by
  rw [Documents.isHtmlSlot, Documents.isHtmlSlot, Documents.element?, Documents.element?]
  revert h
  generalize dom.data node = data
  generalize dom'.data node = data'
  rintro (_ | ⟨hhtml, hname⟩ | _)
  · rfl
  · dsimp only
    rw [hhtml, hname]
  · rfl

theorem isSlottable_congr (h : Resembles (dom.data node) (dom'.data node)) :
    dom'.isSlottable node = dom.isSlottable node := by
  rw [Documents.isSlottable, Documents.isSlottable]
  revert h
  generalize dom.data node = data
  generalize dom'.data node = data'
  rintro (_ | _ | _) <;> rfl

theorem Alike.of_resembles (hnext : dom.nextId ≤ dom'.nextId)
    (h : ∀ node < dom.nextId, Resembles (dom.data node) (dom'.data node)) : Alike dom dom' :=
  ⟨hnext, fun node hnode => isHtmlSlot_congr (h node hnode),
    fun node hnode => isSlottable_congr (h node hnode)⟩

/-- The value of the first attribute with a qualified name. -/
def valueOf (name : Text) (records : List AttributeRecord) : Option Text :=
  (records.find? (·.qualifiedName == name)).map (·.value)

theorem getAttribute_eq {element : Element} {name : Text} (hlower : Text.toAsciiLowercase name = name) :
    element.getAttribute name = valueOf name element.attributeRecords := by
  rw [Element.getAttribute, hlower, valueOf]
  dsimp only
  split
  next => rw [Option.or_self]
  next => rw [Option.or_none]

theorem slotName_eq : dom.slotName node = (valueOf "name".toList (dom.records node)).getD [] := by
  rw [Documents.slotName, Documents.getAttribute, Documents.records]
  cases dom.element? node with
  | none => rfl
  | some element => rw [Option.bind_some, getAttribute_eq (by decide), Option.map_some, Option.getD_some]

theorem requestedName_eq :
    dom.requestedName node = (valueOf "slot".toList (dom.records node)).getD [] := by
  rw [Documents.requestedName, Documents.records, Documents.element?]
  cases dom.data node with
  | element element =>
    dsimp only
    rw [getAttribute_eq (by decide), Option.map_some, Option.getD_some]
  | _ => rfl

/-- The attributes that slots are assigned by are enough. -/
theorem valueOf_filter {name : Text} (hassigns : assigns name = true) (records : List AttributeRecord) :
    valueOf name (records.filter assigning) = valueOf name records := by
  rw [valueOf, valueOf, List.find?_filter]
  refine congrArg (Option.map _) (List.find?_congr fun record _ => ?_)
  cases hname : record.qualifiedName == name with
  | false => simp
  | true =>
    rw [assigning, beq_iff_eq.mp hname, hassigns]
    rfl

/-- The names of a node stay, if the attributes do that slots are assigned by. -/
theorem NamedAlike.of_records (halike : Alike dom dom') (h : ∀ node < dom.nextId,
    (dom'.records node).filter assigning = (dom.records node).filter assigning) :
    NamedAlike dom dom' := by
  have hvalue : ∀ {name : Text}, assigns name = true → ∀ node < dom.nextId,
      valueOf name (dom'.records node) = valueOf name (dom.records node) := by
    intro name hassigns node hnode
    rw [← valueOf_filter hassigns, h node hnode, valueOf_filter hassigns]
  refine { halike with slotName := fun node hnode => ?_, requestedName := fun node hnode => ?_ }
  · rw [slotName_eq, slotName_eq, hvalue (by decide) node hnode]
  · rw [requestedName_eq, requestedName_eq, hvalue (by decide) node hnode]

end

/-! ## Effects -/

/-- A shadow root is new, or was there with the same entries or some that were assigned, and has the
snapshot it had or a fresh one. -/
def Grown (dom dom' : Documents) : Prop :=
  ∀ node root', dom'.data node = .shadowRoot root' →
    (dom.nextId ≤ node ∧ ∃ host mode, root' = .blank host mode) ∨
      ∃ root, dom.data node = .shadowRoot root ∧ root'.host = root.host ∧
        (root'.manualAssignments = root.manualAssignments ∨ ∃ slot nodes,
          root'.manualAssignments = (root.assign slot nodes).manualAssignments ∧
            ∀ other ∈ nodes, other < dom.nextId ∧ dom.isSlottable other = true) ∧
        (root'.assignments = root.assignments ∨
          root'.assignments = some (dom.epochs.slotAssignment, dom.freshAssignments node root))

/-- A shadow root is new, or was there and has the snapshot it had or a fresh one. -/
def Kept (dom dom' : Documents) : Prop :=
  ∀ node root', dom'.data node = .shadowRoot root' →
    (dom.nextId ≤ node ∧ ∃ host mode, root' = .blank host mode) ∨
      ∃ root, dom.data node = .shadowRoot root ∧
        root'.settings.manualSlotAssignment = root.settings.manualSlotAssignment ∧
        root'.manualAssignments = root.manualAssignments ∧ root'.host = root.host ∧
        (root'.assignments = root.assignments ∨
          root'.assignments = some (dom.epochs.slotAssignment, dom.freshAssignments node root))

/-- What a call does to slots. -/
structure Effects (dom : Documents) (lists : ChildLists) (dom' : Documents) (settled : Prop) :
    Prop where
  alike : Alike dom dom'
  grown : Grown dom dom'
  rootless : settled → ∀ node root', dom'.data node = .shadowRoot root' →
    (∀ root, dom.data node = .shadowRoot root → dom.parentNode node = none) →
    dom'.parentNode node = none
  links : dom.epochs.slotAssignment < dom'.epochs.slotAssignment ∨
    (dom'.epochs.slotAssignment = dom.epochs.slotAssignment ∧ Consistent dom' lists)
  later_or_same : settled → dom.epochs.slotAssignment < dom'.epochs.slotAssignment ∨
    (dom'.epochs.slotAssignment = dom.epochs.slotAssignment ∧ NamedAlike dom dom' ∧
      Kept dom dom' ∧ Consistent dom' lists)

section

variable {dom dom' : Documents} {lists lists' : ChildLists} {mutation : Mutation} {settled : Prop}
  {node : NodeHandle}

theorem Kept.grown (h : Kept dom dom') : Grown dom dom' := by
  intro node root' hroot'
  rcases h node root' hroot' with hnew | ⟨root, hroot, -, hmanual, hhost, hassignments⟩
  · exact .inl hnew
  · exact .inr ⟨root, hroot, hhost, .inl hmanual, hassignments⟩

theorem Kept.of_roots
    (h : ∀ node root, dom'.data node = .shadowRoot root → dom.data node = .shadowRoot root) :
    Kept dom dom' :=
  fun node root hroot => .inr ⟨root, h node root hroot, rfl, rfl, rfl, .inl rfl⟩

/-- Entries are of slottables. -/
theorem Grown.slottable (hgrown : Grown dom dom') (halike : Alike dom dom')
    (hslottable : ∀ node root slot other, dom.data node = .shadowRoot root →
      other ∈ root.manuallyAssigned slot → other < dom.nextId ∧ dom.isSlottable other = true)
    {root' : ShadowRoot} {slot other : NodeHandle} (hroot : dom'.data node = .shadowRoot root')
    (hmem : other ∈ root'.manuallyAssigned slot) :
    other < dom'.nextId ∧ dom'.isSlottable other = true := by
  have hknown : other < dom.nextId ∧ dom.isSlottable other = true := by
    rcases hgrown node root' hroot with
      ⟨-, host, mode, rfl⟩ | ⟨root, hbefore, -, hsame | ⟨slot', nodes, hassigned, hnodes⟩, -⟩
    · cases hmem
    · rw [ShadowRoot.manuallyAssigned, hsame] at hmem
      exact hslottable node root slot other hbefore hmem
    · rw [ShadowRoot.manuallyAssigned, hassigned, ← ShadowRoot.manuallyAssigned] at hmem
      by_cases hslot : slot = slot'
      · rw [hslot, ShadowRoot.manuallyAssigned_assign_self, List.mem_eraseDups] at hmem
        exact hnodes other hmem
      · rw [ShadowRoot.manuallyAssigned_assign_of_ne hslot] at hmem
        exact hslottable node root slot other hbefore (List.mem_of_mem_filter hmem)
  exact ⟨hknown.1.trans_le halike.nextId, (halike.isSlottable other hknown.1).trans hknown.2⟩

/-- Where the links stay, so does what has no parent. -/
theorem rootless_of_grown (h : Consistent dom lists) (h' : Consistent dom' lists)
    (hgrown : Grown dom dom') {root' : ShadowRoot} (hroot' : dom'.data node = .shadowRoot root')
    (hrootless : ∀ root, dom.data node = .shadowRoot root → dom.parentNode node = none) :
    dom'.parentNode node = none := by
  have hnone : dom.parentNode node = none := by
    rcases hgrown node root' hroot' with ⟨hnew, -⟩ | ⟨root, hroot, -⟩
    · refine Option.eq_none_iff_forall_ne_some.mpr fun parent hparent => ?_
      exact Nat.not_lt_of_le hnew (h.known _ _ (h.parent_iff.mp hparent)).2
    · exact hrootless root hroot
  refine Option.eq_none_iff_forall_ne_some.mpr fun parent hparent => ?_
  rw [h.parent_iff.mpr (h'.parent_iff.mp hparent)] at hnone
  cases hnone

/-- Nothing is done that slots are assigned by. -/
theorem Effects.quiet (h : Consistent dom lists) (h' : Consistent dom' lists) (hkeeps : dom.Keeps dom')
    (hresembles : ∀ node < dom.nextId, Resembles (dom.data node) (dom'.data node))
    (hkept : Kept dom dom') (hepoch : dom'.epochs.slotAssignment = dom.epochs.slotAssignment) :
    Effects dom lists dom' settled where
  alike := .of_resembles hkeeps.nextId hresembles
  grown := hkept.grown
  rootless _ _ _ hroot' := rootless_of_grown h h' hkept.grown hroot'
  links := .inr ⟨hepoch, h'⟩
  later_or_same _ := .inr ⟨hepoch, .of_records (.of_resembles hkeeps.nextId hresembles)
    fun node hnode => by rw [hkeeps.records node hnode], hkept, h'⟩

theorem Effects.refl (h : Consistent dom lists) : Effects dom lists dom settled :=
  .quiet h h .refl (fun _ _ => .same) (.of_roots fun _ _ => id) rfl

/-- The links stay, and the epoch is later. -/
theorem Effects.later (h : Consistent dom lists) (h' : Consistent dom' lists)
    (halike : Alike dom dom') (hgrown : Grown dom dom')
    (hepoch : dom.epochs.slotAssignment < dom'.epochs.slotAssignment) :
    Effects dom lists dom' settled where
  alike := halike
  grown := hgrown
  rootless _ _ _ hroot' := rootless_of_grown h h' hgrown hroot'
  links := .inl hepoch
  later_or_same _ := .inl hepoch

/-- A node is created that is no shadow root. -/
theorem mint_data_root {data : NodeData} {root : ShadowRoot} (hdata : ∀ root, data ≠ .shadowRoot root)
    (h : (dom.mint data).data node = .shadowRoot root) : dom.data node = .shadowRoot root := by
  by_cases hnode : node = dom.nextId
  · rw [hnode, Documents.mint_data_self] at h
    exact (hdata root h).elim
  · rwa [Documents.mint_data_of_ne _ hnode] at h

theorem create_data_root {source : NodeSource} {root : ShadowRoot}
    (h : (dom.create source).data node = .shadowRoot root) : dom.data node = .shadowRoot root := by
  cases source with
  | element name =>
    rw [Documents.create] at h
    split at h
    next => exact mint_data_root (fun _ heq => by cases heq) h
    next =>
      have h := mint_data_root (fun _ heq => by cases heq) h
      exact mint_data_root (fun _ heq => by cases heq) h
  | _ => exact mint_data_root (fun _ heq => by cases heq) h

theorem create_data_of_lt {source : NodeSource} (hnode : node < dom.nextId) :
    (dom.create source).data node = dom.data node := by
  cases source with
  | element name =>
    rw [Documents.create]
    split
    next => exact Documents.mint_data_of_ne _ hnode.ne
    next =>
      rw [Documents.mint_data_of_ne _ (Nat.lt_succ_of_lt hnode).ne,
        Documents.mint_data_of_ne _ hnode.ne]
  | _ => exact Documents.mint_data_of_ne _ hnode.ne

theorem create_epochs (source : NodeSource) : (dom.create source).epochs = dom.epochs := by
  cases source with
  | element name =>
    rw [Documents.create]
    split <;> rfl
  | _ => rfl

theorem effects_create (h : Consistent dom lists) (source : NodeSource) :
    Effects dom lists (dom.create source) settled := by
  refine .quiet h (h.create source) (Documents.keeps_create source) (fun node hnode => ?_)
    (.of_roots fun _ _ => create_data_root) (by rw [create_epochs])
  rw [create_data_of_lt hnode]
  exact .same

theorem effects_attachShadow (h : Consistent dom lists) {host : NodeHandle}
    (hknown : host < dom.nextId) (mode : ShadowRootMode) :
    Effects dom lists (dom.attachShadow host mode).1 settled := by
  have h' := h.attachShadow host mode
  have hkeeps := Documents.keeps_attachShadow hknown mode
  revert h' hkeeps
  unfold Documents.attachShadow
  split
  next element helement =>
    split
    next => exact fun _ _ => .refl h
    next =>
      intro h' hkeeps
      obtain ⟨hhost, hroot, hother⟩ := Consistent.attached_data hknown
        { element with shadowRoot := some dom.nextId } (.blank host mode)
      refine .quiet h h' hkeeps (fun node hnode => ?_) (fun node root' hroot' => ?_) rfl
      · by_cases hsame : node = host
        · rw [hsame, helement, hhost]
          exact .element rfl rfl
        · rw [hother node hsame hnode.ne]
          exact .same
      · by_cases hnew : node = dom.nextId
        · rw [hnew, hroot] at hroot'
          cases hroot'
          exact .inl ⟨hnew.ge, host, mode, rfl⟩
        · have hsame : node ≠ host := by
            rintro rfl
            rw [hhost] at hroot'
            cases hroot'
          rw [hother node hsame hnew] at hroot'
          exact .inr ⟨root', hroot', rfl, rfl, rfl, .inl rfl⟩
  next => exact fun _ _ => .refl h

/-- A payload is written over an element. -/
theorem setElement_root {element' : Element} {other : NodeHandle} {root : ShadowRoot}
    (hroot : (dom.setData node (.element element')).data other = .shadowRoot root) :
    dom.data other = .shadowRoot root := by
  by_cases hother : other = node
  · rw [hother, Documents.setData_self] at hroot
    cases hroot
  · rwa [Documents.setData_of_ne _ hother] at hroot

theorem resembles_setData {data : NodeData} (h : Resembles (dom.data node) data) (other : NodeHandle) :
    Resembles (dom.data other) ((dom.setData node data).data other) := by
  by_cases hother : other = node
  · rw [hother, Documents.setData_self]
    exact h
  · rw [Documents.setData_of_ne _ hother]
    exact .same

theorem effects_setTemplateContent (h : Consistent dom lists)
    {content : NodeHandle} (h' : Consistent (dom.setTemplateContent node content).1 lists) :
    Effects dom lists (dom.setTemplateContent node content).1 settled := by
  have hkeeps := @Documents.keeps_setTemplateContent dom node content
  revert h' hkeeps
  unfold Documents.setTemplateContent
  split
  next element helement =>
    split
    next =>
      intro h' hkeeps
      refine .quiet h h' hkeeps (fun other _ => resembles_setData ?_ other)
        (.of_roots fun _ _ => setElement_root) rfl
      rw [helement]
      exact .element rfl rfl
    next => exact fun _ _ => .refl h
  next => exact fun _ _ => .refl h

/-- A call on the tree that does something makes all snapshots old. -/
theorem effects_moves {call : TreeCall} (h : Consistent dom lists)
    (h' : Consistent dom' (call.onLists lists).1) (hmoves : dom.Moves dom') :
    Effects dom lists dom' ((Mutation.tree call).Settled dom) := by
  have hlt := hmoves.slotAssignment_lt
  obtain ⟨_, _, _, rfl⟩ := hmoves.eq
  refine ⟨.of_resembles le_rfl fun _ _ => .same, fun node root hroot =>
    .inr ⟨root, hroot, rfl, .inl rfl, .inl rfl⟩, fun hsettled node root hroot hrootless => ?_,
    .inl hlt, fun _ => .inl hlt⟩
  have hnone := hrootless root hroot
  refine Option.eq_none_iff_forall_ne_some.mpr fun parent hparent => ?_
  rcases mem_onLists (h'.parent_iff.mp hparent) with hmem | ⟨-, hmem⟩
  · rw [h.parent_iff.mpr hmem] at hnone
    cases hnone
  · -- the root would be the child that was moved
    have hchild : dom.shadowRoot? node = none := by
      cases call with
      | appendChild | insertBefore =>
        obtain ⟨-, rfl⟩ := hmem
        exact hsettled
      | removeChild => exact hmem.elim
    cases hchild.symm.trans (Documents.shadowRoot?_eq_some_iff.mpr hroot)

theorem effects_attributes {call : AttributeCall} (h : Consistent dom lists)
    (h' : Consistent dom' lists) (hperform : dom.performAttribute node call = some dom') :
    Effects dom lists dom' ((Mutation.attributes node call).Settled dom) := by
  rw [Documents.performAttribute] at hperform
  split at hperform
  next element helement =>
    split at hperform
    next element' names hcall =>
      obtain ⟨epochs, hepochs, rfl⟩ := Option.map_eq_some_iff.mp hperform
      have hepoch : epochs.slotAssignment =
          dom.epochs.slotAssignment + if names.any assigns then 1 else 0 := by
        rw [Epochs.invalidateForAttribute_eq hepochs]
      have hresembles : ∀ other, Resembles (dom.data other)
          ((dom.setData node (.element element')).data other) := by
        obtain ⟨_, _, rfl⟩ := AttributeCall.same_of_perform hcall
        refine resembles_setData ?_
        rw [helement]
        exact .element rfl rfl
      have halike : Alike dom { dom.setData node (.element element') with epochs } :=
        .of_resembles le_rfl fun other _ => hresembles other
      have hroots : Kept dom { dom.setData node (.element element') with epochs } :=
        .of_roots fun _ _ => setElement_root
      have hlinks : dom.epochs.slotAssignment < epochs.slotAssignment ∨
          (epochs.slotAssignment = dom.epochs.slotAssignment ∧ names.any assigns = false) := by
        rw [hepoch]
        cases names.any assigns with
        | true => exact .inl (Nat.lt_succ_self _)
        | false => exact .inr ⟨rfl, rfl⟩
      refine ⟨halike, hroots.grown, fun _ _ _ hroot => rootless_of_grown h h' hroots.grown hroot,
        hlinks.imp_right fun hsame => ⟨hsame.1, h'⟩, fun hsettled => hlinks.imp_right ?_⟩
      rintro ⟨hepoch, hheard⟩
      have hkept := (AttributeCall.filter_kept_iff
        (fun record record' hnames => by
          rw [assigning, assigning, (List.cons.inj hnames).1])
        (fun record names hnames hrelevant => List.any_eq_true.mpr
          ⟨_, hnames List.mem_cons_self, hrelevant⟩) hcall).mpr (hsettled element helement)
      refine ⟨hepoch, .of_records halike fun other _ => ?_, hroots, h'⟩
      rcases hkept with hkept | hheard'
      · by_cases hother : other = node
        · rw [hother, Documents.records_of_element helement]
          exact (congrArg _ (Documents.records_of_element (Documents.setData_self _))).trans hkept
        · exact congrArg _ (Documents.records_congr (Documents.setData_of_ne _ hother))
      · rw [hheard] at hheard'
        cases hheard'
    next =>
      cases hperform
      exact .refl h
  next =>
    cases hperform
    exact .refl h

/-- A shadow root is the one that was written or was there before. -/
theorem setShadowRoot_root {root' found : ShadowRoot} {other : NodeHandle}
    (hfound : (dom.setData node (.shadowRoot root')).data other = .shadowRoot found) :
    (other = node ∧ found = root') ∨ (other ≠ node ∧ dom.data other = .shadowRoot found) := by
  by_cases hother : other = node
  · rw [hother, Documents.setData_self] at hfound
    cases hfound
    exact .inl ⟨hother, rfl⟩
  · rw [Documents.setData_of_ne _ hother] at hfound
    exact .inr ⟨hother, hfound⟩

/-- A shadow root is written with the host and the mode of assignment it had. -/
theorem effects_setShadowRoot (h : Consistent dom lists) {root root' : ShadowRoot}
    (hroot : dom.data node = .shadowRoot root)
    (hsettings : root'.settings.manualSlotAssignment = root.settings.manualSlotAssignment)
    (hmanual : root'.manualAssignments = root.manualAssignments) (hhost : root'.host = root.host)
    (hassignments : root'.assignments = root.assignments ∨
      root'.assignments = some (dom.epochs.slotAssignment, dom.freshAssignments node root)) :
    Effects dom lists (dom.setData node (.shadowRoot root')) settled := by
  refine .quiet h (h.setShadowRoot hroot hhost) (Documents.keeps_setShadowRoot hroot)
    (fun other _ => resembles_setData ?_ other) (fun other found hfound => ?_) rfl
  · rw [hroot]
    exact .shadowRoot
  · rcases setShadowRoot_root hfound with ⟨rfl, rfl⟩ | ⟨-, hfound⟩
    · exact .inr ⟨root, hroot, hsettings, hmanual, hhost, hassignments⟩
    · exact .inr ⟨found, hfound, rfl, rfl, rfl, .inl rfl⟩

/-- A shadow root is written and all snapshots are old then. -/
theorem effects_setShadowRoot_later (h : Consistent dom lists) (h' : Consistent dom' lists)
    {root root' : ShadowRoot} (hroot : dom.data node = .shadowRoot root)
    (hmanual : root'.manualAssignments = root.manualAssignments ∨ ∃ slot nodes,
      root'.manualAssignments = (root.assign slot nodes).manualAssignments ∧
        ∀ other ∈ nodes, other < dom.nextId ∧ dom.isSlottable other = true)
    (hassignments : root'.assignments = root.assignments) (hhost : root'.host = root.host)
    (hinvalidate : (dom.setData node (.shadowRoot root')).invalidateSlotAssignments = some dom') :
    Effects dom lists dom' settled := by
  obtain ⟨epochs, hepochs, rfl⟩ := Option.map_eq_some_iff.mp hinvalidate
  have hresembles : ∀ other, Resembles (dom.data other)
      ((dom.setData node (.shadowRoot root')).data other) := by
    refine resembles_setData ?_
    rw [hroot]
    exact .shadowRoot
  refine .later h h' (.of_resembles le_rfl fun other _ => hresembles other) (fun other found hfound => ?_) ?_
  · rcases setShadowRoot_root hfound with ⟨rfl, rfl⟩ | ⟨-, hfound⟩
    · exact .inr ⟨root, hroot, hhost, hmanual, .inl hassignments⟩
    · exact .inr ⟨found, hfound, rfl, .inl rfl, .inl rfl⟩
  · dsimp only
    rw [Epochs.invalidateSlotAssignments_eq hepochs]
    exact Nat.lt_succ_self _

theorem effects_slotAssignments (h : Consistent dom lists) {limit : Nat}
    {assignments : Option SlotAssignments}
    (hassignments : dom.slotAssignments limit node = some (dom', assignments)) :
    Effects dom lists dom' settled := by
  cases Documents.slotAssigned hassignments with
  | other | cached => exact .refl h
  | made hroot _ hslots hchildren =>
    refine effects_setShadowRoot h hroot rfl rfl rfl (.inr ?_)
    rw [h.childNodes] at hchildren
    cases hchildren
    rw [Documents.freshAssignments, h.collectSlots_eq hslots, h.children_eq]

theorem effects_presents (h : Consistent dom lists) (hpresents : dom.Presents dom') :
    Effects dom lists dom' settled := by
  have h' := h.presents hpresents
  have hkeeps := hpresents.keeps
  obtain ⟨_, rfl⟩ := hpresents
  exact .quiet h h' hkeeps (fun _ _ => .same) (.of_roots fun _ _ => id) rfl

/-- What a call that ends does to slots. -/
theorem effects_of_ends (h : Consistent dom lists) (hends : mutation.Ends dom dom') :
    Effects dom lists dom' (mutation.Settled dom) := by
  have h' := h.step hends
  obtain ⟨hknown, limit, hperform⟩ := hends
  cases mutation with
  | create source =>
    cases hperform
    exact effects_create h source
  | tree call =>
    obtain ⟨⟨between, result⟩, hbetween, rfl⟩ := Option.map_eq_some_iff.mp hperform
    rcases (Documents.performTree_spec hbetween).2 with rfl | hmoves
    · exact .refl h
    · exact effects_moves h h' hmoves
  | attachShadow host mode =>
    cases hperform
    exact effects_attachShadow h (hknown host (List.mem_singleton_self _)) mode
  | setTemplateContent node content =>
    cases hperform
    exact effects_setTemplateContent h h'
  | attributes node call => exact effects_attributes h h' hperform
  | setShadowRootSettings root settings =>
    obtain ⟨⟨between, changed⟩, hbetween, rfl⟩ := Option.map_eq_some_iff.mp hperform
    cases Documents.settingsSet hbetween with
    | other => exact .refl h
    | same hroot hsettings => exact effects_setShadowRoot h hroot hsettings.symm rfl rfl (.inl rfl)
    | changed hroot hinvalidate =>
      refine effects_setShadowRoot_later h h' hroot (.inl ?_) ?_ ?_ hinvalidate <;> rfl
  | assignSlottables slot nodes =>
    obtain ⟨⟨between, assigned⟩, hbetween, rfl⟩ := Option.map_eq_some_iff.mp hperform
    cases Documents.slottablesAssigned hbetween with
    | refused => exact .refl h
    | assigned hslottable hroot _ hinvalidate =>
      refine effects_setShadowRoot_later h h' hroot
        (.inr ⟨slot, nodes, rfl, fun other hother => ?_⟩) rfl rfl hinvalidate
      exact ⟨hknown other (List.mem_cons_of_mem _ hother), hslottable other hother⟩
  | slotAssignments root =>
    obtain ⟨⟨between, assignments⟩, hbetween, rfl⟩ := Option.map_eq_some_iff.mp hperform
    exact effects_slotAssignments h hbetween
  | present node call =>
    cases hperform
    have hpresents : dom.Presents (dom.presentAt node (call.perform node)) :=
      Documents.presents_presentAt _
    exact effects_presents h hpresents

end

end Omoikane.Dom.Live
