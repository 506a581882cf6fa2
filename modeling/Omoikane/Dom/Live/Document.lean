import Omoikane.Dom.Live.Attributes
import Omoikane.Dom.Live.Epochs

/-!
# Live documents

The nodes of a thread: their links, payloads, what the top layer and the scroll positions keep of
them, and the mutation epochs.  `Mutation` has the calls that change them, and
`Mutation.Ends` says what a call leaves behind when it ends, whatever the number of steps that its
walks take.  A call that panics does not end.

Identities are minted in order.  A handle keeps its node alive, so that weak links never go dead;
`Mutation.Known` says that a call is on nodes that were created.
-/

namespace Omoikane.Dom.Live

open Base

/-! ## Payloads -/

inductive ShadowRootMode where
  | opened
  | closed
deriving DecidableEq, Repr

structure ShadowRootSettings where
  serializable : Bool := false
  delegatesFocus : Bool := false
  clonable : Bool := false
  keepCustomElementRegistryNull : Bool := false
  declarative : Bool := false
  manualSlotAssignment : Bool := false
deriving DecidableEq, Repr

/-- A snapshot of the slots of a shadow tree. -/
structure SlotAssignments where
  bySlot : NodeHandle → Option (List NodeHandle)
  byNode : NodeHandle → Option NodeHandle

structure ShadowRoot where
  host : NodeHandle
  mode : ShadowRootMode
  settings : ShadowRootSettings
  assignments : Option (Nat × SlotAssignments)
  manualAssignments : NodeHandle → Option (NodeHandle × List NodeHandle)

/-- A new shadow root. -/
def ShadowRoot.blank (host : NodeHandle) (mode : ShadowRootMode) : ShadowRoot :=
  { host, mode, settings := {}, assignments := none, manualAssignments := fun _ => none }

inductive NodeData where
  | document
  | documentFragment
  | shadowRoot (root : ShadowRoot)
  | element (element : Element)
  | text
  | comment
  | processingInstruction
  | documentType

/-- What is kept of an element for the top layer and for scrolling. -/
structure TopLayer where
  popoverOpen : Bool := false
  pickerOpen : Bool := false
  modalDialog : Bool := false
  fullscreen : Bool := false
  topLayerOrder : Option Nat := none
  /-- The scroll offset is not zero. -/
  scrolled : Bool := false
deriving DecidableEq, Repr

/-- What is presented of all elements. -/
structure Presentation where
  layers : NodeHandle → TopLayer
  nextTopLayerOrder : Nat
  modalDialogElements : Nat
  scrolledElements : Nat

structure Documents where
  nextId : Nat
  links : LinkedNodes
  data : NodeHandle → NodeData
  presentation : Presentation
  epochs : Epochs

/-! ## Elements -/

/-- A new element. -/
def Element.blank (tagName : Text) (namespaceUri : Option Text) (localName : Text) (html : Bool)
    (templateContent : Option NodeHandle) : Element :=
  { tagName, namespaceUri, localName, html, attributeRecords := [], selected := false
    dirtySelectedness := false, templateContent, shadowRoot := none }

/-- A constructor of elements. -/
inductive ElementName where
  | new (tagName : Text)
  | newXml (qualifiedName : Text) (namespaceUri : Option Text)
  | newNamed (tagName : Text) (namespaceUri : Option Text) (localName : Text) (html : Bool)
  | newHtmlNs (qualifiedName namespaceUri : Text)
deriving DecidableEq, Repr

namespace ElementName

/-- `element_with_name`. -/
def elementWithName (localName : Text) (namespaceUri nameBefore : Option Text) (html : Bool) :
    ElementName :=
  let tagName := match nameBefore with
    | none => localName
    | some nameBefore => nameBefore ++ ':' :: localName
  .newNamed tagName namespaceUri localName html

/-- The local name of a qualified name. -/
def localNameOf (qualifiedName : Text) : Text :=
  match Text.splitOnce ':' qualifiedName with
  | some (_, localName) => localName
  | none => qualifiedName

/-- The element; the fragment is for the contents of an HTML template. -/
def build (fragment : NodeHandle) : ElementName → Element
  | .new tagName =>
    let tagName := Text.toAsciiLowercase tagName
    .blank tagName none [] true (if tagName = "template".toList then some fragment else none)
  | .newXml qualifiedName namespaceUri =>
    .blank qualifiedName namespaceUri (localNameOf qualifiedName) false none
  | .newNamed tagName namespaceUri localName html =>
    .blank tagName namespaceUri localName html
      (if html && Text.eqIgnoreAsciiCase localName "template".toList then some fragment else none)
  | .newHtmlNs qualifiedName namespaceUri =>
    .blank qualifiedName (some namespaceUri) (localNameOf qualifiedName) true
      (if Text.eqIgnoreAsciiCase (localNameOf qualifiedName) "template".toList then some fragment
        else none)

end ElementName

/-- What a node is created as. -/
inductive NodeSource where
  | document
  | documentFragment
  | element (name : ElementName)
  | text
  | comment
  | processingInstruction
  | documentType
deriving DecidableEq, Repr

/-! ## Presentation -/

namespace Presentation

variable (presentation : Presentation)

def setLayer (node : NodeHandle) (layer : TopLayer) : Presentation :=
  { presentation with layers := Function.update presentation.layers node layer }

/-- The order in the top layer after a flag is set: a new one, if the flag was the first. -/
def reorder (layer : TopLayer) (flag others : Bool) : Option Nat × Nat :=
  if flag && layer.topLayerOrder.isNone then
    (some presentation.nextTopLayerOrder, presentation.nextTopLayerOrder + 1)
  else if !flag && !others then (none, presentation.nextTopLayerOrder)
  else (layer.topLayerOrder, presentation.nextTopLayerOrder)

/-- `set_popover_open` of an element. -/
def setPopoverOpen (node : NodeHandle) (flag : Bool) : Presentation :=
  let layer := { presentation.layers node with popoverOpen := flag }
  let order := presentation.reorder layer flag (layer.modalDialog || layer.fullscreen)
  { presentation.setLayer node { layer with topLayerOrder := order.1 } with
    nextTopLayerOrder := order.2 }

/-- `set_picker_open` of an element. -/
def setPickerOpen (element : Element) (node : NodeHandle) (flag : Bool) : Presentation :=
  if (element.html || element.namespaceUri == some "http://www.w3.org/1999/xhtml".toList) &&
      (element.localNameOrTag == "input".toList || element.localNameOrTag == "select".toList) then
    presentation.setLayer node { presentation.layers node with pickerOpen := flag }
  else presentation

/-- `set_modal_dialog` of an element. -/
def setModalDialog (node : NodeHandle) (flag : Bool) : Presentation :=
  let modalDialogElements :=
    if (presentation.layers node).modalDialog == flag then presentation.modalDialogElements
    else if flag then min (presentation.modalDialogElements + 1) (2 ^ 64 - 1)
    else presentation.modalDialogElements - 1
  let layer := { presentation.layers node with modalDialog := flag }
  let order := presentation.reorder layer flag (layer.popoverOpen || layer.fullscreen)
  { presentation.setLayer node { layer with topLayerOrder := order.1 } with
    nextTopLayerOrder := order.2, modalDialogElements }

/-- `set_fullscreen` of an element. -/
def setFullscreen (node : NodeHandle) (flag : Bool) : Presentation :=
  let layer := { presentation.layers node with fullscreen := flag }
  let order := presentation.reorder layer flag (layer.popoverOpen || layer.modalDialog)
  { presentation.setLayer node { layer with topLayerOrder := order.1 } with
    nextTopLayerOrder := order.2 }

/-- `set_scroll_offset` of an element, of which only is kept whether the offset is zero. -/
def setScrollOffset (node : NodeHandle) (scrolled : Bool) : Presentation :=
  let scrolledElements :=
    if (presentation.layers node).scrolled == scrolled then presentation.scrolledElements
    else if scrolled then min (presentation.scrolledElements + 1) (2 ^ 64 - 1)
    else presentation.scrolledElements - 1
  { presentation.setLayer node { presentation.layers node with scrolled } with scrolledElements }

end Presentation

namespace Documents

variable (dom : Documents)

/-! ## Reading -/

/-- The element payload of a node. -/
def element? (node : NodeHandle) : Option Element :=
  match dom.data node with
  | .element element => some element
  | _ => none

/-- The shadow root payload of a node. -/
def shadowRoot? (node : NodeHandle) : Option ShadowRoot :=
  match dom.data node with
  | .shadowRoot root => some root
  | _ => none

/-- `template_content`. -/
def templateContent (node : NodeHandle) : Option NodeHandle :=
  (dom.element? node).bind Element.templateContent

/-- `shadow_root`. -/
def shadowRoot (node : NodeHandle) : Option NodeHandle :=
  (dom.element? node).bind Element.shadowRoot

/-- `shadow_host`. -/
def shadowHost (node : NodeHandle) : Option NodeHandle :=
  (dom.shadowRoot? node).map ShadowRoot.host

/-- `parent_node`. -/
def parentNode (node : NodeHandle) : Option NodeHandle := dom.links.parentNode node

/-- `child_nodes`. -/
def childNodes (node : NodeHandle) : Option (List NodeHandle) := dom.links.childNodes node

/-- `get_attribute`. -/
def getAttribute (node : NodeHandle) (name : Text) : Option Text :=
  (dom.element? node).bind (·.getAttribute name)

/-! ## Writing -/

def setData (node : NodeHandle) (data : NodeData) : Documents :=
  { dom with data := Function.update dom.data node data }

/-- `invalidate_slot_assignments`. -/
def invalidateSlotAssignments : Option Documents :=
  dom.epochs.invalidateSlotAssignments.map fun epochs => { dom with epochs }

/-- A node that was just created. -/
def mint (data : NodeData) : Documents :=
  { dom with
    nextId := dom.nextId + 1
    links := Function.update dom.links dom.nextId ⟨none, 0, 0, 0, .default⟩
    data := Function.update dom.data dom.nextId data
    presentation := dom.presentation.setLayer dom.nextId {} }

/-- The constructors of nodes. -/
def create (source : NodeSource) : Documents :=
  match source with
  | .document => dom.mint .document
  | .documentFragment => dom.mint .documentFragment
  | .text => dom.mint .text
  | .comment => dom.mint .comment
  | .processingInstruction => dom.mint .processingInstruction
  | .documentType => dom.mint .documentType
  | .element name =>
    let element := name.build dom.nextId
    match element.templateContent with
    | none => dom.mint (.element element)
    | some _ => (dom.mint .documentFragment).mint (.element element)

/-- What the walks below do at a node, which has an effect on elements only. -/
def presentAt (node : NodeHandle) (change : Element → Presentation → Presentation) : Documents :=
  match dom.element? node with
  | some element => { dom with presentation := change element dom.presentation }
  | none => dom

/-- A walk over a node with its template contents, its shadow root and its children, and everything
below them. -/
def walk (visit : Documents → NodeHandle → Documents) : Nat → Documents → NodeHandle → Option Documents
  | 0, _, _ => none
  | limit + 1, dom, node => do
    let dom := visit dom node
    let dom ← (dom.templateContent node).elim (some dom) (walk visit limit dom)
    let dom ← (dom.shadowRoot node).elim (some dom) (walk visit limit dom)
    (← dom.childNodes node).foldlM (walk visit limit) dom

/-- What `clear_top_layer_state` does at a node. -/
def leaveTopLayer (node : NodeHandle) : Documents :=
  dom.presentAt node fun element presentation =>
    (((presentation.setPopoverOpen node false).setPickerOpen element node false).setModalDialog
      node false).setFullscreen node false

/-- What `clear_scroll_offsets` does at a node. -/
def resetScrollOffset (node : NodeHandle) : Documents :=
  dom.presentAt node fun _ presentation => presentation.setScrollOffset node false

/-- `clear_top_layer_state`. -/
def clearTopLayerState (limit : Nat) (node : NodeHandle) : Option Documents :=
  walk leaveTopLayer limit dom node

/-- `clear_scroll_offsets`. -/
def clearScrollOffsets (limit : Nat) (node : NodeHandle) : Option Documents :=
  walk resetScrollOffset limit dom node

/-- `any_element_scrolled`. -/
def anyElementScrolled : Bool := 0 < dom.presentation.scrolledElements

/-- `remove_child`. -/
def removeChild (limit : Nat) (node child : NodeHandle) :
    Option (Documents × Except DomError NodeHandle) := do
  match ← dom.links.removeChild node child with
  | (links, .error error) => return ({ dom with links }, .error error)
  | (links, .ok removed) =>
    let dom ← clearTopLayerState { dom with links } limit removed
    let dom ← dom.invalidateSlotAssignments
    if dom.anyElementScrolled then
      return (← dom.clearScrollOffsets limit removed, .ok removed)
    else return (dom, .ok removed)

/-- `detach_from_parent`. -/
def detachFromParent (limit : Nat) (child : NodeHandle) : Option Documents :=
  match dom.parentNode child with
  | none => some dom
  | some parent => (dom.removeChild limit parent child).map Prod.fst

/-- `append_child`. -/
def appendChild (limit : Nat) (node child : NodeHandle) : Option Documents := do
  if ← dom.links.isInclusiveAncestorOf limit child node then
    return dom
  let dom ← dom.detachFromParent limit child
  let links ← dom.links.linkBefore node child none
  { dom with links }.invalidateSlotAssignments

/-- `insert_before`. -/
def insertBefore (limit : Nat) (node newChild referenceChild : NodeHandle) :
    Option (Documents × Except DomError Unit) := do
  if ← dom.links.isInclusiveAncestorOf limit newChild node then
    return (dom, .error .hierarchyRequest)
  match dom.links.childSlot node referenceChild with
  | none => return (dom, .error .referenceChildNotFound)
  | some slot =>
    let reference := dom.links.referenceAfterMove node newChild referenceChild slot
    let dom ← dom.detachFromParent limit newChild
    match reference with
    | none =>
      let links ← dom.links.linkBefore node newChild none
      return (← { dom with links }.invalidateSlotAssignments, .ok ())
    | some reference =>
      match dom.links.childSlot node reference with
      | none => return (dom, .error .referenceChildNotFound)
      | some slot =>
        let links ← dom.links.linkBefore node newChild (some slot)
        return (← { dom with links }.invalidateSlotAssignments, .ok ())

/-- A call on the tree. -/
def performTree (limit : Nat) : TreeCall → Option (Documents × Except DomError Unit)
  | .appendChild node child => (dom.appendChild limit node child).map (·, .ok ())
  | .insertBefore node newChild referenceChild =>
    dom.insertBefore limit node newChild referenceChild
  | .removeChild node child =>
    (dom.removeChild limit node child).map fun (dom, result) => (dom, result.map fun _ => ())

/-- `attach_shadow`; the root is the next node that is minted. -/
def attachShadow (host : NodeHandle) (mode : ShadowRootMode) : Documents × Option NodeHandle :=
  match dom.data host with
  | .element element =>
    match element.shadowRoot with
    | some _ => (dom, none)
    | none =>
      let root := dom.nextId
      let dom := dom.mint (.shadowRoot (.blank host mode))
      (dom.setData host (.element { element with shadowRoot := some root }), some root)
  | _ => (dom, none)

/-- `set_template_content`. -/
def setTemplateContent (node content : NodeHandle) : Documents × Bool :=
  match dom.data node with
  | .element element =>
    if Text.eqIgnoreAsciiCase element.tagName "template".toList then
      (dom.setData node (.element { element with templateContent := some content }), true)
    else (dom, false)
  | _ => (dom, false)

/-- `set_shadow_root_settings`. -/
def setShadowRootSettings (node : NodeHandle) (settings : ShadowRootSettings) :
    Option (Documents × Bool) :=
  match dom.data node with
  | .shadowRoot root =>
    let dom := dom.setData node (.shadowRoot { root with settings })
    if root.settings.manualSlotAssignment != settings.manualSlotAssignment then
      dom.invalidateSlotAssignments.map (·, true)
    else some (dom, true)
  | _ => some (dom, false)

/-- A call that writes or removes an attribute; it does nothing on other nodes. -/
def performAttribute (node : NodeHandle) (call : AttributeCall) : Option Documents :=
  match dom.data node with
  | .element element =>
    match call.perform element with
    | some (element, names) =>
      (dom.epochs.invalidateForAttribute names).map fun epochs =>
        { dom.setData node (.element element) with epochs }
    | none => some dom
  | _ => some dom

/-! ## Payloads after a write -/

section

variable {dom dom' : Documents} {limit : Nat} {node other child : NodeHandle}

theorem element?_eq_some_iff {element : Element} :
    dom.element? node = some element ↔ dom.data node = .element element := by
  unfold element?
  split
  next heq => rw [heq, Option.some.injEq, NodeData.element.injEq]
  next hne => exact ⟨nofun, fun heq => (hne element heq).elim⟩

theorem shadowRoot?_eq_some_iff {root : ShadowRoot} :
    dom.shadowRoot? node = some root ↔ dom.data node = .shadowRoot root := by
  unfold shadowRoot?
  split
  next heq => rw [heq, Option.some.injEq, NodeData.shadowRoot.injEq]
  next hne => exact ⟨nofun, fun heq => (hne root heq).elim⟩

@[simp] theorem setData_self (data : NodeData) : (dom.setData node data).data node = data :=
  Function.update_self ..

@[simp] theorem setData_of_ne (data : NodeData) (h : other ≠ node) :
    (dom.setData node data).data other = dom.data other := Function.update_of_ne h ..

theorem mint_data_self (data : NodeData) : (dom.mint data).data dom.nextId = data :=
  Function.update_self ..

theorem mint_data_of_ne (data : NodeData) (h : other ≠ dom.nextId) :
    (dom.mint data).data other = dom.data other := Function.update_of_ne h ..

theorem mint_links_of_ne (data : NodeData) (h : other ≠ dom.nextId) :
    (dom.mint data).links other = dom.links other := Function.update_of_ne h ..

/-! ## What the calls on the tree do -/

/-- Only what is presented is another. -/
def Presents (dom dom' : Documents) : Prop :=
  ∃ presentation, dom' = { dom with presentation }

theorem Presents.refl : Presents dom dom := ⟨_, rfl⟩

theorem Presents.trans {dom'' : Documents} (h : Presents dom dom') (h' : Presents dom' dom'') :
    Presents dom dom'' := by
  obtain ⟨_, rfl⟩ := h
  obtain ⟨_, rfl⟩ := h'
  exact ⟨_, rfl⟩

theorem presents_presentAt (change : Element → Presentation → Presentation) :
    Presents dom (dom.presentAt node change) := by
  unfold presentAt
  split
  next => exact ⟨_, rfl⟩
  next => exact .refl

theorem presents_foldlM {step : Documents → NodeHandle → Option Documents}
    (hstep : ∀ dom node dom', step dom node = some dom' → Presents dom dom') :
    ∀ {nodes : List NodeHandle} {dom dom' : Documents}, nodes.foldlM step dom = some dom' →
      Presents dom dom'
  | [], dom, dom', h => by
    cases h
    exact .refl
  | node :: nodes, dom, dom', h => by
    rw [List.foldlM_cons] at h
    obtain ⟨between, hbetween, h⟩ := Option.bind_eq_some_iff.mp h
    exact (hstep dom node between hbetween).trans (presents_foldlM hstep h)

theorem presents_walk {visit : Documents → NodeHandle → Documents}
    (hvisit : ∀ dom node, Presents dom (visit dom node)) :
    ∀ {limit : Nat} {dom dom' : Documents} {node : NodeHandle},
      walk visit limit dom node = some dom' → Presents dom dom'
  | limit + 1, dom, dom', node, h => by
    have hbelow : ∀ {target : Option NodeHandle} {dom dom' : Documents},
        target.elim (some dom) (walk visit limit dom) = some dom' → Presents dom dom' := by
      intro target dom dom' h
      cases target with
      | none => cases h; exact .refl
      | some target => exact presents_walk hvisit h
    rw [walk] at h
    obtain ⟨afterContent, hcontent, h⟩ := Option.bind_eq_some_iff.mp h
    obtain ⟨afterRoot, hroot, h⟩ := Option.bind_eq_some_iff.mp h
    obtain ⟨children, -, h⟩ := Option.bind_eq_some_iff.mp h
    exact (hvisit dom node).trans ((hbelow hcontent).trans ((hbelow hroot).trans
      (presents_foldlM (fun _ _ _ h => presents_walk hvisit h) h)))

/-- The links and what is presented are others. -/
def Rearranges (dom dom' : Documents) : Prop :=
  ∃ links presentation, dom' = { dom with links, presentation }

/-- The links and what is presented are others, and the epochs of the tree are later. -/
structure Moves (dom dom' : Documents) : Prop where
  eq : ∃ links presentation epochs, dom' = { dom with links, presentation, epochs }
  le : dom.epochs.Le dom'.epochs
  slotAssignment_lt : dom.epochs.slotAssignment < dom'.epochs.slotAssignment
  total_lt : ∀ attributeMask, dom.epochs.total attributeMask < dom'.epochs.total attributeMask

theorem Presents.rearranges (h : Presents dom dom') : Rearranges dom dom' := by
  obtain ⟨presentation, rfl⟩ := h
  exact ⟨dom.links, presentation, rfl⟩

theorem Rearranges.moves {dom'' : Documents} (h : Rearranges dom dom')
    (h' : dom'.invalidateSlotAssignments = some dom'') : Moves dom dom'' := by
  obtain ⟨_, _, rfl⟩ := h
  obtain ⟨epochs, hepochs, rfl⟩ := Option.map_eq_some_iff.mp h'
  refine ⟨⟨_, _, _, rfl⟩, Epochs.invalidateSlotAssignments_le hepochs, ?_,
    Epochs.total_lt_of_invalidateSlotAssignments hepochs⟩
  rw [show epochs = _ from Epochs.invalidateSlotAssignments_eq hepochs]
  exact Nat.lt_succ_self _

theorem Moves.rearranges {dom'' : Documents} (h : Moves dom dom') (h' : Rearranges dom' dom'') :
    Moves dom dom'' := by
  obtain ⟨⟨_, _, _, rfl⟩, hle, hslot, htotal⟩ := h
  obtain ⟨_, _, rfl⟩ := h'
  exact ⟨⟨_, _, _, rfl⟩, hle, hslot, htotal⟩

theorem Moves.trans {dom'' : Documents} (h : Moves dom dom') (h' : Moves dom' dom'') :
    Moves dom dom'' := by
  obtain ⟨⟨_, _, _, rfl⟩, hle, hslot, htotal⟩ := h
  obtain ⟨⟨_, _, _, rfl⟩, hle', hslot', htotal'⟩ := h'
  exact ⟨⟨_, _, _, rfl⟩, hle.trans hle', hslot.trans hslot', fun mask => (htotal mask).trans (htotal' mask)⟩

theorem removeChild_spec {result : Except DomError NodeHandle}
    (h : dom.removeChild limit node child = some (dom', result)) :
    dom.links.removeChild node child = some (dom'.links, result) ∧
      (dom' = dom ∨ Moves dom dom') := by
  obtain ⟨⟨links, result'⟩, hlinks, h⟩ := Option.bind_eq_some_iff.mp h
  cases result' with
  | error error =>
    cases h
    refine ⟨hlinks, .inl ?_⟩
    unfold LinkedNodes.removeChild at hlinks
    split at hlinks
    next => cases hlinks; rfl
    next =>
      obtain ⟨_, _, hlinks⟩ := Option.bind_eq_some_iff.mp hlinks
      obtain ⟨_, _, hlinks⟩ := Option.bind_eq_some_iff.mp hlinks
      obtain ⟨_, _, hlinks⟩ := Option.bind_eq_some_iff.mp hlinks
      cases hlinks
  | ok removed =>
    obtain ⟨cleared, hcleared, h⟩ := Option.bind_eq_some_iff.mp h
    obtain ⟨invalidated, hinvalidated, h⟩ := Option.bind_eq_some_iff.mp h
    obtain ⟨presentation, rfl⟩ := presents_walk (fun _ _ => presents_presentAt _) hcleared
    have hmoves : Moves dom invalidated :=
      Rearranges.moves ⟨links, presentation, rfl⟩ hinvalidated
    obtain ⟨epochs, -, rfl⟩ := Option.map_eq_some_iff.mp hinvalidated
    split at h
    next =>
      obtain ⟨reset, hreset, h⟩ := Option.bind_eq_some_iff.mp h
      cases h
      have hpresents := presents_walk (fun _ _ => presents_presentAt _) hreset
      refine ⟨?_, .inr (hmoves.rearranges hpresents.rearranges)⟩
      obtain ⟨_, rfl⟩ := hpresents
      exact hlinks
    next =>
      cases h
      exact ⟨hlinks, .inr hmoves⟩

theorem detachFromParent_spec (h : dom.detachFromParent limit child = some dom') :
    dom.links.detachFromParent child = some dom'.links ∧ (dom' = dom ∨ Moves dom dom') := by
  unfold detachFromParent parentNode at h
  unfold LinkedNodes.detachFromParent
  cases hparent : dom.links.parentNode child with
  | none =>
    simp only [hparent] at h
    cases h
    exact ⟨rfl, .inl rfl⟩
  | some parent =>
    simp only [hparent] at h
    obtain ⟨⟨_, result⟩, hremove, rfl⟩ := Option.map_eq_some_iff.mp h
    obtain ⟨hlinks, hmoves⟩ := removeChild_spec hremove
    exact ⟨Option.map_eq_some_iff.mpr ⟨_, hlinks, rfl⟩, hmoves⟩

/-- Nodes are linked after a node was detached. -/
theorem linked_spec {between : Documents} {links : LinkedNodes}
    (hdetached : between = dom ∨ Moves dom between)
    (h : { between with links }.invalidateSlotAssignments = some dom') :
    links = dom'.links ∧ Moves dom dom' := by
  have hmoves : Moves between dom' := Rearranges.moves ⟨links, _, rfl⟩ h
  obtain ⟨epochs, -, rfl⟩ := Option.map_eq_some_iff.mp h
  refine ⟨rfl, ?_⟩
  rcases hdetached with rfl | hdetached
  · exact hmoves
  · exact hdetached.trans hmoves

theorem appendChild_spec (h : dom.appendChild limit node child = some dom') :
    dom.links.appendChild limit node child = some dom'.links ∧ (dom' = dom ∨ Moves dom dom') := by
  unfold appendChild at h
  unfold LinkedNodes.appendChild
  obtain ⟨ancestor, hancestor, h⟩ := Option.bind_eq_some_iff.mp h
  rw [hancestor, Option.bind_eq_bind, Option.bind_some]
  cases ancestor with
  | true =>
    cases h
    exact ⟨rfl, .inl rfl⟩
  | false =>
    obtain ⟨between, hbetween, h⟩ := Option.bind_eq_some_iff.mp h
    obtain ⟨links, hlinks, h⟩ := Option.bind_eq_some_iff.mp h
    obtain ⟨hdetach, hdetached⟩ := detachFromParent_spec hbetween
    obtain ⟨rfl, hmoves⟩ := linked_spec hdetached h
    refine ⟨?_, .inr hmoves⟩
    rw [if_neg Bool.false_ne_true, hdetach]
    exact hlinks

theorem insertBefore_spec {reference : NodeHandle} {result : Except DomError Unit}
    (h : dom.insertBefore limit node child reference = some (dom', result)) :
    dom.links.insertBefore limit node child reference = some (dom'.links, result) ∧
      (dom' = dom ∨ Moves dom dom') := by
  unfold insertBefore at h
  unfold LinkedNodes.insertBefore
  obtain ⟨ancestor, hancestor, h⟩ := Option.bind_eq_some_iff.mp h
  rw [hancestor, Option.bind_eq_bind, Option.bind_some]
  cases ancestor with
  | true =>
    cases h
    exact ⟨rfl, .inl rfl⟩
  | false =>
    rw [if_neg Bool.false_ne_true] at h ⊢
    cases hslot : dom.links.childSlot node reference with
    | none =>
      simp only [hslot] at h
      cases h
      exact ⟨rfl, .inl rfl⟩
    | some slot =>
      simp only [hslot] at h
      obtain ⟨between, hbetween, h⟩ := Option.bind_eq_some_iff.mp h
      obtain ⟨hdetach, hdetached⟩ := detachFromParent_spec hbetween
      dsimp only
      rw [hdetach, Option.bind_eq_bind, Option.bind_some]
      cases hreference : dom.links.referenceAfterMove node child reference slot with
      | none =>
        simp only [hreference] at h
        obtain ⟨links, hlinks, h⟩ := Option.bind_eq_some_iff.mp h
        obtain ⟨invalidated, hinvalidated, h⟩ := Option.bind_eq_some_iff.mp h
        cases h
        obtain ⟨rfl, hmoves⟩ := linked_spec hdetached hinvalidated
        dsimp only
        rw [hlinks]
        exact ⟨rfl, .inr hmoves⟩
      | some reference' =>
        simp only [hreference] at h
        dsimp only
        cases hslot' : between.links.childSlot node reference' with
        | none =>
          simp only [hslot'] at h
          cases h
          exact ⟨rfl, hdetached⟩
        | some slot' =>
          simp only [hslot'] at h
          obtain ⟨links, hlinks, h⟩ := Option.bind_eq_some_iff.mp h
          obtain ⟨invalidated, hinvalidated, h⟩ := Option.bind_eq_some_iff.mp h
          cases h
          obtain ⟨rfl, hmoves⟩ := linked_spec hdetached hinvalidated
          dsimp only
          rw [hlinks]
          exact ⟨rfl, .inr hmoves⟩

/-- A call on the tree does on the links what it does there alone; if it does anything, the epochs of
the tree are later. -/
theorem performTree_spec {call : TreeCall} {result : Except DomError Unit}
    (h : dom.performTree limit call = some (dom', result)) :
    call.Ends dom.links dom'.links result ∧ (dom' = dom ∨ Moves dom dom') := by
  cases call with
  | appendChild node child =>
    obtain ⟨between, hbetween, heq⟩ := Option.map_eq_some_iff.mp h
    cases heq
    obtain ⟨hlinks, hmoves⟩ := appendChild_spec hbetween
    exact ⟨⟨limit, Option.map_eq_some_iff.mpr ⟨_, hlinks, rfl⟩⟩, hmoves⟩
  | insertBefore node newChild referenceChild =>
    obtain ⟨hlinks, hmoves⟩ := insertBefore_spec h
    exact ⟨⟨limit, hlinks⟩, hmoves⟩
  | removeChild node child =>
    obtain ⟨⟨between, result'⟩, hbetween, heq⟩ := Option.map_eq_some_iff.mp h
    cases heq
    obtain ⟨hlinks, hmoves⟩ := removeChild_spec hbetween
    exact ⟨⟨limit, Option.map_eq_some_iff.mpr ⟨_, hlinks, rfl⟩⟩, hmoves⟩

end

end Documents

end Omoikane.Dom.Live
