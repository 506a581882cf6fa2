import Omoikane.Dom.Live.Mutations

/-!
# The top layer

An open popover, an open modal dialog and an element that is shown fullscreen share one order in the
top layer, and the modal dialogs of a thread are counted.  `Layered` says that the order is there
exactly while one of the flags is, and that the counter is right.  Every call keeps it
(`Layered.step`), the removal of a subtree with everything that hangs below it included.

The counter saturates.  It is right as long as the nodes have addresses of 64 bits.
-/

namespace Omoikane.Dom.Live

open Base

/-! ## One element -/

/-- One of the flags is set that bring an element into the top layer. -/
def TopLayer.shown (layer : TopLayer) : Bool :=
  layer.popoverOpen || layer.modalDialog || layer.fullscreen

theorem TopLayer.shown_popoverOpen (layer : TopLayer) :
    layer.shown = (layer.popoverOpen || (layer.modalDialog || layer.fullscreen)) := Bool.or_assoc ..

theorem TopLayer.shown_modalDialog (layer : TopLayer) :
    layer.shown = (layer.modalDialog || (layer.popoverOpen || layer.fullscreen)) := by
  rw [shown, Bool.or_right_comm, Bool.or_comm]

theorem TopLayer.shown_fullscreen (layer : TopLayer) :
    layer.shown = (layer.fullscreen || (layer.popoverOpen || layer.modalDialog)) := by
  rw [shown, Bool.or_comm]

namespace Presentation

variable {presentation : Presentation} {node other : NodeHandle} {count : Nat}

/-- The nodes, of the first ones, whose modal flag is set. -/
def modalDialogs (presentation : Presentation) (count : Nat) : Finset NodeHandle :=
  (Finset.range count).filter fun node => (presentation.layers node).modalDialog

/-- An element has an order exactly while it is shown in the top layer. -/
def Ordered (presentation : Presentation) : Prop :=
  ∀ node, (presentation.layers node).topLayerOrder.isSome = (presentation.layers node).shown

/-- The counter of modal dialogs is right. -/
def Counted (presentation : Presentation) (count : Nat) : Prop :=
  presentation.modalDialogElements = (presentation.modalDialogs count).card

@[simp] theorem setLayer_self (layer : TopLayer) :
    (presentation.setLayer node layer).layers node = layer := Function.update_self ..

@[simp] theorem setLayer_of_ne (layer : TopLayer) (h : other ≠ node) :
    (presentation.setLayer node layer).layers other = presentation.layers other :=
  Function.update_of_ne h ..

/-- The order is there after a flag is set exactly if a flag is. -/
theorem reorder_isSome {layer : TopLayer} {was flag others : Bool}
    (h : layer.topLayerOrder.isSome = (was || others)) :
    (presentation.reorder layer flag others).1.isSome = (flag || others) := by
  cases flag with
  | true =>
    cases horder : layer.topLayerOrder with
    | none => simp [reorder, horder]
    | some order => simp [reorder, horder]
  | false =>
    cases others with
    | true => simpa [reorder] using h
    | false => simp [reorder]

theorem Ordered.setLayer (h : presentation.Ordered) (layer : TopLayer)
    (hlayer : layer.topLayerOrder.isSome = layer.shown) :
    (presentation.setLayer node layer).Ordered := by
  intro other
  by_cases hother : other = node
  · rw [hother, setLayer_self, hlayer]
  · rw [setLayer_of_ne _ hother, h other]

theorem Ordered.perform (h : presentation.Ordered) (element : Element) (node : NodeHandle)
    (call : PresentationCall) : (call.perform node element presentation).Ordered := by
  have hnode := h node
  cases call with
  | setPopoverOpen flag =>
    rw [TopLayer.shown_popoverOpen] at hnode
    refine h.setLayer { presentation.layers node with popoverOpen := flag, topLayerOrder := _ } ?_
    rw [TopLayer.shown_popoverOpen]
    exact reorder_isSome hnode
  | setPickerOpen flag =>
    rw [PresentationCall.perform, setPickerOpen]
    split
    next => exact h.setLayer _ hnode
    next => exact h
  | setModalDialog flag =>
    rw [TopLayer.shown_modalDialog] at hnode
    refine h.setLayer { presentation.layers node with modalDialog := flag, topLayerOrder := _ } ?_
    rw [TopLayer.shown_modalDialog]
    exact reorder_isSome hnode
  | setFullscreen flag =>
    rw [TopLayer.shown_fullscreen] at hnode
    refine h.setLayer { presentation.layers node with fullscreen := flag, topLayerOrder := _ } ?_
    rw [TopLayer.shown_fullscreen]
    exact reorder_isSome hnode
  | setScrollOffset scrolled => exact h.setLayer _ hnode

/-! ## The counter -/

theorem mem_modalDialogs : node ∈ presentation.modalDialogs count ↔
    node < count ∧ (presentation.layers node).modalDialog = true := by
  rw [modalDialogs, Finset.mem_filter, Finset.mem_range]

theorem card_modalDialogs_le : (presentation.modalDialogs count).card ≤ count :=
  (Finset.card_filter_le _ _).trans_eq (Finset.card_range _)

theorem modalDialogs_congr {presentation' : Presentation}
    (h : ∀ node, (presentation'.layers node).modalDialog = (presentation.layers node).modalDialog) :
    presentation'.modalDialogs count = presentation.modalDialogs count := by
  ext node
  rw [mem_modalDialogs, mem_modalDialogs, h]

theorem setLayer_modalDialog {layer : TopLayer}
    (hlayer : layer.modalDialog = (presentation.layers node).modalDialog) (other : NodeHandle) :
    ((presentation.setLayer node layer).layers other).modalDialog =
      (presentation.layers other).modalDialog := by
  by_cases hother : other = node
  · rw [hother, setLayer_self, hlayer]
  · rw [setLayer_of_ne _ hother]

/-- A layer is written that leaves the modal flag as it is. -/
theorem Counted.setLayer (h : presentation.Counted count) {layer : TopLayer}
    (hlayer : layer.modalDialog = (presentation.layers node).modalDialog) :
    (presentation.setLayer node layer).Counted count :=
  h.trans (congrArg Finset.card (modalDialogs_congr (setLayer_modalDialog hlayer)).symm)

theorem modalDialogs_setModalDialog {flag : Bool} (hnode : node < count) :
    (presentation.setModalDialog node flag).modalDialogs count =
      if flag then insert node (presentation.modalDialogs count)
      else (presentation.modalDialogs count).erase node := by
  have hlayer : ∀ other, ((presentation.setModalDialog node flag).layers other).modalDialog =
      if other = node then flag else (presentation.layers other).modalDialog := by
    intro other
    split
    next hother => rw [hother]; exact congrArg _ (setLayer_self _)
    next hother => exact congrArg _ (setLayer_of_ne _ hother)
  ext other
  rw [mem_modalDialogs, hlayer]
  cases flag with
  | true =>
    rw [if_pos rfl, Finset.mem_insert, mem_modalDialogs]
    split
    next hother => simp [hother, hnode]
    next hother => simp [hother]
  | false =>
    rw [if_neg Bool.false_ne_true, Finset.mem_erase, mem_modalDialogs]
    split
    next hother => simp [hother]
    next hother => simp [hother]

theorem Counted.setModalDialog (h : presentation.Counted count) (hcount : count < 2 ^ 64)
    (hnode : node < count) (flag : Bool) : (presentation.setModalDialog node flag).Counted count := by
  have hmem : node ∈ presentation.modalDialogs count ↔
      (presentation.layers node).modalDialog = true := by
    rw [mem_modalDialogs, and_iff_right hnode]
  have hcard := @card_modalDialogs_le presentation count
  rw [Counted, modalDialogs_setModalDialog hnode]
  change (if ((presentation.layers node).modalDialog == flag) = true then
      presentation.modalDialogElements
    else if flag = true then min (presentation.modalDialogElements + 1) (2 ^ 64 - 1)
    else presentation.modalDialogElements - 1) = _
  rw [show presentation.modalDialogElements = _ from h]
  cases hwas : (presentation.layers node).modalDialog with
  | true =>
    have hthere := hmem.mpr hwas
    cases flag with
    | true => rw [if_pos (beq_self_eq_true true), if_pos rfl, Finset.insert_eq_of_mem hthere]
    | false =>
      rw [if_neg (by decide), if_neg (by decide), if_neg (by decide), Finset.card_erase_of_mem hthere]
  | false =>
    have hnot : node ∉ presentation.modalDialogs count := by
      rw [hmem, hwas]
      exact Bool.false_ne_true
    cases flag with
    | true =>
      -- There is room, as this node is not among those counted.
      have hroom : (presentation.modalDialogs count).card < count := by
        refine (Finset.card_lt_card ?_).trans_eq (Finset.card_range _)
        exact Finset.filter_ssubset.mpr ⟨node, Finset.mem_range.mpr hnode, by rw [hwas]; decide⟩
      rw [if_neg (by decide), if_pos rfl, if_pos rfl, Finset.card_insert_of_notMem hnot]
      exact Nat.min_eq_left (by omega)
    | false =>
      rw [if_pos (beq_self_eq_true false), if_neg Bool.false_ne_true,
        Finset.erase_eq_of_notMem hnot]

theorem Counted.perform (h : presentation.Counted count) (hcount : count < 2 ^ 64)
    (hnode : node < count) (element : Element) (call : PresentationCall) :
    (call.perform node element presentation).Counted count := by
  cases call with
  | setPopoverOpen flag | setFullscreen flag | setScrollOffset flag => exact h.setLayer rfl
  | setPickerOpen flag =>
    rw [PresentationCall.perform, setPickerOpen]
    split
    next => exact h.setLayer rfl
    next => exact h
  | setModalDialog flag => exact h.setModalDialog hcount hnode flag

/-- A setter changes nothing at other nodes. -/
theorem perform_layers_of_ne {element : Element} {call : PresentationCall} (h : other ≠ node) :
    (call.perform node element presentation).layers other = presentation.layers other := by
  cases call with
  | setPickerOpen flag =>
    rw [PresentationCall.perform, setPickerOpen]
    split
    next => exact setLayer_of_ne _ h
    next => rfl
  | _ => exact setLayer_of_ne _ h

/-- A node is created. -/
theorem Counted.mint (h : presentation.Counted count)
    (hblank : presentation.layers count = {}) :
    (presentation.setLayer count {}).Counted (count + 1) := by
  refine h.trans (congrArg Finset.card ?_)
  rw [modalDialogs_congr (setLayer_modalDialog (by rw [hblank])), modalDialogs, modalDialogs,
    Finset.range_add_one, Finset.filter_insert, if_neg]
  rw [hblank]
  decide

end Presentation

/-! ## Documents -/

namespace Documents

variable (dom : Documents) (node : NodeHandle)

/-- `is_popover_open`. -/
def isPopoverOpen : Bool := (dom.element? node).isSome && (dom.presentation.layers node).popoverOpen

/-- `is_modal_dialog`. -/
def isModalDialog : Bool := (dom.element? node).isSome && (dom.presentation.layers node).modalDialog

/-- `is_fullscreen`. -/
def isFullscreen : Bool := (dom.element? node).isSome && (dom.presentation.layers node).fullscreen

/-- `top_layer_order`. -/
def topLayerOrder : Option Nat :=
  (dom.element? node).bind fun _ => (dom.presentation.layers node).topLayerOrder

/-- The elements whose modal flag is set. -/
def modalDialogs : Finset NodeHandle := (Finset.range dom.nextId).filter fun node => dom.isModalDialog node

end Documents

/-- Only elements are in the top layer, each has an order exactly while it is shown there, and the
modal dialogs are counted. -/
structure Layered (dom : Documents) : Prop where
  born : ∀ node, (dom.element? node).isSome = true → node < dom.nextId
  blank : ∀ node, dom.element? node = none → dom.presentation.layers node = {}
  ordered : dom.presentation.Ordered
  counted : dom.nextId < 2 ^ 64 → dom.presentation.Counted dom.nextId

namespace Documents

variable {dom dom' : Documents} {node other : NodeHandle} {limit : Nat}

theorem element?_setData_of_ne (data : NodeData) (h : other ≠ node) :
    (dom.setData node data).element? other = dom.element? other := by
  rw [element?, element?, setData_of_ne _ h]

theorem presentAt_of_element {element : Element} (h : dom.element? node = some element)
    (change : Element → Presentation → Presentation) :
    dom.presentAt node change = { dom with presentation := change element dom.presentation } := by
  rw [presentAt, h]

theorem presentAt_of_none (h : dom.element? node = none)
    (change : Element → Presentation → Presentation) : dom.presentAt node change = dom := by
  rw [presentAt, h]

/-- The flags of a subtree that is removed are cleared one after another. -/
theorem leaveTopLayer_eq : dom.leaveTopLayer node =
    (((dom.presentAt node (PresentationCall.perform node (.setPopoverOpen false))).presentAt node
      (PresentationCall.perform node (.setPickerOpen false))).presentAt node
      (PresentationCall.perform node (.setModalDialog false))).presentAt node
      (PresentationCall.perform node (.setFullscreen false)) := by
  cases helement : dom.element? node with
  | none => simp only [leaveTopLayer, presentAt_of_none helement]
  | some element =>
    have hsame : ∀ presentation,
        ({ dom with presentation } : Documents).element? node = some element := fun _ => helement
    simp only [leaveTopLayer, presentAt_of_element helement, presentAt_of_element (hsame _),
      PresentationCall.perform]

/-- What every visit keeps holds after a walk. -/
theorem walk_invariant {I : Documents → Prop} {visit : Documents → NodeHandle → Documents}
    (hvisit : ∀ dom node, I dom → I (visit dom node)) :
    ∀ {limit : Nat} {dom dom' : Documents} {node : NodeHandle},
      walk visit limit dom node = some dom' → I dom → I dom'
  | limit + 1, dom, dom', node, h, hdom => by
    have hbelow : ∀ {target : Option NodeHandle} {dom dom' : Documents},
        target.elim (some dom) (walk visit limit dom) = some dom' → I dom → I dom' := by
      intro target dom dom' h hdom
      cases target with
      | none => cases h; exact hdom
      | some target => exact walk_invariant hvisit h hdom
    have hall : ∀ {nodes : List NodeHandle} {dom dom' : Documents},
        nodes.foldlM (walk visit limit) dom = some dom' → I dom → I dom' := by
      intro nodes
      induction nodes with
      | nil => intro dom dom' h hdom; cases h; exact hdom
      | cons node nodes ih =>
        intro dom dom' h hdom
        obtain ⟨between, hbetween, h⟩ := Option.bind_eq_some_iff.mp h
        exact ih h (walk_invariant hvisit hbetween hdom)
    rw [walk] at h
    obtain ⟨afterContent, hcontent, h⟩ := Option.bind_eq_some_iff.mp h
    obtain ⟨afterRoot, hroot, h⟩ := Option.bind_eq_some_iff.mp h
    obtain ⟨children, -, h⟩ := Option.bind_eq_some_iff.mp h
    exact hall h (hbelow hroot (hbelow hcontent (hvisit dom node hdom)))

end Documents

namespace Layered

variable {dom dom' : Documents} {lists : ChildLists} {node child : NodeHandle} {limit : Nat}

open Documents

theorem isModalDialog (h : Layered dom) (node : NodeHandle) :
    dom.isModalDialog node = (dom.presentation.layers node).modalDialog := by
  rw [Documents.isModalDialog]
  cases helement : dom.element? node with
  | none => rw [h.blank node helement]; rfl
  | some element => rfl

theorem modalDialogs (h : Layered dom) :
    dom.modalDialogs = dom.presentation.modalDialogs dom.nextId := by
  rw [Documents.modalDialogs, Presentation.modalDialogs]
  simp only [h.isModalDialog]

theorem initial : Layered .initial where
  born _ h := by cases h
  blank _ _ := rfl
  ordered _ := rfl
  counted _ := rfl

/-- Documents with the same elements, of which the same is presented. -/
theorem congr (h : Layered dom) (hnext : dom'.nextId = dom.nextId)
    (hdata : ∀ node, (dom'.element? node).isSome = (dom.element? node).isSome)
    (hpresentation : dom'.presentation = dom.presentation) : Layered dom' where
  born node := by
    rw [hnext, hdata]
    exact h.born node
  blank node hnone := by
    rw [hpresentation]
    refine h.blank node ?_
    rw [← Option.not_isSome_iff_eq_none, ← hdata, hnone]
    exact Bool.false_ne_true
  ordered := by
    rw [hpresentation]
    exact h.ordered
  counted := by
    rw [hpresentation, hnext]
    exact h.counted

theorem setData (h : Layered dom) {data : NodeData}
    (hdata : ((dom.setData node data).element? node).isSome = (dom.element? node).isSome) :
    Layered (dom.setData node data) := by
  refine h.congr rfl (fun other => ?_) rfl
  by_cases hother : other = node
  · rw [hother, hdata]
  · rw [element?_setData_of_ne _ hother]

theorem setElement (h : Layered dom) {element element' : Element}
    (helement : dom.data node = .element element) : Layered (dom.setData node (.element element')) := by
  refine h.setData ?_
  rw [element?_eq_some_iff.mpr helement, element?_eq_some_iff.mpr (setData_self _)]
  rfl

theorem setShadowRoot (h : Layered dom) {root root' : ShadowRoot}
    (hroot : dom.data node = .shadowRoot root) :
    Layered (dom.setData node (.shadowRoot root')) := by
  refine h.setData ?_
  rw [element?, element?, setData_self, hroot]

theorem invalidate (h : Layered dom) (hinvalidate : dom.invalidateSlotAssignments = some dom') :
    Layered dom' := by
  obtain ⟨epochs, -, rfl⟩ := Option.map_eq_some_iff.mp hinvalidate
  exact h.congr rfl (fun _ => rfl) rfl

theorem mint (h : Layered dom) (data : NodeData) : Layered (dom.mint data) := by
  have hnone : dom.element? dom.nextId = none := by
    rw [← Option.not_isSome_iff_eq_none]
    exact fun hborn => (h.born _ hborn).false
  have hblank := h.blank _ hnone
  have helement : ∀ other, other ≠ dom.nextId → (dom.mint data).element? other = dom.element? other := by
    intro other hother
    rw [element?, element?, mint_data_of_ne _ hother]
  refine ⟨fun node hborn => ?_, fun node hnone => ?_, h.ordered.setLayer _ rfl, fun hcount => ?_⟩
  · by_cases hnode : node = dom.nextId
    · exact hnode.trans_lt (Nat.lt_succ_self _)
    · rw [helement node hnode] at hborn
      exact (h.born node hborn).trans (Nat.lt_succ_self _)
  · by_cases hnode : node = dom.nextId
    · rw [hnode]
      exact Presentation.setLayer_self _
    · rw [helement node hnode] at hnone
      exact (Presentation.setLayer_of_ne _ hnode).trans (h.blank node hnone)
  · exact (h.counted ((Nat.lt_succ_self _).trans hcount)).mint hblank

theorem presentAt (h : Layered dom) (node : NodeHandle) (call : PresentationCall) :
    Layered (dom.presentAt node (call.perform node)) := by
  cases helement : dom.element? node with
  | none =>
    rw [presentAt_of_none helement]
    exact h
  | some element =>
    have hborn : node < dom.nextId := h.born node (by rw [helement]; rfl)
    rw [presentAt_of_element helement]
    refine ⟨h.born, fun other hother => ?_, h.ordered.perform _ _ _, fun hcount =>
      (h.counted hcount).perform hcount hborn _ _⟩
    have hne : other ≠ node := by
      rintro rfl
      rw [show dom.element? other = none from hother] at helement
      cases helement
    exact (Presentation.perform_layers_of_ne hne).trans (h.blank other hother)

theorem leaveTopLayer (h : Layered dom) (node : NodeHandle) : Layered (dom.leaveTopLayer node) := by
  rw [leaveTopLayer_eq]
  exact (((h.presentAt node _).presentAt node _).presentAt node _).presentAt node _

theorem resetScrollOffset (h : Layered dom) (node : NodeHandle) :
    Layered (dom.resetScrollOffset node) := h.presentAt node (.setScrollOffset false)

/-! ## The calls -/

theorem links (h : Layered dom) (links : LinkedNodes) : Layered { dom with links } :=
  h.congr rfl (fun _ => rfl) rfl

theorem removeChild (h : Layered dom) {result : Except DomError NodeHandle}
    (hremove : dom.removeChild limit node child = some (dom', result)) : Layered dom' := by
  obtain ⟨⟨links, result'⟩, -, hremove⟩ := Option.bind_eq_some_iff.mp hremove
  cases result' with
  | error error =>
    cases hremove
    exact h.links links
  | ok removed =>
    obtain ⟨cleared, hcleared, hremove⟩ := Option.bind_eq_some_iff.mp hremove
    obtain ⟨invalidated, hinvalidated, hremove⟩ := Option.bind_eq_some_iff.mp hremove
    have hcleared' : Layered cleared :=
      walk_invariant (fun _ node h => h.leaveTopLayer node) hcleared (h.links links)
    have hinvalidated' : Layered invalidated := hcleared'.invalidate hinvalidated
    split at hremove
    next =>
      obtain ⟨reset, hreset, hremove⟩ := Option.bind_eq_some_iff.mp hremove
      cases hremove
      exact walk_invariant (fun _ node h => h.resetScrollOffset node) hreset hinvalidated'
    next =>
      cases hremove
      exact hinvalidated'

theorem detachFromParent (h : Layered dom) (hdetach : dom.detachFromParent limit child = some dom') :
    Layered dom' := by
  unfold Documents.detachFromParent at hdetach
  split at hdetach
  next =>
    cases hdetach
    exact h
  next parent _ =>
    obtain ⟨⟨_, result⟩, hremove, rfl⟩ := Option.map_eq_some_iff.mp hdetach
    exact h.removeChild hremove

theorem appendChild (h : Layered dom) (happend : dom.appendChild limit node child = some dom') :
    Layered dom' := by
  obtain ⟨ancestor, -, happend⟩ := Option.bind_eq_some_iff.mp happend
  cases ancestor with
  | true =>
    cases happend
    exact h
  | false =>
    obtain ⟨between, hbetween, happend⟩ := Option.bind_eq_some_iff.mp happend
    obtain ⟨links, -, happend⟩ := Option.bind_eq_some_iff.mp happend
    exact ((h.detachFromParent hbetween).links links).invalidate happend

theorem insertBefore (h : Layered dom) {reference : NodeHandle} {result : Except DomError Unit}
    (hinsert : dom.insertBefore limit node child reference = some (dom', result)) : Layered dom' := by
  obtain ⟨ancestor, -, hinsert⟩ := Option.bind_eq_some_iff.mp hinsert
  cases ancestor with
  | true =>
    cases hinsert
    exact h
  | false =>
    rw [if_neg Bool.false_ne_true] at hinsert
    split at hinsert
    next =>
      cases hinsert
      exact h
    next slot _ =>
      obtain ⟨between, hbetween, hinsert⟩ := Option.bind_eq_some_iff.mp hinsert
      have hbetween' : Layered between := h.detachFromParent hbetween
      split at hinsert
      next =>
        obtain ⟨links, -, hinsert⟩ := Option.bind_eq_some_iff.mp hinsert
        obtain ⟨invalidated, hinvalidated, hinsert⟩ := Option.bind_eq_some_iff.mp hinsert
        cases hinsert
        exact (hbetween'.links links).invalidate hinvalidated
      next reference' _ =>
        split at hinsert
        next =>
          cases hinsert
          exact hbetween'
        next slot' _ =>
          obtain ⟨links, -, hinsert⟩ := Option.bind_eq_some_iff.mp hinsert
          obtain ⟨invalidated, hinvalidated, hinsert⟩ := Option.bind_eq_some_iff.mp hinsert
          cases hinsert
          exact (hbetween'.links links).invalidate hinvalidated

theorem performTree (h : Layered dom) {call : TreeCall} {result : Except DomError Unit}
    (hcall : dom.performTree limit call = some (dom', result)) : Layered dom' := by
  cases call with
  | appendChild node child =>
    obtain ⟨between, hbetween, heq⟩ := Option.map_eq_some_iff.mp hcall
    cases heq
    exact h.appendChild hbetween
  | insertBefore node newChild referenceChild => exact h.insertBefore hcall
  | removeChild node child =>
    obtain ⟨⟨between, result'⟩, hbetween, heq⟩ := Option.map_eq_some_iff.mp hcall
    cases heq
    exact h.removeChild hbetween

theorem create (h : Layered dom) (source : NodeSource) : Layered (dom.create source) := by
  cases source with
  | element name =>
    rw [Documents.create]
    split
    next => exact h.mint _
    next => exact (h.mint _).mint _
  | _ => exact h.mint _

theorem attachShadow (h : Layered dom) (host : NodeHandle) (mode : ShadowRootMode) :
    Layered (dom.attachShadow host mode).1 := by
  unfold Documents.attachShadow
  split
  next element helement =>
    split
    next => exact h
    next =>
      have hborn : host < dom.nextId := by
        refine h.born host ?_
        rw [element?_eq_some_iff.mpr helement]
        rfl
      have hminted : (dom.mint (.shadowRoot (.blank host mode))).data host = .element element := by
        rw [mint_data_of_ne _ hborn.ne, helement]
      exact (h.mint _).setElement hminted
  next => exact h

theorem setTemplateContent (h : Layered dom) (content : NodeHandle) :
    Layered (dom.setTemplateContent node content).1 := by
  unfold Documents.setTemplateContent
  split
  next element helement =>
    split
    next => exact h.setElement helement
    next => exact h
  next => exact h

theorem performAttribute (h : Layered dom) {call : AttributeCall}
    (hcall : dom.performAttribute node call = some dom') : Layered dom' := by
  rw [Documents.performAttribute] at hcall
  split at hcall
  next element helement =>
    split at hcall
    next element' names _ =>
      obtain ⟨epochs, -, rfl⟩ := Option.map_eq_some_iff.mp hcall
      have hset : Layered (dom.setData node (.element element')) := h.setElement helement
      exact hset.congr rfl (fun _ => rfl) rfl
    next =>
      cases hcall
      exact h
  next =>
    cases hcall
    exact h

/-- Every call keeps the top layer and its counter in step with the flags. -/
theorem step (h : Layered dom) {mutation : Mutation} (hends : mutation.Ends dom dom') :
    Layered dom' := by
  obtain ⟨-, limit, hends⟩ := hends
  cases mutation with
  | create source =>
    cases hends
    exact h.create source
  | tree call =>
    obtain ⟨⟨between, result⟩, hbetween, rfl⟩ := Option.map_eq_some_iff.mp hends
    exact h.performTree hbetween
  | attachShadow host mode =>
    cases hends
    exact h.attachShadow host mode
  | setTemplateContent node content =>
    cases hends
    exact h.setTemplateContent content
  | attributes node call => exact h.performAttribute hends
  | setShadowRootSettings root settings =>
    obtain ⟨⟨between, changed⟩, hbetween, rfl⟩ := Option.map_eq_some_iff.mp hends
    cases settingsSet hbetween with
    | other => exact h
    | same hroot => exact h.setShadowRoot hroot
    | changed hroot hinvalidate => exact (h.setShadowRoot hroot).invalidate hinvalidate
  | assignSlottables slot nodes =>
    obtain ⟨⟨between, assigned⟩, hbetween, rfl⟩ := Option.map_eq_some_iff.mp hends
    cases slottablesAssigned hbetween with
    | refused => exact h
    | assigned _ hroot _ hinvalidate => exact (h.setShadowRoot hroot).invalidate hinvalidate
  | slotAssignments root =>
    obtain ⟨⟨between, assignments⟩, hbetween, rfl⟩ := Option.map_eq_some_iff.mp hends
    cases slotAssigned hbetween with
    | other | cached => exact h
    | made hroot => exact h.setShadowRoot hroot
  | present node call =>
    cases hends
    exact h.presentAt node call

theorem reachable (h : dom.Reachable) : Layered dom := by
  obtain ⟨steps, hsteps⟩ := h
  exact hsteps.invariant (fun step _ hbefore => hbefore.step step.ends) initial

end Layered

end Omoikane.Dom.Live
