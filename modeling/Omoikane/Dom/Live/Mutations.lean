import Omoikane.Dom.Live.Slots

/-!
# Mutations

The calls that change documents, and runs of them.
-/

namespace Omoikane.Dom.Live

open Base

/-- A setter of what is presented of an element. -/
inductive PresentationCall where
  | setPopoverOpen (flag : Bool)
  | setPickerOpen (flag : Bool)
  | setModalDialog (flag : Bool)
  | setFullscreen (flag : Bool)
  | setScrollOffset (scrolled : Bool)
deriving DecidableEq, Repr

def PresentationCall.perform (node : NodeHandle) (call : PresentationCall) (element : Element)
    (presentation : Presentation) : Presentation :=
  match call with
  | .setPopoverOpen flag => presentation.setPopoverOpen node flag
  | .setPickerOpen flag => presentation.setPickerOpen element node flag
  | .setModalDialog flag => presentation.setModalDialog node flag
  | .setFullscreen flag => presentation.setFullscreen node flag
  | .setScrollOffset scrolled => presentation.setScrollOffset node scrolled

/-- A call.  `slotAssignments` stands for whatever reads the assignments of a root. -/
inductive Mutation where
  | create (source : NodeSource)
  | tree (call : TreeCall)
  | attachShadow (host : NodeHandle) (mode : ShadowRootMode)
  | setTemplateContent (node content : NodeHandle)
  | attributes (node : NodeHandle) (call : AttributeCall)
  | setShadowRootSettings (root : NodeHandle) (settings : ShadowRootSettings)
  | assignSlottables (slot : NodeHandle) (nodes : List NodeHandle)
  | slotAssignments (root : NodeHandle)
  | present (node : NodeHandle) (call : PresentationCall)
deriving DecidableEq, Repr

namespace Mutation

/-- What a call does to the documents. -/
def perform (limit : Nat) (dom : Documents) : Mutation → Option Documents
  | .create source => some (dom.create source)
  | .tree call => (dom.performTree limit call).map Prod.fst
  | .attachShadow host mode => some (dom.attachShadow host mode).1
  | .setTemplateContent node content => some (dom.setTemplateContent node content).1
  | .attributes node call => dom.performAttribute node call
  | .setShadowRootSettings root settings => (dom.setShadowRootSettings root settings).map Prod.fst
  | .assignSlottables slot nodes => (dom.assignSlottables limit slot nodes).map Prod.fst
  | .slotAssignments root => (dom.slotAssignments limit root).map Prod.fst
  | .present node call => some (dom.presentAt node (call.perform node))

/-- The nodes that a call is given. -/
def handles : Mutation → List NodeHandle
  | .create _ => []
  | .tree (.appendChild node child) | .tree (.removeChild node child)
  | .setTemplateContent node child => [node, child]
  | .tree (.insertBefore node newChild referenceChild) => [node, newChild, referenceChild]
  | .attachShadow node _ | .attributes node _ | .setShadowRootSettings node _
  | .slotAssignments node | .present node _ => [node]
  | .assignSlottables slot nodes => slot :: nodes

/-- A call is on nodes that were created. -/
def Known (dom : Documents) (mutation : Mutation) : Prop :=
  ∀ node ∈ mutation.handles, node < dom.nextId

instance (dom : Documents) (mutation : Mutation) : Decidable (mutation.Known dom) :=
  inferInstanceAs (Decidable (∀ node ∈ mutation.handles, node < dom.nextId))

/-- A call ends, whatever the number of steps that its walks take. -/
def Ends (dom : Documents) (mutation : Mutation) (dom' : Documents) : Prop :=
  mutation.Known dom ∧ ∃ limit, mutation.perform limit dom = some dom'

end Mutation

/-! ## What a call does -/

namespace Documents

/-- The attribute records of a node. -/
def records (dom : Documents) (node : NodeHandle) : List AttributeRecord :=
  ((dom.element? node).map (·.attributeRecords)).getD []

/-- The nodes that there were keep their links and their attributes, and no epoch goes back. -/
structure Keeps (dom dom' : Documents) : Prop where
  nextId : dom.nextId ≤ dom'.nextId
  links : ∀ node < dom.nextId, dom'.links node = dom.links node
  records : ∀ node < dom.nextId, dom'.records node = dom.records node
  epochs : dom.epochs.Le dom'.epochs

variable {dom dom' : Documents} {node : NodeHandle}

theorem Keeps.refl : Keeps dom dom := ⟨le_rfl, fun _ _ => rfl, fun _ _ => rfl, .refl⟩

theorem Keeps.trans {dom'' : Documents} (h : Keeps dom dom') (h' : Keeps dom' dom'') :
    Keeps dom dom'' where
  nextId := h.nextId.trans h'.nextId
  links node hnode := (h'.links node (hnode.trans_le h.nextId)).trans (h.links node hnode)
  records node hnode := (h'.records node (hnode.trans_le h.nextId)).trans (h.records node hnode)
  epochs := h.epochs.trans h'.epochs

theorem records_congr {other : NodeHandle} (h : dom'.data other = dom.data other) :
    dom'.records other = dom.records other := by
  rw [records, records, element?, element?, h]

theorem records_of_element {element : Element} (h : dom.data node = .element element) :
    dom.records node = element.attributeRecords := by
  rw [records, element?_eq_some_iff.mpr h]
  rfl

theorem records_of_shadowRoot {root : ShadowRoot} (h : dom.data node = .shadowRoot root) :
    dom.records node = [] := by
  rw [records, element?, h]
  rfl

theorem keeps_mint (data : NodeData) : Keeps dom (dom.mint data) where
  nextId := Nat.le_succ _
  links _ hnode := mint_links_of_ne _ hnode.ne
  records _ hnode := records_congr (mint_data_of_ne _ hnode.ne)
  epochs := .refl

theorem keeps_create (source : NodeSource) : Keeps dom (dom.create source) := by
  cases source with
  | element name =>
    rw [create]
    split
    next => exact keeps_mint _
    next => exact (keeps_mint _).trans (keeps_mint _)
  | _ => exact keeps_mint _

/-- A payload is written that has the attributes of the one before. -/
theorem keeps_setData {data : NodeData} (h : (dom.setData node data).records node = dom.records node) :
    Keeps dom (dom.setData node data) where
  nextId := le_rfl
  links _ _ := rfl
  records other _ := by
    by_cases hother : other = node
    · rw [hother, h]
    · exact records_congr (setData_of_ne _ hother)
  epochs := .refl

theorem keeps_setShadowRoot {root root' : ShadowRoot} (h : dom.data node = .shadowRoot root) :
    Keeps dom (dom.setData node (.shadowRoot root')) := by
  refine keeps_setData ?_
  rw [records_of_shadowRoot h, records_of_shadowRoot (setData_self _)]

theorem keeps_invalidate (h : dom.invalidateSlotAssignments = some dom') : Keeps dom dom' := by
  obtain ⟨epochs, hepochs, rfl⟩ := Option.map_eq_some_iff.mp h
  exact ⟨le_rfl, fun _ _ => rfl, fun _ _ => rfl, Epochs.invalidateSlotAssignments_le hepochs⟩

theorem Presents.keeps (h : Presents dom dom') : Keeps dom dom' := by
  obtain ⟨_, rfl⟩ := h
  exact ⟨le_rfl, fun _ _ => rfl, fun _ _ => rfl, .refl⟩

theorem keeps_attachShadow {host : NodeHandle} (hknown : host < dom.nextId) (mode : ShadowRootMode) :
    Keeps dom (dom.attachShadow host mode).1 := by
  unfold attachShadow
  split
  next element helement =>
    split
    next => exact .refl
    next =>
      have hminted : (dom.mint (.shadowRoot (.blank host mode))).data host = dom.data host :=
        mint_data_of_ne _ hknown.ne
      refine (keeps_mint (.shadowRoot (.blank host mode))).trans (keeps_setData ?_)
      rw [records_of_element (setData_self _), records_of_element (hminted.trans helement)]
  next => exact .refl

theorem keeps_setTemplateContent (content : NodeHandle) :
    Keeps dom (dom.setTemplateContent node content).1 := by
  unfold setTemplateContent
  split
  next element helement =>
    split
    next =>
      refine keeps_setData ?_
      rw [records_of_element helement, records_of_element (setData_self _)]
    next => exact .refl
  next => exact .refl

theorem keeps_setShadowRootSettings {settings : ShadowRootSettings} {changed : Bool}
    (h : dom.setShadowRootSettings node settings = some (dom', changed)) : Keeps dom dom' := by
  cases settingsSet h with
  | other => exact .refl
  | same hroot => exact keeps_setShadowRoot hroot
  | changed hroot hinvalidate => exact (keeps_setShadowRoot hroot).trans (keeps_invalidate hinvalidate)

theorem keeps_assignSlottables {limit : Nat} {nodes : List NodeHandle} {assigned : Bool}
    (h : dom.assignSlottables limit node nodes = some (dom', assigned)) : Keeps dom dom' := by
  cases slottablesAssigned h with
  | refused => exact .refl
  | assigned _ hroot _ hinvalidate =>
    exact (keeps_setShadowRoot hroot).trans (keeps_invalidate hinvalidate)

theorem keeps_slotAssignments {limit : Nat} {assignments : Option SlotAssignments}
    (h : dom.slotAssignments limit node = some (dom', assignments)) : Keeps dom dom' := by
  cases slotAssigned h with
  | other | cached => exact .refl
  | made hroot => exact keeps_setShadowRoot hroot

end Documents

/-- What a call that ends did: something to the tree, to the attributes of one node, or neither. -/
inductive Mutation.Did (dom : Documents) : Mutation → Documents → Prop
  | keeps {mutation : Mutation} {dom' : Documents} : Documents.Keeps dom dom' →
      (∀ node call element, mutation = .attributes node call → dom.data node = .element element →
        call.perform element = none) → Did dom mutation dom'
  | moves {call : TreeCall} {dom' : Documents} {result : Except DomError Unit} :
      call.Ends dom.links dom'.links result → Documents.Moves dom dom' → Did dom (.tree call) dom'
  | attributes {node : NodeHandle} {call : AttributeCall} {element element' : Element}
      {names : List Text} {dom' : Documents} : dom.data node = .element element →
      call.perform element = some (element', names) →
      dom.epochs.invalidateForAttribute names = some dom'.epochs → dom'.nextId = dom.nextId →
      dom'.links = dom.links → dom'.data = (dom.setData node (.element element')).data →
      Did dom (.attributes node call) dom'

theorem Mutation.did_of_ends {dom dom' : Documents} {mutation : Mutation}
    (h : mutation.Ends dom dom') : mutation.Did dom dom' := by
  obtain ⟨hknown, limit, h⟩ := h
  cases mutation with
  | create source =>
    cases h
    exact .keeps (Documents.keeps_create source) fun _ _ _ heq => nomatch heq
  | tree call =>
    obtain ⟨⟨between, result⟩, hbetween, rfl⟩ := Option.map_eq_some_iff.mp h
    obtain ⟨hends, rfl | hmoves⟩ := Documents.performTree_spec hbetween
    · exact .keeps .refl fun _ _ _ heq => nomatch heq
    · exact .moves hends hmoves
  | attachShadow host mode =>
    cases h
    exact .keeps (Documents.keeps_attachShadow (hknown host (List.mem_singleton_self _)) mode) fun _ _ _ heq => nomatch heq
  | setTemplateContent node content =>
    cases h
    exact .keeps (Documents.keeps_setTemplateContent content) fun _ _ _ heq => nomatch heq
  | attributes node call =>
    rw [perform, Documents.performAttribute] at h
    split at h
    next element helement =>
      split at h
      next element' names hperform =>
        obtain ⟨epochs, hepochs, rfl⟩ := Option.map_eq_some_iff.mp h
        exact .attributes helement hperform hepochs rfl rfl rfl
      next hperform =>
        cases h
        refine .keeps .refl fun node' call' element' heq helement' => ?_
        cases heq
        rw [helement] at helement'
        cases helement'
        exact hperform
    next hnot =>
      cases h
      refine .keeps .refl fun node' call' element' heq helement' => ?_
      cases heq
      exact (hnot element' helement').elim
  | setShadowRootSettings root settings =>
    obtain ⟨⟨between, changed⟩, hbetween, rfl⟩ := Option.map_eq_some_iff.mp h
    exact .keeps (Documents.keeps_setShadowRootSettings hbetween) fun _ _ _ heq => nomatch heq
  | assignSlottables slot nodes =>
    obtain ⟨⟨between, assigned⟩, hbetween, rfl⟩ := Option.map_eq_some_iff.mp h
    exact .keeps (Documents.keeps_assignSlottables hbetween) fun _ _ _ heq => nomatch heq
  | slotAssignments root =>
    obtain ⟨⟨between, assignments⟩, hbetween, rfl⟩ := Option.map_eq_some_iff.mp h
    exact .keeps (Documents.keeps_slotAssignments hbetween) fun _ _ _ heq => nomatch heq
  | present node call =>
    cases h
    exact .keeps (Documents.presents_presentAt _).keeps fun _ _ _ heq => nomatch heq

/-! ## Runs -/

/-- A call with the documents before and after it. -/
structure Step where
  before : Documents
  mutation : Mutation
  after : Documents
  ends : mutation.Ends before after

/-- Calls one after another. -/
inductive Steps : Documents → List Step → Documents → Prop
  | nil {dom : Documents} : Steps dom [] dom
  | cons {step : Step} {steps : List Step} {dom' : Documents} :
      Steps step.after steps dom' → Steps step.before (step :: steps) dom'

namespace Documents

/-- No node was created yet. -/
def initial : Documents where
  nextId := 0
  links _ := ⟨none, 0, 0, 0, .default⟩
  data _ := .text
  presentation := ⟨fun _ => {}, 0, 0, 0⟩
  epochs := ⟨0, 0, 0, fun _ => 0⟩

/-- Some calls, from the beginning, lead to the documents. -/
def Reachable (dom : Documents) : Prop := ∃ steps, Steps initial steps dom

end Documents

/-- Some calls one after another, none of whose walks takes more steps than `limit`. -/
def Documents.performAll (limit : Nat) (dom : Documents) (mutations : List Mutation) :
    Option Documents :=
  mutations.foldlM (fun dom mutation =>
    if mutation.Known dom then mutation.perform limit dom else none) dom

/-- The documents after some calls from the beginning, if these end. -/
def Documents.after (limit : Nat) (mutations : List Mutation) : Documents :=
  (Documents.initial.performAll limit mutations).getD .initial

variable {dom dom' : Documents} {steps : List Step}

/-- What the calls of a run keep holds at its end. -/
theorem Steps.invariant {I : Documents → Prop} (h : Steps dom steps dom')
    (hstep : ∀ step ∈ steps, I step.before → I step.after) (hstart : I dom) : I dom' := by
  induction h with
  | nil => exact hstart
  | cons _ ih =>
    exact ih (fun step hmem => hstep step (List.mem_cons_of_mem _ hmem))
      (hstep _ List.mem_cons_self hstart)

/-- It holds before each of them, too. -/
theorem Steps.forall_before {I : Documents → Prop} (h : Steps dom steps dom')
    (hstep : ∀ step ∈ steps, I step.before → I step.after) (hstart : I dom) :
    ∀ step ∈ steps, I step.before := by
  induction h with
  | nil => exact fun step hmem => by cases hmem
  | cons _ ih =>
    intro step hmem
    rcases List.mem_cons.mp hmem with rfl | hmem
    · exact hstart
    · exact ih (fun step hmem => hstep step (List.mem_cons_of_mem _ hmem))
        (hstep _ List.mem_cons_self hstart) step hmem

theorem Steps.of_performAll {limit : Nat} : ∀ {mutations : List Mutation} {dom dom' : Documents},
    dom.performAll limit mutations = some dom' →
      ∃ steps, Steps dom steps dom' ∧ steps.map Step.mutation = mutations
  | [], _, _, h => by
    cases h
    exact ⟨[], .nil, rfl⟩
  | mutation :: mutations, dom, dom', h => by
    rw [Documents.performAll, List.foldlM_cons] at h
    obtain ⟨between, hbetween, h⟩ := Option.bind_eq_some_iff.mp h
    split at hbetween
    next hknown =>
      obtain ⟨steps, hsteps, rfl⟩ := Steps.of_performAll h
      let step : Step := ⟨dom, mutation, between, hknown, limit, hbetween⟩
      exact ⟨step :: steps, @Steps.cons step _ _ hsteps, rfl⟩
    next => cases hbetween

end Omoikane.Dom.Live
