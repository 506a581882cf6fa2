import Omoikane.Dom.Live.SelectOptions

/-!
# Selectedness

What the calls write (`Reselects`): whether elements are selected, and dirty.  The loop of
`run_selectedness_setting` leaves at most one option of its select selected (`Sets`), and none of
another select is written, since no option belongs to two selects.
-/

namespace Omoikane.Dom.Live

open Base Relation

/-- The tag name of an element is that of an option: `selected` looks at no other. -/
def Documents.isNamedOption (dom : Documents) (node : NodeHandle) : Bool :=
  match dom.data node with
  | .element element => element.tagName == "option".toList
  | _ => false

/-- Only whether elements are selected, and dirty, is another. -/
structure Reselects (dom dom' : Documents) : Prop where
  eq : ∃ data, dom' = { dom with data }
  payload : ∀ node, dom'.data node = dom.data node ∨ ∃ element selected dirtySelectedness,
    dom.data node = .element element ∧
      dom'.data node = .element { element with selected, dirtySelectedness }

namespace Reselects

variable {dom dom' dom'' : Documents} {lists : ChildLists} {node : NodeHandle}

theorem refl : Reselects dom dom := ⟨⟨_, rfl⟩, fun _ => .inl rfl⟩

theorem trans (h : Reselects dom dom') (h' : Reselects dom' dom'') : Reselects dom dom'' := by
  refine ⟨?_, fun node => ?_⟩
  · obtain ⟨_, rfl⟩ := h.eq
    obtain ⟨_, rfl⟩ := h'.eq
    exact ⟨_, rfl⟩
  · rcases h'.payload node with heq' | ⟨element, selected, dirty, helement, heq'⟩
    · rw [heq']
      exact h.payload node
    · rcases h.payload node with heq | ⟨element', selected', dirty', helement', heq⟩
      · exact .inr ⟨element, selected, dirty, heq ▸ helement, heq'⟩
      · rw [heq] at helement
        cases helement
        exact .inr ⟨element', selected, dirty, helement', heq'⟩

theorem links (h : Reselects dom dom') : dom'.links = dom.links := by
  obtain ⟨_, rfl⟩ := h.eq
  rfl

theorem nextId (h : Reselects dom dom') : dom'.nextId = dom.nextId := by
  obtain ⟨_, rfl⟩ := h.eq
  rfl

theorem parentNode (h : Reselects dom dom') : dom'.parentNode = dom.parentNode := by
  obtain ⟨_, rfl⟩ := h.eq
  rfl

theorem children (h : Reselects dom dom') : dom'.children = dom.children := by
  obtain ⟨_, rfl⟩ := h.eq
  rfl

theorem role (h : Reselects dom dom') : dom'.role = dom.role := by
  funext node
  unfold Documents.role
  rcases h.payload node with heq | ⟨element, selected, dirty, helement, heq⟩
  · rw [heq]
  · rw [heq, helement]
    rfl

theorem hasAttribute (h : Reselects dom dom') : dom'.hasAttribute = dom.hasAttribute := by
  funext node name
  unfold Documents.hasAttribute Documents.element?
  rcases h.payload node with heq | ⟨element, selected, dirty, helement, heq⟩
  · rw [heq]
  · rw [heq, helement]
    rfl

theorem isMultiple (h : Reselects dom dom') : dom'.isMultiple = dom.isMultiple := by
  funext node
  exact congrFun (congrFun h.hasAttribute node) _

theorem displaySize (h : Reselects dom dom') : dom'.displaySize = dom.displaySize := by
  funext node
  unfold Documents.displaySize Documents.element?
  rw [h.isMultiple]
  rcases h.payload node with heq | ⟨element, selected, dirty, helement, heq⟩
  · rw [heq]
  · rw [heq, helement]
    rfl

theorem meetSelect (h : Reselects dom dom') : dom'.meetSelect = dom.meetSelect := by
  funext seen node
  unfold Documents.meetSelect
  rw [h.role]

theorem owner (h : Reselects dom dom') : dom'.owner = dom.owner := by
  funext node
  unfold Documents.owner
  rw [h.meetSelect, h.parentNode]

theorem options (h : Reselects dom dom') : dom'.options = dom.options := by
  have hmeet : dom'.meetOption = dom.meetOption := by
    funext inside node
    unfold Documents.meetOption
    rw [h.role]
  funext select
  unfold Documents.options
  rw [hmeet, h.children]

theorem disabled (h : Reselects dom dom') : dom'.disabled = dom.disabled := by
  have hattribute : dom'.hasDisabledAttribute = dom.hasDisabledAttribute := by
    funext node
    exact congrFun (congrFun h.hasAttribute node) _
  have hmeet : dom'.meetDisabled = dom.meetDisabled := by
    funext state node
    unfold Documents.meetDisabled
    rw [h.role, hattribute]
  funext option
  unfold Documents.disabled
  rw [hmeet, hattribute, h.parentNode]

theorem consistent (h : Reselects dom dom') (hcons : Consistent dom lists) : Consistent dom' lists where
  linked := by rw [h.links]; exact hcons.linked
  known := by rw [h.nextId]; exact hcons.known
  unborn node hnode := by
    have htext := hcons.unborn node (h.nextId ▸ hnode)
    rcases h.payload node with heq | ⟨element, selected, dirty, helement, -⟩
    · rw [heq, htext]
    · rw [htext] at helement
      cases helement
  content_known node content hcontent := by
    rw [h.nextId]
    refine hcons.content_known node content ?_
    rw [← hcontent, Documents.templateContent, Documents.templateContent, Documents.element?,
      Documents.element?]
    rcases h.payload node with heq | ⟨element, selected, dirty, helement, heq⟩
    · rw [heq]
    · rw [heq, helement]
      rfl
  root_iff host root := by
    have hroot : dom'.shadowRoot host = dom.shadowRoot host := by
      rw [Documents.shadowRoot, Documents.shadowRoot, Documents.element?, Documents.element?]
      rcases h.payload host with heq | ⟨element, selected, dirty, helement, heq⟩
      · rw [heq]
      · rw [heq, helement]
        rfl
    have hhost : dom'.shadowHost root = dom.shadowHost root := by
      rw [Documents.shadowHost, Documents.shadowHost, Documents.shadowRoot?, Documents.shadowRoot?]
      rcases h.payload root with heq | ⟨element, selected, dirty, helement, heq⟩
      · rw [heq]
      · rw [heq, helement]
    rw [hroot, hhost]
    exact hcons.root_iff host root

theorem treeShaped (h : Reselects dom dom') (htree : TreeShaped dom) : TreeShaped dom' where
  consistent := by
    obtain ⟨lists, hcons⟩ := htree.consistent
    exact ⟨lists, h.consistent hcons⟩
  shaped child parent hparent := by
    rw [h.parentNode] at hparent
    have hsame : ∀ node, ((dom'.data node).Filial ↔ (dom.data node).Filial) ∧
        ((dom'.data node).Parental ↔ (dom.data node).Parental) := by
      intro node
      rcases h.payload node with heq | ⟨element, selected, dirty, helement, heq⟩
      · rw [heq]
        exact ⟨Iff.rfl, Iff.rfl⟩
      · rw [heq, helement]
        exact ⟨Iff.rfl, Iff.rfl⟩
    rw [(hsame child).1, (hsame parent).2]
    exact htree.shaped child parent hparent

/-- An element is written that differs in what the relation leaves open. -/
theorem modifyElement {f : Element → Element} (hf : ∀ element, ∃ selected dirtySelectedness,
    f element = { element with selected, dirtySelectedness }) :
    Reselects dom (dom.modifyElement node f) := by
  unfold Documents.modifyElement
  split
  next element helement =>
    refine ⟨⟨_, rfl⟩, fun other => ?_⟩
    by_cases hother : other = node
    · subst hother
      obtain ⟨selected, dirty, heq⟩ := hf element
      exact .inr ⟨element, selected, dirty, helement, by rw [Documents.setData_self, heq]⟩
    · exact .inl (Documents.setData_of_ne _ hother)
  next => exact .refl

theorem storeSelectedness (option : NodeHandle) (selected : Bool) :
    Reselects dom (dom.storeSelectedness option selected) :=
  modifyElement fun element => ⟨selected, element.dirtySelectedness, rfl⟩

theorem mark (option : NodeHandle) (selected markDirty : Bool) :
    Reselects dom (dom.modifyElement option (.mark selected markDirty)) :=
  modifyElement fun _ => ⟨selected, _, rfl⟩

theorem isNamedOption (h : Reselects dom dom') : dom'.isNamedOption = dom.isNamedOption := by
  funext node
  unfold Documents.isNamedOption
  rcases h.payload node with heq | ⟨element, selected, dirty, helement, heq⟩
  · rw [heq]
  · rw [heq, helement]

end Reselects

section

variable {dom dom' : Documents} {lists : ChildLists} {node other select option : NodeHandle}

/-- Whether nodes are selected after the flag of one is written. -/
theorem selected_modifyElement {f : Element → Element} {flag : Bool}
    (hf : ∀ element, (f element).tagName = element.tagName ∧ (f element).selected = flag) :
    (dom.modifyElement node f).selected other =
      if other = node then dom.isNamedOption node && flag else dom.selected other := by
  unfold Documents.modifyElement Documents.isNamedOption Documents.selected
  by_cases hother : other = node
  · subst hother
    rw [if_pos rfl]
    cases hdata : dom.data other with
    | element element => simp [hf]
    | _ => simp [hdata]
  · rw [if_neg hother]
    cases dom.data node with
    | element element =>
      dsimp only
      rw [Documents.setData_of_ne _ hother]
    | _ => rfl

theorem selected_storeSelectedness {flag : Bool} :
    (dom.storeSelectedness node flag).selected other =
      if other = node then dom.isNamedOption node && flag else dom.selected other :=
  selected_modifyElement fun _ => ⟨rfl, rfl⟩

theorem selected_mark {flag markDirty : Bool} :
    (dom.modifyElement node (.mark flag markDirty)).selected other =
      if other = node then dom.isNamedOption node && flag else dom.selected other :=
  selected_modifyElement fun _ => ⟨rfl, rfl⟩

/-! ## The loop of `run_selectedness_setting` -/

/-- The step of the loop, for an option of which is known whether it is disabled. -/
def Setting.visited (state : Setting) (disabled : Bool) (option : NodeHandle) : Setting :=
  let state := state.select option
  if state.firstEnabled.isNone && !disabled then { state with firstEnabled := some option } else state

theorem Setting.reselects_select (state : Setting) (option : NodeHandle) :
    Reselects state.dom (state.select option).dom := by
  unfold Setting.select
  split
  next => split <;> first | exact .storeSelectedness _ _ | exact .refl
  next => exact .refl

theorem Setting.visit_yields (h : Consistent dom lists) {state : Setting}
    (hstate : Reselects dom state.dom) (option : NodeHandle) :
    Settles (fun limit => state.visit limit option) (state.visited (dom.disabled option) option) := by
  have hselect := hstate.trans (state.reselects_select option)
  have hdisabled := (hselect.consistent h).optionOrOptgroupIsDisabled option
  rw [hselect.disabled] at hdisabled
  unfold Setting.visit Setting.visited
  dsimp only
  cases (state.select option).firstEnabled.isNone with
  | false => exact .pure _
  | true =>
    refine hdisabled.bind ?_
    cases dom.disabled option with
    | true => exact .pure _
    | false => exact .pure _

/-- What the loop has done to the selectedness after some options. -/
structure Setting.Selected (dom : Documents) (visited : List NodeHandle) (state : Setting) : Prop where
  reselects : Reselects dom state.dom
  selected : ∀ node, state.dom.selected node = true ↔
    dom.selected node = true ∧ (node ∈ visited → state.lastSelected = some node)
  none_selected : state.lastSelected = none → ∀ node ∈ visited, dom.selected node = false
  last_selected : ∀ node, state.lastSelected = some node → node ∈ visited ∧ dom.selected node = true
  same : (∀ node ∈ visited, ∀ other ∈ visited, dom.selected node = true → dom.selected other = true →
    node = other) → state.dom = dom ∧ state.changed = false

/-- What the loop has found of the options that are not disabled. -/
structure Setting.Enabled (dom : Documents) (visited : List NodeHandle) (state : Setting) : Prop where
  none_enabled : state.firstEnabled = none → ∀ node ∈ visited, dom.disabled node = true
  first_enabled : ∀ node, state.firstEnabled = some node →
    node ∈ visited ∧ dom.disabled node = false

namespace Setting

variable {state : Setting} {visited : List NodeHandle}

theorem Selected.nil : Selected dom [] ⟨dom, false, none, none⟩ where
  reselects := .refl
  selected _ := ⟨fun h => ⟨h, nofun⟩, And.left⟩
  none_selected _ := nofun
  last_selected _ := nofun
  same _ := ⟨rfl, rfl⟩

theorem Enabled.nil : Enabled dom [] ⟨dom, false, none, none⟩ where
  none_enabled _ := nofun
  first_enabled _ := nofun

/-- The step of the loop: of two options that are selected, the first is not any more. -/
theorem Selected.step (h : Selected dom visited state) (hnew : option ∉ visited) :
    Selected dom (visited ++ [option]) (state.select option) := by
  have hoption : state.dom.selected option = dom.selected option := by
    rw [Bool.eq_iff_iff, h.selected]
    exact ⟨And.left, fun hselected => ⟨hselected, fun hmem => (hnew hmem).elim⟩⟩
  unfold Setting.select
  rw [hoption]
  cases hselected : dom.selected option with
  | false =>
    refine ⟨h.reselects, fun node => ?_, fun hnone node hnode => ?_, fun node hlast => ?_,
      fun hsingle => ?_⟩
    · rw [if_neg Bool.false_ne_true, h.selected, List.mem_append, List.mem_singleton]
      refine and_congr_right fun hnode => imp_congr_left ⟨.inl, fun hor => hor.resolve_right ?_⟩
      rintro rfl
      rw [hselected] at hnode
      cases hnode
    · rcases List.mem_append.mp hnode with hnode | hnode
      · exact h.none_selected hnone node hnode
      · rw [List.mem_singleton.mp hnode, hselected]
    · exact (h.last_selected node hlast).imp_left (List.mem_append_left _)
    · exact h.same fun node hnode other hother =>
        hsingle node (List.mem_append_left _ hnode) other (List.mem_append_left _ hother)
  | true =>
    have hlast_option : ∀ node, (some option : Option NodeHandle) = some node →
        node ∈ visited ++ [option] ∧ dom.selected node = true := by
      rintro node heq
      cases heq
      exact ⟨List.mem_append_right _ (List.mem_singleton_self _), hselected⟩
    cases hlast : state.lastSelected with
    | none =>
      refine ⟨h.reselects, fun node => ?_, nofun, hlast_option, fun hsingle => ?_⟩
      · rw [if_pos rfl, h.selected, List.mem_append, List.mem_singleton, hlast]
        refine and_congr_right fun hnode => ⟨fun himp hor => ?_, fun _ hvisited => ?_⟩
        · rcases hor with hvisited | rfl
          · cases himp hvisited
          · rfl
        · rw [h.none_selected hlast node hvisited] at hnode
          cases hnode
      · exact h.same fun node hnode other hother =>
          hsingle node (List.mem_append_left _ hnode) other (List.mem_append_left _ hother)
    | some previous =>
      obtain ⟨hprevious, hselected'⟩ := h.last_selected previous hlast
      have hne : previous ≠ option := fun heq => hnew (heq ▸ hprevious)
      refine ⟨h.reselects.trans (.storeSelectedness _ _), fun node => ?_, nofun, hlast_option,
        fun hsingle => ?_⟩
      · rw [if_pos rfl, selected_storeSelectedness, Bool.and_false, List.mem_append,
          List.mem_singleton]
        by_cases hnode : node = previous
        · rw [if_pos hnode, hnode]
          refine iff_of_false nofun fun hboth => ?_
          exact hne (Option.some.inj (hboth.2 (.inl hprevious))).symm
        · rw [if_neg hnode, h.selected, hlast]
          refine and_congr_right fun _ => ⟨fun himp hor => ?_, fun himp hvisited => ?_⟩
          · rcases hor with hvisited | rfl
            · exact (hnode (Option.some.inj (himp hvisited)).symm).elim
            · rfl
          · have heq : node = option := (Option.some.inj (himp (.inl hvisited))).symm
            exact (hnew (heq ▸ hvisited)).elim
      · exact (hne (hsingle previous (List.mem_append_left _ hprevious) option
          (List.mem_append_right _ (List.mem_singleton_self _)) hselected' hselected)).elim

theorem select_firstEnabled : (state.select option).firstEnabled = state.firstEnabled := by
  unfold Setting.select
  split
  next => split <;> rfl
  next => rfl

theorem Selected.next (h : Selected dom visited state) (hnew : option ∉ visited)
    (disabled : Bool) : Selected dom (visited ++ [option]) (state.visited disabled option) := by
  have hstep := h.step hnew
  unfold Setting.visited
  dsimp only
  split
  next => exact ⟨hstep.reselects, hstep.selected, hstep.none_selected, hstep.last_selected, hstep.same⟩
  next => exact hstep

theorem Enabled.next (h : Enabled dom visited state) (option : NodeHandle) :
    Enabled dom (visited ++ [option]) (state.visited (dom.disabled option) option) := by
  unfold Setting.visited
  dsimp only
  rw [select_firstEnabled]
  cases hfirst : state.firstEnabled with
  | some first =>
    refine ⟨fun hnone => ?_, fun node hnode => ?_⟩
    · rw [Option.isNone_some, Bool.false_and, if_neg Bool.false_ne_true, select_firstEnabled,
        hfirst] at hnone
      cases hnone
    · rw [Option.isNone_some, Bool.false_and, if_neg Bool.false_ne_true, select_firstEnabled] at hnode
      exact (h.first_enabled node hnode).imp_left (List.mem_append_left _)
  | none =>
    cases hdisabled : dom.disabled option with
    | true =>
      refine ⟨fun _ node hnode => ?_, fun node hnode => ?_⟩
      · rcases List.mem_append.mp hnode with hnode | hnode
        · exact h.none_enabled hfirst node hnode
        · rw [List.mem_singleton.mp hnode, hdisabled]
      · rw [Bool.not_true, Bool.and_false, if_neg Bool.false_ne_true, select_firstEnabled,
          hfirst] at hnode
        cases hnode
    | false =>
      refine ⟨nofun, fun node hnode => ?_⟩
      cases hnode
      exact ⟨List.mem_append_right _ (List.mem_singleton_self _), hdisabled⟩

/-- The loop, over options none of which comes twice. -/
theorem run (h : Consistent dom lists) : ∀ {rest visited : List NodeHandle} {state : Setting},
    (visited ++ rest).Nodup → Selected dom visited state → Enabled dom visited state →
    ∃ state', Settles (fun limit => rest.foldlM (Setting.visit limit) state) state' ∧
      Selected dom (visited ++ rest) state' ∧ Enabled dom (visited ++ rest) state'
  | [], visited, state, _, hselected, henabled => by
    rw [List.append_nil]
    exact ⟨state, .pure state, hselected, henabled⟩
  | option :: rest, visited, state, hnodup, hselected, henabled => by
    rw [List.append_cons] at hnodup ⊢
    have hnew : option ∉ visited := fun hmem =>
      (List.nodup_append.mp (List.nodup_append.mp hnodup).1).2.2 _ hmem _
        (List.mem_singleton_self _) rfl
    obtain ⟨state', hyields, hrest⟩ := run h hnodup (hselected.next hnew (dom.disabled option))
      (henabled.next option)
    refine ⟨state', ?_, hrest⟩
    simp only [List.foldlM_cons]
    exact (visit_yields h hselected.reselects option).bind hyields

end Setting

/-! ## What the setting leaves -/

/-- No two options of a select are selected. -/
def Single (dom : Documents) (select : NodeHandle) : Prop :=
  ∀ option ∈ dom.options select, ∀ other ∈ dom.options select,
    dom.selected option = true → dom.selected other = true → option = other

/-- No two options of a select are selected, and one is, where one has to be. -/
structure Settled (dom : Documents) (select : NodeHandle) : Prop where
  single : Single dom select
  chosen : dom.displaySize select = 1 → (∃ option ∈ dom.options select, dom.disabled option = false) →
    ∃ option ∈ dom.options select, dom.selected option = true

/-- What `run_selectedness_setting` does. -/
structure Sets (dom : Documents) (select : NodeHandle) (dom' : Documents) (changed : Bool) : Prop where
  reselects : Reselects dom dom'
  elsewhere : ∀ node, node ∉ dom.options select → dom'.selected node = dom.selected node
  multiple : dom.isMultiple select = true → dom' = dom ∧ changed = false
  single : dom.isMultiple select = false → Single dom' select
  settled : dom.isMultiple select = false →
    (∀ option ∈ dom.options select, dom.isNamedOption option = true) → Settled dom' select
  same : Settled dom select → dom' = dom ∧ changed = false

/-- One option at most is selected. -/
theorem single_of_only (last : NodeHandle)
    (h : ∀ other ∈ dom.options select, dom.selected other = true → other = last) : Single dom select := by
  intro node hnode other hother hnode' hother'
  rw [h node hnode hnode', h other hother hother']

namespace Setting

variable {state : Setting}

theorem Selected.elsewhere (h : Selected dom (dom.options select) state)
    (hnode : node ∉ dom.options select) : state.dom.selected node = dom.selected node := by
  rw [Bool.eq_iff_iff, h.selected]
  exact ⟨And.left, fun hdom => ⟨hdom, fun hmem => (hnode hmem).elim⟩⟩

theorem Selected.not_selected (h : Selected dom (dom.options select) state)
    (hlast : state.lastSelected = none) (hnode : node ∈ state.dom.options select) :
    state.dom.selected node = false := by
  rw [h.reselects.options] at hnode
  rw [Bool.eq_false_iff, ne_eq, h.selected, h.none_selected hlast node hnode]
  exact fun hboth => Bool.false_ne_true hboth.1

/-- After the loop one option at most is selected. -/
theorem Selected.single (h : Selected dom (dom.options select) state) : Single state.dom select := by
  cases hlast : state.lastSelected with
  | none =>
    intro node hnode _ _ hnode'
    rw [h.not_selected hlast hnode] at hnode'
    cases hnode'
  | some last =>
    refine single_of_only last fun node hnode hnode' => ?_
    rw [h.reselects.options] at hnode
    have hlast' := ((h.selected node).mp hnode').2 hnode
    rw [hlast] at hlast'
    exact (Option.some.inj hlast').symm

/-- The loop is all there is to do where an option is selected, or none has to be. -/
theorem Selected.sets (h : Selected dom (dom.options select) state)
    (hmultiple : dom.isMultiple select = false)
    (hchosen : state.lastSelected = none → dom.displaySize select = 1 →
      ∀ option ∈ dom.options select, dom.disabled option = true) :
    Sets dom select state.dom state.changed where
  reselects := h.reselects
  elsewhere _ := h.elsewhere
  multiple htrue := by rw [hmultiple] at htrue; cases htrue
  single _ := h.single
  settled _ _ := by
    refine ⟨h.single, fun hsize henabled => ?_⟩
    rw [h.reselects.displaySize] at hsize
    rw [h.reselects.disabled, h.reselects.options] at henabled
    rw [h.reselects.options]
    cases hlast : state.lastSelected with
    | none =>
      obtain ⟨option, hoption, henabled⟩ := henabled
      rw [hchosen hlast hsize option hoption] at henabled
      cases henabled
    | some last =>
      obtain ⟨hmem, hlast'⟩ := h.last_selected last hlast
      exact ⟨last, hmem, (h.selected last).mpr ⟨hlast', fun _ => hlast⟩⟩
  same hsettled := h.same hsettled.single

/-- Without a selected option, the first one that is not disabled is selected. -/
theorem Selected.sets_first (h : Selected dom (dom.options select) state) {first : NodeHandle}
    (hmultiple : dom.isMultiple select = false) (hlast : state.lastSelected = none)
    (hsize : dom.displaySize select = 1) (hfirst : first ∈ dom.options select)
    (henabled : dom.disabled first = false) :
    Sets dom select (state.dom.storeSelectedness first true) true := by
  have hstored := h.reselects.trans (.storeSelectedness first true)
  have hsingle : Single (state.dom.storeSelectedness first true) select := by
    refine single_of_only first fun node hnode hnode' => ?_
    rw [(Reselects.storeSelectedness first true).options] at hnode
    by_contra hne
    rw [selected_storeSelectedness, if_neg hne, h.not_selected hlast hnode] at hnode'
    cases hnode'
  refine ⟨hstored, fun node hnode => ?_, fun htrue => ?_, fun _ => hsingle,
    fun _ hnamed => ⟨hsingle, fun _ _ => ?_⟩, fun hsettled => ?_⟩
  · rw [selected_storeSelectedness, if_neg fun heq : node = first => hnode (heq ▸ hfirst),
      h.elsewhere hnode]
  · rw [hmultiple] at htrue
    cases htrue
  · rw [hstored.options]
    refine ⟨first, hfirst, ?_⟩
    rw [selected_storeSelectedness, if_pos rfl, h.reselects.isNamedOption, hnamed first hfirst]
    rfl
  · obtain ⟨node, hnode, hnode'⟩ := hsettled.chosen hsize ⟨first, hfirst, henabled⟩
    rw [h.none_selected hlast node hnode] at hnode'
    cases hnode'

end Setting

/-- `run_selectedness_setting` ends. -/
theorem Consistent.runSelectednessSetting (h : Consistent dom lists) (select : NodeHandle) :
    ∃ dom' changed, Settles (dom.runSelectednessSetting · select) (dom', changed) ∧
      Sets dom select dom' changed := by
  unfold Documents.runSelectednessSetting
  cases hmultiple : dom.isMultiple select with
  | true =>
    refine ⟨dom, false, .pure _, .refl, fun _ _ => rfl, fun _ => ⟨rfl, rfl⟩, ?_, ?_,
      fun _ => ⟨rfl, rfl⟩⟩
    · rw [hmultiple]; nofun
    · rw [hmultiple]; nofun
  | false =>
    obtain ⟨state, hloop, hselected, henabled⟩ := Setting.run h (h.nodup_options select)
      (@Setting.Selected.nil dom) (@Setting.Enabled.nil dom)
    rw [List.nil_append] at hselected henabled
    have hsize := congrFun hselected.reselects.displaySize select
    by_cases hfirst : ∃ first, state.lastSelected = none ∧ state.firstEnabled = some first ∧
        dom.displaySize select = 1
    · obtain ⟨first, hlast, hfirst, hone⟩ := hfirst
      obtain ⟨hmem, henabled'⟩ := henabled.first_enabled first hfirst
      refine ⟨_, _, (h.listOfOptions select).bind (hloop.bind ?_),
        hselected.sets_first hmultiple hlast hone hmem henabled'⟩
      rw [hlast, hfirst]
      dsimp only
      rw [if_pos (hsize.trans hone)]
      exact .pure _
    · refine ⟨_, _, (h.listOfOptions select).bind (hloop.bind ?_),
        hselected.sets hmultiple fun hlast hone => ?_⟩
      · cases hlast : state.lastSelected with
        | some last => exact .pure _
        | none =>
          cases hfirst' : state.firstEnabled with
          | none => exact .pure _
          | some first =>
            dsimp only
            rw [if_neg fun hone => hfirst ⟨first, hlast, hfirst', hsize.symm.trans hone⟩]
            exact .pure _
      · cases hfirst' : state.firstEnabled with
        | none => exact henabled.none_enabled hfirst'
        | some first => exact (hfirst ⟨first, hlast, hfirst', hone⟩).elim

end

end Omoikane.Dom.Live
