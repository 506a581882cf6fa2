import Omoikane.Dom.Live.SelectCalls

/-!
# Runs of calls on selects

A mutation of a tree changes the nearest select of no node but those below the subtree it moves, and
`capture` has the options among these.  So after any calls no two options of a select without `multiple`
are selected, and where the setting algorithm ran, an option is selected if one can be
(`selectedness_kept`).

It does not run when the attribute of a dirty option is applied, when the options of a select change
places, and on a select with `multiple` (`unset_remains`).
-/

namespace Omoikane.Dom.Live

open Base Relation

/-- A call on the tree is for nodes that a tree can have there. -/
def Fits (dom : Documents) : TreeCall → Prop
  | .appendChild node child | .insertBefore node child _ =>
    (dom.data child).Filial ∧ (dom.data node).Parental
  | .removeChild _ _ => True

section

variable {dom dom' : Documents} {lists : ChildLists} {node other select option : NodeHandle}
  {call : TreeCall}

/-! ## What is captured -/

namespace Documents

/-- What `visit` does at a node. -/
noncomputable def captured (dom : Documents) (_ : Unit) (node : NodeHandle) :
    List ((NodeHandle × Option NodeHandle) ⊕ (NodeHandle × Option NodeHandle)) × Option Unit :=
  match dom.role node with
  | .notElement => ([], none)
  | .option => ([.inl (node, dom.owner node)], some ())
  | .selectedContent =>
    ([.inr (node, meetAll dom.meetReflected (·.filter fun select => !dom.isMultiple select) none
      (above dom.parentNode node))], some ())
  | .select | .optgroup | .barrier | .other => ([], some ())

theorem captured_below : (dom.captured () node).2 = some () ↔ dom.role node ≠ .notElement := by
  unfold captured
  cases dom.role node <;> simp

theorem stateBelow_captured {between : List NodeHandle} :
    stateBelow dom.captured () between = some () ↔ ∀ node ∈ between, dom.role node ≠ .notElement := by
  induction between with
  | nil => simp
  | cons node between ih =>
    have hcons : stateBelow dom.captured () (node :: between) =
        (stateBelow dom.captured () between).bind fun _ => (dom.captured () node).2 := rfl
    rw [hcons, Option.bind_eq_some_iff, List.forall_mem_cons, ← captured_below]
    exact ⟨fun ⟨_, hbetween, hnode⟩ => ⟨hnode, ih.mp hbetween⟩,
      fun ⟨hnode, hbetween⟩ => ⟨(), ih.mpr hbetween, hnode⟩⟩

theorem mem_captured {state : Unit} {entry : NodeHandle × Option NodeHandle} :
    .inl entry ∈ (dom.captured state node).1 ↔
      dom.role node = .option ∧ entry = (node, dom.owner node) := by
  unfold captured
  cases dom.role node <;> simp

end Documents

/-- `capture` ends, with the options of the subtree below elements, and their selects. -/
theorem Consistent.capture (h : Consistent dom lists) (root : NodeHandle) :
    ∃ captured, Settles (dom.capture · root) captured ∧ ∀ entry, entry ∈ captured.options ↔
      dom.role entry.1 = .option ∧ entry.2 = dom.owner entry.1 ∧
        ∃ between, Way dom.parentNode entry.1 between root ∧
          ∀ node ∈ between, dom.role node ≠ .notElement := by
  obtain ⟨results, hresults⟩ : ∃ results, Descended lists dom.captured () [root] results :=
    Descended.exists_of_wellFounded h.wellFounded_children () [root]
  have hmeet : ∀ state node, Settles (dom.meetCaptured · state node) (dom.captured state node) := by
    intro state node
    unfold Documents.meetCaptured Documents.captured
    cases dom.role node with
    | option => exact (h.nearestAncestorSelect node).map _
    | selectedContent => exact (h.rooted.ascend none node).map _
    | _ => exact .pure _
  refine ⟨_, (hresults.settles h.childrenFrom hmeet).bind (.pure _), fun entry => ?_⟩
  have hleft : entry ∈ results.filterMap Sum.getLeft? ↔ .inl entry ∈ results := by
    rw [List.mem_filterMap]
    constructor
    · rintro ⟨result, hresult, hentry⟩
      cases result with
      | inl => cases hentry; exact hresult
      | inr => cases hentry
    · exact fun hresult => ⟨_, hresult, rfl⟩
  rw [hleft, hresults.mem_iff fun child parent => h.parent_iff.symm]
  simp only [List.mem_singleton, exists_eq_left, Documents.mem_captured]
  constructor
  · rintro ⟨node, between, state, hway, hstate, hrole, rfl⟩
    exact ⟨hrole, rfl, between, hway, Documents.stateBelow_captured.mp hstate⟩
  · rintro ⟨hrole, howner, between, hway, helements⟩
    exact ⟨entry.1, between, (), hway, Documents.stateBelow_captured.mpr helements, hrole,
      Prod.ext rfl howner⟩

/-! ## Calls on the tree -/

/-- Only the subtree that a call is for gets another parent. -/
theorem mem_onLists_of_ne {parent : NodeHandle} (hne : other ≠ movedSubtree call) :
    other ∈ (call.onLists lists).1 parent ↔ other ∈ lists parent := by
  constructor
  · intro hmem
    refine (mem_onLists hmem).resolve_right fun hmoved => ?_
    cases call with
    | appendChild | insertBefore => exact hne hmoved.2.2
    | removeChild => exact hmoved.2
  · intro hmem
    cases call with
    | appendChild node child =>
      rw [TreeCall.onLists]
      split
      next => exact hmem
      next => exact mem_move_of_ne hmem hne
    | insertBefore node child reference =>
      rw [TreeCall.onLists]
      repeat' split
      all_goals first | exact hmem | exact mem_move_of_ne hmem hne
    | removeChild node child =>
      rw [TreeCall.onLists]
      split
      next =>
        by_cases hparent : parent = node
        · subst hparent
          dsimp only
          rw [Function.update_self]
          exact (List.mem_erase_of_ne hne).mpr hmem
        · dsimp only
          rwa [Function.update_of_ne hparent]
      next => exact hmem

/-- What a call on the tree leaves of the documents. -/
structure Relinked (dom : Documents) (call : TreeCall) (dom' : Documents) : Prop where
  tree : TreeShaped dom'
  data : dom'.data = dom.data
  parentNode : ∀ node, node ≠ movedSubtree call → dom'.parentNode node = dom.parentNode node
  moved : (dom.data (movedSubtree call)).Filial ∨ dom'.parentNode = dom.parentNode

theorem TreeShaped.performTree (h : TreeShaped dom) (hknown : (Mutation.tree call).Known dom)
    (hfits : Fits dom call) {limit : Nat} {result : Except DomError Unit}
    (hperform : dom.performTree limit call = some (dom', result)) : Relinked dom call dom' := by
  obtain ⟨lists, hcons⟩ := h.consistent
  obtain ⟨hends, hmoves⟩ := Documents.performTree_spec hperform
  have hcons' := hcons.tree hknown hends hmoves
  obtain ⟨-, hdoes⟩ := hcons.linked.call hends
  have hdata : dom'.data = dom.data := by
    rcases hmoves with rfl | hmoves
    · rfl
    · obtain ⟨_, _, _, rfl⟩ := hmoves.eq
      rfl
  refine ⟨⟨⟨_, hcons'⟩, fun child parent hparent => ?_⟩, hdata, fun node hne => ?_, ?_⟩
  · rw [hdata]
    rcases mem_onLists (hcons'.parent_iff.mp hparent) with hmem | ⟨-, hmoved⟩
    · exact h.shaped child parent (hcons.parent_iff.mpr hmem)
    · cases call with
      | appendChild | insertBefore =>
        obtain ⟨rfl, rfl⟩ := hmoved
        exact hfits
      | removeChild => exact hmoved.elim
  · refine Option.ext fun parent => ?_
    rw [hcons'.parent_iff, hcons.parent_iff, mem_onLists_of_ne hne]
  · by_cases hrefused : call.Refused lists
    · refine .inr ?_
      funext node
      rw [Documents.parentNode, Documents.parentNode, hdoes.unchanged hrefused]
    · refine .inl ?_
      cases call with
      | appendChild | insertBefore => exact hfits.1
      | removeChild node child =>
        exact (h.shaped child node (hcons.parent_iff.mpr (not_not.mp hrefused))).1

namespace Relinked

theorem role (h : Relinked dom call dom') : dom'.role = dom.role := by
  funext node
  rw [Documents.role, Documents.role, h.data]

theorem hasAttribute (h : Relinked dom call dom') : dom'.hasAttribute = dom.hasAttribute := by
  funext node name
  rw [Documents.hasAttribute, Documents.hasAttribute, Documents.element?, Documents.element?, h.data]

theorem selected (h : Relinked dom call dom') : dom'.selected = dom.selected := by
  funext node
  rw [Documents.selected, Documents.selected, h.data]

theorem meetSelect (h : Relinked dom call dom') : dom'.meetSelect = dom.meetSelect := by
  funext seen node
  rw [Documents.meetSelect, Documents.meetSelect, h.role]

/-- The nearest select of a node changes only below the subtree that is moved. -/
theorem leads_of_owner_ne (h : Relinked dom call dom') (htree : TreeShaped dom)
    (hne : dom'.owner node ≠ dom.owner node) :
    ReflTransGen (Below dom.parentNode) node (movedSubtree call) := by
  obtain ⟨lists, hcons⟩ := htree.consistent
  by_contra hnot
  refine hne ?_
  rw [Documents.owner, Documents.owner, h.meetSelect, hcons.rooted.above_congr fun other hleads => ?_]
  exact h.parentNode other fun heq => hnot (heq ▸ hleads)

/-- A select whose options change is one that a captured option left or joined. -/
theorem mem_changedSelects (h : Relinked dom call dom') (htree : TreeShaped dom)
    {captured : SubtreeSelects} (hcaptured : ∀ entry, entry ∈ captured.options ↔
      dom.role entry.1 = .option ∧ entry.2 = dom.owner entry.1 ∧
        ∃ between, Way dom.parentNode entry.1 between (movedSubtree call) ∧
          ∀ node ∈ between, dom.role node ≠ .notElement)
    (hselect : dom.role select = .select)
    (hchange : ¬ (option ∈ dom'.options select ↔ option ∈ dom.options select)) :
    select ∈ dom'.changedSelects captured.options := by
  have hselect' : dom'.role select = .select := by rwa [h.role]
  rw [h.tree.mem_options_iff hselect', htree.mem_options_iff hselect, h.role] at hchange
  have hrole : dom.role option = .option := by
    by_contra hrole
    exact hchange (iff_of_false (fun hboth => hrole hboth.1) fun hboth => hrole hboth.1)
  have hmoves : ¬ (dom'.owner option = some select ↔ dom.owner option = some select) := fun hiff =>
    hchange (and_congr_right fun _ => hiff)
  have hne : dom'.owner option ≠ dom.owner option := fun heq => hmoves (by rw [heq])
  have hleads := h.leads_of_owner_ne htree hne
  obtain ⟨between, hway⟩ := Way.of_leads hleads
  have hfilial : (dom.data (movedSubtree call)).Filial := by
    refine h.moved.resolve_right fun hsame => hne ?_
    obtain ⟨lists, hcons⟩ := htree.consistent
    rw [Documents.owner, Documents.owner, h.meetSelect, hsame]
  have hentry : (option, dom.owner option) ∈ captured.options := by
    refine (hcaptured _).mpr ⟨hrole, rfl, between, hway, fun node hnode => ?_⟩
    obtain ⟨⟨child, hchild⟩, hleads⟩ := hway.of_mem hnode
    rcases ReflTransGen.cases_head hleads with rfl | ⟨parent, hparent, -⟩
    · exact role_ne_notElement hfilial (htree.shaped child _ hchild).2
    · exact htree.element_between hchild hparent
  rw [Documents.changedSelects, List.mem_flatMap]
  refine ⟨_, hentry, ?_⟩
  rw [if_neg hne.symm, List.mem_append, Option.mem_toList, Option.mem_toList]
  by_cases hbefore : dom.owner option = some select
  · exact .inl hbefore
  · refine .inr ?_
    by_contra hafter
    exact hmoves (iff_of_false hafter hbefore)

end Relinked

/-! ## Calls that set selects -/

/-- What `apply_selected_attribute` does. -/
inductive Applied (dom : Documents) (option : NodeHandle) : Documents → Prop
  | kept : (∀ element, dom.data option = .element element → element.dirtySelectedness = true) →
      Applied dom option dom
  | unowned {flag : Bool} {between : Documents} : SetsOption dom option flag between →
      dom.owner option = none → Applied dom option between
  | reset {flag changed : Bool} {select : NodeHandle} {between dom' : Documents} :
      SetsOption dom option flag between → dom.owner option = some select →
      Sets between select dom' changed → Applied dom option dom'

/-- `apply_selected_attribute` ends. -/
theorem Consistent.applySelectedAttribute (h : Consistent dom lists) (option : NodeHandle) :
    ∃ dom' updated, Settles (dom.applySelectedAttribute · option) (dom', updated) ∧
      Applied dom option dom' := by
  unfold Documents.applySelectedAttribute
  cases hdata : dom.data option with
  | element element =>
    by_cases hdirty : element.dirtySelectedness = true
    · simp only [if_pos hdirty]
      refine ⟨dom, none, .pure _, .kept fun other hother => ?_⟩
      rw [hdata] at hother
      cases hother
      exact hdirty
    · simp only [if_neg hdirty]
      obtain ⟨between, hset, hsets⟩ := h.setOptionSelectedness option
        (dom.hasAttribute option "selected".toList) false
      have hcons := hsets.reselects.consistent h
      have hnearest := hcons.nearestAncestorSelect option
      rw [hsets.reselects.owner] at hnearest
      cases howner : dom.owner option with
      | none =>
        rw [howner] at hnearest
        exact ⟨_, _, hset.bind (hnearest.bind (.pure _)), .unowned hsets howner⟩
      | some select =>
        rw [howner] at hnearest
        obtain ⟨dom', changed, hrun, hsets'⟩ := hcons.runSelectednessSetting select
        exact ⟨_, _, hset.bind (hnearest.bind (hrun.bind (.pure _))), .reset hsets howner hsets'⟩
  | _ => exact ⟨dom, none, .pure _, .kept fun _ helement => by rw [hdata] at helement; cases helement⟩

theorem Applied.reselects (h : Applied dom option dom') : Reselects dom dom' := by
  cases h with
  | kept => exact .refl
  | unowned hsets => exact hsets.reselects
  | reset hsets _ hsets' => exact hsets.reselects.trans hsets'.reselects

theorem AllSingle.applied (hall : AllSingle dom) (h : Consistent dom lists)
    (happlied : Applied dom option dom') : AllSingle dom' := by
  cases happlied with
  | kept => exact hall
  | unowned hsets => exact hall.setsOption h hsets
  | reset hsets howner hsets' =>
    refine (hall.setsOption h hsets).sets (hsets.reselects.consistent h) ?_ hsets'
    rw [hsets.reselects.role]
    exact h.role_of_owner howner

/-- What is done to a tree between `capture` and `finish`. -/
inductive Mutated (dom : Documents) (call : TreeCall) : Documents → Prop
  | refused {dom' : Documents} : Relinked dom call dom' → dom'.parentNode = dom.parentNode →
      Mutated dom call dom'
  | finished {between dom' : Documents} {selects : List NodeHandle} : Relinked dom call between →
      (∀ select option, dom.role select = .select →
        ¬ (option ∈ between.options select ↔ option ∈ dom.options select) → select ∈ selects) →
      Ran between selects dom' → Mutated dom call dom'

theorem TreeShaped.mutated (h : TreeShaped dom) (hknown : (Mutation.tree call).Known dom)
    (hfits : Fits dom call) {mutation : TreeMutation} {limit : Nat}
    (hperform : (SelectCall.mutate mutation call).perform limit dom = some dom') :
    Mutated dom call dom' := by
  obtain ⟨lists, hcons⟩ := h.consistent
  obtain ⟨captured, hcapture, hperform⟩ := Option.bind_eq_some_iff.mp hperform
  obtain ⟨⟨between, result⟩, htree, hperform⟩ := Option.bind_eq_some_iff.mp hperform
  have hrelinked := h.performTree hknown hfits htree
  cases result with
  | error error =>
    cases hperform
    obtain ⟨hends, -⟩ := Documents.performTree_spec htree
    obtain ⟨hresult, hdoes⟩ := hcons.linked.call hends
    refine .refused hrelinked ?_
    funext node
    rw [Documents.parentNode, Documents.parentNode,
      hdoes.unchanged (TreeCall.refused_of_error hresult.symm)]
  | ok =>
    obtain ⟨⟨finished, outcome⟩, hfinish, hperform⟩ := Option.bind_eq_some_iff.mp hperform
    cases hperform
    obtain ⟨captured', hcaptures, hentries⟩ := hcons.capture (movedSubtree call)
    obtain rfl := hcaptures.only limit captured hcapture
    obtain ⟨lists', hcons'⟩ := hrelinked.tree.consistent
    obtain ⟨dom'', outcome', hfinishes, hran⟩ := SubtreeSelects.finish_yields hcons' mutation
      fun entry hentry select hselect => by
        rw [hrelinked.role]
        exact hcons.role_of_owner (((hentries entry).mp hentry).2.1 ▸ hselect)
    obtain ⟨rfl, -⟩ := Prod.mk.inj (hfinishes.only limit _ hfinish)
    exact .finished hrelinked
      (fun select option hselect => hrelinked.mem_changedSelects h hentries hselect) hran

namespace Relinked

theorem isMultiple (h : Relinked dom call dom') : dom'.isMultiple = dom.isMultiple := by
  funext node
  rw [Documents.isMultiple, Documents.isMultiple, h.hasAttribute]

/-- A select has one selected option at most if it has the options that it had. -/
theorem single (h : Relinked dom call dom') (hsingle : Single dom select)
    (hsame : ∀ option, option ∈ dom'.options select ↔ option ∈ dom.options select) :
    Single dom' select := by
  intro node hnode other hother hnode' hother'
  rw [h.selected] at hnode' hother'
  exact hsingle node ((hsame node).mp hnode) other ((hsame other).mp hother) hnode' hother'

/-- Where no parent changes, a select has the options that it had. -/
theorem mem_options_of_parentNode (h : Relinked dom call dom') (htree : TreeShaped dom)
    (hparent : dom'.parentNode = dom.parentNode) (hselect : dom.role select = .select) :
    option ∈ dom'.options select ↔ option ∈ dom.options select := by
  have hselect' : dom'.role select = .select := by rwa [h.role]
  rw [h.tree.mem_options_iff hselect', htree.mem_options_iff hselect, h.role, Documents.owner,
    Documents.owner, h.meetSelect, hparent]

end Relinked

namespace Mutated

theorem treeShaped (h : Mutated dom call dom') : TreeShaped dom' := by
  cases h with
  | refused hrelinked => exact hrelinked.tree
  | finished hrelinked _ hran => exact hran.reselects.treeShaped hrelinked.tree

theorem allSingle (h : Mutated dom call dom') (htree : TreeShaped dom) (hall : AllSingle dom) :
    AllSingle dom' := by
  intro select hselect hmultiple
  cases h with
  | refused hrelinked hparent =>
    rw [hrelinked.role] at hselect
    rw [hrelinked.isMultiple] at hmultiple
    exact hrelinked.single (hall select hselect hmultiple) fun option =>
      hrelinked.mem_options_of_parentNode htree hparent hselect
  | @finished between _ selects hrelinked hchanged hran =>
    obtain ⟨lists, hcons⟩ := hrelinked.tree.consistent
    rw [hran.reselects.role] at hselect
    rw [hran.reselects.isMultiple] at hmultiple
    refine hran.single hcons hselect hmultiple ?_
    rw [hrelinked.role] at hselect
    rw [hrelinked.isMultiple] at hmultiple
    by_cases hsame : ∀ option, option ∈ between.options select ↔ option ∈ dom.options select
    · exact .inl (hrelinked.single (hall select hselect hmultiple) hsame)
    · obtain ⟨option, hoption⟩ := not_forall.mp hsame
      exact .inr (hchanged select option hselect hoption)

end Mutated

/-! ## Runs -/

/-- A call gets a select where it needs one, and links what a tree has. -/
def SelectCall.Fits (dom : Documents) : SelectCall → Prop
  | .setOptionSelectedness .. | .applySelectedAttribute _ => True
  | .selectOnly select _ | .runSelectednessSetting select => dom.role select = .select
  | .mutate _ call => (Mutation.tree call).Known dom ∧ Live.Fits dom call

/-- A call that ends, whatever the number of steps that its loops take. -/
def SelectCall.Ends (dom : Documents) (call : SelectCall) (dom' : Documents) : Prop :=
  call.Fits dom ∧ ∃ limit, call.perform limit dom = some dom'

/-- Calls one after another. -/
inductive SelectRun : Documents → List SelectCall → Documents → Prop
  | nil {dom : Documents} : SelectRun dom [] dom
  | cons {dom dom' dom'' : Documents} {call : SelectCall} {calls : List SelectCall} :
      call.Ends dom dom' → SelectRun dom' calls dom'' → SelectRun dom (call :: calls) dom''

/-- After a call the documents are a tree, and no two options of a select are selected. -/
theorem SelectCall.Ends.kept {call : SelectCall} (hends : call.Ends dom dom') (htree : TreeShaped dom)
    (hall : AllSingle dom) : TreeShaped dom' ∧ AllSingle dom' := by
  obtain ⟨lists, hcons⟩ := htree.consistent
  obtain ⟨hfits, limit, hperform⟩ := hends
  cases call with
  | setOptionSelectedness option selected markDirty =>
    obtain ⟨result, hsettles, hsets⟩ := hcons.setOptionSelectedness option selected markDirty
    obtain rfl := hsettles.only limit dom' hperform
    exact ⟨hsets.reselects.treeShaped htree, hall.setsOption hcons hsets⟩
  | selectOnly select chosen =>
    obtain ⟨result, hresult, rfl⟩ := Option.map_eq_some_iff.mp hperform
    obtain rfl := (hcons.selectOnly select chosen).only limit result hresult
    obtain ⟨hreselects, -⟩ := chooseOnly_spec chosen (dom.options select) (dom, false)
    exact ⟨hreselects.treeShaped htree, hall.selectOnly hcons hfits chosen⟩
  | applySelectedAttribute option =>
    obtain ⟨result, hresult, rfl⟩ := Option.map_eq_some_iff.mp hperform
    obtain ⟨applied, updated, hsettles, happlied⟩ := hcons.applySelectedAttribute option
    obtain rfl := hsettles.only limit result hresult
    exact ⟨happlied.reselects.treeShaped htree, hall.applied hcons happlied⟩
  | runSelectednessSetting select =>
    obtain ⟨result, hresult, rfl⟩ := Option.map_eq_some_iff.mp hperform
    obtain ⟨set, changed, hsettles, hsets⟩ := hcons.runSelectednessSetting select
    obtain rfl := hsettles.only limit result hresult
    exact ⟨hsets.reselects.treeShaped htree, hall.sets hcons hfits hsets⟩
  | mutate mutation call =>
    have hmutated := htree.mutated hfits.1 hfits.2 hperform
    exact ⟨hmutated.treeShaped, hmutated.allSingle htree hall⟩

theorem SelectRun.kept {calls : List SelectCall} (hrun : SelectRun dom calls dom')
    (htree : TreeShaped dom) (hall : AllSingle dom) : TreeShaped dom' ∧ AllSingle dom' := by
  induction hrun with
  | nil => exact ⟨htree, hall⟩
  | cons hends _ ih =>
    obtain ⟨htree, hall⟩ := hends.kept htree hall
    exact ih htree hall

/-- A call sets a select: it is asked to, an option of it that is not dirty gets its attribute, or an
option joins or leaves it. -/
def SelectCall.Sets (dom dom' : Documents) (select : NodeHandle) : SelectCall → Prop
  | .runSelectednessSetting other => other = select
  | .applySelectedAttribute option => option ∈ dom.options select ∧
      ∃ element, dom.data option = .element element ∧ element.dirtySelectedness = false
  | .mutate _ _ => ∃ option, ¬ (option ∈ dom'.options select ↔ option ∈ dom.options select)
  | .setOptionSelectedness .. | .selectOnly .. => False

/-- After a call that sets a select, it is settled. -/
theorem SelectCall.Ends.settled {call : SelectCall} (hends : call.Ends dom dom')
    (htree : TreeShaped dom) (hselect : dom'.role select = .select)
    (hmultiple : dom'.isMultiple select = false)
    (hnamed : ∀ option ∈ dom'.options select, dom'.isNamedOption option = true)
    (hsets : call.Sets dom dom' select) : Settled dom' select := by
  obtain ⟨lists, hcons⟩ := htree.consistent
  obtain ⟨hfits, limit, hperform⟩ := hends
  cases call with
  | setOptionSelectedness | selectOnly => exact hsets.elim
  | applySelectedAttribute option =>
    obtain ⟨hoption, element, helement, hdirty⟩ := hsets
    obtain ⟨result, hresult, rfl⟩ := Option.map_eq_some_iff.mp hperform
    obtain ⟨applied, updated, hsettles, happlied⟩ := hcons.applySelectedAttribute option
    obtain rfl := hsettles.only limit result hresult
    rw [happlied.reselects.role] at hselect
    have howner := hcons.owner_of_mem hselect hoption
    cases happlied with
    | kept hkept =>
      rw [hkept element helement] at hdirty
      cases hdirty
    | unowned _ hnone =>
      rw [howner] at hnone
      cases hnone
    | reset hset howner' hsets' =>
      rw [howner] at howner'
      cases howner'
      rw [hsets'.reselects.isMultiple] at hmultiple
      rw [hsets'.reselects.options, hsets'.reselects.isNamedOption] at hnamed
      exact hsets'.settled hmultiple hnamed
  | runSelectednessSetting other =>
    obtain rfl : other = select := hsets
    obtain ⟨result, hresult, rfl⟩ := Option.map_eq_some_iff.mp hperform
    obtain ⟨set, changed, hsettles, hsets'⟩ := hcons.runSelectednessSetting other
    obtain rfl := hsettles.only limit result hresult
    rw [hsets'.reselects.isMultiple] at hmultiple
    rw [hsets'.reselects.options, hsets'.reselects.isNamedOption] at hnamed
    exact hsets'.settled hmultiple hnamed
  | mutate mutation call =>
    obtain ⟨option, hoption⟩ := hsets
    cases htree.mutated hfits.1 hfits.2 hperform with
    | refused hrelinked hparent =>
      rw [hrelinked.role] at hselect
      exact (hoption (hrelinked.mem_options_of_parentNode htree hparent hselect)).elim
    | finished hrelinked hchanged hran =>
      obtain ⟨lists', hcons'⟩ := hrelinked.tree.consistent
      rw [hran.reselects.role] at hselect
      rw [hran.reselects.isMultiple] at hmultiple
      rw [hran.reselects.options, hran.reselects.isNamedOption] at hnamed
      rw [hran.reselects.options] at hoption
      refine hran.settled hcons' hselect hmultiple hnamed (.inr ?_)
      rw [hrelinked.role] at hselect
      exact hchanged select option hselect hoption

end

/-- The loops over options give these. -/
structure LoopsEnd (dom : Documents) : Prop where
  options : ∀ select, Settles (dom.listOfOptions · select) (dom.options select)
  owner : ∀ option, Settles (dom.nearestAncestorSelect · option) (dom.owner option)
  disabled : ∀ option, Settles (dom.optionOrOptgroupIsDisabled · option) (dom.disabled option)

theorem TreeShaped.loopsEnd {dom : Documents} (h : TreeShaped dom) : LoopsEnd dom := by
  obtain ⟨lists, hcons⟩ := h.consistent
  exact ⟨hcons.listOfOptions, hcons.nearestAncestorSelect, hcons.optionOrOptgroupIsDisabled⟩

/-- A select without `multiple` that was just set: one option is selected, where one has to be, and
setting it again changes nothing. -/
structure JustSet (dom : Documents) (select : NodeHandle) : Prop where
  chosen : dom.displaySize select = 1 →
    (∃ option ∈ dom.options select, dom.disabled option = false) →
    ∃! option, option ∈ dom.options select ∧ dom.selected option = true
  again : Settles (dom.runSelectednessSetting · select) (dom, false)

theorem Settled.justSet {dom : Documents} {lists : ChildLists} {select : NodeHandle}
    (hsettled : Settled dom select) (h : Consistent dom lists) : JustSet dom select where
  chosen hsize henabled := by
    obtain ⟨option, hoption, hselected⟩ := hsettled.chosen hsize henabled
    exact ⟨option, ⟨hoption, hselected⟩, fun other hother =>
      hsettled.single other hother.1 option hoption hother.2 hselected⟩
  again := by
    obtain ⟨dom', changed, hsettles, hsets⟩ := h.runSelectednessSetting select
    obtain ⟨rfl, rfl⟩ := hsets.same hsettled
    exact hsettles

/-- The options of a select are those that it is the nearest select of; no two of them are selected,
after any calls; and a call that sets a select leaves it set, if its options have the tag name. -/
theorem selectedness_kept {dom dom' : Documents} {calls : List SelectCall} (htree : TreeShaped dom)
    (hall : AllSingle dom) (hrun : SelectRun dom calls dom') :
    LoopsEnd dom' ∧
      (∀ select option, dom'.role select = .select → dom'.role option = .option →
        (option ∈ dom'.options select ↔ dom'.owner option = some select)) ∧
      (∀ select, dom'.role select = .select → dom'.isMultiple select = false →
        ∀ option ∈ dom'.options select, ∀ other ∈ dom'.options select,
          dom'.selected option = true → dom'.selected other = true → option = other) ∧
      ∀ (call : SelectCall) dom'', call.Ends dom' dom'' → ∀ select, dom''.role select = .select →
        dom''.isMultiple select = false → call.Sets dom' dom'' select →
        (∀ option ∈ dom''.options select, dom''.isNamedOption option = true) →
        LoopsEnd dom'' ∧ JustSet dom'' select := by
  obtain ⟨htree, hall⟩ := hrun.kept htree hall
  refine ⟨htree.loopsEnd, fun select option hselect hoption => ?_, hall, ?_⟩
  · rw [htree.mem_options_iff hselect]
    exact and_iff_right hoption
  · intro call dom'' hends select hselect hmultiple hsets hnamed
    obtain ⟨htree', -⟩ := hends.kept htree hall
    obtain ⟨lists, hcons⟩ := htree'.consistent
    exact ⟨htree'.loopsEnd,
      (hends.settled htree hselect hmultiple hnamed hsets).justSet hcons⟩

instance : DecidablePred NodeData.Filial
  | .document | .documentFragment | .shadowRoot _ => isFalse id
  | .element _ | .text | .comment | .processingInstruction | .documentType => isTrue trivial

instance : DecidablePred NodeData.Parental
  | .document | .documentFragment | .shadowRoot _ | .element _ => isTrue trivial
  | .text | .comment | .processingInstruction | .documentType => isFalse id

instance (dom : Documents) : DecidablePred (Fits dom)
  | .appendChild node child | .insertBefore node child _ =>
    inferInstanceAs (Decidable ((dom.data child).Filial ∧ (dom.data node).Parental))
  | .removeChild _ _ => isTrue trivial

instance (dom : Documents) : DecidablePred (SelectCall.Fits dom)
  | .setOptionSelectedness .. | .applySelectedAttribute _ => isTrue trivial
  | .selectOnly select _ | .runSelectednessSetting select =>
    inferInstanceAs (Decidable (dom.role select = .select))
  | .mutate _ call => inferInstanceAs (Decidable ((Mutation.tree call).Known dom ∧ Fits dom call))

/-- Some calls one after another, none of whose loops takes more steps than `limit`. -/
def SelectCall.performAll (limit : Nat) (dom : Documents) (calls : List SelectCall) :
    Option Documents :=
  calls.foldlM (fun dom call => if call.Fits dom then call.perform limit dom else none) dom

theorem SelectRun.of_performAll {limit : Nat} : ∀ {calls : List SelectCall} {dom dom' : Documents},
    SelectCall.performAll limit dom calls = some dom' → SelectRun dom calls dom'
  | [], _, _, h => by
    cases h
    exact .nil
  | call :: calls, dom, dom', h => by
    rw [SelectCall.performAll, List.foldlM_cons] at h
    obtain ⟨between, hbetween, h⟩ := Option.bind_eq_some_iff.mp h
    split at hbetween
    next hfits => exact .cons ⟨hfits, limit, hbetween⟩ (SelectRun.of_performAll h)
    next => cases hbetween

/-- A run that ends, and what holds at its end. -/
theorem SelectRun.exists_of_performAll (limit : Nat) {calls : List SelectCall} {dom : Documents}
    (P : Documents → Prop) [DecidablePred P]
    (h : (SelectCall.performAll limit dom calls).any (fun dom' => decide (P dom')) = true) :
    ∃ dom', SelectRun dom calls dom' ∧ P dom' := by
  cases hperform : SelectCall.performAll limit dom calls with
  | none =>
    rw [hperform] at h
    cases h
  | some dom' =>
    rw [hperform] at h
    exact ⟨dom', .of_performAll hperform, of_decide_eq_true h⟩

/-- An element of HTML that was just created. -/
def htmlElement (tagName : Text) (attributes : List (Text × Text)) : NodeData :=
  .element { Element.blank tagName none [] true none with
    attributeRecords := attributes.map fun named => ⟨none, named.1, none, named.1, named.2⟩ }

/-- A select, two options, and a select with `multiple` of one row, none of them in another. -/
def unlinkedOptions : Documents :=
  (((Documents.initial.mint (htmlElement "select".toList [])).mint
    (htmlElement "option".toList [])).mint (htmlElement "option".toList [])).mint
    (htmlElement "select".toList [("multiple".toList, []), ("size".toList, "1".toList)])

theorem parentNode_unlinkedOptions (node : NodeHandle) : unlinkedOptions.parentNode node = none := by
  simp only [Documents.parentNode, LinkedNodes.parentNode, unlinkedOptions, Documents.mint,
    Function.update_apply]
  repeat' split
  all_goals rfl

theorem treeShaped_unlinkedOptions : TreeShaped unlinkedOptions where
  consistent := by
    have hmint {dom : Documents} {lists : ChildLists} (h : Consistent dom lists) (tagName : Text)
        (attributes : List (Text × Text)) :
        Consistent (dom.mint (htmlElement tagName attributes)) lists :=
      h.mint nofun fun element heq => by cases heq; exact ⟨rfl, nofun⟩
    exact ⟨_, hmint (hmint (hmint (hmint .initial _ _) _ _) _ _) _ _⟩
  shaped child parent hparent := by
    rw [parentNode_unlinkedOptions] at hparent
    cases hparent

theorem allSingle_unlinkedOptions : AllSingle unlinkedOptions := by
  intro select _ _ option hoption
  obtain ⟨lists, hcons⟩ := treeShaped_unlinkedOptions.consistent
  obtain ⟨-, child, _, -, hchild, -⟩ := hcons.mem_options.mp hoption
  rw [parentNode_unlinkedOptions] at hchild
  cases hchild

theorem selectedness_kept_inserted : ∃ dom', SelectRun unlinkedOptions
    [.mutate .insert (.appendChild 0 1), .mutate .insert (.appendChild 0 2)] dom' ∧
      LoopsEnd dom' ∧ dom'.listOfOptions 8 0 = some [1, 2] := by
  obtain ⟨dom', hrun, hlist⟩ := @SelectRun.exists_of_performAll 8
    [.mutate .insert (.appendChild 0 1), .mutate .insert (.appendChild 0 2)] unlinkedOptions
    (fun dom' => dom'.listOfOptions 8 0 = some [1, 2]) _ (by decide)
  exact ⟨dom', hrun, (selectedness_kept treeShaped_unlinkedOptions allSingle_unlinkedOptions hrun).1,
    hlist⟩

/-- A select of one row has one enabled option or more, and none is selected. -/
def Unset (select : NodeHandle) (options : List NodeHandle) (dom : Documents) : Prop :=
  dom.listOfOptions 8 select = some options ∧ dom.displaySize select = 1 ∧
    (∃ option ∈ options, dom.optionOrOptgroupIsDisabled 8 option = some false) ∧
    ∀ option ∈ options, dom.selected option = false

instance (select : NodeHandle) (options : List NodeHandle) : DecidablePred (Unset select options) :=
  fun dom => inferInstanceAs (Decidable (dom.listOfOptions 8 select = some options ∧
    dom.displaySize select = 1 ∧
    (∃ option ∈ options, dom.optionOrOptgroupIsDisabled 8 option = some false) ∧
    ∀ option ∈ options, dom.selected option = false))

/-- No option is selected after the attribute of a dirty one is applied, after options change places,
and after a select with `multiple` is set. -/
theorem unset_remains : TreeShaped unlinkedOptions ∧ AllSingle unlinkedOptions ∧
    (∃ dom, SelectRun unlinkedOptions [.mutate .insert (.appendChild 0 1),
      .setOptionSelectedness 1 false true, .applySelectedAttribute 1] dom ∧ Unset 0 [1] dom) ∧
    (∃ dom, SelectRun unlinkedOptions [.mutate .insert (.appendChild 0 1),
      .mutate .insert (.appendChild 0 2), .setOptionSelectedness 1 false false,
      .mutate .move (.appendChild 0 1)] dom ∧ Unset 0 [2, 1] dom) ∧
    ∃ dom, SelectRun unlinkedOptions [.mutate .insert (.appendChild 3 1),
      .runSelectednessSetting 3] dom ∧ Unset 3 [1] dom :=
  ⟨treeShaped_unlinkedOptions, allSingle_unlinkedOptions,
    SelectRun.exists_of_performAll 8 _ (by decide), SelectRun.exists_of_performAll 8 _ (by decide),
    SelectRun.exists_of_performAll 8 _ (by decide)⟩

end Omoikane.Dom.Live
