import Omoikane.Dom.Live.Selectedness

/-!
# Calls on selects

What each call does to the selectedness, and what a subtree's mutation between `capture` and `finish`
does: `finish` runs the setting algorithm on every select that an option of the subtree left or joined.
No call leaves two options of a select without `multiple` selected, unless there were two before
(`AllSingle.step`).
-/

namespace Omoikane.Dom.Live

open Base Relation

/-- No two options of a select without `multiple` are selected. -/
def AllSingle (dom : Documents) : Prop :=
  ∀ select, dom.role select = .select → dom.isMultiple select = false → Single dom select

section

variable {dom dom' : Documents} {lists : ChildLists} {node other select option : NodeHandle}

/-- No option belongs to two selects. -/
theorem Consistent.options_disjoint (h : Consistent dom lists) {select' : NodeHandle}
    (hselect : dom.role select = .select) (hselect' : dom.role select' = .select)
    (hoption : option ∈ dom.options select) (hoption' : option ∈ dom.options select') :
    select = select' := by
  have howner := h.owner_of_mem hselect hoption
  rw [h.owner_of_mem hselect' hoption'] at howner
  exact (Option.some.inj howner).symm

/-- The options of one select are written, and not two of them are selected. -/
theorem AllSingle.of_elsewhere (hall : AllSingle dom) (h : Consistent dom lists)
    (hreselects : Reselects dom dom') (hselect : dom.role select = .select)
    (helsewhere : ∀ node, node ∉ dom.options select → dom'.selected node = dom.selected node)
    (hsingle : dom.isMultiple select = false → Single dom' select) : AllSingle dom' := by
  intro other hother hmultiple
  rw [hreselects.role] at hother
  rw [hreselects.isMultiple] at hmultiple
  by_cases heq : other = select
  · rw [heq] at hmultiple ⊢
    exact hsingle hmultiple
  · have houtside : ∀ node ∈ dom.options other, dom'.selected node = dom.selected node := fun node hnode =>
      helsewhere node fun hmem => heq (h.options_disjoint hother hselect hnode hmem)
    intro node hnode node' hnode' hselected hselected'
    rw [hreselects.options] at hnode hnode'
    rw [houtside node hnode] at hselected
    rw [houtside node' hnode'] at hselected'
    exact hall other hother hmultiple node hnode node' hnode' hselected hselected'

theorem AllSingle.sets (hall : AllSingle dom) (h : Consistent dom lists)
    (hselect : dom.role select = .select) {changed : Bool} (hsets : Sets dom select dom' changed) :
    AllSingle dom' :=
  hall.of_elsewhere h hsets.reselects hselect hsets.elsewhere hsets.single

/-! ## Setting an option -/

/-- What `set_option_selectedness` does. -/
structure SetsOption (dom : Documents) (option : NodeHandle) (flag : Bool) (dom' : Documents) :
    Prop where
  reselects : Reselects dom dom'
  selected : ∀ node, dom'.selected node = true →
    dom.selected node = true ∨ (node = option ∧ flag = true)
  others : flag = true → ∀ select, dom.owner option = some select → dom.isMultiple select = false →
    ∀ node ∈ dom.options select, dom'.selected node = true → node = option

/-- All but one of some options are deselected. -/
theorem deselect_spec (options : List NodeHandle) (dom : Documents) :
    let dom' := options.foldl (fun dom other =>
      if other ≠ option then dom.storeSelectedness other false else dom) dom
    Reselects dom dom' ∧ ∀ node, dom'.selected node = true →
      dom.selected node = true ∧ (node ∈ options → node = option) := by
  induction options generalizing dom with
  | nil => exact ⟨.refl, fun node hnode => ⟨hnode, nofun⟩⟩
  | cons other options ih =>
    obtain ⟨hreselects, hselected⟩ := ih (if other ≠ option then dom.storeSelectedness other false else dom)
    rw [List.foldl_cons]
    by_cases hother : other = option
    · rw [if_neg (not_not.mpr hother)] at hreselects hselected ⊢
      refine ⟨hreselects, fun node hnode => ?_⟩
      obtain ⟨hnode', hmem⟩ := hselected node hnode
      refine ⟨hnode', fun hcons => ?_⟩
      rcases List.mem_cons.mp hcons with rfl | hcons
      · exact hother
      · exact hmem hcons
    · rw [if_pos hother] at hreselects hselected ⊢
      refine ⟨(Reselects.storeSelectedness other false).trans hreselects, fun node hnode => ?_⟩
      obtain ⟨hnode', hmem⟩ := hselected node hnode
      rw [selected_storeSelectedness, Bool.and_false] at hnode'
      split at hnode'
      next => cases hnode'
      next hne => exact ⟨hnode', fun hcons => hmem ((List.mem_cons.mp hcons).resolve_left hne)⟩

/-- `set_option_selectedness` ends. -/
theorem Consistent.setOptionSelectedness (h : Consistent dom lists) (option : NodeHandle)
    (flag markDirty : Bool) : ∃ dom',
      Settles (dom.setOptionSelectedness · option flag markDirty) dom' ∧
        SetsOption dom option flag dom' := by
  unfold Documents.setOptionSelectedness
  dsimp only
  have hwritten : Reselects dom (dom.modifyElement option (.mark flag markDirty)) := .mark ..
  have hselected : ∀ node, (dom.modifyElement option (.mark flag markDirty)).selected node = true →
      dom.selected node = true ∨ (node = option ∧ flag = true) := by
    intro node hnode
    rw [selected_mark] at hnode
    split at hnode
    next heq => exact .inr ⟨heq, (Bool.and_eq_true_iff.mp hnode).2⟩
    next => exact .inl hnode
  revert hwritten hselected
  generalize dom.modifyElement option (.mark flag markDirty) = written
  intro hwritten hselected
  cases flag with
  | false => exact ⟨written, .pure _, hwritten, hselected, nofun⟩
  | true =>
    have hcons := hwritten.consistent h
    have hnearest := hcons.nearestAncestorSelect option
    rw [hwritten.owner] at hnearest
    by_cases hdeselects : ∃ select, dom.owner option = some select ∧ dom.isMultiple select = false
    · obtain ⟨select, howner, hmultiple⟩ := hdeselects
      have hoptions := hcons.listOfOptions select
      rw [hwritten.options] at hoptions
      obtain ⟨hreselects, honly⟩ := @deselect_spec option (dom.options select) written
      refine ⟨_, hnearest.bind ?_, hwritten.trans hreselects, fun node hnode => ?_, ?_⟩
      · rw [howner, Option.filter_some, hwritten.isMultiple, hmultiple]
        exact hoptions.bind (.pure _)
      · exact hselected node (honly node hnode).1
      · intro _ other hother _ node hnode hnode'
        rw [howner] at hother
        cases hother
        exact (honly node hnode').2 hnode
    · refine ⟨written, hnearest.bind ?_, hwritten, hselected, fun _ select howner hmultiple =>
        (hdeselects ⟨select, howner, hmultiple⟩).elim⟩
      cases howner : dom.owner option with
      | none => exact .pure _
      | some select =>
        cases hmultiple : dom.isMultiple select with
        | false => exact (hdeselects ⟨select, howner, hmultiple⟩).elim
        | true =>
          rw [Option.filter_some, hwritten.isMultiple, hmultiple]
          exact .pure _

theorem AllSingle.setsOption (hall : AllSingle dom) (h : Consistent dom lists) {flag : Bool}
    (hsets : SetsOption dom option flag dom') : AllSingle dom' := by
  intro select hselect hmultiple
  rw [hsets.reselects.role] at hselect
  rw [hsets.reselects.isMultiple] at hmultiple
  by_cases hwritten : flag = true ∧ option ∈ dom.options select
  · have howner := h.owner_of_mem hselect hwritten.2
    refine single_of_only option fun node hnode hnode' => ?_
    rw [hsets.reselects.options] at hnode
    exact hsets.others hwritten.1 select howner hmultiple node hnode hnode'
  · have hbefore : ∀ node ∈ dom.options select, dom'.selected node = true → dom.selected node = true := by
      intro node hnode hnode'
      refine (hsets.selected node hnode').resolve_right ?_
      rintro ⟨rfl, hflag⟩
      exact hwritten ⟨hflag, hnode⟩
    intro node hnode other hother hnode' hother'
    rw [hsets.reselects.options] at hnode hother
    exact hall select hselect hmultiple node hnode other hother (hbefore node hnode hnode')
      (hbefore other hother hother')

/-! ## Choosing an option -/

/-- What the loop of `select_only` does. -/
theorem chooseOnly_spec (chosen : Option NodeHandle) (options : List NodeHandle)
    (state : Documents × Bool) :
    let state' := options.foldl (Documents.chooseOnly chosen) state
    Reselects state.1 state'.1 ∧
      (∀ node, node ∉ options → state'.1.selected node = state.1.selected node) ∧
        ∀ node ∈ options, state'.1.selected node = true → chosen = some node := by
  induction options generalizing state with
  | nil => exact ⟨.refl, fun _ _ => rfl, nofun⟩
  | cons option options ih =>
    have hwritten : Reselects state.1 (Documents.chooseOnly chosen state option).1 :=
      .mark ..
    have hselected : ∀ node, (Documents.chooseOnly chosen state option).1.selected node =
        if node = option then state.1.isNamedOption option && (chosen == some option)
        else state.1.selected node := fun node => selected_mark
    obtain ⟨hreselects, helsewhere, honly⟩ := ih (Documents.chooseOnly chosen state option)
    rw [List.foldl_cons]
    refine ⟨hwritten.trans hreselects, fun node hnode => ?_, fun node hnode hnode' => ?_⟩
    · obtain ⟨hne, hnode⟩ := not_or.mp (List.mem_cons.not.mp hnode)
      rw [helsewhere node hnode, hselected, if_neg hne]
    · by_cases hmem : node ∈ options
      · exact honly node hmem hnode'
      · rw [helsewhere node hmem, hselected, if_pos ((List.mem_cons.mp hnode).resolve_right hmem)] at hnode'
        rw [(List.mem_cons.mp hnode).resolve_right hmem]
        exact eq_of_beq (Bool.and_eq_true_iff.mp hnode').2

/-- `select_only` ends. -/
theorem Consistent.selectOnly (h : Consistent dom lists) (select : NodeHandle)
    (chosen : Option NodeHandle) : Settles (dom.selectOnly · select chosen)
      ((dom.options select).foldl (Documents.chooseOnly chosen) (dom, false)) :=
  (h.listOfOptions select).map _

theorem AllSingle.selectOnly (hall : AllSingle dom) (h : Consistent dom lists)
    (hselect : dom.role select = .select) (chosen : Option NodeHandle) :
    AllSingle ((dom.options select).foldl (Documents.chooseOnly chosen) (dom, false)).1 := by
  obtain ⟨hreselects, helsewhere, honly⟩ := chooseOnly_spec chosen (dom.options select) (dom, false)
  refine hall.of_elsewhere h hreselects hselect helsewhere fun _ node hnode other hother hnode' hother' => ?_
  rw [hreselects.options] at hnode hother
  exact Option.some.inj ((honly node hnode hnode').symm.trans (honly other hother hother'))

/-! ## Setting some selects -/

/-- The setting algorithm has run on some selects, one after another. -/
inductive Ran : Documents → List NodeHandle → Documents → Prop
  | nil {dom : Documents} : Ran dom [] dom
  | cons {dom dom' dom'' : Documents} {select : NodeHandle} {selects : List NodeHandle}
      {changed : Bool} : dom.role select = .select → Sets dom select dom' changed →
      Ran dom' selects dom'' → Ran dom (select :: selects) dom''

/-- What holds of the options of a select stays when another select is set. -/
theorem Sets.outside {changed : Bool} (hsets : Sets dom select dom' changed) (h : Consistent dom lists)
    (hselect : dom.role select = .select) (hother : dom.role other = .select) (hne : other ≠ select) :
    ∀ node ∈ dom.options other, dom'.selected node = dom.selected node := fun node hnode =>
  hsets.elsewhere node fun hmem => hne (h.options_disjoint hother hselect hnode hmem)

theorem Single.congr (hsingle : Single dom select) (hreselects : Reselects dom dom')
    (hsame : ∀ node ∈ dom.options select, dom'.selected node = dom.selected node) :
    Single dom' select := by
  intro node hnode other hother hnode' hother'
  rw [hreselects.options] at hnode hother
  rw [hsame node hnode] at hnode'
  rw [hsame other hother] at hother'
  exact hsingle node hnode other hother hnode' hother'

theorem Settled.congr (hsettled : Settled dom select) (hreselects : Reselects dom dom')
    (hsame : ∀ node ∈ dom.options select, dom'.selected node = dom.selected node) :
    Settled dom' select where
  single := hsettled.single.congr hreselects hsame
  chosen hsize henabled := by
    rw [hreselects.displaySize] at hsize
    rw [hreselects.options, hreselects.disabled] at henabled
    obtain ⟨option, hoption, hselected⟩ := hsettled.chosen hsize henabled
    rw [hreselects.options]
    exact ⟨option, hoption, (hsame option hoption).trans hselected⟩

namespace Ran

variable {dom'' : Documents} {selects selects' : List NodeHandle}

theorem append (h : Ran dom selects dom') (h' : Ran dom' selects' dom'') :
    Ran dom (selects ++ selects') dom'' := by
  induction h with
  | nil => exact h'
  | cons hselect hsets _ ih => exact .cons hselect hsets (ih h')

theorem reselects (h : Ran dom selects dom') : Reselects dom dom' := by
  induction h with
  | nil => exact .refl
  | cons _ hsets _ ih => exact hsets.reselects.trans ih

/-- A select has one selected option at most if it had before, or the algorithm ran on it. -/
theorem single (h : Ran dom selects dom') (hcons : Consistent dom lists)
    (hselect : dom.role select = .select) (hmultiple : dom.isMultiple select = false)
    (hsingle : Single dom select ∨ select ∈ selects) : Single dom' select := by
  induction h with
  | nil => exact hsingle.resolve_right List.not_mem_nil
  | @cons dom between _ target selects changed htarget hsets _ ih =>
    refine ih (hsets.reselects.consistent hcons) ?_ ?_ ?_
    · rwa [hsets.reselects.role]
    · rwa [hsets.reselects.isMultiple]
    · by_cases heq : select = target
      · subst heq
        exact .inl (hsets.single hmultiple)
      · refine hsingle.imp (fun hsingle => ?_) fun hmem => (List.mem_cons.mp hmem).resolve_left heq
        exact hsingle.congr hsets.reselects (hsets.outside hcons htarget hselect heq)

/-- A select is settled if it was before, or the algorithm ran on it. -/
theorem settled (h : Ran dom selects dom') (hcons : Consistent dom lists)
    (hselect : dom.role select = .select) (hmultiple : dom.isMultiple select = false)
    (hnamed : ∀ option ∈ dom.options select, dom.isNamedOption option = true)
    (hsettled : Settled dom select ∨ select ∈ selects) : Settled dom' select := by
  induction h with
  | nil => exact hsettled.resolve_right List.not_mem_nil
  | @cons dom between _ target selects changed htarget hsets _ ih =>
    refine ih (hsets.reselects.consistent hcons) ?_ ?_ ?_ ?_
    · rwa [hsets.reselects.role]
    · rwa [hsets.reselects.isMultiple]
    · rwa [hsets.reselects.options, hsets.reselects.isNamedOption]
    · by_cases heq : select = target
      · subst heq
        exact .inl (hsets.settled hmultiple hnamed)
      · refine hsettled.imp (fun hsettled => ?_) fun hmem => (List.mem_cons.mp hmem).resolve_left heq
        exact hsettled.congr hsets.reselects (hsets.outside hcons htarget hselect heq)

end Ran

/-! ## Finishing -/

/-- The selects that captured options left or joined. -/
noncomputable def Documents.changedSelects (dom : Documents)
    (captured : List (NodeHandle × Option NodeHandle)) : List NodeHandle :=
  captured.flatMap fun entry =>
    if entry.2 = dom.owner entry.1 then [] else entry.2.toList ++ (dom.owner entry.1).toList

theorem Finishing.resetSelect_yields (h : Consistent dom lists) {state : Finishing}
    (hstate : Reselects dom state.dom) (option : NodeHandle) (deferred : Bool)
    {target : Option NodeHandle} (htarget : ∀ select, target = some select → dom.role select = .select) :
    ∃ state', Settles (fun limit => state.resetSelect limit option deferred target) state' ∧
      Ran state.dom target.toList state'.dom := by
  cases target with
  | none => exact ⟨state, .pure state, .nil⟩
  | some select =>
    obtain ⟨dom', changed, hyields, hsets⟩ := (hstate.consistent h).runSelectednessSetting select
    refine ⟨_, hyields.map _, .cons ?_ hsets .nil⟩
    rw [hstate.role]
    exact htarget select rfl

theorem Finishing.visitOption_yields (h : Consistent dom lists) {state : Finishing}
    (hstate : Reselects dom state.dom) (deferred : Bool) {entry : NodeHandle × Option NodeHandle}
    (hentry : ∀ select, entry.2 = some select → dom.role select = .select) :
    ∃ state', Settles (fun limit => state.visitOption limit deferred entry) state' ∧
      Ran state.dom (dom.changedSelects [entry]) state'.dom := by
  have hnearest := (hstate.consistent h).nearestAncestorSelect entry.1
  rw [hstate.owner] at hnearest
  rw [Documents.changedSelects, List.flatMap_singleton]
  unfold Finishing.visitOption
  by_cases heq : entry.2 = dom.owner entry.1
  · refine ⟨state, hnearest.bind ?_, ?_⟩
    · simp only [if_pos heq]
      exact .pure state
    · rw [if_pos heq]
      exact .nil
  · obtain ⟨left, hleft, hran⟩ := Finishing.resetSelect_yields h hstate entry.1 true hentry
    obtain ⟨state', hjoined, hran'⟩ := Finishing.resetSelect_yields h (hstate.trans hran.reselects)
      entry.1 deferred fun select hselect => h.role_of_owner hselect
    refine ⟨state', hnearest.bind ?_, ?_⟩
    · simp only [if_neg heq]
      exact hleft.bind hjoined
    · rw [if_neg heq]
      exact hran.append hran'

/-- The loop over the options runs the setting algorithm on the selects that they left or joined. -/
theorem Finishing.options_yield (h : Consistent dom lists) (deferred : Bool) :
    ∀ {entries : List (NodeHandle × Option NodeHandle)} {state : Finishing},
      Reselects dom state.dom →
      (∀ entry ∈ entries, ∀ select, entry.2 = some select → dom.role select = .select) →
      ∃ state', Settles (fun limit => entries.foldlM (Finishing.visitOption limit deferred) state) state' ∧
        Ran state.dom (dom.changedSelects entries) state'.dom
  | [], state, _, _ => ⟨state, .pure state, .nil⟩
  | entry :: entries, state, hstate, hentries => by
    obtain ⟨between, hfirst, hran⟩ := Finishing.visitOption_yields h hstate deferred
      (hentries entry List.mem_cons_self)
    obtain ⟨state', hrest, hran'⟩ := Finishing.options_yield h deferred (hstate.trans hran.reselects)
      fun entry hentry => hentries entry (List.mem_cons_of_mem _ hentry)
    refine ⟨state', ?_, ?_⟩
    · simp only [List.foldlM_cons]
      exact hfirst.bind hrest
    · have happend := hran.append hran'
      rwa [Documents.changedSelects, Documents.changedSelects, ← List.flatMap_append,
        List.singleton_append] at happend

/-- The loop over the `selectedcontent` elements writes nothing. -/
theorem Finishing.selectedContents_yield (h : Consistent dom lists) (mutation : TreeMutation) :
    ∀ {entries : List (NodeHandle × Option NodeHandle)} {state : Finishing},
      Reselects dom state.dom → ∃ state',
        Settles (fun limit => entries.foldlM (Finishing.visitSelectedContent limit mutation) state) state' ∧
          state'.dom = state.dom
  | [], state, _ => ⟨state, .pure state, rfl⟩
  | entry :: entries, state, hstate => by
    obtain ⟨between, hfirst, hsame⟩ : ∃ between,
        Settles (fun limit => state.visitSelectedContent limit mutation entry) between ∧
          between.dom = state.dom := by
      obtain ⟨select, hselect⟩ := (hstate.consistent h).selectedContentSelect entry.1
      unfold Finishing.visitSelectedContent
      cases select with
      | none => exact ⟨state, hselect.bind (.pure state), rfl⟩
      | some select =>
        by_cases hsame : mutation = .move ∧ some select = entry.2
        · refine ⟨state, hselect.bind ?_, rfl⟩
          simp only [if_pos hsame]
          exact .pure state
        · refine ⟨{ state with updates := pushUpdate state.updates select (mutation ≠ .insert) },
            hselect.bind ?_, rfl⟩
          simp only [if_neg hsame]
          exact .pure _
    obtain ⟨state', hrest, hsame'⟩ := Finishing.selectedContents_yield h mutation (hsame ▸ hstate)
    refine ⟨state', ?_, hsame'.trans hsame⟩
    simp only [List.foldlM_cons]
    exact hfirst.bind hrest

/-- `finish` ends, and runs the setting algorithm on the selects that the options left or joined. -/
theorem SubtreeSelects.finish_yields (h : Consistent dom lists) {captured : SubtreeSelects}
    (mutation : TreeMutation)
    (hroles : ∀ entry ∈ captured.options, ∀ select, entry.2 = some select → dom.role select = .select) :
    ∃ dom' outcome, Settles (captured.finish · dom mutation) (dom', outcome) ∧
      Ran dom (dom.changedSelects captured.options) dom' := by
  obtain ⟨state, hoptions, hran⟩ := @Finishing.options_yield dom lists h (mutation ≠ .insert)
    captured.options ⟨dom, [], []⟩ .refl hroles
  unfold SubtreeSelects.finish
  by_cases hremove : mutation = .remove
  · refine ⟨state.dom, ⟨state.reset.destutter (· ≠ ·), state.updates⟩, hoptions.bind ?_, hran⟩
    simp only [if_neg (not_not.mpr hremove)]
    exact .pure _
  · obtain ⟨state', hcontents, hsame⟩ := @Finishing.selectedContents_yield dom lists h mutation
      captured.selectedContents state hran.reselects
    refine ⟨state'.dom, ⟨state'.reset.destutter (· ≠ ·), state'.updates⟩, hoptions.bind ?_,
      hsame ▸ hran⟩
    simp only [if_pos hremove]
    exact hcontents.bind (.pure _)

end

end Omoikane.Dom.Live
