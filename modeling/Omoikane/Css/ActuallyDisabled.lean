import Omoikane.Base.TreeLoops
import Omoikane.Css.SharedCache
import Omoikane.Dom.Live.Select

/-!
# Actually disabled elements

A form control is disabled by its own attribute or by a fieldset around it, unless it is in the first
legend of that fieldset.  An option is disabled by its own attribute, by its optgroup or by its select.
`is_actually_disabled` finds this out on the way up.

The walk through fieldsets reads the names of elements in the namespace of HTML.  The walks from an
option read the role of an element, which asks for the flag `html` instead, and elements that an XML
document has in the namespace of HTML lack it.  `:enabled` reads the qualified name.  `Recognized` says
where neither makes a difference, and `disabled_iff_recognized` that the answers are then, and only
then, those of the rules.
-/

namespace Omoikane.Css

open Base Relation
open Dom.Live (Role)

/-- The role that an element has by its local name. -/
def roleNamed (name : Text) : Role :=
  if name = "select".toList then .select
  else if name = "option".toList then .option
  else if name = "optgroup".toList then .optgroup
  else if name = "hr".toList ∨ name = "datalist".toList then .barrier
  else if name = "selectedcontent".toList then .selectedContent
  else .other

/-- The tags of the controls that can be disabled. -/
def disableableTags : List Text :=
  ["button".toList, "input".toList, "select".toList, "textarea".toList, "option".toList,
    "optgroup".toList, "fieldset".toList]

namespace Tree

variable {ι : Type} (tree : Tree ι)

/-! ## The code -/

/-- The role of an element, if some elements count as elements of HTML. -/
def roleAmong (html : ι → Bool) (node : ι) : Role :=
  match tree.localName node with
  | none => .notElement
  | some name => if html node then roleNamed name else .other

/-- `role`. -/
def role : ι → Role := tree.roleAmong tree.isHtmlElement

/-- `has_disabled_attribute`. -/
def hasDisabledAttribute (node : ι) : Bool := (tree.attributeValue node "disabled".toList).isSome

/-- `is_form_associated_custom`. -/
def isFormAssociatedCustom (node : ι) : Bool := (tree.element? node).any (·.formAssociatedCustom)

/-- The loop of `nearest_ancestor_select`. -/
def nearestAncestorSelectFrom : Nat → Bool → ι → Option ι
  | 0, _, _ => none
  | limit + 1, seenOptgroup, node =>
    match tree.parentNode node with
    | none => none
    | some ancestor =>
      match tree.role ancestor with
      | .barrier | .option => none
      | .optgroup =>
        if seenOptgroup then none else nearestAncestorSelectFrom limit true ancestor
      | .select => some ancestor
      | .selectedContent | .other | .notElement =>
        nearestAncestorSelectFrom limit seenOptgroup ancestor

/-- `nearest_ancestor_select`. -/
def nearestAncestorSelect (element : ι) : Option ι :=
  tree.nearestAncestorSelectFrom (tree.depth element) false element

/-- The loop of `option_or_optgroup_is_disabled`. -/
def optgroupDisablesFrom : Nat → ι → Bool
  | 0, _ => false
  | limit + 1, node =>
    match tree.parentNode node with
    | none => false
    | some ancestor =>
      match tree.role ancestor with
      | .select | .barrier | .option => false
      | .optgroup => tree.hasDisabledAttribute ancestor
      | .selectedContent | .other | .notElement => optgroupDisablesFrom limit ancestor

/-- `option_or_optgroup_is_disabled`. -/
def optionOrOptgroupIsDisabled (option : ι) : Bool :=
  if tree.hasDisabledAttribute option then true
  else tree.optgroupDisablesFrom (tree.depth option) option

/-- `option_is_disabled`. -/
def optionIsDisabled (option : ι) : Bool :=
  tree.optionOrOptgroupIsDisabled option ||
    (tree.nearestAncestorSelect option).any tree.hasDisabledAttribute

/-- `optgroup_is_disabled`. -/
def optgroupIsDisabled (optgroup : ι) : Bool :=
  tree.hasDisabledAttribute optgroup ||
    (tree.nearestAncestorSelect optgroup).any tree.hasDisabledAttribute

/-- The first `legend` among the children of a node. -/
def firstLegend (node : ι) : Option ι :=
  (tree.childNodes node).find? fun child => tree.htmlLocalName child == some "legend".toList

variable [DecidableEq ι]

/-- The loop of `is_actually_disabled`. -/
def fieldsetDisablesFrom : Nat → ι → Bool
  | 0, _ => false
  | limit + 1, descendant =>
    match tree.parentNode descendant with
    | none => false
    | some current =>
      if tree.htmlLocalName current == some "fieldset".toList &&
          tree.hasDisabledAttribute current && tree.firstLegend current != some descendant then
        true
      else fieldsetDisablesFrom limit current

/-- `is_actually_disabled`. -/
def isActuallyDisabled (node : ι) : Bool :=
  match tree.htmlLocalName node with
  | none => false
  | some tag =>
    if tag ∉ disableableTags ∧ tree.isFormAssociatedCustom node = false then false
    else if tag = "option".toList then tree.optionIsDisabled node
    else if tag = "optgroup".toList then tree.optgroupIsDisabled node
    else if tree.hasDisabledAttribute node then true
    else tree.fieldsetDisablesFrom (tree.depth node) node

/-! ## The rules -/

omit [DecidableEq ι]

/-- The role of an element by its namespace. -/
def htmlRole : ι → Role := tree.roleAmong fun node => (tree.htmlLocalName node).isSome

/-- An element in the namespace of HTML has a name. -/
def IsNamed (node : ι) (name : Text) : Prop := tree.htmlLocalName node = some name

instance (node : ι) (name : Text) : Decidable (tree.IsNamed node name) :=
  inferInstanceAs (Decidable (tree.htmlLocalName node = some name))

/-- A control that fieldsets can disable: one of those of HTML, or a custom one. -/
def IsControl (node : ι) : Prop :=
  ∃ name, tree.IsNamed node name ∧ name ≠ "option".toList ∧ name ≠ "optgroup".toList ∧
    (name ∈ disableableTags ∨ tree.isFormAssociatedCustom node = true)

/-- A form control, which `:enabled` or `:disabled` is to match. -/
def IsFormControl (node : ι) : Prop :=
  ∃ name, tree.IsNamed node name ∧
    (name ∈ disableableTags ∨ tree.isFormAssociatedCustom node = true)

/-- A fieldset that is disabled is around a control, which is not in the first legend. -/
def InDisabledFieldset (node : ι) : Prop :=
  ∃ fieldset, tree.AncestorOf fieldset node ∧ tree.htmlLocalName fieldset = some "fieldset".toList ∧
    tree.hasDisabledAttribute fieldset = true ∧
    ¬ ∃ legend, tree.firstLegend fieldset = some legend ∧ ReflTransGen tree.ParentOf legend node

/-- A control is to be disabled. -/
def ControlDisabled (control : ι) : Prop :=
  tree.hasDisabledAttribute control = true ∨ tree.InDisabledFieldset control

/-- The nearest optgroup above an option, with no select, barrier or option on the way. -/
def NearestOptgroup (role : ι → Role) (option optgroup : ι) : Prop :=
  ∃ before, Way tree.parentNode option (before ++ [optgroup]) optgroup ∧ role optgroup = .optgroup ∧
    ∀ other ∈ before, role other ∉ [.select, .barrier, .option, .optgroup]

/-- The nearest select above an element, with no barrier or option and at most one optgroup on the
way. -/
def NearestSelect (role : ι → Role) (element select : ι) : Prop :=
  ∃ before, Way tree.parentNode element (before ++ [select]) select ∧ role select = .select ∧
    (∀ other ∈ before, role other ∉ [.select, .barrier, .option]) ∧
    before.countP (role · = .optgroup) ≤ 1

/-- An optgroup is to be disabled, by itself or its select. -/
def OptgroupDisabled (role : ι → Role) (optgroup : ι) : Prop :=
  tree.hasDisabledAttribute optgroup = true ∨
    ∃ select, tree.NearestSelect role optgroup select ∧ tree.hasDisabledAttribute select = true

/-- An option is to be disabled, by itself, its optgroup or its select. -/
def OptionDisabled (role : ι → Role) (option : ι) : Prop :=
  tree.hasDisabledAttribute option = true ∨
    (∃ optgroup, tree.NearestOptgroup role option optgroup ∧
      tree.hasDisabledAttribute optgroup = true) ∨
    ∃ select, tree.NearestSelect role option select ∧ tree.hasDisabledAttribute select = true

/-- A form control is to be disabled, if options and optgroups go by these roles. -/
def FormControlDisabled (role : ι → Role) (node : ι) : Prop :=
  (tree.IsNamed node "option".toList ∧ tree.OptionDisabled role node) ∨
    (tree.IsNamed node "optgroup".toList ∧ tree.OptgroupDisabled role node) ∨
    (tree.IsControl node ∧ tree.ControlDisabled node)

/-- Nothing that the code overlooks makes a difference to a node: for an option, elements of HTML without
the flag; for a form control whose qualified name is not its local name, that it does not count as
one, unless it is disabled. -/
structure Recognized (node : ι) : Prop where
  option : tree.IsNamed node "option".toList →
    (tree.OptionDisabled tree.role node ↔ tree.OptionDisabled tree.htmlRole node)
  formControl : tree.IsFormControl node → tree.isFormAssociatedCustom node = false →
    (∀ tag ∈ disableableTags, tree.tagName node ≠ some tag) →
    tree.FormControlDisabled tree.role node

/-! ## The loops -/

variable {tree} {node select : ι} {limit : Nat} {seen : Bool}

theorem depth_le_of_parent {parent : ι} (hparent : tree.parentNode node = some parent)
    (hlimit : tree.depth node ≤ limit + 1) : tree.depth parent ≤ limit := by
  have := tree.depth_parent _ _ hparent
  omega

theorem parent_none_of_depth (hdepth : tree.depth node ≤ 0) : tree.parentNode node = none := by
  cases hparent : tree.parentNode node with
  | none => rfl
  | some parent =>
    have := tree.depth_parent _ _ hparent
    omega

theorem nearestAncestorSelectFrom_iff (hlimit : tree.depth node ≤ limit) :
    tree.nearestAncestorSelectFrom limit seen node = some select ↔
      ∃ before, Way tree.parentNode node (before ++ [select]) select ∧ tree.role select = .select ∧
        (∀ other ∈ before, tree.role other ∉ [.select, .barrier, .option]) ∧
        before.countP (tree.role · = .optgroup) + seen.toNat ≤ 1 := by
  induction limit generalizing node seen with
  | zero =>
    refine ⟨nofun, fun ⟨before, hway, _⟩ => ?_⟩
    exact (Way.not_concat_of_top (parent_none_of_depth hlimit) hway).elim
  | succ limit ih =>
    rw [nearestAncestorSelectFrom]
    cases hparent : tree.parentNode node with
    | none => exact ⟨nofun, fun ⟨before, hway, _⟩ => (Way.not_concat_of_top hparent hway).elim⟩
    | some ancestor =>
      have hbelow := depth_le_of_parent hparent hlimit
      rw [Way.exists_concat_iff hparent]
      have hself : select = ancestor → tree.role select = tree.role ancestor := congrArg _
      dsimp only
      cases hrole : tree.role ancestor with
      | barrier | option => grind
      | select | optgroup => cases seen <;> grind
      | selectedContent | other | notElement => grind

theorem nearestAncestorSelect_iff :
    tree.nearestAncestorSelect node = some select ↔ tree.NearestSelect tree.role node select :=
  nearestAncestorSelectFrom_iff (le_refl (tree.depth node))

theorem optgroupDisablesFrom_iff (hlimit : tree.depth node ≤ limit) :
    tree.optgroupDisablesFrom limit node = true ↔
      ∃ optgroup, tree.NearestOptgroup tree.role node optgroup ∧
        tree.hasDisabledAttribute optgroup = true := by
  induction limit generalizing node with
  | zero =>
    refine ⟨nofun, fun ⟨optgroup, ⟨before, hway, _⟩, _⟩ => ?_⟩
    exact (Way.not_concat_of_top (parent_none_of_depth hlimit) hway).elim
  | succ limit ih =>
    rw [optgroupDisablesFrom]
    cases hparent : tree.parentNode node with
    | none =>
      exact ⟨nofun, fun ⟨optgroup, ⟨before, hway, _⟩, _⟩ =>
        (Way.not_concat_of_top hparent hway).elim⟩
    | some ancestor =>
      have hbelow := ih (depth_le_of_parent hparent hlimit)
      simp only [NearestOptgroup, Way.exists_concat_iff hparent] at hbelow ⊢
      cases hrole : tree.role ancestor <;> grind

/-- The step of the walk through fieldsets: what is around a node is its parent or around that. -/
theorem inDisabledFieldset_iff {parent : ι} (hparent : tree.parentNode node = some parent) :
    tree.InDisabledFieldset node ↔
      (tree.htmlLocalName parent = some "fieldset".toList ∧ tree.hasDisabledAttribute parent = true ∧
        tree.firstLegend parent ≠ some node) ∨ tree.InDisabledFieldset parent := by
  have habove : ∀ {fieldset}, tree.AncestorOf fieldset node ↔
      fieldset = parent ∨ tree.AncestorOf fieldset parent := by
    intro fieldset
    rw [AncestorOf, TransGen.tail'_iff]
    constructor
    · rintro ⟨between, hway, hbetween⟩
      cases hbetween.symm.trans hparent
      exact reflTransGen_iff_eq_or_transGen.mp hway |>.imp_left Eq.symm
    · rintro (rfl | hway)
      · exact ⟨_, .refl, hparent⟩
      · exact ⟨_, hway.to_reflTransGen, hparent⟩
  have hchild : ∀ {fieldset legend}, tree.firstLegend fieldset = some legend →
      tree.parentNode legend = some fieldset := by
    intro fieldset legend hlegend
    exact (tree.mem_childNodes _ _).mp (List.mem_of_find?_eq_some hlegend)
  have hinside : ∀ {legend}, ReflTransGen tree.ParentOf legend node ↔
      legend = node ∨ ReflTransGen tree.ParentOf legend parent := by
    intro legend
    rw [reflTransGen_iff_eq_or_transGen, reflTransGen_iff_eq_or_transGen, eq_comm]
    exact or_congr_right (habove.trans (or_congr_left eq_comm))
  constructor
  · rintro ⟨fieldset, haround, hname, hdisabled, hlegend⟩
    rcases habove.mp haround with rfl | haround
    · exact .inl ⟨hname, hdisabled, fun hfirst => hlegend ⟨node, hfirst, .refl⟩⟩
    · refine .inr ⟨fieldset, haround, hname, hdisabled, fun ⟨legend, hfirst, hin⟩ => ?_⟩
      exact hlegend ⟨legend, hfirst, hinside.mpr (.inr hin)⟩
  · rintro (⟨hname, hdisabled, hfirst⟩ | ⟨fieldset, haround, hname, hdisabled, hlegend⟩)
    · refine ⟨parent, habove.mpr (.inl rfl), hname, hdisabled, fun ⟨legend, hlegend, hin⟩ => ?_⟩
      rcases hinside.mp hin with rfl | hin
      · exact hfirst hlegend
      · -- A child of the parent is not above it.
        have hdepth := tree.depth_parent _ _ (hchild hlegend)
        rcases reflTransGen_iff_eq_or_transGen.mp hin with rfl | hway
        · omega
        · have := AncestorOf.depth_lt hway
          omega
    · refine ⟨fieldset, habove.mpr (.inr haround), hname, hdisabled, fun ⟨legend, hfirst, hin⟩ => ?_⟩
      rcases hinside.mp hin with rfl | hin
      · -- The node is a child of its parent only, which is below the fieldset.
        cases (hchild hfirst).symm.trans hparent
        exact (AncestorOf.depth_lt haround).false
      · exact hlegend ⟨legend, hfirst, hin⟩

theorem not_inDisabledFieldset_of_top (hparent : tree.parentNode node = none) :
    ¬ tree.InDisabledFieldset node := by
  rintro ⟨fieldset, haround, -⟩
  obtain ⟨between, -, hbetween⟩ := TransGen.tail'_iff.mp haround
  cases hbetween.symm.trans hparent

variable [DecidableEq ι]

theorem fieldsetDisablesFrom_iff (hlimit : tree.depth node ≤ limit) :
    tree.fieldsetDisablesFrom limit node = true ↔ tree.InDisabledFieldset node := by
  induction limit generalizing node with
  | zero =>
    exact iff_of_false Bool.false_ne_true
      (not_inDisabledFieldset_of_top (parent_none_of_depth hlimit))
  | succ limit ih =>
    rw [fieldsetDisablesFrom]
    cases hparent : tree.parentNode node with
    | none => exact iff_of_false Bool.false_ne_true (not_inDisabledFieldset_of_top hparent)
    | some current =>
      rw [inDisabledFieldset_iff hparent, ← ih (depth_le_of_parent hparent hlimit)]
      dsimp only
      split
      next hdisables =>
        rw [Bool.and_eq_true, Bool.and_eq_true, beq_iff_eq, bne_iff_ne, and_assoc] at hdisables
        exact iff_of_true rfl (.inl hdisables)
      next hdisables =>
        rw [Bool.and_eq_true, Bool.and_eq_true, beq_iff_eq, bne_iff_ne, and_assoc] at hdisables
        rw [or_iff_right hdisables]

/-! ## The answer -/

theorem isActuallyDisabled_control (h : tree.IsControl node) :
    tree.isActuallyDisabled node = true ↔ tree.ControlDisabled node := by
  obtain ⟨name, hname, hoption, hoptgroup, hcontrol⟩ := h
  rw [isActuallyDisabled, hname, ControlDisabled, ← fieldsetDisablesFrom_iff (le_refl _)]
  dsimp only
  rw [if_neg (by grind), if_neg hoption, if_neg hoptgroup]
  split <;> simp [*]

theorem isActuallyDisabled_option (h : tree.IsNamed node "option".toList) :
    tree.isActuallyDisabled node = true ↔ tree.OptionDisabled tree.role node := by
  rw [isActuallyDisabled, h, OptionDisabled, ← optgroupDisablesFrom_iff (le_refl _)]
  simp only [← nearestAncestorSelect_iff]
  rw [if_neg fun h => h.1 (by decide), if_pos trivial, optionIsDisabled, optionOrOptgroupIsDisabled, Bool.or_eq_true,
    Option.any_eq_true]
  split <;> simp [*]

theorem isActuallyDisabled_optgroup (h : tree.IsNamed node "optgroup".toList) :
    tree.isActuallyDisabled node = true ↔ tree.OptgroupDisabled tree.role node := by
  rw [isActuallyDisabled, h, OptgroupDisabled]
  simp only [← nearestAncestorSelect_iff]
  rw [if_neg fun h => h.1 (by decide), if_neg (by decide), if_pos trivial, optgroupIsDisabled, Bool.or_eq_true,
    Option.any_eq_true]

theorem isActuallyDisabled_formControl (h : tree.IsFormControl node) :
    tree.isActuallyDisabled node = true ↔ tree.FormControlDisabled tree.role node := by
  obtain ⟨name, hname, hcontrol⟩ := h
  have hunique : ∀ other, tree.IsNamed node other → other = name := fun other hother =>
    Option.some.inj (hother.symm.trans hname)
  rw [FormControlDisabled]
  by_cases hoption : name = "option".toList
  · rw [hoption] at hname hunique
    rw [isActuallyDisabled_option hname, and_iff_right hname, or_iff_left]
    rintro (⟨hoptgroup, -⟩ | ⟨⟨other, hother, hnot, -⟩, -⟩)
    · exact absurd (hunique _ hoptgroup) (by decide)
    · exact hnot (hunique _ hother)
  · rw [or_iff_right fun hdisabled => hoption (hunique _ hdisabled.1).symm]
    by_cases hoptgroup : name = "optgroup".toList
    · rw [hoptgroup] at hname hunique
      rw [isActuallyDisabled_optgroup hname, and_iff_right hname, or_iff_left]
      rintro ⟨⟨other, hother, -, hnot, -⟩, -⟩
      exact hnot (hunique _ hother)
    · rw [or_iff_right fun hdisabled => hoptgroup (hunique _ hdisabled.1).symm]
      have hkind : tree.IsControl node := ⟨name, hname, hoption, hoptgroup, hcontrol⟩
      rw [isActuallyDisabled_control hkind, and_iff_right hkind]

omit [DecidableEq ι]

end Tree

/-! ## The pseudo-classes -/

variable {ι : Type} [DecidableEq ι] {doc : Document ι} {node : ι}

omit [DecidableEq ι] in
theorem isFormControl_iff {tree : Tree ι} : isFormControl tree node = true ↔
    tree.isFormAssociatedCustom node = true ∨ ∃ tag ∈ disableableTags, tree.tagName node = some tag := by
  rw [isFormControl, Tree.isFormAssociatedCustom, Tree.tagName]
  cases tree.element? node with
  | none => simp
  | some element =>
    have hlist : ["button", "input", "select", "textarea", "option", "optgroup", "fieldset"].any
        (fun tag => element.tagName == tag.toList) = disableableTags.any (element.tagName == ·) := rfl
    rw [Option.any_some, Bool.or_eq_true, hlist, List.any_eq_true]
    simp only [beq_iff_eq, Option.map_some, Option.some.injEq, Option.any_some]

/-- A document whose answers about disabled elements are those of `is_actually_disabled`. -/
def Document.withDisabled (doc : Document ι) : Document ι :=
  { doc with isActuallyDisabled := doc.tree.isActuallyDisabled }

/-- The answers about a node are those of the rules: a control is disabled by itself or a fieldset, an
option by itself, its optgroup or its select, no element matches both pseudo-classes, and every form
control matches one. -/
structure Document.DisabledAsRuled (doc : Document ι) (node : ι) : Prop where
  control : doc.tree.IsControl node →
    (doc.tree.isActuallyDisabled node = true ↔ doc.tree.ControlDisabled node)
  option : doc.tree.IsNamed node "option".toList →
    (doc.tree.isActuallyDisabled node = true ↔ doc.tree.OptionDisabled doc.tree.htmlRole node)
  exclusive : ∀ scopeRoot pseudo,
    ¬ (matchesState doc.withDisabled scopeRoot node pseudo .enabled = true ∧
      matchesState doc.withDisabled scopeRoot node pseudo .disabled = true)
  covered : doc.tree.IsFormControl node → ∀ scopeRoot pseudo,
    matchesState doc.withDisabled scopeRoot node pseudo .enabled = true ∨
      matchesState doc.withDisabled scopeRoot node pseudo .disabled = true

theorem matchesState_enabled {scopeRoot : Option ι} {pseudo : Option PseudoElement} :
    matchesState doc.withDisabled scopeRoot node pseudo .enabled = true ↔
      isFormControl doc.tree node = true ∧ doc.tree.isActuallyDisabled node = false := by
  rw [matchesState, Bool.and_eq_true, Bool.not_eq_true']
  rfl

theorem matchesState_disabled {scopeRoot : Option ι} {pseudo : Option PseudoElement} :
    matchesState doc.withDisabled scopeRoot node pseudo .disabled =
      doc.tree.isActuallyDisabled node := rfl

/-- The answers are those of the rules exactly where the code overlooks nothing. -/
theorem disabled_iff_recognized (doc : Document ι) (node : ι) :
    doc.DisabledAsRuled node ↔ doc.tree.Recognized node := by
  constructor
  · intro h
    refine ⟨fun hoption => ?_, fun hcontrol hcustom htag => ?_⟩
    · rw [← Tree.isActuallyDisabled_option hoption]
      exact h.option hoption
    · rw [← Tree.isActuallyDisabled_formControl hcontrol]
      refine (h.covered hcontrol none none).resolve_left fun henabled => ?_
      -- The element does not count as a form control, and is not enabled.
      rcases isFormControl_iff.mp (matchesState_enabled.mp henabled).1 with hcustom' | ⟨tag, hmem, htag'⟩
      · rw [hcustom] at hcustom'
        cases hcustom'
      · exact htag tag hmem htag'
  · intro h
    refine ⟨Tree.isActuallyDisabled_control, fun hoption => ?_, fun scopeRoot pseudo => ?_,
      fun hcontrol scopeRoot pseudo => ?_⟩
    · rw [Tree.isActuallyDisabled_option hoption]
      exact h.option hoption
    · rw [matchesState_enabled, matchesState_disabled]
      rintro ⟨⟨-, hnot⟩, hdisabled⟩
      rw [hnot] at hdisabled
      cases hdisabled
    · rw [matchesState_enabled, matchesState_disabled]
      by_cases hcounted : isFormControl doc.tree node = true
      · rw [and_iff_right hcounted, or_comm]
        exact Bool.eq_false_or_eq_true _
      · rw [isFormControl_iff, not_or] at hcounted
        refine .inr ((Tree.isActuallyDisabled_formControl hcontrol).mpr (h.formControl hcontrol ?_ ?_))
        · exact Bool.eq_false_of_not_eq_true hcounted.1
        · exact fun tag hmem htag => hcounted.2 ⟨tag, hmem, htag⟩

/-! ## Overlooked elements -/

/-- An element in the namespace of HTML. -/
def namespacedElement (tagName localName : Text) (html : Bool) (attributes : List Text) : NodeData :=
  .element
    { tagName
      localName
      namespaceUri := some "http://www.w3.org/1999/xhtml".toList
      html
      attributeRecords := attributes.map fun name => ⟨name, none, name, []⟩
      customStates := []
      customElementDefined := none
      userActionState := fun _ => false
      mediaSelectorState := fun _ => false
      popoverOpen := false
      modalDialog := false
      fullscreen := false
      pickerOpen := false
      checked := false
      autofilled := false
      userValidity := false
      cssValidity := none
      formAssociatedCustom := false }

/-- A button with a prefix, as `createElementNS` makes it, and `<optgroup disabled=""><option/></optgroup>`,
as a document of XML has it. -/
def overlookedTree : Tree (Fin 3) where
  data
    | 0 => namespacedElement "x:button".toList "button".toList true []
    | 1 => namespacedElement "optgroup".toList "optgroup".toList false ["disabled".toList]
    | 2 => namespacedElement "option".toList "option".toList false []
  parentNode
    | 2 => some 1
    | _ => none
  childNodes
    | 1 => [2]
    | _ => []
  depth
    | 2 => 1
    | _ => 0
  height := 2
  mem_childNodes := by decide
  nodup_childNodes := by decide
  depth_parent := by decide
  depth_lt := by decide

/-- The button matches neither pseudo-class, and the option is not disabled with its optgroup. -/
theorem disabled_overlooked : ¬ (plainDocument overlookedTree).DisabledAsRuled 0 ∧
    ¬ (plainDocument overlookedTree).DisabledAsRuled 2 := by
  constructor
  · intro h
    have hcontrol : overlookedTree.IsFormControl 0 := ⟨"button".toList, by decide, .inl (by decide)⟩
    rcases h.covered hcontrol none none with henabled | hdisabled
    · exact absurd (matchesState_enabled.mp henabled).1 (by decide)
    · exact absurd hdisabled (by decide)
  · intro h
    have hoptgroup : overlookedTree.NearestOptgroup overlookedTree.htmlRole 2 1 :=
      ⟨[], .step rfl .refl, by decide, by simp⟩
    have hdisabled := (h.option (by decide)).mpr (.inr (.inl ⟨1, hoptgroup, by decide⟩))
    exact absurd hdisabled (by decide)

end Omoikane.Css
