import Omoikane.Base.Numerals
import Omoikane.Base.Settles
import Omoikane.Css.Selector

/-!
# Specificity

The specificity of a selector counts ids, classes and types; a selector list counts as the greatest of
its members.  `:host()` and `::slotted()` keep their argument as a text, which is parsed again for its
specificity, so that the computation has no bound but that of nesting, and gets a limit here.

`Weighs` is the definition by the standard: the sum over the simple selectors of a unit and of the
greatest argument.  The computation settles with it (`specificity_standard`) for selectors with fewer
simple selectors than 32 bits can count.  `Weighs` says nothing of a legacy pseudo-element that the
computation takes for a pseudo-class (`IsStray`).
-/

namespace Omoikane.Css

open Base

/-- `(a, b, c)`. -/
@[ext] structure Specificity where
  ids : Nat
  classes : Nat
  elements : Nat
deriving DecidableEq, Repr

namespace Specificity

instance : Zero Specificity := ⟨⟨0, 0, 0⟩⟩

instance : Add Specificity where
  add s t := ⟨s.ids + t.ids, s.classes + t.classes, s.elements + t.elements⟩

/-- The components in the order in which they are compared. -/
def key (s : Specificity) : Nat ×ₗ Nat ×ₗ Nat := toLex (s.ids, toLex (s.classes, s.elements))

theorem key_injective : Function.Injective key := by
  rintro ⟨ids, classes, elements⟩ ⟨ids', classes', elements'⟩ h
  obtain ⟨rfl, hrest⟩ := Prod.mk.inj (toLex.injective h)
  obtain ⟨rfl, rfl⟩ := Prod.mk.inj (toLex.injective hrest)
  rfl

instance : LinearOrder Specificity := LinearOrder.lift' key key_injective

instance : Std.MaxEqOr Specificity := ⟨max_choice⟩

/-- Addition of components of 32 bits; `none` is an overflow. -/
def checkedAdd (s t : Specificity) : Option Specificity := do
  let ids ← checkedAddU32 s.ids t.ids
  let classes ← checkedAddU32 s.classes t.classes
  let elements ← checkedAddU32 s.elements t.elements
  return ⟨ids, classes, elements⟩

end Specificity

/-- A functional pseudo-class or pseudo-element with this name. -/
def isFunction (function name : Text) : Bool :=
  (functionalPseudo name).any fun p => Text.eqIgnoreAsciiCase p.1 function

section

variable (specificity : Selector → Option Specificity)
  (parseSelectorList : Text → Option (List Selector))

/-- `add_selector_list_specificity`. -/
def addSelectorListSpecificity (value : Specificity) (selectors : List Selector) :
    Option Specificity := do
  let specificities ← selectors.mapM specificity
  match specificities.max? with
  | none => some value
  | some argumentSpecificity => value.checkedAdd argumentSpecificity

/-- `add_function_argument_specificity`. -/
def addFunctionArgumentSpecificity (value : Specificity) (name : Text) : Option Specificity :=
  match functionalPseudo name with
  | none => some value
  | some (_, argument) =>
    match parseSelectorList argument with
    | none => some value
    | some selectors => addSelectorListSpecificity specificity value selectors

/-- `add_simple_specificity`. -/
def addSimpleSpecificity (value : Specificity) (simple : SimpleSelector) : Option Specificity :=
  match simple with
  | .id _ => value.checkedAdd ⟨1, 0, 0⟩
  | .className _ | .attribute _ _ _ | .customState _ => value.checkedAdd ⟨0, 1, 0⟩
  | .nthChild _ selectors _ => do
    let value ← value.checkedAdd ⟨0, 1, 0⟩
    addSelectorListSpecificity specificity value selectors
  | .pseudoClass name =>
    if name = "before".toList ∨ name = "after".toList then value.checkedAdd ⟨0, 0, 1⟩
    else if isFunction "host".toList name then do
      let value ← value.checkedAdd ⟨0, 1, 0⟩
      addFunctionArgumentSpecificity specificity parseSelectorList value name
    else value.checkedAdd ⟨0, 1, 0⟩
  | .pseudoElement name =>
    if isFunction "slotted".toList name then do
      let value ← value.checkedAdd ⟨0, 0, 1⟩
      addFunctionArgumentSpecificity specificity parseSelectorList value name
    else value.checkedAdd ⟨0, 0, 1⟩
  | .type _ => value.checkedAdd ⟨0, 0, 1⟩
  | .universal => some value
  | .is selectors | .not selectors => addSelectorListSpecificity specificity value selectors
  | .where _ => some value
  | .has selectors =>
    addSelectorListSpecificity specificity value (selectors.map (·.selector))

end

/-- `specificity`, with a limit on the nesting. -/
def specificity (parseSelectorList : Text → Option (List Selector)) :
    Nat → Selector → Option Specificity
  | 0, _ => none
  | limit + 1, selector =>
    selector.parts.foldlM (fun value part =>
      part.simples.foldlM
        (addSimpleSpecificity (specificity parseSelectorList limit) parseSelectorList) value) 0

/-- `compare_candidate_priority`, with the comparisons in front of that of specificity and those behind
it. -/
def comparePriority (stronger weaker : Ordering) (left right : Specificity) : Ordering :=
  stronger.then ((compare left right).then weaker)

/-! ## The standard -/

/-- The simple selectors of all compounds. -/
def Selector.simples (selector : Selector) : List SimpleSelector :=
  selector.parts.flatMap (·.simples)

/-- What a simple selector counts without its argument. -/
def SimpleSelector.unit : SimpleSelector → Specificity
  | .id _ => ⟨1, 0, 0⟩
  | .className _ | .attribute _ _ _ | .customState _ | .nthChild _ _ _ => ⟨0, 1, 0⟩
  | .pseudoClass name =>
    if name = "before".toList ∨ name = "after".toList then ⟨0, 0, 1⟩ else ⟨0, 1, 0⟩
  | .pseudoElement _ | .type _ => ⟨0, 0, 1⟩
  | .universal | .is _ | .where _ | .not _ | .has _ => ⟨0, 0, 0⟩

/-- The selectors in the argument of a simple selector of which the greatest counts. -/
def SimpleSelector.arguments (parseSelectorList : Text → Option (List Selector)) :
    SimpleSelector → List Selector
  | .nthChild _ selectors _ | .is selectors | .not selectors => selectors
  | .has selectors => selectors.map (·.selector)
  | .pseudoClass name =>
    if isFunction "host".toList name then
      (((functionalPseudo name).bind fun p => parseSelectorList p.2)).getD []
    else []
  | .pseudoElement name =>
    if isFunction "slotted".toList name then
      (((functionalPseudo name).bind fun p => parseSelectorList p.2)).getD []
    else []
  | _ => []

/-- A legacy pseudo-element that is counted as a pseudo-class. -/
def SimpleSelector.IsStray : SimpleSelector → Prop
  | .pseudoClass name =>
    isLegacyPseudoElement (Text.toAsciiLowercase name) = true ∧
      name ≠ "before".toList ∧ name ≠ "after".toList
  | _ => False

/-- The greatest of a list; an empty one counts nothing. -/
def greatest (specificities : List Specificity) : Specificity := specificities.max?.getD 0

/-- The weight of a selector, with the number of simple selectors in it and in its arguments. -/
inductive Weighs (parseSelectorList : Text → Option (List Selector)) :
    Selector → Specificity → Nat → Prop
  | mk {selector : Selector} (weight : Selector → Specificity) (size : Selector → Nat)
      (nested : ∀ simple ∈ selector.simples, ∀ argument ∈ simple.arguments parseSelectorList,
        Weighs parseSelectorList argument (weight argument) (size argument))
      (straight : ∀ simple ∈ selector.simples, ¬ simple.IsStray) :
      Weighs parseSelectorList selector
        ((selector.simples.map fun simple =>
          simple.unit + greatest ((simple.arguments parseSelectorList).map weight)).sum)
        ((selector.simples.map fun simple =>
          1 + ((simple.arguments parseSelectorList).map size).sum).sum)

/-! ## Bounds -/

namespace Specificity

/-- All units of a specificity. -/
def total (s : Specificity) : Nat := s.ids + s.classes + s.elements

theorem total_add (s t : Specificity) : (s + t).total = s.total + t.total := by
  show s.ids + t.ids + (s.classes + t.classes) + (s.elements + t.elements) = _
  rw [total, total]
  omega

instance : AddMonoid Specificity where
  add_assoc _ _ _ := Specificity.ext (Nat.add_assoc ..) (Nat.add_assoc ..) (Nat.add_assoc ..)
  zero_add _ := Specificity.ext (Nat.zero_add _) (Nat.zero_add _) (Nat.zero_add _)
  add_zero _ := rfl
  nsmul := nsmulRec

/-- A sum whose units can be counted is found. -/
theorem checkedAdd_of_total {s t : Specificity} (h : s.total + t.total < 2 ^ 32) :
    s.checkedAdd t = some (s + t) := by
  rw [total, total] at h
  rw [checkedAdd, checkedAddU32_of_lt (by omega), checkedAddU32_of_lt (by omega),
    checkedAddU32_of_lt (by omega)]
  rfl

end Specificity

variable {parseSelectorList : Text → Option (List Selector)} {weight : Selector → Specificity}
  {size : Selector → Nat} {selector : Selector} {selectors : List Selector} {simple : SimpleSelector}
  {value : Specificity} {limit : Nat}

/-- The greatest of a list has no more units than all of them. -/
theorem total_greatest_le (h : ∀ argument ∈ selectors, (weight argument).total ≤ size argument) :
    (greatest (selectors.map weight)).total ≤ (selectors.map size).sum := by
  rw [greatest]
  cases hmax : (selectors.map weight).max? with
  | none => exact Nat.zero_le _
  | some best =>
    obtain ⟨argument, hargument, rfl⟩ := List.mem_map.mp (List.max?_mem hmax)
    exact (h argument hargument).trans (List.single_le_sum (fun _ _ => Nat.zero_le _) _ (List.mem_map_of_mem hargument))

theorem SimpleSelector.total_unit_le (simple : SimpleSelector) : simple.unit.total ≤ 1 := by
  cases simple with
  | pseudoClass name =>
    rw [unit]
    split <;> exact Nat.le_refl 1
  | universal | is | «where» | not | has => exact Nat.zero_le 1
  | type | className | id | «attribute» | customState | pseudoElement | nthChild =>
    exact Nat.le_refl 1

theorem total_sum_le {simples : List SimpleSelector} {weight : SimpleSelector → Specificity}
    {size : SimpleSelector → Nat} (h : ∀ simple ∈ simples, (weight simple).total ≤ size simple) :
    (simples.map weight).sum.total ≤ (simples.map size).sum := by
  induction simples with
  | nil => exact Nat.zero_le _
  | cons simple simples ih =>
    rw [List.forall_mem_cons] at h
    rw [List.map_cons, List.sum_cons, Specificity.total_add, List.map_cons, List.sum_cons]
    exact Nat.add_le_add h.1 (ih h.2)

/-- Every unit is one of a simple selector. -/
theorem Weighs.total_le {w : Specificity} {n : Nat} (h : Weighs parseSelectorList selector w n) :
    w.total ≤ n := by
  induction h with
  | mk weight size nested straight ih =>
    refine total_sum_le fun simple hsimple => ?_
    rw [Specificity.total_add]
    exact Nat.add_le_add simple.total_unit_le (total_greatest_le (ih simple hsimple))

/-! ## Simple selectors -/

/-- A name that is no function has no argument. -/
theorem addFunctionArgument_eq (spec : Selector → Option Specificity) (value : Specificity)
    (name : Text) :
    addFunctionArgumentSpecificity spec parseSelectorList value name =
      addSelectorListSpecificity spec value
        (((functionalPseudo name).bind fun p => parseSelectorList p.2).getD []) := by
  rw [addFunctionArgumentSpecificity]
  cases functionalPseudo name with
  | none => rfl
  | some p =>
    obtain ⟨function, argument⟩ := p
    dsimp only [Option.bind_some]
    cases parseSelectorList argument <;> rfl

theorem isFunction_legacy {function name : Text} (h : name = "before".toList ∨ name = "after".toList) :
    isFunction function name = false := by
  have hnone : functionalPseudo name = none := by
    rcases h with rfl | rfl <;> decide
  rw [isFunction, hnone]
  rfl

/-- A simple selector adds its unit and the greatest of its arguments. -/
theorem addSimpleSpecificity_eq (spec : Selector → Option Specificity)
    (hvalue : value.checkedAdd 0 = some value) (simple : SimpleSelector) :
    addSimpleSpecificity spec parseSelectorList value simple =
      (value.checkedAdd simple.unit).bind fun value =>
        addSelectorListSpecificity spec value (simple.arguments parseSelectorList) := by
  have hnone (added : Option Specificity) :
      (added.bind fun value => addSelectorListSpecificity spec value []) = added := by
    cases added <;> rfl
  cases simple with
  | pseudoClass name =>
    rw [addSimpleSpecificity, SimpleSelector.unit, SimpleSelector.arguments]
    by_cases hlegacy : name = "before".toList ∨ name = "after".toList
    · rw [if_pos hlegacy, if_pos hlegacy, isFunction_legacy hlegacy]
      exact (hnone _).symm
    · rw [if_neg hlegacy, if_neg hlegacy]
      split
      · simp only [addFunctionArgument_eq]
        rfl
      · exact (hnone _).symm
  | pseudoElement name =>
    rw [addSimpleSpecificity, SimpleSelector.unit, SimpleSelector.arguments]
    split
    · simp only [addFunctionArgument_eq]
      rfl
    · exact (hnone _).symm
  | is selectors | not selectors | has selectors =>
    rw [SimpleSelector.unit, show (⟨0, 0, 0⟩ : Specificity) = 0 from rfl, hvalue]
    rfl
  | universal | «where» =>
    rw [SimpleSelector.unit, show (⟨0, 0, 0⟩ : Specificity) = 0 from rfl, hvalue]
    rfl
  | nthChild => rfl
  | type | className | id | «attribute» | customState => exact (hnone _).symm

/-! ## The computation -/

/-- The simple selectors of all compounds are added one after the other. -/
theorem specificity_succ (limit : Nat) (selector : Selector) :
    specificity parseSelectorList (limit + 1) selector =
      selector.simples.foldlM (addSimpleSpecificity (specificity parseSelectorList limit)
        parseSelectorList) 0 := by
  rw [specificity, Selector.simples]
  generalize (0 : Specificity) = value
  induction selector.parts generalizing value with
  | nil => rfl
  | cons part parts ih =>
    rw [List.foldlM_cons, List.flatMap_cons, List.foldlM_append]
    exact bind_congr ih

/-- A list of selectors settles with the greatest. -/
theorem settles_selectorList (h : ∀ argument ∈ selectors,
      Settles (fun limit => specificity parseSelectorList limit argument) (weight argument))
    (hlt : value.total + (greatest (selectors.map weight)).total < 2 ^ 32) :
    Settles (fun limit =>
        addSelectorListSpecificity (specificity parseSelectorList limit) value selectors)
      (value + greatest (selectors.map weight)) := by
  refine (Settles.mapM h).bind ?_
  rw [greatest] at hlt ⊢
  cases hmax : (selectors.map weight).max? with
  | none => exact .pure value
  | some best =>
    rw [hmax] at hlt
    simp only [Option.getD_some] at hlt ⊢
    rw [Specificity.checkedAdd_of_total hlt]
    exact .pure _

/-- The simple selectors settle with the sum. -/
theorem settles_simples {simples : List SimpleSelector}
    (h : ∀ simple ∈ simples, ∀ argument ∈ simple.arguments parseSelectorList,
      Settles (fun limit => specificity parseSelectorList limit argument) (weight argument)) :
    ∀ value : Specificity,
      value.total + (simples.map fun simple =>
        simple.unit + greatest ((simple.arguments parseSelectorList).map weight)).sum.total <
          2 ^ 32 →
      Settles (fun limit => simples.foldlM (addSimpleSpecificity
          (specificity parseSelectorList limit) parseSelectorList) value)
        (value + (simples.map fun simple =>
          simple.unit + greatest ((simple.arguments parseSelectorList).map weight)).sum) := by
  induction simples with
  | nil =>
    intro value _
    rw [List.map_nil, List.sum_nil, add_zero]
    exact .pure value
  | cons simple simples ih =>
    intro value hlt
    rw [List.forall_mem_cons] at h
    rw [List.map_cons, List.sum_cons] at hlt ⊢
    simp only [Specificity.total_add] at hlt
    rw [← add_assoc, ← add_assoc]
    simp only [List.foldlM_cons]
    have hzero : value.checkedAdd 0 = some value :=
      Specificity.checkedAdd_of_total (t := 0) (by rw [show Specificity.total 0 = 0 from rfl]; omega)
    have hunit := Specificity.checkedAdd_of_total (s := value) (t := simple.unit) (by omega)
    refine Settles.bind ?_ (ih h.2 _ ?_)
    · simp only [addSimpleSpecificity_eq _ hzero, hunit, Option.bind_some]
      exact settles_selectorList h.1 (by rw [Specificity.total_add]; omega)
    · simp only [Specificity.total_add]
      omega

/-- The computation settles with the weight of a selector. -/
theorem Weighs.settles {w : Specificity} {n : Nat} (h : Weighs parseSelectorList selector w n)
    (hlt : n < 2 ^ 32) :
    Settles (fun limit => specificity parseSelectorList limit selector) w := by
  have htotal := h.total_le
  induction h with
  | @mk selector weight size nested straight ih =>
    have hsize : ∀ simple ∈ selector.simples, ∀ argument ∈ simple.arguments parseSelectorList,
        size argument < 2 ^ 32 := by
      intro simple hsimple argument hargument
      have hinner := List.single_le_sum (fun _ _ => Nat.zero_le _) _
        (List.mem_map_of_mem (f := size) hargument)
      have houter := List.single_le_sum (fun _ _ => Nat.zero_le _) _
        (List.mem_map_of_mem (f := fun simple =>
          1 + ((simple.arguments parseSelectorList).map size).sum) hsimple)
      omega
    refine .of_succ rfl ?_
    simp only [specificity_succ]
    rw [← zero_add (List.sum _)]
    refine settles_simples (fun simple hsimple argument hargument => ?_) 0 ?_
    · exact ih simple hsimple argument hargument (hsize simple hsimple argument hargument)
        (nested simple hsimple argument hargument).total_le
    · rw [show Specificity.total 0 = 0 from rfl]
      omega

/-- The arguments of a selector are nested in it. -/
def Nested (parseSelectorList : Text → Option (List Selector)) (inner outer : Selector) : Prop :=
  ∃ simple ∈ outer.simples, inner ∈ simple.arguments parseSelectorList

/-- A selector has a weight if its arguments are not nested forever and no legacy pseudo-element is
counted as a pseudo-class. -/
theorem exists_weighs (hacc : Acc (Nested parseSelectorList) selector)
    (hstraight : ∀ inner, Relation.ReflTransGen (Nested parseSelectorList) inner selector →
      ∀ simple ∈ inner.simples, ¬ simple.IsStray) :
    ∃ w n, Weighs parseSelectorList selector w n := by
  induction hacc with
  | intro outer hinner ih =>
    have hnested : ∀ inner, ∃ p : Specificity × Nat, Nested parseSelectorList inner outer →
        Weighs parseSelectorList inner p.1 p.2 := by
      intro inner
      by_cases hn : Nested parseSelectorList inner outer
      · obtain ⟨w, n, hw⟩ := ih inner hn fun innermost h =>
          hstraight innermost (h.tail hn)
        exact ⟨(w, n), fun _ => hw⟩
      · exact ⟨(0, 0), fun h => absurd h hn⟩
    choose weights hweights using hnested
    exact ⟨_, _, .mk (fun inner => (weights inner).1) (fun inner => (weights inner).2)
      (fun simple hsimple inner hargument => hweights inner ⟨simple, hsimple, hargument⟩)
      (hstraight outer .refl)⟩

/-! ## One colon or two -/

mutual

/-- `:before` and `:after` with two colons, here and in the arguments. -/
def SimpleSelector.withTwoColons : SimpleSelector → SimpleSelector
  | .pseudoClass name =>
    if name = "before".toList ∨ name = "after".toList then .pseudoElement name
    else .pseudoClass name
  | .nthChild formula selectors reverse => .nthChild formula (selectorsWithTwoColons selectors) reverse
  | .is selectors => .is (selectorsWithTwoColons selectors)
  | .where selectors => .where (selectorsWithTwoColons selectors)
  | .not selectors => .not (selectorsWithTwoColons selectors)
  | .has selectors => .has (relativesWithTwoColons selectors)
  | .type name => .type name
  | .universal => .universal
  | .className name => .className name
  | .id name => .id name
  | .attribute name operator value => .attribute name operator value
  | .customState name => .customState name
  | .pseudoElement name => .pseudoElement name

def simplesWithTwoColons : List SimpleSelector → List SimpleSelector
  | [] => []
  | simple :: simples => simple.withTwoColons :: simplesWithTwoColons simples

def partsWithTwoColons : List SelectorPart → List SelectorPart
  | [] => []
  | .mk combinator simples :: parts =>
    .mk combinator (simplesWithTwoColons simples) :: partsWithTwoColons parts

def selectorsWithTwoColons : List Selector → List Selector
  | [] => []
  | .mk parts :: selectors => .mk (partsWithTwoColons parts) :: selectorsWithTwoColons selectors

def relativesWithTwoColons : List RelativeSelector → List RelativeSelector
  | [] => []
  | .mk address combinator (.mk parts) :: selectors =>
    .mk address combinator (.mk (partsWithTwoColons parts)) :: relativesWithTwoColons selectors

end

def Selector.withTwoColons : Selector → Selector
  | .mk parts => .mk (partsWithTwoColons parts)

theorem simplesWithTwoColons_eq (simples : List SimpleSelector) :
    simplesWithTwoColons simples = simples.map (·.withTwoColons) := by
  induction simples with
  | nil => rfl
  | cons simple simples ih => rw [simplesWithTwoColons, ih, List.map_cons]

theorem selectorsWithTwoColons_eq (selectors : List Selector) :
    selectorsWithTwoColons selectors = selectors.map (·.withTwoColons) := by
  induction selectors with
  | nil => rfl
  | cons selector selectors ih =>
    obtain ⟨parts⟩ := selector
    rw [selectorsWithTwoColons, ih, List.map_cons, Selector.withTwoColons]

theorem relativesWithTwoColons_selector (selectors : List RelativeSelector) :
    (relativesWithTwoColons selectors).map (·.selector) =
      selectors.map (·.selector.withTwoColons) := by
  induction selectors with
  | nil => rfl
  | cons relative selectors ih =>
    obtain ⟨address, combinator, ⟨parts⟩⟩ := relative
    rw [relativesWithTwoColons, List.map_cons, ih, List.map_cons]
    rfl

theorem Selector.simples_withTwoColons (selector : Selector) :
    selector.withTwoColons.simples = selector.simples.map (·.withTwoColons) := by
  obtain ⟨compounds⟩ := selector
  rw [withTwoColons, simples, simples, parts, parts]
  induction compounds with
  | nil => rfl
  | cons part parts ih =>
    obtain ⟨combinator, simples⟩ := part
    rw [partsWithTwoColons, List.flatMap_cons, ih, List.flatMap_cons, List.map_append]
    exact congrArg (· ++ _) (simplesWithTwoColons_eq simples)

/-- A simple selector counts the same with one colon or two, if the arguments do. -/
theorem addSimple_withTwoColons {spec : Selector → Option Specificity}
    (hspec : ∀ selector, spec selector.withTwoColons = spec selector) (value : Specificity)
    (simple : SimpleSelector) :
    addSimpleSpecificity spec parseSelectorList value simple.withTwoColons =
      addSimpleSpecificity spec parseSelectorList value simple := by
  have hcomp : spec ∘ Selector.withTwoColons = spec := funext hspec
  have hlist (value : Specificity) (selectors : List Selector) :
      addSelectorListSpecificity spec value (selectors.map (·.withTwoColons)) =
        addSelectorListSpecificity spec value selectors := by
    rw [addSelectorListSpecificity, addSelectorListSpecificity, List.mapM_map, hcomp]
  cases simple with
  | pseudoClass name =>
    rw [SimpleSelector.withTwoColons]
    split
    next hlegacy =>
      rw [addSimpleSpecificity, addSimpleSpecificity, if_pos hlegacy, isFunction_legacy hlegacy]
      rfl
    next => rfl
  | nthChild formula selectors reverse =>
    rw [SimpleSelector.withTwoColons, selectorsWithTwoColons_eq, addSimpleSpecificity]
    simp only [hlist]
    rfl
  | is selectors | not selectors =>
    rw [SimpleSelector.withTwoColons, selectorsWithTwoColons_eq, addSimpleSpecificity, hlist]
    rfl
  | has selectors =>
    rw [SimpleSelector.withTwoColons, addSimpleSpecificity, relativesWithTwoColons_selector]
    rw [show selectors.map (·.selector.withTwoColons) =
      (selectors.map (·.selector)).map (·.withTwoColons) from by rw [List.map_map]; rfl, hlist]
    rfl
  | «where» | type | universal | className | id | «attribute» | customState | pseudoElement => rfl

/-- The number of colons makes no difference. -/
theorem specificity_withTwoColons (limit : Nat) : ∀ selector : Selector,
    specificity parseSelectorList limit selector.withTwoColons =
      specificity parseSelectorList limit selector := by
  induction limit with
  | zero => exact fun _ => rfl
  | succ limit ih =>
    intro selector
    rw [specificity_succ, specificity_succ, Selector.simples_withTwoColons, List.foldlM_map]
    simp only [addSimple_withTwoColons ih]

/-- The specificity of a selector is its weight by the standard; it has one; and it does not depend on
whether `:before` and `:after` are written with one colon or two, so that the cascade orders the same. -/
theorem specificity_standard (parseSelectorList : Text → Option (List Selector))
    (selector : Selector) :
    (∀ w n, Weighs parseSelectorList selector w n → n < 2 ^ 32 →
      Settles (fun limit => specificity parseSelectorList limit selector) w) ∧
    (Acc (Nested parseSelectorList) selector →
      (∀ inner, Relation.ReflTransGen (Nested parseSelectorList) inner selector →
        ∀ simple ∈ inner.simples, ¬ simple.IsStray) →
      ∃ w n, Weighs parseSelectorList selector w n) ∧
    ∀ other : Selector, other.withTwoColons = selector.withTwoColons → ∀ limit,
      specificity parseSelectorList limit other = specificity parseSelectorList limit selector ∧
        ∀ stronger weaker third,
          (specificity parseSelectorList limit other).map
              (comparePriority stronger weaker · third) =
            (specificity parseSelectorList limit selector).map
              (comparePriority stronger weaker · third) := by
  refine ⟨fun w n h hlt => h.settles hlt, exists_weighs, fun other heq limit => ?_⟩
  have hsame : specificity parseSelectorList limit other =
      specificity parseSelectorList limit selector := by
    rw [← specificity_withTwoColons, heq, specificity_withTwoColons]
  exact ⟨hsame, fun stronger weaker third => by rw [hsame]⟩

/-- `::slotted(#a)` counts an id beside the unit of the pseudo-element. -/
theorem specificity_slotted :
    specificity (fun _ => some [.mk [.mk none [.id "a".toList]]]) 2
        (.mk [.mk none [.pseudoElement "slotted(#a)".toList]]) ≠ some ⟨0, 0, 1⟩ := by
  decide

end Omoikane.Css
