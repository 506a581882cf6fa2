import Omoikane.Css.Agreement
import Omoikane.Css.LinkVisits
import Omoikane.Css.SelectorValues

/-!
# Selectors without visits

Blinding a selector replaces each `:visited` by a list that matches nothing, and each `:link` by
`:any-link`.  A blinded selector means what the selector means without visits (`simpleHolds_blinded`).
Confining a selector to its subject blinds all of it but the compound of the subject; of the selectors
in a list in that compound, the subject is the same element.
-/

namespace Omoikane.Css

open Base (Text)

/-! ## Blinded selectors -/

/-- A pseudo-class without visits. -/
def blindedPseudoClass (name : Text) : SimpleSelector :=
  if (functionalPseudo name).isNone && pseudoClassOf name == some .visited then .is []
  else if (functionalPseudo name).isNone && pseudoClassOf name == some .link then
    .pseudoClass "any-link".toList
  else .pseudoClass name

mutual

def SimpleSelector.blinded : SimpleSelector → SimpleSelector
  | .pseudoClass name => blindedPseudoClass name
  | .nthChild formula selectors reverse => .nthChild formula (blindedSelectors selectors) reverse
  | .is selectors => .is (blindedSelectors selectors)
  | .where selectors => .where (blindedSelectors selectors)
  | .not selectors => .not (blindedSelectors selectors)
  | .has selectors => .has (blindedRelatives selectors)
  | simple => simple

def blindedSimples : List SimpleSelector → List SimpleSelector
  | [] => []
  | simple :: simples => simple.blinded :: blindedSimples simples

def blindedParts : List SelectorPart → List SelectorPart
  | [] => []
  | .mk combinator simples :: parts => .mk combinator (blindedSimples simples) :: blindedParts parts

def blindedSelectors : List Selector → List Selector
  | [] => []
  | .mk parts :: selectors => .mk (blindedParts parts) :: blindedSelectors selectors

def blindedRelatives : List RelativeSelector → List RelativeSelector
  | [] => []
  | .mk address combinator (.mk parts) :: selectors =>
    .mk address combinator (.mk (blindedParts parts)) :: blindedRelatives selectors

end

mutual

/-- Visits are left to the subject. -/
def SimpleSelector.confined : SimpleSelector → SimpleSelector
  | .nthChild formula selectors reverse => .nthChild formula (blindedSelectors selectors) reverse
  | .is selectors => .is (confinedSelectors selectors)
  | .where selectors => .where (confinedSelectors selectors)
  | .not selectors => .not (confinedSelectors selectors)
  | .has selectors => .has (blindedRelatives selectors)
  | simple => simple

def confinedSimples : List SimpleSelector → List SimpleSelector
  | [] => []
  | simple :: simples => simple.confined :: confinedSimples simples

def confinedParts : List SelectorPart → List SelectorPart
  | [] => []
  | [.mk combinator simples] => [.mk combinator (confinedSimples simples)]
  | .mk combinator simples :: next :: parts =>
    .mk combinator (blindedSimples simples) :: confinedParts (next :: parts)

def confinedSelectors : List Selector → List Selector
  | [] => []
  | .mk parts :: selectors => .mk (confinedParts parts) :: confinedSelectors selectors

end

/-- A selector whose subject alone may be tested for a visit. -/
def Selector.confined (selector : Selector) : Selector := .mk (confinedParts selector.parts)

/-! ## Pseudo-elements -/

theorem pseudoElementName_blindedPseudoClass (name : Text) :
    (blindedPseudoClass name).pseudoElementName = (SimpleSelector.pseudoClass name).pseudoElementName := by
  have hlegacy : ∀ state, pseudoClassOf name = some state →
      state = .visited ∨ state = .link → isLegacyPseudoElement name = false := by
    intro state hstate htest
    rw [← Bool.not_eq_true]
    intro h
    simp only [isLegacyPseudoElement, Bool.or_eq_true, beq_iff_eq] at h
    rcases h with ((rfl | rfl) | rfl) | rfl <;> rcases htest with rfl | rfl <;>
      exact absurd hstate (by decide)
  unfold blindedPseudoClass
  split
  next h =>
    rw [Bool.and_eq_true, beq_iff_eq] at h
    simp [SimpleSelector.pseudoElementName, hlegacy _ h.2 (.inl rfl)]
  split
  next h =>
    rw [Bool.and_eq_true, beq_iff_eq] at h
    rw [SimpleSelector.pseudoElementName, SimpleSelector.pseudoElementName,
      hlegacy _ h.2 (.inr rfl)]
    rfl
  · rfl

@[simp]
theorem SimpleSelector.pseudoElementName_blinded (simple : SimpleSelector) :
    simple.blinded.pseudoElementName = simple.pseudoElementName := by
  cases simple <;> first | exact pseudoElementName_blindedPseudoClass _ | rfl

@[simp]
theorem SimpleSelector.pseudoElementName_confined (simple : SimpleSelector) :
    simple.confined.pseudoElementName = simple.pseudoElementName := by
  cases simple <;> rfl

theorem names_blindedSimples : ∀ simples : List SimpleSelector,
    (blindedSimples simples).filterMap (·.pseudoElementName) =
      simples.filterMap (·.pseudoElementName)
  | [] => rfl
  | simple :: simples => by
    simp [blindedSimples, List.filterMap_cons, names_blindedSimples simples]

theorem names_confinedSimples : ∀ simples : List SimpleSelector,
    (confinedSimples simples).filterMap (·.pseudoElementName) =
      simples.filterMap (·.pseudoElementName)
  | [] => rfl
  | simple :: simples => by
    simp [confinedSimples, List.filterMap_cons, names_confinedSimples simples]

/-- The names of the pseudo-elements of some compounds. -/
def namesOfParts (parts : List SelectorPart) : List Text :=
  parts.flatMap fun part => part.simples.filterMap (·.pseudoElementName)

theorem namesOfParts_cons (combinator : Option Combinator) (simples : List SimpleSelector)
    (parts : List SelectorPart) : namesOfParts (.mk combinator simples :: parts) =
      simples.filterMap (·.pseudoElementName) ++ namesOfParts parts := rfl

theorem names_blindedParts : ∀ parts : List SelectorPart,
    namesOfParts (blindedParts parts) = namesOfParts parts
  | [] => rfl
  | .mk combinator simples :: parts => by
    rw [blindedParts, namesOfParts_cons, namesOfParts_cons, names_blindedSimples,
      names_blindedParts parts]

theorem names_confinedParts : ∀ parts : List SelectorPart,
    namesOfParts (confinedParts parts) = namesOfParts parts
  | [] => rfl
  | [.mk combinator simples] => by
    rw [confinedParts, namesOfParts_cons, namesOfParts_cons, names_confinedSimples]
  | .mk combinator simples :: next :: parts => by
    rw [confinedParts, namesOfParts_cons, namesOfParts_cons, names_blindedSimples,
      names_confinedParts (next :: parts)]

theorem selectorPseudoElement_congr (identifier : Text → Option Text)
    {parts parts' : List SelectorPart} (h : namesOfParts parts = namesOfParts parts') :
    selectorPseudoElement identifier (.mk parts) = selectorPseudoElement identifier (.mk parts') := by
  simp only [namesOfParts] at h
  simp only [selectorPseudoElement, Selector.parts, h]

theorem length_blindedParts : ∀ parts : List SelectorPart,
    (blindedParts parts).length = parts.length
  | [] => rfl
  | .mk _ _ :: parts => by simp [blindedParts, length_blindedParts parts]

theorem length_confinedParts : ∀ parts : List SelectorPart,
    (confinedParts parts).length = parts.length
  | [] => rfl
  | [.mk _ _] => rfl
  | .mk _ _ :: next :: parts => by
    simp [confinedParts, length_confinedParts (next :: parts)]

/-! ## The arguments of `:has()` -/

/-- An argument of `:has()` keeps its address. -/
def RelativeSelector.blinded : RelativeSelector → RelativeSelector
  | .mk address combinator (.mk parts) => .mk address combinator (.mk (blindedParts parts))

theorem RelativeSelector.address_blinded (relative : RelativeSelector) :
    relative.blinded.address = relative.address := by
  obtain ⟨address, combinator, ⟨parts⟩⟩ := relative
  rfl

theorem relatives_blindedPseudoClass (filters : Bool) (name : Text) :
    (blindedPseudoClass name).relatives filters = [] := by
  unfold blindedPseudoClass
  split
  · rfl
  split <;> rfl

variable {filters : Bool}

mutual

theorem relatives_blinded : ∀ {simple : SimpleSelector},
    simple.blinded.relatives filters = (simple.relatives filters).map RelativeSelector.blinded
  | .pseudoClass name => relatives_blindedPseudoClass filters name
  | .nthChild formula selectors reverse => by
    rw [SimpleSelector.blinded, SimpleSelector.relatives, SimpleSelector.relatives,
      relativesOfSelectors_blinded]
    split <;> rfl
  | .is selectors => relativesOfSelectors_blinded
  | .where selectors => relativesOfSelectors_blinded
  | .not selectors => relativesOfSelectors_blinded
  | .has selectors => relativesOfRelatives_blinded
  | .type _ | .universal | .className _ | .id _ | .attribute .. | .customState _
  | .pseudoElement _ => rfl

theorem relativesOfSimples_blinded : ∀ {simples : List SimpleSelector},
    relativesOfSimples filters (blindedSimples simples) =
      (relativesOfSimples filters simples).map RelativeSelector.blinded
  | [] => rfl
  | _ :: _ => by
    rw [blindedSimples, relativesOfSimples, relativesOfSimples, List.map_append,
      relatives_blinded, relativesOfSimples_blinded]

theorem relativesOfParts_blinded : ∀ {parts : List SelectorPart},
    relativesOfParts filters (blindedParts parts) =
      (relativesOfParts filters parts).map RelativeSelector.blinded
  | [] => rfl
  | .mk _ _ :: _ => by
    rw [blindedParts, relativesOfParts, relativesOfParts, List.map_append,
      relativesOfSimples_blinded, relativesOfParts_blinded]

theorem relativesOfSelectors_blinded : ∀ {selectors : List Selector},
    relativesOfSelectors filters (blindedSelectors selectors) =
      (relativesOfSelectors filters selectors).map RelativeSelector.blinded
  | [] => rfl
  | .mk _ :: _ => by
    rw [blindedSelectors, relativesOfSelectors, relativesOfSelectors, List.map_append,
      relativesOfParts_blinded, relativesOfSelectors_blinded]

theorem relativesOfRelatives_blinded : ∀ {selectors : List RelativeSelector},
    relativesOfRelatives filters (blindedRelatives selectors) =
      (relativesOfRelatives filters selectors).map RelativeSelector.blinded
  | [] => rfl
  | .mk _ _ (.mk _) :: _ => by
    rw [blindedRelatives, relativesOfRelatives, relativesOfRelatives, List.map_cons,
      List.map_append, relativesOfParts_blinded, relativesOfRelatives_blinded]
    rfl

end

mutual

theorem relatives_confined : ∀ {simple : SimpleSelector},
    simple.confined.relatives filters = (simple.relatives filters).map RelativeSelector.blinded
  | .nthChild formula selectors reverse => by
    rw [SimpleSelector.confined, SimpleSelector.relatives, SimpleSelector.relatives,
      relativesOfSelectors_blinded]
    split <;> rfl
  | .is selectors => relativesOfSelectors_confined
  | .where selectors => relativesOfSelectors_confined
  | .not selectors => relativesOfSelectors_confined
  | .has selectors => relativesOfRelatives_blinded
  | .type _ | .universal | .className _ | .id _ | .attribute .. | .pseudoClass _ | .customState _
  | .pseudoElement _ => rfl

theorem relativesOfSimples_confined : ∀ {simples : List SimpleSelector},
    relativesOfSimples filters (confinedSimples simples) =
      (relativesOfSimples filters simples).map RelativeSelector.blinded
  | [] => rfl
  | _ :: _ => by
    rw [confinedSimples, relativesOfSimples, relativesOfSimples, List.map_append,
      relatives_confined, relativesOfSimples_confined]

theorem relativesOfParts_confined : ∀ {parts : List SelectorPart},
    relativesOfParts filters (confinedParts parts) =
      (relativesOfParts filters parts).map RelativeSelector.blinded
  | [] => rfl
  | [.mk _ _] => by
    simp [confinedParts, relativesOfParts, relativesOfSimples_confined]
  | .mk _ _ :: next :: parts => by
    rw [confinedParts, relativesOfParts, relativesOfParts, List.map_append,
      relativesOfSimples_blinded, relativesOfParts_confined]

theorem relativesOfSelectors_confined : ∀ {selectors : List Selector},
    relativesOfSelectors filters (confinedSelectors selectors) =
      (relativesOfSelectors filters selectors).map RelativeSelector.blinded
  | [] => rfl
  | .mk _ :: _ => by
    rw [confinedSelectors, relativesOfSelectors, relativesOfSelectors, List.map_append,
      relativesOfParts_confined, relativesOfSelectors_confined]

end

/-! ## The meaning of a blinded selector -/

section

variable {ι : Type} [DecidableEq ι] (doc : Document ι) (scopeRoot : Option ι) (escape : Bool)

theorem simpleHolds_blindedPseudoClass {visited : ι → Bool} (name : Text) (node : ι) (pseudo : Option PseudoElement) :
    SimpleHolds doc scopeRoot escape (blindedPseudoClass name) visited node pseudo ↔
      pseudoClassHolds doc scopeRoot unvisited node name pseudo = true := by
  unfold blindedPseudoClass
  split
  next h =>
    rw [Bool.and_eq_true, Option.isNone_iff_eq_none, beq_iff_eq] at h
    simp [SimpleHolds, SomeMatches, pseudoClassHolds, h.1, h.2, unvisited]
  split
  next h =>
    rw [Bool.and_eq_true, Option.isNone_iff_eq_none, beq_iff_eq] at h
    have hname : functionalPseudo "any-link".toList = none ∧
        pseudoClassOf "any-link".toList = some .anyLink := by decide
    generalize "any-link".toList = anyLink at hname
    simp [SimpleHolds, pseudoClassHolds, h.1, h.2, hname.1, hname.2, unvisited, matchesState]
  next hvisited hlink =>
    rw [SimpleHolds, pseudoClassHolds_visits scopeRoot (SameVisits.of_not_observed ?_)]
    rw [observesLink]
    cases hfunction : (functionalPseudo name).isNone with
    | false => rfl
    | true =>
      rw [hfunction, Bool.true_and, Bool.not_eq_true] at hvisited hlink
      simp [hvisited, hlink]

mutual

/-- A blinded selector observes no visits. -/
theorem simpleHolds_blinded : ∀ {simple : SimpleSelector} {visited : ι → Bool},
    SimpleHolds doc scopeRoot escape simple.blinded visited =
      SimpleHolds doc scopeRoot escape simple unvisited
  | .pseudoClass name, _ => by
    funext node pseudo
    rw [SimpleSelector.blinded, SimpleHolds, eq_iff_iff]
    exact simpleHolds_blindedPseudoClass doc scopeRoot escape name node pseudo
  | .nthChild formula selectors reverse, _ => by
    funext node pseudo
    simp only [SimpleSelector.blinded, SimpleHolds, someMatches_blinded]
  | .is selectors, _ => by
    funext node pseudo
    simp only [SimpleSelector.blinded, SimpleHolds, someMatches_blinded]
  | .where selectors, _ => by
    funext node pseudo
    simp only [SimpleSelector.blinded, SimpleHolds, someMatches_blinded]
  | .not selectors, _ => by
    funext node pseudo
    simp only [SimpleSelector.blinded, SimpleHolds, someMatches_blinded]
  | .has selectors, _ => by
    funext node pseudo
    simp only [SimpleSelector.blinded, SimpleHolds, someRelative_blinded]
  | .type _, _ | .universal, _ | .className _, _ | .id _, _ | .attribute .., _
  | .customState _, _ | .pseudoElement _, _ => rfl

theorem compoundHolds_blinded : ∀ {simples : List SimpleSelector} {visited : ι → Bool},
    CompoundHolds doc scopeRoot escape (blindedSimples simples) visited =
      CompoundHolds doc scopeRoot escape simples unvisited
  | [], _ => rfl
  | simple :: simples, _ => by
    funext node subjectPseudo pseudo
    simp only [blindedSimples, CompoundHolds, SimpleSelector.pseudoElementName_blinded,
      simpleHolds_blinded, compoundHolds_blinded]

theorem conditions_blinded : ∀ {parts : List SelectorPart} {visited : ι → Bool},
    conditions doc scopeRoot escape (blindedParts parts) visited =
      conditions doc scopeRoot escape parts unvisited
  | [], _ => rfl
  | .mk _ _ :: _, _ => by
    simp only [blindedParts, conditions, compoundHolds_blinded, conditions_blinded]

theorem someMatches_blinded : ∀ {selectors : List Selector} {visited : ι → Bool},
    SomeMatches doc scopeRoot escape (blindedSelectors selectors) visited =
      SomeMatches doc scopeRoot escape selectors unvisited
  | [], _ => rfl
  | .mk parts :: _, _ => by
    have hnil : blindedParts parts = [] ↔ parts = [] := by
      rw [← List.length_eq_zero_iff, length_blindedParts, List.length_eq_zero_iff]
    funext node pseudo
    simp only [blindedSelectors, SomeMatches, Matches, conditions_blinded, someMatches_blinded,
      length_blindedParts, ne_eq, hnil,
      selectorPseudoElement_congr doc.identifier (names_blindedParts parts)]

theorem someRelative_blinded : ∀ {selectors : List RelativeSelector} {visited : ι → Bool},
    SomeRelative doc scopeRoot escape (blindedRelatives selectors) visited =
      SomeRelative doc scopeRoot escape selectors unvisited
  | [], _ => rfl
  | .mk _ _ (.mk _) :: _, _ => by
    funext anchor
    simp only [blindedRelatives, SomeRelative, RelativeHolds, conditions_blinded,
      someRelative_blinded]

end

end

end Omoikane.Css
