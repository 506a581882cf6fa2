import Omoikane.Css.Meaning

/-!
# Selectors as values

The arguments of `:has()` that a selector has, at their addresses, and the fact that selectors that are
equal as values mean the same.
-/

namespace Omoikane.Css

open Base

/-! ## The arguments of `:has()` in a selector -/

mutual

/-- The arguments of `:has()` in a simple selector, with or without those in the lists that filter
siblings. -/
def SimpleSelector.relatives (filters : Bool) : SimpleSelector → List RelativeSelector
  | .nthChild _ selectors _ => if filters then relativesOfSelectors filters selectors else []
  | .is selectors => relativesOfSelectors filters selectors
  | .where selectors => relativesOfSelectors filters selectors
  | .not selectors => relativesOfSelectors filters selectors
  | .has selectors => relativesOfRelatives filters selectors
  | _ => []

def relativesOfSimples (filters : Bool) : List SimpleSelector → List RelativeSelector
  | [] => []
  | simple :: simples => simple.relatives filters ++ relativesOfSimples filters simples

def relativesOfParts (filters : Bool) : List SelectorPart → List RelativeSelector
  | [] => []
  | .mk _ simples :: parts => relativesOfSimples filters simples ++ relativesOfParts filters parts

def relativesOfSelectors (filters : Bool) : List Selector → List RelativeSelector
  | [] => []
  | .mk parts :: selectors => relativesOfParts filters parts ++ relativesOfSelectors filters selectors

def relativesOfRelatives (filters : Bool) : List RelativeSelector → List RelativeSelector
  | [] => []
  | .mk address combinator (.mk parts) :: selectors =>
    .mk address combinator (.mk parts) ::
      (relativesOfParts filters parts ++ relativesOfRelatives filters selectors)

end

def Selector.relatives (filters : Bool) (selector : Selector) : List RelativeSelector :=
  relativesOfParts filters selector.parts

theorem mem_relativesOfRelatives {filters : Bool} {relative : RelativeSelector} :
    ∀ {selectors : List RelativeSelector}, relative ∈ selectors →
      relative ∈ relativesOfRelatives filters selectors
  | .mk address combinator (.mk parts) :: selectors, h => by
    rw [relativesOfRelatives, List.mem_cons, List.mem_append]
    exact (List.mem_cons.mp h).imp id fun h => .inr (mem_relativesOfRelatives h)

/-! ## Equal values -/

section

variable {ι : Type} [DecidableEq ι] (doc : Document ι) (scopeRoot : Option ι) (escape : Bool)

theorem SimpleSelector.same_name {simple simple' : SimpleSelector} (h : simple.same simple' = true) :
    simple.pseudoElementName = simple'.pseudoElementName := by
  cases simple <;> cases simple' <;> simp_all [SimpleSelector.same, SimpleSelector.pseudoElementName]

theorem sameSimples_names : ∀ {simples simples' : List SimpleSelector},
    sameSimples simples simples' = true →
      simples.filterMap (·.pseudoElementName) = simples'.filterMap (·.pseudoElementName)
  | [], [], _ => rfl
  | simple :: simples, simple' :: simples', h => by
    rw [sameSimples, Bool.and_eq_true] at h
    rw [List.filterMap_cons, List.filterMap_cons, SimpleSelector.same_name h.1,
      sameSimples_names h.2]
  | [], _ :: _, h => by simp [sameSimples] at h
  | _ :: _, [], h => by simp [sameSimples] at h

theorem sameParts_length : ∀ {parts parts' : List SelectorPart}, sameParts parts parts' = true →
    parts.length = parts'.length
  | [], [], _ => rfl
  | .mk .. :: parts, .mk .. :: parts', h => by
    simp only [sameParts, Bool.and_eq_true] at h
    rw [List.length_cons, List.length_cons, sameParts_length h.2]
  | [], _ :: _, h => by simp [sameParts] at h
  | .mk .. :: _, [], h => by simp [sameParts] at h

theorem sameParts_names : ∀ {parts parts' : List SelectorPart}, sameParts parts parts' = true →
    (parts.flatMap fun part => part.simples.filterMap (·.pseudoElementName)) =
      parts'.flatMap fun part => part.simples.filterMap (·.pseudoElementName)
  | [], [], _ => rfl
  | .mk _ simples :: parts, .mk _ simples' :: parts', h => by
    simp only [sameParts, Bool.and_eq_true] at h
    rw [List.flatMap_cons, List.flatMap_cons, sameParts_names h.2]
    exact congrArg (· ++ _) (sameSimples_names h.1.2)
  | [], _ :: _, h => by simp [sameParts] at h
  | .mk .. :: _, [], h => by simp [sameParts] at h

mutual

/-- Selectors of equal values mean the same. -/
theorem simpleHolds_same : ∀ {simple simple' : SimpleSelector}, simple.same simple' = true →
    SimpleHolds doc scopeRoot escape simple = SimpleHolds doc scopeRoot escape simple'
  | .nthChild formula selectors reverse, simple', h => by
    cases simple' <;> simp only [SimpleSelector.same, Bool.and_eq_true, beq_iff_eq,
      Bool.false_eq_true] at h
    obtain ⟨⟨rfl, hselectors⟩, rfl⟩ := h
    funext visited node pseudo
    simp only [SimpleHolds, someMatches_same hselectors]
  | .is selectors, simple', h => by
    cases simple' <;> simp only [SimpleSelector.same, Bool.false_eq_true] at h
    funext visited node pseudo
    simp only [SimpleHolds, someMatches_same h]
  | .where selectors, simple', h => by
    cases simple' <;> simp only [SimpleSelector.same, Bool.false_eq_true] at h
    funext visited node pseudo
    simp only [SimpleHolds, someMatches_same h]
  | .not selectors, simple', h => by
    cases simple' <;> simp only [SimpleSelector.same, Bool.false_eq_true] at h
    funext visited node pseudo
    simp only [SimpleHolds, someMatches_same h]
  | .has selectors, simple', h => by
    cases simple' <;> simp only [SimpleSelector.same, Bool.false_eq_true] at h
    funext visited node pseudo
    simp only [SimpleHolds, someRelative_same h]
  | .type _, simple', h => by
    cases simple' <;> simp_all [SimpleSelector.same]
  | .universal, simple', h => by
    cases simple' <;> simp_all [SimpleSelector.same]
  | .className _, simple', h => by
    cases simple' <;> simp_all [SimpleSelector.same]
  | .id _, simple', h => by
    cases simple' <;> simp_all [SimpleSelector.same]
  | .attribute .., simple', h => by
    cases simple' <;> simp_all [SimpleSelector.same]
  | .pseudoClass _, simple', h => by
    cases simple' <;> simp_all [SimpleSelector.same]
  | .customState _, simple', h => by
    cases simple' <;> simp_all [SimpleSelector.same]
  | .pseudoElement _, simple', h => by
    cases simple' <;> simp_all [SimpleSelector.same]

theorem compoundHolds_same : ∀ {simples simples' : List SimpleSelector},
    sameSimples simples simples' = true →
      CompoundHolds doc scopeRoot escape simples = CompoundHolds doc scopeRoot escape simples'
  | [], [], _ => rfl
  | simple :: simples, simple' :: simples', h => by
    rw [sameSimples, Bool.and_eq_true] at h
    funext visited node subjectPseudo pseudo
    simp only [CompoundHolds, simpleHolds_same h.1, compoundHolds_same h.2,
      SimpleSelector.same_name h.1]
  | [], _ :: _, h => by simp [sameSimples] at h
  | _ :: _, [], h => by simp [sameSimples] at h

theorem conditions_same : ∀ {parts parts' : List SelectorPart}, sameParts parts parts' = true →
    conditions doc scopeRoot escape parts = conditions doc scopeRoot escape parts'
  | [], [], _ => rfl
  | .mk combinator simples :: parts, .mk combinator' simples' :: parts', h => by
    simp only [sameParts, Bool.and_eq_true, beq_iff_eq] at h
    funext visited
    simp only [conditions, h.1.1, compoundHolds_same h.1.2, conditions_same h.2]
  | [], _ :: _, h => by simp [sameParts] at h
  | .mk .. :: _, [], h => by simp [sameParts] at h

theorem someMatches_same : ∀ {selectors selectors' : List Selector},
    sameSelectors selectors selectors' = true →
      SomeMatches doc scopeRoot escape selectors = SomeMatches doc scopeRoot escape selectors'
  | [], [], _ => rfl
  | .mk parts :: selectors, .mk parts' :: selectors', h => by
    rw [sameSelectors, Bool.and_eq_true] at h
    have hlength : parts.length = parts'.length := sameParts_length h.1
    have hnil : parts = [] ↔ parts' = [] := by
      rw [← List.length_eq_zero_iff, hlength, List.length_eq_zero_iff]
    have hpseudo : selectorPseudoElement doc.identifier (.mk parts) =
        selectorPseudoElement doc.identifier (.mk parts') := by
      simp only [selectorPseudoElement, Selector.parts, sameParts_names h.1]
    funext visited node pseudo
    simp only [SomeMatches, Matches, conditions_same h.1, someMatches_same h.2, hlength, hpseudo,
      ne_eq, hnil]
  | [], _ :: _, h => by simp [sameSelectors] at h
  | .mk _ :: _, [], h => by simp [sameSelectors] at h

theorem someRelative_same : ∀ {selectors selectors' : List RelativeSelector},
    sameRelatives selectors selectors' = true →
      SomeRelative doc scopeRoot escape selectors = SomeRelative doc scopeRoot escape selectors'
  | [], [], _ => rfl
  | .mk _ combinator (.mk parts) :: selectors, .mk _ combinator' (.mk parts') :: selectors', h => by
    simp only [sameRelatives, Bool.and_eq_true, beq_iff_eq] at h
    funext visited anchor
    simp only [SomeRelative, RelativeHolds, h.1.1, conditions_same h.1.2, someRelative_same h.2]
  | [], _ :: _, h => by simp [sameRelatives] at h
  | .mk _ _ (.mk _) :: _, [], h => by simp [sameRelatives] at h

end

end

end Omoikane.Css
