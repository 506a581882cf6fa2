import Omoikane.Css.Meaning

/-!
# Link visits

Only `:link` and `:visited` observe visits, and only those of hyperlinks.  So two sets of visits give a
selector the same meaning if they agree on the hyperlinks, or if the selector tests no link.  The lists
that filter siblings observe no visits at all.
-/

namespace Omoikane.Css

open Base (Text)

/-! ## Tests of links -/

/-- A pseudo-class tells visited links from others. -/
def observesLink (name : Text) : Bool :=
  (functionalPseudo name).isNone &&
    (pseudoClassOf name == some .link || pseudoClassOf name == some .visited)

mutual

/-- A simple selector tests links somewhere, outside of the lists that filter siblings. -/
def SimpleSelector.observesLinks : SimpleSelector → Bool
  | .pseudoClass name => observesLink name
  | .is selectors => selectorsObserveLinks selectors
  | .where selectors => selectorsObserveLinks selectors
  | .not selectors => selectorsObserveLinks selectors
  | .has selectors => relativesObserveLinks selectors
  | _ => false

def simplesObserveLinks : List SimpleSelector → Bool
  | [] => false
  | simple :: simples => simple.observesLinks || simplesObserveLinks simples

def partsObserveLinks : List SelectorPart → Bool
  | [] => false
  | .mk _ simples :: parts => simplesObserveLinks simples || partsObserveLinks parts

def selectorsObserveLinks : List Selector → Bool
  | [] => false
  | .mk parts :: selectors => partsObserveLinks parts || selectorsObserveLinks selectors

def relativesObserveLinks : List RelativeSelector → Bool
  | [] => false
  | .mk _ _ (.mk parts) :: selectors => partsObserveLinks parts || relativesObserveLinks selectors

end

/-- The argument of `:has()` tests links. -/
def RelativeSelector.observesLinks (relative : RelativeSelector) : Bool :=
  partsObserveLinks relative.selector.parts

/-! ## Equal meaning -/

section

variable {ι : Type} [DecidableEq ι] (doc : Document ι) (scopeRoot : Option ι) (escape : Bool)

/-- Two sets of visits agree on hyperlinks, as far as they are observed. -/
def SameVisits (observed : Bool) (visited visited' : ι → Bool) : Prop :=
  observed = true → ∀ node, isHtmlHyperlink doc.tree node = true → visited node = visited' node

variable {doc} {visited visited' : ι → Bool} {observed other : Bool}

omit [DecidableEq ι] in
theorem SameVisits.left (h : SameVisits doc (observed || other) visited visited') :
    SameVisits doc observed visited visited' :=
  fun hobserved => h (by simp [hobserved])

omit [DecidableEq ι] in
theorem SameVisits.right (h : SameVisits doc (other || observed) visited visited') :
    SameVisits doc observed visited visited' :=
  fun hobserved => h (by simp [hobserved])

omit [DecidableEq ι] in
theorem SameVisits.of_not_observed (h : observed = false) :
    SameVisits doc observed visited visited' :=
  fun hobserved => absurd (h ▸ hobserved) Bool.false_ne_true

theorem pseudoClassHolds_visits {name : Text} (h : SameVisits doc (observesLink name) visited visited')
    (node : ι) (pseudo : Option PseudoElement) :
    pseudoClassHolds doc scopeRoot visited node name pseudo =
      pseudoClassHolds doc scopeRoot visited' node name pseudo := by
  unfold pseudoClassHolds
  cases hfunction : functionalPseudo name with
  | some function => rfl
  | none =>
    dsimp only
    cases hstate : pseudoClassOf name with
    | none => rfl
    | some state =>
      have hlink : state = .link ∨ state = .visited → isHtmlHyperlink doc.tree node = true →
          visited node = visited' node := by
        intro htest
        refine h ?_ node
        rcases htest with rfl | rfl <;> simp [observesLink, hfunction, hstate]
      cases state with
      | link =>
        cases hhyperlink : isHtmlHyperlink doc.tree node with
        | false => rfl
        | true => rw [hlink (.inl rfl) hhyperlink]
      | visited =>
        cases hhyperlink : isHtmlHyperlink doc.tree node with
        | false => rfl
        | true => rw [hlink (.inr rfl) hhyperlink]
      | _ => rfl

mutual

/-- Visits matter to a selector only as far as it observes them. -/
theorem simpleHolds_visits : ∀ {simple : SimpleSelector},
    SameVisits doc simple.observesLinks visited visited' →
      SimpleHolds doc scopeRoot escape simple visited =
        SimpleHolds doc scopeRoot escape simple visited'
  | .pseudoClass name, h => by
    funext node pseudo
    simp only [SimpleHolds, pseudoClassHolds_visits scopeRoot h]
  | .is selectors, h => by
    funext node pseudo
    simp only [SimpleHolds, someMatches_visits h]
  | .where selectors, h => by
    funext node pseudo
    simp only [SimpleHolds, someMatches_visits h]
  | .not selectors, h => by
    funext node pseudo
    simp only [SimpleHolds, someMatches_visits h]
  | .has selectors, h => by
    funext node pseudo
    simp only [SimpleHolds, someRelative_visits h]
  | .nthChild .., _ => rfl
  | .type _, _ => rfl
  | .universal, _ => rfl
  | .className _, _ => rfl
  | .id _, _ => rfl
  | .attribute .., _ => rfl
  | .customState _, _ => rfl
  | .pseudoElement _, _ => rfl

theorem compoundHolds_visits : ∀ {simples : List SimpleSelector},
    SameVisits doc (simplesObserveLinks simples) visited visited' →
      CompoundHolds doc scopeRoot escape simples visited =
        CompoundHolds doc scopeRoot escape simples visited'
  | [], _ => rfl
  | _ :: _, h => by
    funext node subjectPseudo pseudo
    simp only [CompoundHolds, simpleHolds_visits h.left, compoundHolds_visits h.right]

theorem conditions_visits : ∀ {parts : List SelectorPart},
    SameVisits doc (partsObserveLinks parts) visited visited' →
      conditions doc scopeRoot escape parts visited = conditions doc scopeRoot escape parts visited'
  | [], _ => rfl
  | .mk _ _ :: _, h => by
    simp only [conditions, compoundHolds_visits h.left, conditions_visits h.right]

theorem someMatches_visits : ∀ {selectors : List Selector},
    SameVisits doc (selectorsObserveLinks selectors) visited visited' →
      SomeMatches doc scopeRoot escape selectors visited =
        SomeMatches doc scopeRoot escape selectors visited'
  | [], _ => rfl
  | .mk _ :: _, h => by
    funext node pseudo
    simp only [SomeMatches, Matches, conditions_visits h.left, someMatches_visits h.right]

theorem someRelative_visits : ∀ {selectors : List RelativeSelector},
    SameVisits doc (relativesObserveLinks selectors) visited visited' →
      SomeRelative doc scopeRoot escape selectors visited =
        SomeRelative doc scopeRoot escape selectors visited'
  | [], _ => rfl
  | .mk _ _ (.mk _) :: _, h => by
    funext anchor
    simp only [SomeRelative, RelativeHolds, conditions_visits h.left, someRelative_visits h.right]

end

theorem matches_visits {selector : Selector}
    (h : SameVisits doc (partsObserveLinks selector.parts) visited visited') :
    Matches doc scopeRoot escape selector visited = Matches doc scopeRoot escape selector visited' := by
  obtain ⟨parts⟩ := selector
  have hparts : conditions doc scopeRoot escape parts visited =
      conditions doc scopeRoot escape parts visited' := conditions_visits scopeRoot escape h
  funext node pseudo
  simp only [Matches, hparts]

theorem relativeHolds_visits {relative : RelativeSelector}
    (h : SameVisits doc relative.observesLinks visited visited') :
    RelativeHolds doc scopeRoot escape relative visited =
      RelativeHolds doc scopeRoot escape relative visited' := by
  obtain ⟨address, combinator, ⟨parts⟩⟩ := relative
  have hparts : conditions doc scopeRoot escape parts visited =
      conditions doc scopeRoot escape parts visited' := conditions_visits scopeRoot escape h
  funext anchor
  simp only [RelativeHolds, hparts]

end

end Omoikane.Css
