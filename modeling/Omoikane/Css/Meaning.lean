import Omoikane.Css.Siblings

/-!
# What selectors mean

The matcher without its cache: what it looks for, as propositions.  `visited` has the links whose
visits a selector may observe; a filtered list of siblings never observes one.  A selector is
matched against a node when its compounds hold of nodes from right to left, each related to the one
on its right by the combinator between them.
-/

namespace Omoikane.Css

open Base

variable {ι : Type} [DecidableEq ι]

/-! ## Steps between compounds -/

/-- What a walk meets before it has to stop; it may end where it stops. -/
inductive Reaches (step : ι → Option ι) (stops : ι → Prop) : ι → ι → Prop
  | next {node other : ι} : step node = some other → Reaches step stops node other
  | later {node between other : ι} : step node = some between → ¬ stops between →
      Reaches step stops between other → Reaches step stops node other

/-- A scoped selector does not leave the subtree of the scope root. -/
def AtScopeRoot (scopeRoot : Option ι) (allowScopeAncestorEscape : Bool) (node : ι) : Prop :=
  allowScopeAncestorEscape = false ∧ scopeRoot = some node

/-- The nodes that the compound on the left of a combinator is tried on. -/
def Tree.Left (tree : Tree ι) (stops : ι → Prop) (node : ι) : Combinator → ι → Prop
  | .descendant, other => Reaches tree.parentNode stops node other
  | .child, other => tree.parentNode node = some other
  | .adjacentSibling, other => tree.isElement other = true ∧ tree.Adjacent other node
  | .generalSibling, other => tree.isElement other = true ∧ tree.Precedes other node

/-- The elements that the compound on the right of a combinator is tried on, in `:has()`. -/
def Tree.Right (tree : Tree ι) (node : ι) : Combinator → ι → Prop
  | .descendant, other => tree.isElement other = true ∧ tree.AncestorOf node other
  | .child, other => tree.isElement other = true ∧ tree.parentNode other = some node
  | .adjacentSibling, other => tree.isElement other = true ∧ tree.Adjacent node other
  | .generalSibling, other => tree.isElement other = true ∧ tree.Precedes node other

/-- A compound, as a condition on a node. -/
structure Condition (ι : Type) where
  combinator : Option Combinator
  Holds : ι → Option PseudoElement → Prop

/-- The compounds up to an index hold, from right to left. -/
def PartsHold (tree : Tree ι) (stops : ι → Prop) (parts : List (Condition ι)) :
    Nat → ι → Option PseudoElement → Prop
  | 0, node, pseudo => ∃ part, parts[0]? = some part ∧ part.Holds node pseudo ∧
      part.combinator = none
  | index + 1, node, pseudo => ∃ part, parts[index + 1]? = some part ∧ part.Holds node pseudo ∧
      ∀ combinator, part.combinator = some combinator → ¬ stops node ∧
        ∃ other, tree.Left stops node combinator other ∧
          PartsHold tree stops parts index other none

/-- The compounds from one on hold, from left to right. -/
def RelativePartsHold (tree : Tree ι) : List (Condition ι) → ι → Prop
  | [], _ => False
  | [part], node => part.Holds node none
  | part :: next :: rest, node => part.Holds node none ∧
      ∃ combinator, next.combinator = some combinator ∧
        ∃ other, tree.Right node combinator other ∧ RelativePartsHold tree (next :: rest) other

/-! ## Positions and states -/

/-- The position of a node among those of its element siblings that have a property, and their
number. -/
def Tree.Among (tree : Tree ι) (P : ι → Prop) (node : ι) (index total : Nat) : Prop :=
  open Classical in
  P node ∧ index = ((tree.elementsBefore node).filter fun other => decide (P other)).length + 1 ∧
    total = ((tree.elementSiblings node).filter fun other => decide (P other)).length

/-- `:default`. -/
def isDefault (doc : Document ι) (node : ι) : Bool :=
  let name := doc.tree.htmlLocalName node
  let kind := (doc.tree.attributeValue node "type".toList).getD []
  if name = some "option".toList then (doc.tree.attributeValue node "selected".toList).isSome
  else if name = some "input".toList ∧ (Text.eqIgnoreAsciiCase kind "checkbox".toList ∨
      Text.eqIgnoreAsciiCase kind "radio".toList) then
    (doc.tree.attributeValue node "checked".toList).isSome
  else (name = some "input".toList ∨ name = some "button".toList) && doc.isSubmitButton node &&
    node ∈ (doc.formStateIndex (treeRoot doc.tree (doc.tree.depth node) node)).defaults

/-- `:indeterminate`. -/
def isIndeterminate (doc : Document ι) (node : ι) : Bool :=
  let name := doc.tree.htmlLocalName node
  let kind := (doc.tree.attributeValue node "type".toList).getD []
  if name = some "progress".toList then (doc.tree.attributeValue node "value".toList).isNone
  else name = some "input".toList &&
    if Text.eqIgnoreAsciiCase kind "checkbox".toList then doc.inputIndeterminate node
    else Text.eqIgnoreAsciiCase kind "radio".toList &&
      node ∈ (doc.formStateIndex (treeRoot doc.tree (doc.tree.depth node) node)).indeterminateRadios

/-- A pseudo-class, where `visited` has the links whose visits may be observed. -/
def pseudoClassHolds (doc : Document ι) (scopeRoot : Option ι) (visited : ι → Bool) (node : ι)
    (name : Text) (pseudo : Option PseudoElement) : Bool :=
  let position := doc.tree.positionAmong node fun _ => true
  let typed := doc.tree.positionAmong node (doc.tree.sameType node)
  match functionalPseudo name with
  | some (function, argument) =>
    let counts := fun position => (parseAnPlusB argument).any (·.matches position)
    match pseudoFunctions.lookup (Text.toAsciiLowercase function) with
    | some .nthChild => atPosition position fun index _ => counts index
    | some .nthLastChild => atPosition position fun index total => counts (total - index + 1)
    | some .nthOfType => atPosition typed fun index _ => counts index
    | some .nthLastOfType => atPosition typed fun index total => counts (total - index + 1)
    | some .lang => matchesLanguage doc.tree node argument
    | some .dir => pseudo.isNone && doc.matchesDirectionality node argument
    | none => false
  | none =>
    match pseudoClassOf name with
    | some .firstChild => atPosition position fun index _ => index == 1
    | some .lastChild => atPosition position fun index total => index == total
    | some .onlyChild => atPosition position fun _ total => total == 1
    | some .firstOfType => atPosition typed fun index _ => index == 1
    | some .lastOfType => atPosition typed fun index total => index == total
    | some .onlyOfType => atPosition typed fun _ total => total == 1
    | some .indeterminate => isIndeterminate doc node
    | some .default => isDefault doc node
    | some .link => isHtmlHyperlink doc.tree node && !visited node
    | some .visited => isHtmlHyperlink doc.tree node && visited node
    | some state => matchesState doc scopeRoot node pseudo state
    | none => false

/-! ## Selectors -/

/-- No visit is observed. -/
def unvisited (_ : ι) : Bool := false

section

variable (doc : Document ι) (scopeRoot : Option ι) (allowScopeAncestorEscape : Bool)

mutual

def SimpleHolds : SimpleSelector → (ι → Bool) → ι → Option PseudoElement → Prop
  | .type name, _, node, _ => ∃ localName, doc.tree.localName node = some localName ∧
      Text.eqIgnoreAsciiCase localName name = true
  | .universal, _, node, _ => doc.tree.isElement node = true
  | .className name, _, node, _ => ∃ classes,
      doc.tree.withAttribute node "class".toList = some classes ∧
        name ∈ Text.splitAsciiWhitespace classes
  | .id name, _, node, _ => doc.tree.withAttribute node "id".toList = some name
  | .attribute name operator value, _, node, _ =>
    matchesAttributeSelector doc.tree node name operator value = true
  | .customState name, _, node, _ => ∃ element, doc.tree.element? node = some element ∧
      element.customElementDefined = some true ∧ name ∈ element.customStates
  | .pseudoClass name, visited, node, pseudo =>
    pseudoClassHolds doc scopeRoot visited node name pseudo = true
  | .pseudoElement name, _, _, pseudo => matchesPseudoElement doc name pseudo = true
  | .nthChild formula selectors reverse, _, node, _ => ∃ anPlusB,
      parseAnPlusB formula = some anPlusB ∧ ∃ index total,
        doc.tree.Among (fun other => SomeMatches selectors unvisited other none) node index total ∧
          anPlusB.matches (if reverse then total - index + 1 else index) = true
  | .is selectors, visited, node, pseudo => SomeMatches selectors visited node pseudo
  | .where selectors, visited, node, pseudo => SomeMatches selectors visited node pseudo
  | .not selectors, visited, node, pseudo => ¬ SomeMatches selectors visited node pseudo
  | .has selectors, visited, node, _ => SomeRelative selectors visited node

/-- All simple selectors of a compound hold; the pseudo-element is known from the first one on that
names one. -/
def CompoundHolds : List SimpleSelector → (ι → Bool) → ι → Option PseudoElement →
    Option PseudoElement → Prop
  | [], _, _, _, _ => True
  | simple :: simples, visited, node, subjectPseudo, pseudo =>
    SimpleHolds simple visited node
      (if simple.pseudoElementName.isSome then pseudo else subjectPseudo) ∧
    CompoundHolds simples visited node
      (if simple.pseudoElementName.isSome then pseudo else subjectPseudo) pseudo

def conditions : List SelectorPart → (ι → Bool) → List (Condition ι)
  | [], _ => []
  | .mk combinator simples :: parts, visited =>
    { combinator, Holds := fun node pseudo => CompoundHolds simples visited node none pseudo } ::
      conditions parts visited

/-- A selector matches an element. -/
def Matches : Selector → (ι → Bool) → ι → Option PseudoElement → Prop
  | .mk parts, visited, node, pseudo => parts ≠ [] ∧ doc.tree.isElement node = true ∧
      selectorPseudoElement doc.identifier (.mk parts) = pseudo ∧
      PartsHold doc.tree (AtScopeRoot scopeRoot allowScopeAncestorEscape)
        (conditions parts visited) (parts.length - 1) node pseudo

def SomeMatches : List Selector → (ι → Bool) → ι → Option PseudoElement → Prop
  | [], _, _, _ => False
  | selector :: selectors, visited, node, pseudo =>
    Matches selector visited node pseudo ∨ SomeMatches selectors visited node pseudo

/-- A relative selector is matched from an anchor on. -/
def RelativeHolds : RelativeSelector → (ι → Bool) → ι → Prop
  | .mk _ combinator (.mk parts), visited, anchor => ∃ other,
      doc.tree.Right anchor combinator other ∧
        RelativePartsHold doc.tree (conditions parts visited) other

def SomeRelative : List RelativeSelector → (ι → Bool) → ι → Prop
  | [], _, _ => False
  | selector :: selectors, visited, anchor =>
    RelativeHolds selector visited anchor ∨ SomeRelative selectors visited anchor

end

end

/-- Selectors match elements only. -/
theorem SomeMatches.isElement {doc : Document ι} {scopeRoot : Option ι} {escape : Bool}
    {visited : ι → Bool} {node : ι} {pseudo : Option PseudoElement} :
    ∀ {selectors : List Selector}, SomeMatches doc scopeRoot escape selectors visited node pseudo →
      doc.tree.isElement node = true
  | .mk _ :: _, .inl h => h.2.1
  | _ :: _, .inr h => h.isElement

end Omoikane.Css
