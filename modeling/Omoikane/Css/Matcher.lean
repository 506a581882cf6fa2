import Omoikane.Css.NodeTree

/-!
# Selector matching

The matcher reads a selector from its last compound to its first one and looks for elements on the
way; the argument of `:has()` is read from its first compound on.  What it finds out about siblings,
forms and `:has()` it keeps in a cache, which all matches of one pass over an unchanged tree share.

The loops of the code follow links of the tree until there are none; here they carry a bound.
-/

namespace Omoikane.Css

open Base (Text)

/-- The controls of a tree that its forms single out. -/
structure FormStateIndex (ι : Type) where
  defaults : List ι
  indeterminateRadios : List ι

/-- A tree, with what the matcher asks other parts of the program about it: the state of form
controls, editability and directionality, and whether a text is a single identifier. -/
structure Document (ι : Type) where
  tree : Tree ι
  identifier : Text → Option Text
  formStateIndex : ι → FormStateIndex ι
  isSubmitButton : ι → Bool
  isActuallyDisabled : ι → Bool
  inputIndeterminate : ι → Bool
  isDefinedElement : ι → Bool
  requiredness : ι → Option Bool
  placeholderShown : ι → Bool
  readWrite : ι → Option Bool
  rangeState : ι → Option Bool
  matchesDirectionality : ι → Text → Bool

/-! ## The cache -/

/-- Where the children of a parent are among its elements. -/
structure StructuralPositions (ι : Type) where
  element : ι → Option (Nat × Nat)
  ofType : ι → Option (Nat × Nat)
  elements : List ι
  precedingElements : ι → Option Nat

/-- What the positions in a filtered list of siblings depend on. -/
structure FilterKey (ι : Type) where
  parent : ι
  selectors : List Selector
  scope : Option ι
  allowScopeAncestorEscape : Bool

variable {ι : Type} [DecidableEq ι]

def FilterKey.same (key other : FilterKey ι) : Bool :=
  key.parent == other.parent && sameSelectors key.selectors other.selectors &&
    key.scope == other.scope && key.allowScopeAncestorEscape == other.allowScopeAncestorEscape

structure SelectorMatchCache (ι : Type) where
  formStates : ι → Option (FormStateIndex ι) := fun _ => none
  structuralPositions : ι → Option (StructuralPositions ι) := fun _ => none
  relationalMatches : ι × Nat → Option Bool := fun _ => none
  filteredPositions : List (FilterKey ι × (ι → Option (Nat × Nat))) := []
  visitedLinkIds : Option (List ι) := none
  activeVisitedSubject : Option ι := none
  shadowPartSubject : Option ι := none

/-- `for_visited_links`. -/
def SelectorMatchCache.forVisitedLinks (ids : List ι) : SelectorMatchCache ι :=
  { visitedLinkIds := some ids }

/-- `is_visited_subject`. -/
def SelectorMatchCache.isVisitedSubject (cache : SelectorMatchCache ι) (node : ι) : Bool :=
  cache.activeVisitedSubject == some node && cache.visitedLinkIds.any fun ids => node ∈ ids

/-- A match, which reads and fills the cache. -/
abbrev Matching (ι : Type) := StateM (SelectorMatchCache ι)

/-! ## Positions -/

/-- A turn of the first loop of `build_structural_positions`: the elements before each child so far,
and the elements with their tags. -/
def collectElement (tree : Tree ι) (state : (ι → Option Nat) × List (ι × Text)) (child : ι) :
    (ι → Option Nat) × List (ι × Text) :=
  let (preceding, tags) := state
  (Function.update preceding child (some tags.length),
    match tree.tagName child with
    | some tag => tags ++ [(child, Text.toAsciiLowercase tag)]
    | none => tags)

/-- A turn of the second loop, over elements with their tags, where `total` is their number and
`typeTotals` the number of each type; it also counts those of each type so far. -/
def indexElement (total : Nat) (typeTotals : Text → Nat)
    (state : (ι → Option (Nat × Nat)) × (ι → Option (Nat × Nat)) × (Text → Nat))
    (item : (ι × Text) × Nat) :
    (ι → Option (Nat × Nat)) × (ι → Option (Nat × Nat)) × (Text → Nat) :=
  let (element, ofType, typeIndexes) := state
  let ((child, tag), offset) := item
  let index := typeIndexes tag + 1
  (Function.update element child (some (offset + 1, total)),
    Function.update ofType child (some (index, typeTotals tag)),
    Function.update typeIndexes tag index)

/-- `build_structural_positions`. -/
def buildStructuralPositions (tree : Tree ι) (parent : ι) : StructuralPositions ι :=
  let (precedingElements, tags) :=
    (tree.childNodes parent).foldl (collectElement tree) (fun _ => none, [])
  let (element, ofType, _) := tags.zipIdx.foldl
    (indexElement tags.length fun tag => tags.countP (·.2 == tag))
    (fun _ => none, fun _ => none, fun _ => 0)
  { element, ofType, elements := tags.map Prod.fst, precedingElements }

/-- `positions`. -/
def positions (tree : Tree ι) (parent : ι) : Matching ι (StructuralPositions ι) := do
  match (← get).structuralPositions parent with
  | some known => return known
  | none =>
    let built := buildStructuralPositions tree parent
    modify fun cache => { cache with
      structuralPositions := Function.update cache.structuralPositions parent (some built) }
    return built

def previousElementSibling (tree : Tree ι) (node : ι) : Matching ι (Option ι) := do
  let some parent := tree.parentNode node | return none
  let siblings ← positions tree parent
  return (siblings.precedingElements node).bind fun before =>
    if before = 0 then none else siblings.elements[before - 1]?

def elementPosition (tree : Tree ι) (node : ι) : Matching ι (Option (Nat × Nat)) := do
  let some parent := tree.parentNode node | return some (1, 1)
  return (← positions tree parent).element node

def typePosition (tree : Tree ι) (node : ι) : Matching ι (Option (Nat × Nat)) := do
  let some parent := tree.parentNode node | return some (1, 1)
  return (← positions tree parent).ofType node

/-- The elements after a node among its siblings, as `following_element_siblings`. -/
def followingElementSiblings (tree : Tree ι) (node : ι) : Matching ι (List ι) := do
  let some parent := tree.parentNode node | return []
  let siblings ← positions tree parent
  return (siblings.precedingElements node).elim [] fun before =>
    siblings.elements.drop (before + if (siblings.element node).isSome then 1 else 0)

def nextElementSibling (tree : Tree ι) (node : ι) : Matching ι (Option ι) := do
  let some parent := tree.parentNode node | return none
  let siblings ← positions tree parent
  return (siblings.precedingElements node).bind fun before =>
    siblings.elements[before + if (siblings.element node).isSome then 1 else 0]?

/-- `related_elements`. -/
def relatedElements (tree : Tree ι) (node : ι) : Combinator → Matching ι (List ι)
  | .descendant => return tree.elementDescendants tree.height node
  | .child => return tree.childElements node
  | .adjacentSibling => return (← nextElementSibling tree node).toList
  | .generalSibling => followingElementSiblings tree node

/-! ## Attributes and pseudo-classes -/

/-- `matches_attribute_selector`. -/
def matchesAttributeSelector (tree : Tree ι) (node : ι) (name : Text)
    (operator : Option AttributeOperator) (value : Option Text) : Bool :=
  (tree.withAttribute node name).any fun actual =>
    match operator with
    | none => true
    | some operator => value.any fun expected =>
      match operator with
      | .equals => actual == expected
      | .includes => (Text.splitAsciiWhitespace actual).contains expected
      | .startsWith => Text.startsWith actual expected
      | .endsWith => Text.endsWith actual expected
      | .contains => (Text.splitOnceText expected actual).isSome
      | .dashMatch => expected ≠ [] &&
          (actual == expected || Text.startsWith actual (expected ++ ['-']))

def isHtmlHyperlink (tree : Tree ι) (node : ι) : Bool :=
  tree.isHtmlElement node && (tree.hasTagName node "a".toList || tree.hasTagName node "area".toList) &&
    tree.hasAttribute node "href".toList

def isFormControl (tree : Tree ι) (node : ι) : Bool :=
  (tree.element? node).any fun element => element.formAssociatedCustom ||
    ["button", "input", "select", "textarea", "option", "optgroup", "fieldset"].any fun tag =>
      element.tagName == tag.toList

/-- `matches_open_state`. -/
def matchesOpenState (tree : Tree ι) (node : ι) : Bool :=
  (tree.element? node).any fun element =>
    if !element.html then false
    else if element.tagName = "dialog".toList ∨ element.tagName = "details".toList then
      tree.hasAttribute node "open".toList
    else if element.tagName = "input".toList then element.pickerOpen
    else if element.tagName ≠ "select".toList ∨ tree.hasAttribute node "multiple".toList ∨
        !element.pickerOpen then false
    else
      match (tree.withAttribute node "size".toList).bind (Text.parseUnsigned (2 ^ 32 - 1)) with
      | some size => size ≤ 1
      | none => true

/-- A language is in a range. -/
def languageInRange (range language : Text) : Bool :=
  Text.eqIgnoreAsciiCase language range ||
    Text.eqIgnoreAsciiCase (language.take range.length) range && language[range.length]? == some '-'

/-- The loop of `matches_language` over a node and its ancestors. -/
def languageMatches (tree : Tree ι) (range : Text) : Nat → ι → Bool
  | 0, node => ((tree.withAttribute node "lang".toList).map (languageInRange range)).getD false
  | limit + 1, node =>
    match tree.withAttribute node "lang".toList with
    | some language => languageInRange range language
    | none => (tree.parentNode node).elim false (languageMatches tree range limit)

/-- `matches_language`. -/
def matchesLanguage (tree : Tree ι) (node : ι) (range : Text) : Bool :=
  let range := Text.trimMatches (fun c => c == '\'' || c == '"') (Text.trim range)
  range ≠ [] && languageMatches tree range (tree.depth node) node

/-- The root above a node, as `tree_root`. -/
def treeRoot (tree : Tree ι) : Nat → ι → ι
  | 0, node => node
  | limit + 1, node => (tree.parentNode node).elim node (treeRoot tree limit)

/-- `form_state_index::for_node`. -/
def formStatesOf (doc : Document ι) (node : ι) : Matching ι (FormStateIndex ι) := do
  let root := treeRoot doc.tree (doc.tree.depth node) node
  match (← get).formStates root with
  | some known => return known
  | none =>
    let built := doc.formStateIndex root
    modify fun cache =>
      { cache with formStates := Function.update cache.formStates root (some built) }
    return built

/-- `default_state::matches`. -/
def matchesDefault (doc : Document ι) (node : ι) : Matching ι Bool := do
  let name := doc.tree.htmlLocalName node
  if name = some "option".toList then
    return (doc.tree.attributeValue node "selected".toList).isSome
  let kind := (doc.tree.attributeValue node "type".toList).getD []
  if name = some "input".toList ∧ (Text.eqIgnoreAsciiCase kind "checkbox".toList ∨
      Text.eqIgnoreAsciiCase kind "radio".toList) then
    return (doc.tree.attributeValue node "checked".toList).isSome
  if name ≠ some "input".toList ∧ name ≠ some "button".toList then return false
  if !doc.isSubmitButton node then return false
  return node ∈ (← formStatesOf doc node).defaults

/-- `indeterminate_state::matches`. -/
def matchesIndeterminate (doc : Document ι) (node : ι) : Matching ι Bool := do
  let name := doc.tree.htmlLocalName node
  if name = some "progress".toList then
    return (doc.tree.attributeValue node "value".toList).isNone
  if name ≠ some "input".toList then return false
  let kind := (doc.tree.attributeValue node "type".toList).getD []
  if Text.eqIgnoreAsciiCase kind "checkbox".toList then return doc.inputIndeterminate node
  if !Text.eqIgnoreAsciiCase kind "radio".toList then return false
  return node ∈ (← formStatesOf doc node).indeterminateRadios

/-- `:empty`. -/
def matchesEmpty (tree : Tree ι) (node : ι) : Bool :=
  (tree.childNodes node).all fun child =>
    match tree.data child with
    | .element _ => false
    | .text data => data.isEmpty
    | _ => true

/-- The pseudo-classes that neither count siblings nor look at forms or visited links. -/
def matchesState (doc : Document ι) (scopeRoot : Option ι) (node : ι)
    (pseudo : Option PseudoElement) (name : PseudoClass) : Bool :=
  let element := doc.tree.element? node
  match name with
  | .before => pseudo == some .before || pseudo == some .beforeMarker
  | .after => pseudo == some .after || pseudo == some .afterMarker
  | .firstLetter => pseudo == some .firstLetter
  | .firstLine => pseudo == some .firstLine
  | .popoverOpen => pseudo.isNone && element.any (·.popoverOpen)
  | .modal => pseudo.isNone && element.any (·.modalDialog)
  | .fullscreen => pseudo.isNone && element.any (·.fullscreen)
  | .activeViewTransition => pseudo.isNone && (doc.tree.parentNode node).any fun document =>
    match doc.tree.data document with
    | .document active => active
    | _ => false
  | .opened => pseudo.isNone && matchesOpenState doc.tree node
  | .media state => pseudo.isNone && element.any (·.mediaSelectorState state)
  | .userAction .target => element.any (·.userActionState .target)
  | .userAction action => pseudo.isNone && element.any (·.userActionState action)
  | .root => (doc.tree.parentNode node).any doc.tree.isDocument
  | .scope => scopeRoot == some node
  | .enabled => isFormControl doc.tree node && !doc.isActuallyDisabled node
  | .disabled => doc.isActuallyDisabled node
  | .checked => element.any (·.checked)
  | .required => doc.requiredness node == some true
  | .optional => doc.requiredness node == some false
  | .placeholderShown => doc.placeholderShown node
  | .autofill => pseudo.isNone && element.any (·.autofilled)
  | .readWrite => doc.readWrite node == some true
  | .readOnly => doc.readWrite node == some false
  | .defined => doc.isDefinedElement node
  | .inRange => doc.rangeState node == some false
  | .outOfRange => doc.rangeState node == some true
  | .valid => pseudo.isNone && element.any (·.cssValidity == some true)
  | .invalid => pseudo.isNone && element.any (·.cssValidity == some false)
  | .userValid => pseudo.isNone && element.any fun e => e.userValidity && e.cssValidity == some true
  | .userInvalid =>
    pseudo.isNone && element.any fun e => e.userValidity && e.cssValidity == some false
  | .anyLink => isHtmlHyperlink doc.tree node
  | .empty => matchesEmpty doc.tree node
  | _ => false

/-- A test of a position and the number of positions; the code counts from the end with
`total - index + 1`. -/
def atPosition (position : Option (Nat × Nat)) (test : Nat → Nat → Bool) : Bool :=
  position.any fun (index, total) => test index total

/-- `matches_pseudo_class`. -/
def matchesPseudoClass (doc : Document ι) (scopeRoot : Option ι) (node : ι) (name : Text)
    (pseudo : Option PseudoElement) : Matching ι Bool := do
  match functionalPseudo name with
  | some (function, argument) =>
    let counts := fun position => (parseAnPlusB argument).any (·.matches position)
    match pseudoFunctions.lookup (Text.toAsciiLowercase function) with
    | some .nthChild =>
      return atPosition (← elementPosition doc.tree node) fun index _ => counts index
    | some .nthLastChild =>
      return atPosition (← elementPosition doc.tree node) fun index total =>
        counts (total - index + 1)
    | some .nthOfType =>
      return atPosition (← typePosition doc.tree node) fun index _ => counts index
    | some .nthLastOfType =>
      return atPosition (← typePosition doc.tree node) fun index total =>
        counts (total - index + 1)
    | some .lang => return matchesLanguage doc.tree node argument
    | some .dir => return pseudo.isNone && doc.matchesDirectionality node argument
    | none => return false
  | none =>
    match pseudoClassOf name with
    | some .firstChild =>
      return atPosition (← elementPosition doc.tree node) fun index _ => index == 1
    | some .lastChild =>
      return atPosition (← elementPosition doc.tree node) fun index total => index == total
    | some .onlyChild =>
      return atPosition (← elementPosition doc.tree node) fun _ total => total == 1
    | some .firstOfType =>
      return atPosition (← typePosition doc.tree node) fun index _ => index == 1
    | some .lastOfType =>
      return atPosition (← typePosition doc.tree node) fun index total => index == total
    | some .onlyOfType =>
      return atPosition (← typePosition doc.tree node) fun _ total => total == 1
    | some .indeterminate => matchesIndeterminate doc node
    | some .default => matchesDefault doc node
    | some .link =>
      return isHtmlHyperlink doc.tree node && !(← get).isVisitedSubject node
    | some .visited =>
      return isHtmlHyperlink doc.tree node && (← get).isVisitedSubject node
    | some state => return matchesState doc scopeRoot node pseudo state
    | none => return false

/-- `matches_pseudo_element`. -/
def matchesPseudoElement (doc : Document ι) (name : Text) (pseudo : Option PseudoElement) : Bool :=
  match pseudoElements.lookup (Text.toAsciiLowercase name) with
  | some .before => pseudo == some .before || pseudo == some .beforeMarker
  | some .after => pseudo == some .after || pseudo == some .afterMarker
  | some .marker =>
    pseudo == some .marker || pseudo == some .beforeMarker || pseudo == some .afterMarker
  | some element => pseudo == some element
  | none =>
    match pseudo with
    | some (.highlight _) => highlightPseudoFromName doc.identifier name == pseudo
    | _ => false

/-- `shadow_part_disallows`. -/
def shadowPartDisallows : SimpleSelector → Bool
  | .has _ => true
  | .nthChild .. => true
  | .pseudoClass name =>
    let base := Text.toAsciiLowercase (Text.splitFirst '(' name).1
    Text.startsWith base "nth-".toList ||
      ["root", "empty", "first-child", "last-child", "only-child", "first-of-type",
        "last-of-type", "only-of-type", "scope", "host", "host-context"].any fun other =>
        base == other.toList
  | _ => false

/-! ## Selectors -/

/-- A compound of a selector, as a test of a node. -/
structure Compound (ι : Type) where
  combinator : Option Combinator
  test : ι → Option PseudoElement → Matching ι Bool

/-- A loop that follows links from a node until one passes a test, or until it has to stop. -/
def anyAlong (next : ι → Matching ι (Option ι)) (test : ι → Matching ι Bool) (stop : ι → Bool) :
    Nat → ι → Matching ι Bool
  | 0, _ => return false
  | limit + 1, node => do
    let some other ← next node | return false
    if ← test other then return true
    if stop other then return false
    anyAlong next test stop limit other

/-- `matches_selector_part`, for the compounds up to an index. -/
def matchesSelectorPart (tree : Tree ι) (scopeRoot : Option ι) (allowScopeAncestorEscape : Bool)
    (parts : List (Compound ι)) : Nat → ι → Option PseudoElement → Matching ι Bool
  | 0, node, pseudo => do
    let some part := parts[0]? | return false
    if !(← part.test node pseudo) then return false
    return part.combinator.isNone
  | index + 1, node, pseudo => do
    let some part := parts[index + 1]? | return false
    if !(← part.test node pseudo) then return false
    let some combinator := part.combinator | return true
    let atScopeRoot := fun other => !allowScopeAncestorEscape && scopeRoot == some other
    if atScopeRoot node then return false
    let left := fun other =>
      matchesSelectorPart tree scopeRoot allowScopeAncestorEscape parts index other none
    match combinator with
    | .descendant =>
      anyAlong (fun other => return tree.parentNode other) left atScopeRoot (tree.depth node) node
    | .child =>
      let some parent := tree.parentNode node | return false
      left parent
    | .adjacentSibling =>
      let some sibling ← previousElementSibling tree node | return false
      left sibling
    | .generalSibling =>
      anyAlong (previousElementSibling tree) left (fun _ => false)
        ((tree.parentNode node).elim 0 fun parent => (tree.childNodes parent).length) node

/-- `matches_relative_selector_part`, for the compounds from an index on. -/
def matchesRelativeSelectorPart (tree : Tree ι) : List (Compound ι) → ι → Matching ι Bool
  | [], _ => return false
  | [part], node => part.test node none
  | part :: next :: rest, node => do
    if !(← part.test node none) then return false
    let some combinator := next.combinator | return false
    (← relatedElements tree node combinator).anyM
      (matchesRelativeSelectorPart tree (next :: rest))

/-- `matches_relative_selector_cached`, with its selector as compounds. -/
def matchesRelativeSelectorCached (tree : Tree ι) (scopeRoot : Option ι)
    (allowScopeAncestorEscape : Bool) (relative : RelativeSelector) (parts : List (Compound ι))
    (anchor : ι) : Matching ι Bool := do
  let shared := scopeRoot.isNone && !allowScopeAncestorEscape
  let key := (anchor, relative.address)
  let known := (← get).relationalMatches key
  match if shared then known else none with
  | some result => return result
  | none =>
    let result ← (← relatedElements tree anchor relative.leadingCombinator).anyM
      (matchesRelativeSelectorPart tree parts)
    if shared then
      modify fun cache => { cache with
        relationalMatches := Function.update cache.relationalMatches key (some result) }
    return result

/-- The elements among some siblings that pass a test, with one cache of their own. -/
def selectElements (test : ι → Matching ι Bool) : List ι → Matching ι (List ι)
  | [] => return []
  | child :: children => do
    let selected ← test child
    let rest ← selectElements test children
    return if selected then child :: rest else rest

/-- The positions of the elements of a list. -/
def positionsIn (selected : List ι) (node : ι) : Option (Nat × Nat) :=
  (selected.zipIdx.find? fun (other, _) => other == node).map fun (_, index) =>
    (index + 1, selected.length)

/-- `filtered_position`, with its selector list as a test. -/
def filteredPosition (tree : Tree ι) (scopeRoot : Option ι) (allowScopeAncestorEscape : Bool)
    (selectors : List Selector) (test : ι → Matching ι Bool) (node : ι) :
    Matching ι (Option (Nat × Nat)) := do
  let some parent := tree.parentNode node
    | return if ((test node).run {}).1 then some (1, 1) else none
  let key : FilterKey ι := { parent, selectors, scope := scopeRoot, allowScopeAncestorEscape }
  match (← get).filteredPositions.find? fun (other, _) => other.same key with
  | some (_, known) => return known node
  | none =>
    -- an unvisited cache of its own keeps the history from the positions
    let siblings ← positions tree parent
    let selected := ((selectElements test siblings.elements).run {}).1
    modify fun cache =>
      { cache with filteredPositions := (key, positionsIn selected) :: cache.filteredPositions }
    return positionsIn selected node

section

variable (doc : Document ι) (scopeRoot : Option ι) (allowScopeAncestorEscape : Bool)

mutual

/-- `matches_simple_selector`. -/
def matchesSimpleSelector : SimpleSelector → ι → Option PseudoElement → Matching ι Bool
  | .type name, node, _ =>
    return (doc.tree.localName node).any fun localName => Text.eqIgnoreAsciiCase localName name
  | .universal, node, _ => return doc.tree.isElement node
  | .className name, node, _ => return (doc.tree.withAttribute node "class".toList).any fun classes =>
    (Text.splitAsciiWhitespace classes).contains name
  | .id name, node, _ => return doc.tree.withAttribute node "id".toList == some name
  | .attribute name operator value, node, _ =>
    return matchesAttributeSelector doc.tree node name operator value
  | .customState name, node, _ => return (doc.tree.element? node).any fun element =>
    element.customElementDefined == some true && element.customStates.contains name
  | .pseudoClass name, node, pseudo => matchesPseudoClass doc scopeRoot node name pseudo
  | .pseudoElement name, _, pseudo => return matchesPseudoElement doc name pseudo
  | .nthChild formula selectors reverse, node, _ => do
    let some formula := parseAnPlusB formula | return false
    let position ← filteredPosition doc.tree scopeRoot allowScopeAncestorEscape selectors
      (fun child => anySelector selectors child none) node
    return atPosition position fun index total =>
      formula.matches (if reverse then total - index + 1 else index)
  | .is selectors, node, pseudo => anySelector selectors node pseudo
  | .where selectors, node, pseudo => anySelector selectors node pseudo
  | .not selectors, node, pseudo => return !(← anySelector selectors node pseudo)
  | .has selectors, node, _ => anyRelative selectors node

/-- `matches_compound`; the pseudo-element is known from the first simple selector on that names
one. -/
def matchesCompound : List SimpleSelector → ι → Option PseudoElement → Option PseudoElement →
    Matching ι Bool
  | [], _, _, _ => return true
  | simple :: simples, node, subjectPseudo, pseudo => do
    let subjectPseudo := if simple.pseudoElementName.isSome then pseudo else subjectPseudo
    if (← get).shadowPartSubject == some node && shadowPartDisallows simple then return false
    if !(← matchesSimpleSelector simple node subjectPseudo) then return false
    matchesCompound simples node subjectPseudo pseudo

/-- The compounds of a selector. -/
def compounds : List SelectorPart → List (Compound ι)
  | [] => []
  | .mk combinator simples :: parts =>
    { combinator, test := fun node pseudo => matchesCompound simples node none pseudo } ::
      compounds parts

/-- `matches_selector_with_scope_mode_cached`. -/
def matchesSelectorWithScopeMode : Selector → ι → Option PseudoElement → Matching ι Bool
  | .mk parts, node, pseudo => do
    if parts.isEmpty || !doc.tree.isElement node then return false
    if selectorPseudoElement doc.identifier (.mk parts) ≠ pseudo then return false
    let cache ← get
    let outermostVisitMatch := cache.visitedLinkIds.isSome && cache.activeVisitedSubject.isNone
    if outermostVisitMatch then
      modify fun cache => { cache with activeVisitedSubject := some node }
    let matched ← matchesSelectorPart doc.tree scopeRoot allowScopeAncestorEscape
      (compounds parts) (parts.length - 1) node pseudo
    if outermostVisitMatch then
      modify fun cache => { cache with activeVisitedSubject := none }
    return matched

/-- Some selector of a list matches. -/
def anySelector : List Selector → ι → Option PseudoElement → Matching ι Bool
  | [], _, _ => return false
  | selector :: selectors, node, pseudo => do
    if ← matchesSelectorWithScopeMode selector node pseudo then return true
    anySelector selectors node pseudo

/-- Some relative selector of a list matches. -/
def anyRelative : List RelativeSelector → ι → Matching ι Bool
  | [], _ => return false
  | .mk address combinator (.mk parts) :: selectors, node => do
    if ← matchesRelativeSelectorCached doc.tree scopeRoot allowScopeAncestorEscape
      (.mk address combinator (.mk parts)) (compounds parts) node then return true
    anyRelative selectors node

end

end

/-- `matches_selector`. -/
def matchesSelector (doc : Document ι) (node : ι) (selector : Selector) : Bool :=
  ((matchesSelectorWithScopeMode doc none false selector node none).run {}).1

end Omoikane.Css
