import Omoikane.Base.Text
import Omoikane.Base.Utf8

/-!
# Selectors

A selector is a list of compounds from left to right, each with the combinator on its left.  The
argument of `:has()` is a selector that is read from an anchor; it is known by its address, which is
no part of its value.
-/

namespace Omoikane.Css

open Base (Text)

inductive Combinator where
  | descendant | child | adjacentSibling | generalSibling
deriving DecidableEq, Repr

inductive AttributeOperator where
  | equals | includes | startsWith | endsWith | contains | dashMatch
deriving DecidableEq, Repr

mutual

/-- A simple selector. -/
inductive SimpleSelector where
  | type (name : Text)
  | universal
  | className (name : Text)
  | id (name : Text)
  | attribute (name : Text) (operator : Option AttributeOperator) (value : Option Text)
  | pseudoClass (name : Text)
  | customState (name : List UInt16)
  | pseudoElement (name : Text)
  | nthChild (formula : Text) (selectors : List Selector) (reverse : Bool)
  | is (selectors : List Selector)
  | where (selectors : List Selector)
  | not (selectors : List Selector)
  | has (selectors : List RelativeSelector)

/-- A compound, with the combinator to the one on its left. -/
inductive SelectorPart where
  | mk (combinator : Option Combinator) (simples : List SimpleSelector)

/-- A parsed selector. -/
inductive Selector where
  | mk (parts : List SelectorPart)

/-- A selector that is evaluated relative to an anchor, at its address. -/
inductive RelativeSelector where
  | mk (address : Nat) (leadingCombinator : Combinator) (selector : Selector)

end

def SelectorPart.combinator : SelectorPart → Option Combinator
  | .mk combinator _ => combinator

def SelectorPart.simples : SelectorPart → List SimpleSelector
  | .mk _ simples => simples

def Selector.parts : Selector → List SelectorPart
  | .mk parts => parts

def RelativeSelector.address : RelativeSelector → Nat
  | .mk address _ _ => address

def RelativeSelector.leadingCombinator : RelativeSelector → Combinator
  | .mk _ leadingCombinator _ => leadingCombinator

def RelativeSelector.selector : RelativeSelector → Selector
  | .mk _ _ selector => selector

/-! ## Values -/

mutual

/-- The derived equality, which does not look at addresses. -/
def SimpleSelector.same : SimpleSelector → SimpleSelector → Bool
  | .type name, .type name' => name == name'
  | .universal, .universal => true
  | .className name, .className name' => name == name'
  | .id name, .id name' => name == name'
  | .attribute name operator value, .attribute name' operator' value' =>
    name == name' && operator == operator' && value == value'
  | .pseudoClass name, .pseudoClass name' => name == name'
  | .customState name, .customState name' => name == name'
  | .pseudoElement name, .pseudoElement name' => name == name'
  | .nthChild formula selectors reverse, .nthChild formula' selectors' reverse' =>
    formula == formula' && sameSelectors selectors selectors' && reverse == reverse'
  | .is selectors, .is selectors' => sameSelectors selectors selectors'
  | .where selectors, .where selectors' => sameSelectors selectors selectors'
  | .not selectors, .not selectors' => sameSelectors selectors selectors'
  | .has selectors, .has selectors' => sameRelatives selectors selectors'
  | _, _ => false

def sameSimples : List SimpleSelector → List SimpleSelector → Bool
  | [], [] => true
  | simple :: simples, simple' :: simples' => simple.same simple' && sameSimples simples simples'
  | _, _ => false

def sameParts : List SelectorPart → List SelectorPart → Bool
  | [], [] => true
  | .mk combinator simples :: parts, .mk combinator' simples' :: parts' =>
    combinator == combinator' && sameSimples simples simples' && sameParts parts parts'
  | _, _ => false

def sameSelectors : List Selector → List Selector → Bool
  | [], [] => true
  | .mk parts :: selectors, .mk parts' :: selectors' =>
    sameParts parts parts' && sameSelectors selectors selectors'
  | _, _ => false

def sameRelatives : List RelativeSelector → List RelativeSelector → Bool
  | [], [] => true
  | .mk _ combinator (.mk parts) :: selectors, .mk _ combinator' (.mk parts') :: selectors' =>
    combinator == combinator' && sameParts parts parts' && sameRelatives selectors selectors'
  | _, _ => false

end

/-! ## Positions -/

/-- `An+B`. -/
structure AnPlusB where
  a : Int
  b : Int
deriving DecidableEq, Repr

/-- `matches`, on 64-bit integers: positions and differences beyond them do not match. -/
def AnPlusB.matches (formula : AnPlusB) (position : Nat) : Bool :=
  if 2 ^ 63 ≤ position ∨ position = 0 then false
  else if formula.a = 0 then (position : Int) == formula.b
  else
    let difference := (position : Int) - formula.b
    -- `b` is a 64-bit integer, so that the difference is too large at most
    difference < 2 ^ 63 && difference.tmod formula.a == 0 && 0 ≤ difference.tdiv formula.a

/-- `parse_an_plus_b`. -/
def parseAnPlusB (expression : Text) : Option AnPlusB :=
  let compact := (expression.filter fun c => !Text.isAsciiWhitespace c).map Char.toLower
  if compact = "odd".toList then some ⟨2, 1⟩
  else if compact = "even".toList then some ⟨2, 0⟩
  else match Text.parseI64 compact with
    | some b => some ⟨0, b⟩
    | none => do
      let (coefficient, remainder) ← Text.splitOnce 'n' compact
      if 'n' ∈ remainder then failure
      let a ← if coefficient = [] ∨ coefficient = ['+'] then some 1
        else if coefficient = ['-'] then some (-1)
        else Text.parseI64 coefficient
      let b ← match remainder with
        | [] => some 0
        | '+' :: _ => Text.parseI64 remainder
        | '-' :: _ => Text.parseI64 remainder
        | _ => none
      return ⟨a, b⟩

example : parseAnPlusB "-2N + 1".toList = some ⟨-2, 1⟩ := by decide

/-! ## Names -/

/-- `functional_pseudo`: the name of a function and its argument. -/
def functionalPseudo (name : Text) : Option (Text × Text) := do
  let (function, rest) ← Text.splitOnce '(' name
  let argument ← Text.stripSuffix rest [')']
  return (function, Text.trim argument)

/-- The functional pseudo-classes that are kept as text. -/
inductive PseudoFunction where
  | nthChild | nthLastChild | nthOfType | nthLastOfType | lang | dir
deriving DecidableEq, Repr

def pseudoFunctions : List (Text × PseudoFunction) :=
  [("nth-child".toList, .nthChild), ("nth-last-child".toList, .nthLastChild),
    ("nth-of-type".toList, .nthOfType), ("nth-last-of-type".toList, .nthLastOfType),
    ("lang".toList, .lang), ("dir".toList, .dir)]

/-- A flag that the user's actions set. -/
inductive UserAction where
  | hover | active | focus | focusVisible | focusWithin | target
deriving DecidableEq, Repr

inductive MediaState where
  | playing | paused | seeking | buffering | muted | volumeLocked | pictureInPicture
deriving DecidableEq, Repr

/-- The pseudo-classes without an argument. -/
inductive PseudoClass where
  | before | after | firstLetter | firstLine
  | popoverOpen | modal | fullscreen | activeViewTransition | opened
  | media (state : MediaState)
  | userAction (action : UserAction)
  | root | scope | firstChild | lastChild | onlyChild | firstOfType | lastOfType | onlyOfType
  | enabled | disabled | checked | indeterminate | default | required | optional
  | placeholderShown | autofill | readWrite | readOnly | defined | inRange | outOfRange
  | valid | invalid | userValid | userInvalid | anyLink | link | visited | empty
deriving DecidableEq, Repr

def pseudoClasses : List (Text × PseudoClass) :=
  [("before".toList, .before), ("after".toList, .after), ("first-letter".toList, .firstLetter),
    ("first-line".toList, .firstLine), ("popover-open".toList, .popoverOpen),
    ("modal".toList, .modal), ("fullscreen".toList, .fullscreen),
    ("active-view-transition".toList, .activeViewTransition), ("open".toList, .opened),
    ("playing".toList, .media .playing), ("paused".toList, .media .paused),
    ("seeking".toList, .media .seeking), ("buffering".toList, .media .buffering),
    ("muted".toList, .media .muted), ("volume-locked".toList, .media .volumeLocked),
    ("picture-in-picture".toList, .media .pictureInPicture),
    ("hover".toList, .userAction .hover), ("active".toList, .userAction .active),
    ("focus".toList, .userAction .focus), ("focus-visible".toList, .userAction .focusVisible),
    ("focus-within".toList, .userAction .focusWithin), ("target".toList, .userAction .target),
    ("root".toList, .root), ("scope".toList, .scope), ("first-child".toList, .firstChild),
    ("last-child".toList, .lastChild), ("only-child".toList, .onlyChild),
    ("first-of-type".toList, .firstOfType), ("last-of-type".toList, .lastOfType),
    ("only-of-type".toList, .onlyOfType), ("enabled".toList, .enabled),
    ("disabled".toList, .disabled), ("checked".toList, .checked),
    ("indeterminate".toList, .indeterminate), ("default".toList, .default),
    ("required".toList, .required), ("optional".toList, .optional),
    ("placeholder-shown".toList, .placeholderShown), ("autofill".toList, .autofill),
    ("-webkit-autofill".toList, .autofill), ("read-write".toList, .readWrite),
    ("read-only".toList, .readOnly), ("defined".toList, .defined), ("in-range".toList, .inRange),
    ("out-of-range".toList, .outOfRange), ("valid".toList, .valid), ("invalid".toList, .invalid),
    ("user-valid".toList, .userValid), ("user-invalid".toList, .userInvalid),
    ("any-link".toList, .anyLink), ("link".toList, .link), ("visited".toList, .visited),
    ("empty".toList, .empty)]

/-- The pseudo-class of a name, whose letters may have either case. -/
def pseudoClassOf (name : Text) : Option PseudoClass :=
  pseudoClasses.lookup (Text.toAsciiLowercase name)

/-! ## Pseudo-elements -/

/-- The pseudo-elements that styles are matched for. -/
inductive PseudoElement where
  | before | after | backdrop | firstLetter | firstLine
  | marker | beforeMarker | afterMarker
  | highlight (key : UInt64)
  | picker | pickerIcon | checkmark
deriving DecidableEq, Repr

/-- `highlight_name_key`, the 64-bit FNV-1a hash of a name. -/
def highlightNameKey (name : Text) : UInt64 :=
  (Base.Utf8.encode name).foldl (fun hash byte => (hash ^^^ byte.toUInt64) * 0x00000100000001b3)
    0xcbf29ce484222325

/-- `highlight_pseudo_from_name`, where `identifier` reads a text that is a single identifier. -/
def highlightPseudoFromName (identifier : Text → Option Text) (name : Text) :
    Option PseudoElement := do
  let (function, rest) ← Text.splitOnce '(' name
  if !Text.eqIgnoreAsciiCase function "highlight".toList then failure
  let argument ← Text.stripSuffix rest [')']
  return .highlight (highlightNameKey (← identifier argument))

/-- The pseudo-elements by their names. -/
def pseudoElements : List (Text × PseudoElement) :=
  [("before".toList, .before), ("after".toList, .after), ("backdrop".toList, .backdrop),
    ("first-letter".toList, .firstLetter), ("first-line".toList, .firstLine),
    ("marker".toList, .marker), ("picker(select)".toList, .picker),
    ("picker-icon".toList, .pickerIcon), ("checkmark".toList, .checkmark)]

/-- The pseudo-classes that name a pseudo-element, as they are written. -/
def isLegacyPseudoElement (name : Text) : Bool :=
  name == "before".toList || name == "after".toList || name == "first-letter".toList ||
    name == "first-line".toList

/-- The name of the pseudo-element that a simple selector is. -/
def SimpleSelector.pseudoElementName : SimpleSelector → Option Text
  | .pseudoElement name => some name
  | .pseudoClass name => if isLegacyPseudoElement name then some name else none
  | _ => none

/-- A pseudo-element after those before it; only a marker may follow. -/
def followPseudo : Option PseudoElement → PseudoElement → Option PseudoElement
  | none, current => some current
  | some .before, .marker => some .beforeMarker
  | some .after, .marker => some .afterMarker
  | some _, _ => none

/-- `selector_pseudo_element`: the pseudo-element that a selector targets. -/
def selectorPseudoElement (identifier : Text → Option Text) (selector : Selector) :
    Option PseudoElement :=
  let names := selector.parts.flatMap fun part => part.simples.filterMap (·.pseudoElementName)
  let named := names.foldlM (m := Option) (fun (pseudo : Option PseudoElement) name => do
    let current ← (pseudoElements.lookup (Text.toAsciiLowercase name)).orElse fun _ =>
      highlightPseudoFromName identifier name
    return some (← followPseudo pseudo current)) none
  named.join

end Omoikane.Css
