import Omoikane.Base.Kleene

/-!
# Media queries

The parser of `@media` preludes and the evaluation of what it returns.  A condition in parentheses is
either nested or a single feature.  Features are a parameter: the parser of their text, and their
value on the device, which is unknown for a feature that is not recognized.

Comments are taken out before the commas are looked for.  A query that cannot be parsed becomes
`not all`.
-/

namespace Omoikane.Css.Media

open Base Base.Kleene

/-! ## Conditions -/

/-- A media condition over features. -/
inductive MediaCondition (Leaf : Type)
  | not (inner : MediaCondition Leaf)
  | all (items : List (MediaCondition Leaf))
  | any (items : List (MediaCondition Leaf))
  | feature (leaf : Leaf)

structure MediaQuery (Leaf : Type) where
  negated : Bool
  mediaType : Option Text
  conditions : List (MediaCondition Leaf)

inductive MediaType
  | screen
  | print
deriving DecidableEq, Repr

/-- The features that parser and evaluation know.  Beyond ASCII, which characters are letters or digits
is a parameter as well. -/
structure Features (Leaf : Type) where
  parseMediaFeature : Text → MediaCondition Leaf
  isAlphanumericBeyondAscii : Char → Bool

/-- The device, with the viewport. -/
structure MediaEnvironment (Leaf : Type) where
  mediaType : MediaType
  evaluateFeature : Leaf → Truth

variable {Leaf : Type}

/-! ## Evaluation -/

/-- The loop of `logical::and`. -/
def andFrom (isUnknown : Bool) : List Truth → Truth
  | [] => if isUnknown then none else some true
  | some false :: _ => some false
  | none :: values => andFrom true values
  | some true :: values => andFrom isUnknown values

/-- `logical::and`. -/
def logicalAnd (values : List Truth) : Truth := andFrom false values

/-- The loop of `logical::or`. -/
def orFrom (isUnknown : Bool) : List Truth → Truth
  | [] => if isUnknown then none else some false
  | some true :: _ => some true
  | none :: values => orFrom true values
  | some false :: values => orFrom isUnknown values

/-- `logical::or`. -/
def logicalOr (values : List Truth) : Truth := orFrom false values

mutual

def evaluateCondition (environment : MediaEnvironment Leaf) : MediaCondition Leaf → Truth
  | .not inner => (evaluateCondition environment inner).map (!·)
  | .all items => logicalAnd (evaluateItems environment items)
  | .any items => logicalOr (evaluateItems environment items)
  | .feature leaf => environment.evaluateFeature leaf

/-- The values of several conditions. -/
def evaluateItems (environment : MediaEnvironment Leaf) : List (MediaCondition Leaf) → List Truth
  | [] => []
  | item :: items => evaluateCondition environment item :: evaluateItems environment items

end

/-- Whether the type of a query is that of the device. -/
def typeMatches (environment : MediaEnvironment Leaf) : Option Text → Bool
  | none => true
  | some mediaType =>
    if mediaType = "all".toList then true
    else if mediaType = "screen".toList then environment.mediaType = .screen
    else if mediaType = "print".toList then environment.mediaType = .print
    else false

/-- `evaluate_media_query_with_environment`. -/
def evaluateMediaQuery (environment : MediaEnvironment Leaf) (query : MediaQuery Leaf) : Bool :=
  if !typeMatches environment query.mediaType then query.negated
  else
    let result := logicalAnd (evaluateItems environment query.conditions)
    (if query.negated then result.map (!·) else result) == some true

/-! ## Parsing a condition -/

/-- What is behind a keyword that is followed by white space or the end. -/
def stripKeywordPrefix (input keyword : Text) : Option Text :=
  if Text.eqIgnoreAsciiCase (input.take keyword.length) keyword then
    match input.drop keyword.length with
    | [] => some []
    | next :: after => if Text.isWhitespace next then some (next :: after) else none
  else none

/-- `trim_start`. -/
def trimStart (input : Text) : Text := input.dropWhile Text.isWhitespace

/-- The loop of `find_matching_paren`. -/
def matchingParenFrom (depth index : Nat) : Text → Option Nat
  | [] => none
  | ch :: rest =>
    if ch = '(' then matchingParenFrom (depth + 1) (index + 1) rest
    else if ch = ')' then
      if depth - 1 = 0 then some index else matchingParenFrom (depth - 1) (index + 1) rest
    else matchingParenFrom depth (index + 1) rest

/-- The index of the `)` that matches the `(` in front. -/
def findMatchingParen (input : Text) : Option Nat := matchingParenFrom 0 0 input

/-- `parse_parenthesized`, with the parser for a nested condition. -/
def parseParenthesized (features : Features Leaf) (parseNested : Text → Option (MediaCondition Leaf))
    (input : Text) : Option (MediaCondition Leaf × Text) :=
  if input.head? ≠ some '(' then none
  else
    match findMatchingParen input with
    | none => none
    | some close =>
      let inner := Text.trim ((input.take close).drop 1)
      if inner.isEmpty then none
      else
        let condition :=
          if inner.head? = some '(' ∨ (stripKeywordPrefix inner "not".toList).isSome then
            parseNested inner
          else some (features.parseMediaFeature inner)
        condition.map fun condition => (condition, input.drop (close + 1))

/-- The condition that the loop returns. -/
def finishCondition (isOr : Option Bool) : List (MediaCondition Leaf) → MediaCondition Leaf
  | [condition] => condition
  | conditions => if isOr = some true then .any conditions else .all conditions

/-- The joining keyword in front and what is behind it. -/
def takeJoiner (allowOr : Bool) (remainder : Text) : Option (Bool × Text) :=
  match stripKeywordPrefix remainder "and".toList with
  | some after => some (false, after)
  | none =>
    if allowOr then (stripKeywordPrefix remainder "or".toList).map fun after => (true, after)
    else none

/-- The loop of `parse_condition`, with a bound on the number of passes. -/
def parseJoined (parseOperand : Text → Option (MediaCondition Leaf × Text)) (allowOr : Bool) :
    Nat → List (MediaCondition Leaf) → Option Bool → Text → Option (MediaCondition Leaf)
  | passes, conditions, isOr, remainder =>
    if (trimStart remainder).isEmpty then some (finishCondition isOr conditions)
    else
      match passes with
      | 0 => none
      | passes + 1 =>
        (takeJoiner allowOr (trimStart remainder)).bind fun (disjunction, after) =>
          if isOr.any (· != disjunction) then none
          else
            (parseOperand (trimStart after)).bind fun (next, after) =>
              parseJoined parseOperand allowOr passes (conditions ++ [next]) (some disjunction) after

/-- `parse_condition`, for conditions that are nested at most `limit` deep. -/
def parseConditionWithin (features : Features Leaf) :
    Nat → Text → Bool → Option (MediaCondition Leaf)
  | 0, _, _ => none
  | limit + 1, input, allowOr =>
    let parseOperand := parseParenthesized features fun inner =>
      parseConditionWithin features limit inner true
    match stripKeywordPrefix input "not".toList with
    | some after =>
      (parseOperand (trimStart after)).bind fun (condition, remainder) =>
        if (Text.trim remainder).isEmpty then some (.not condition) else none
    | none =>
      (parseOperand input).bind fun (first, remainder) =>
        parseJoined parseOperand allowOr remainder.length [first] none remainder

/-- `parse_condition`.  A nested condition is shorter than what it is nested in. -/
def parseCondition (features : Features Leaf) (input : Text) (allowOr : Bool) :
    Option (MediaCondition Leaf) :=
  parseConditionWithin features (input.length + 1) input allowOr

/-! ## Parsing a query -/

/-- A character of a media type. -/
def isTypeChar (features : Features Leaf) (ch : Char) : Bool :=
  (if ch.toNat < 128 then ch.isAlphanum else features.isAlphanumericBeyondAscii ch) ||
    ch == '-' || ch == '_'

def unpackConjunction : MediaCondition Leaf → List (MediaCondition Leaf)
  | .all conditions => conditions
  | condition => [condition]

/-- The names that are no media type. -/
def reservedTypes : List Text := ["not".toList, "only".toList, "and".toList, "or".toList]

/-- The conditions behind the type of a query. -/
def parseTypeConditions (features : Features Leaf) (remaining : Text) :
    Option (List (MediaCondition Leaf)) :=
  if remaining.isEmpty then some []
  else
    (stripKeywordPrefix remaining "and".toList).bind fun condition =>
      (parseCondition features (trimStart condition) false).map unpackConjunction

/-- The branch of `parse_single_media_query` for a query with a type. -/
def parseTypedQuery (features : Features Leaf) (negated : Bool) (rest : Text) :
    Option (MediaQuery Leaf) :=
  let name := rest.takeWhile (isTypeChar features)
  if name.isEmpty || reservedTypes.any (Text.eqIgnoreAsciiCase name) then none
  else
    (parseTypeConditions features (trimStart (rest.dropWhile (isTypeChar features)))).map
      fun conditions => ⟨negated, some (Text.toAsciiLowercase name), conditions⟩

def parseSingleMediaQuery (features : Features Leaf) (input : Text) : Option (MediaQuery Leaf) :=
  let input := Text.trim input
  let afterNot := stripKeywordPrefix input "not".toList
  if input.head? = some '(' ∨ afterNot.any fun rest => (trimStart rest).head? == some '(' then
    (parseCondition features input true).map fun condition =>
      ⟨false, none, unpackConjunction condition⟩
  else
    let rest := (afterNot.or (stripKeywordPrefix input "only".toList)).getD input
    parseTypedQuery features afterNot.isSome (trimStart rest)

/-! ## Comments -/

/-- What is behind the end of a comment, if it ends. -/
def skipComment : Text → Option Text
  | [] => none
  | ch :: rest => if ch = '*' ∧ rest.head? = some '/' then some rest.tail else skipComment rest

theorem length_skipComment {input after : Text} (h : skipComment input = some after) :
    after.length < input.length := by
  induction input with
  | nil => cases h
  | cons ch rest ih =>
    rw [skipComment] at h
    rw [List.length_cons]
    split at h
    next =>
      cases h
      rw [List.length_tail]
      omega
    next =>
      have := ih h
      omega

/-- What is behind a comment and those that follow it at once; the input begins at the `*`. -/
def skipComments (input : Text) : Option Text :=
  match _h : skipComment input.tail with
  | none => none
  | some after => if after.take 2 = ['/', '*'] then skipComments after.tail else some after
termination_by input.length
decreasing_by
  have hlength := length_skipComment _h
  rw [List.length_tail] at hlength ⊢
  omega

theorem length_skipComments {input after : Text} (h : skipComments input = some after) :
    after.length ≤ input.length := by
  fun_induction skipComments input with
  | case1 => cases h
  | case2 input next hnext hagain ih =>
    have hlength := length_skipComment hnext
    have hafter := ih h
    rw [List.length_tail] at hlength hafter
    omega
  | case3 input next hnext =>
    cases h
    have hlength := length_skipComment hnext
    rw [List.length_tail] at hlength
    omega

/-- The comment stands inside of a comparison, and leaves no space. -/
def comparisonPair (output after : Text) : Bool :=
  (output.getLast? == some '<' || output.getLast? == some '>') && after.head? == some '='

/-- The loop of `normalize`. -/
def normalizeFrom (quote : Option Char) (output : Text) : Text → Text
  | [] => output
  | ch :: rest =>
    if ch = '\\' then
      match rest with
      | [] => output ++ [ch]
      | escaped :: rest => normalizeFrom quote (output ++ [ch, escaped]) rest
    else
      match quote with
      | some delimiter =>
        normalizeFrom (if ch = delimiter then none else some delimiter) (output ++ [ch]) rest
      | none =>
        if ch = '\'' ∨ ch = '"' then normalizeFrom (some ch) (output ++ [ch]) rest
        else if ch = '/' ∧ rest.head? = some '*' then
          -- a comment without an end takes the rest
          match _h : skipComments rest with
          | none => if comparisonPair output [] then output else output ++ [' ']
          | some after =>
            normalizeFrom none (if comparisonPair output after then output else output ++ [' '])
              after
        else normalizeFrom none (output ++ [ch]) rest
termination_by input => input.length
decreasing_by
  all_goals simp only [List.length_cons]
  all_goals try omega
  have hlength := length_skipComments _h
  omega

/-- `comments::normalize`. -/
def normalize (input : Text) : Text := normalizeFrom none [] input

/-! ## Lists -/

/-- The locals of `split_top_level_commas` that say where a character stands. -/
structure Scan where
  depth : Nat := 0
  quote : Option Char := none
  escaped : Bool := false
deriving DecidableEq, Repr

/-- One pass of the loop; there is none over a comma that separates. -/
def Scan.next (scan : Scan) (ch : Char) : Option Scan :=
  if scan.escaped then some { scan with escaped := false }
  else if ch = '\\' ∧ scan.quote.isSome then some { scan with escaped := true }
  else if ch = '\'' ∨ ch = '"' then
    if scan.quote = some ch then some { scan with quote := none }
    else if scan.quote.isNone then some { scan with quote := some ch }
    else some scan
  else if scan.quote.isSome then some scan
  else if ch = '(' then some { scan with depth := scan.depth + 1 }
  else if ch = ')' then some { scan with depth := scan.depth - 1 }
  else if ch = ',' ∧ scan.depth = 0 then none
  else some scan

/-- The loop of `split_top_level_commas`, with the value that is being read. -/
def splitFrom (scan : Scan) (value : Text) : Text → List Text
  | [] => [value]
  | ch :: rest =>
    match scan.next ch with
    | some scan => splitFrom scan (value ++ [ch]) rest
    | none => value :: splitFrom scan [] rest

def splitTopLevelCommas (value : Text) : List Text := splitFrom {} [] value

/-- The query of a member that cannot be parsed. -/
def notAll : MediaQuery Leaf := ⟨true, some "all".toList, []⟩

def parseMediaQueryList (features : Features Leaf) (prelude : Text) :
    Option (List (MediaQuery Leaf)) :=
  let prelude := Text.trim (normalize prelude)
  if prelude.isEmpty then none
  else
    some ((splitTopLevelCommas prelude).map fun part =>
      (parseSingleMediaQuery features (Text.trim part)).getD notAll)

/-- A list matches if some query of it does. -/
def mediaQueryListMatches (features : Features Leaf) (environment : MediaEnvironment Leaf)
    (prelude : Text) : Bool :=
  (parseMediaQueryList features prelude).any fun queries =>
    queries.any (evaluateMediaQuery environment)

end Omoikane.Css.Media
