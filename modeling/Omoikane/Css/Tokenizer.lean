import Omoikane.Base.Text

/-!
# The tokenizer of style sheets

`tokenize` reads a text as a list of tokens, or refuses it.  What is behind an index of the source is the
text that is left to read here.  Numbers are of any type: `parse` is what the standard library makes of
the spelling of a number, and `tokenize` refuses a text that has a spelling without a value.

One spelling of a number is a sign alone, which stands in front of a `.` without a digit behind it.
`tokenize_mono` says that this is all that a `parse` matters for.
-/

namespace Omoikane.Css

open Base

/-- A token emitted by the CSS tokenizer. -/
inductive CssToken (F : Type)
  | ident (value : Text)
  | atKeyword (value : Text)
  | hash (value : Text)
  | string (value : Text)
  /-- An unquoted `url(...)` argument, preserved as source text. -/
  | url (value : Text)
  | number (value : F)
  | percentage (value : F)
  | dimension (value : F) (unit : Text)
  | colon
  | semicolon
  | comma
  | curlyOpen
  | curlyClose
  | parenOpen
  | parenClose
  | bracketOpen
  | bracketClose
  | delim (ch : Char)
  | whitespace
deriving DecidableEq

/-- The errors of the tokenizer. -/
inductive CssParseError
  | unexpectedEndOfInput
  | invalidDeclaration
  | invalidNumber
deriving DecidableEq

/-- Filters source code points before tokenization. -/
def preprocessInput : Text → Text
  | '\r' :: '\n' :: rest => '\n' :: preprocessInput rest
  | ch :: rest =>
    (if ch = '\r' ∨ ch = '\x0C' then '\n' else if ch = '\x00' then Char.ofNat 0xfffd else ch) ::
      preprocessInput rest
  | [] => []

/-! ## Identifiers -/

def isIdentStart (ch : Char) : Bool := ch.isAlpha || ch == '_' || decide (0x80 ≤ ch.toNat)

def isIdentChar (ch : Char) : Bool := isIdentStart ch || ch == '-' || ch.isDigit

/-- A character that no escape may have behind its backslash. -/
def isNewline (ch : Char) : Bool := ch == '\n' || ch == '\r' || ch == '\x0C'

def validEscape : Text → Bool
  | '\\' :: rest => !rest.head?.any isNewline
  | _ => false

def startsIdentSequence : Text → Bool
  | '-' :: rest => rest.head?.any (fun ch => isIdentStart ch || ch == '-') || validEscape rest
  | '\\' :: rest => validEscape ('\\' :: rest)
  | ch :: _ => isIdentStart ch
  | [] => false

/-- The character of an escape, read behind its backslash. -/
def consumeCssEscape (rest : Text) : Char × Text :=
  match rest with
  | [] => (Char.ofNat 0xfffd, [])
  | next :: more =>
    if Text.isHexDigit next then
      let hex := (rest.take 6).takeWhile Text.isHexDigit
      let behind := rest.drop hex.length
      let behind := if behind.head?.any Text.isAsciiWhitespace then behind.tail else behind
      let code := Text.ofDigits 16 hex
      (if code ≠ 0 ∧ code.isValidChar then Char.ofNat code else Char.ofNat 0xfffd, behind)
    else (next, more)

/-- The loop of `consume_ident`, which reads a character with each pass. -/
def consumeIdentFrom : Nat → Text → Text × Text
  | 0, rest => ([], rest)
  | _ + 1, [] => ([], [])
  | passes + 1, ch :: rest =>
    if ch = '\\' then
      if validEscape (ch :: rest) then
        let escaped := consumeCssEscape rest
        let ident := consumeIdentFrom passes escaped.2
        (escaped.1 :: ident.1, ident.2)
      else ([], ch :: rest)
    else if isIdentChar ch then
      let ident := consumeIdentFrom passes rest
      (ch :: ident.1, ident.2)
    else ([], ch :: rest)

def consumeIdent (s : Text) : Text × Text := consumeIdentFrom s.length s

/-! ## Strings and addresses -/

/-- The loop of `consume_string`, behind the quote. -/
def consumeStringFrom (quote : Char) : Nat → Text → Except CssParseError (Text × Text)
  | passes + 1, ch :: rest =>
    if ch = quote then .ok ([], rest)
    else if ch = '\\' then
      let escaped := consumeCssEscape rest
      (consumeStringFrom quote passes escaped.2).map fun string =>
        (escaped.1 :: string.1, string.2)
    else (consumeStringFrom quote passes rest).map fun string => (ch :: string.1, string.2)
  | _, _ => .error .unexpectedEndOfInput

def consumeString (quote : Char) (rest : Text) : Except CssParseError (Text × Text) :=
  consumeStringFrom quote (rest.length + 1) rest

/-- A character that an address has in quotes or escaped only. -/
def isNotInUrl (ch : Char) : Bool :=
  ch == '"' || ch == '\'' || ch == '(' || decide (ch.toNat ≤ 8) || ch == '\x0B' ||
    decide (0x0e ≤ ch.toNat ∧ ch.toNat ≤ 0x1f) || ch == '\x7F'

/-- The loop of `consume_unquoted_url`: the address as it is written. -/
def consumeUnquotedUrlFrom : Nat → Text → Except CssParseError (Text × Text)
  | passes + 1, ch :: rest =>
    if ch = ')' then .ok ([], rest)
    else if Text.isAsciiWhitespace ch then
      match rest.dropWhile Text.isAsciiWhitespace with
      | [] => .ok ([], [])
      | close :: behind => if close = ')' then .ok ([], behind) else .error .invalidDeclaration
    else if isNotInUrl ch then .error .invalidDeclaration
    else if ch = '\\' then
      if rest.head?.all isNewline then .error .invalidDeclaration
      else
        let behind := (consumeCssEscape rest).2
        (consumeUnquotedUrlFrom passes behind).map fun url =>
          (ch :: (rest.take (rest.length - behind.length) ++ url.1), url.2)
    else (consumeUnquotedUrlFrom passes rest).map fun url => (ch :: url.1, url.2)
  | _, rest => .ok ([], rest)

def consumeUnquotedUrl (rest : Text) : Except CssParseError (Text × Text) :=
  consumeUnquotedUrlFrom rest.length rest

/-! ## Numbers -/

def isNumberStart : Text → Bool
  | ch :: rest =>
    ch.isDigit || (ch == '.' && rest.head?.any Char.isDigit) ||
      ((ch == '+' || ch == '-') && rest.head?.any fun next => next.isDigit || next == '.')
  | [] => false

/-- The part of a number behind `.`, if there is one. -/
def consumeFraction : Text → Text × Text
  | '.' :: rest =>
    if rest.head?.any Char.isDigit then
      ('.' :: rest.takeWhile Char.isDigit, rest.dropWhile Char.isDigit)
    else ([], '.' :: rest)
  | rest => ([], rest)

/-- The exponent of a number, if there is one. -/
def consumeExponent : Text → Text × Text
  | ch :: rest =>
    if ch = 'e' ∨ ch = 'E' then
      let sign := (rest.take 1).filter fun next => next == '+' || next == '-'
      let digits := rest.drop sign.length
      if digits.head?.any Char.isDigit then
        (ch :: (sign ++ digits.takeWhile Char.isDigit), digits.dropWhile Char.isDigit)
      else ([], ch :: rest)
    else ([], ch :: rest)
  | [] => ([], [])

/-- The spelling of a number, and what is behind it. -/
def numberSpelling (s : Text) : Text × Text :=
  let sign := (s.take 1).filter fun ch => ch == '+' || ch == '-'
  let rest := s.drop sign.length
  let fraction := consumeFraction (rest.dropWhile Char.isDigit)
  let exponent := consumeExponent fraction.2
  (sign ++ rest.takeWhile Char.isDigit ++ fraction.1 ++ exponent.1, exponent.2)

section

variable {F : Type} (parse : Text → Option F)

/-- `consume_number`, where `parse` is that of `f32`. -/
def consumeNumber (s : Text) : Except CssParseError (F × Text) :=
  match parse (numberSpelling s).1 with
  | some value => .ok (value, (numberSpelling s).2)
  | none => .error .invalidNumber

/-! ## Tokens -/

/-- What is behind a comment, read behind `/*`. -/
def skipComment : Text → Option Text
  | '*' :: '/' :: rest => some rest
  | _ :: rest => skipComment rest
  | [] => none

/-- A number, a percentage or a dimension. -/
def consumeNumeric (s : Text) : Except CssParseError (CssToken F × Text) :=
  (consumeNumber parse s).map fun number =>
    if number.2.head? = some '%' then (.percentage number.1, number.2.tail)
    else if startsIdentSequence number.2 then
      let unit := consumeIdent number.2
      (.dimension number.1 unit.1, unit.2)
    else (.number number.1, number.2)

/-- An identifier, or an address without quotes. -/
def consumeIdentLike (s : Text) : Except CssParseError (CssToken F × Text) :=
  let ident := consumeIdent s
  if Text.eqIgnoreAsciiCase ident.1 "url".toList && ident.2.head? == some '(' then
    let rest := ident.2.tail.dropWhile Text.isAsciiWhitespace
    if rest.head?.any fun ch => ch == '"' || ch == '\'' then .ok (.ident ident.1, ident.2)
    else (consumeUnquotedUrl rest).map fun url => (.url url.1, url.2)
  else .ok (.ident ident.1, ident.2)

/-- A token of one character. -/
def punctuation (ch : Char) : CssToken F :=
  if ch = ':' then .colon
  else if ch = ';' then .semicolon
  else if ch = ',' then .comma
  else if ch = '{' then .curlyOpen
  else if ch = '}' then .curlyClose
  else if ch = '(' then .parenOpen
  else if ch = ')' then .parenClose
  else if ch = '[' then .bracketOpen
  else if ch = ']' then .bracketClose
  else .delim ch

/-- One pass of the loop in `tokenize`: a token, or a comment that is none. -/
def consumeToken (ch : Char) (rest : Text) : Except CssParseError (Option (CssToken F) × Text) :=
  if Text.isAsciiWhitespace ch then .ok (some .whitespace, rest.dropWhile Text.isAsciiWhitespace)
  else if ch = '/' ∧ rest.head? = some '*' then
    match skipComment rest.tail with
    | some behind => .ok (none, behind)
    | none => .error .unexpectedEndOfInput
  else if ch = '@' then .ok (some (.atKeyword (consumeIdent rest).1), (consumeIdent rest).2)
  else if ch = '#' then .ok (some (.hash (consumeIdent rest).1), (consumeIdent rest).2)
  else if ch = '"' ∨ ch = '\'' then
    (consumeString ch rest).map fun string => (some (.string string.1), string.2)
  else if isNumberStart (ch :: rest) then
    (consumeNumeric parse (ch :: rest)).map fun number => (some number.1, number.2)
  else if startsIdentSequence (ch :: rest) then
    (consumeIdentLike (ch :: rest)).map fun ident => (some ident.1, ident.2)
  else .ok (some (punctuation ch), rest)

/-- The loop of `tokenize`, which reads a character with each pass. -/
def tokenizeFrom : Nat → Text → Except CssParseError (List (CssToken F))
  | passes + 1, ch :: rest =>
    match consumeToken parse ch rest with
    | .error error => .error error
    | .ok (token, behind) => (tokenizeFrom passes behind).map (token.toList ++ ·)
  | _, _ => .ok []

/-- Tokenizes a CSS string. -/
def tokenize (input : Text) : Except CssParseError (List (CssToken F)) :=
  tokenizeFrom parse (preprocessInput input).length (preprocessInput input)

end

/-! ## Rendering -/

/-- `render_tokens`, where `trimmedNumber` is how a number is written. -/
def renderToken {F : Type} (trimmedNumber : F → Text) : CssToken F → Text
  | .ident value => value
  | .url value => "url(".toList ++ value ++ [')']
  | .atKeyword value => '@' :: value
  | .hash value => '#' :: value
  | .string value => '"' :: (value ++ ['"'])
  | .number value => trimmedNumber value
  | .percentage value => trimmedNumber value ++ ['%']
  | .dimension value unit => trimmedNumber value ++ unit
  | .colon => [':']
  | .semicolon => [';']
  | .comma => [',']
  | .curlyOpen => ['{']
  | .curlyClose => ['}']
  | .parenOpen => ['(']
  | .parenClose => [')']
  | .bracketOpen => ['[']
  | .bracketClose => [']']
  | .delim ch => [ch]
  | .whitespace => [' ']

def renderTokens {F : Type} (trimmedNumber : F → Text) (tokens : List (CssToken F)) : Text :=
  tokens.flatMap (renderToken trimmedNumber)

/-! ## Numbers that have no value -/

section

variable {F : Type} {parse parse' : Text → Option F}

/-- One parser of numbers reads what another reads. -/
def Reads (parse parse' : Text → Option F) : Prop :=
  ∀ spelling value, parse spelling = some value → parse' spelling = some value

theorem consumeNumber_mono (h : Reads parse parse') {s : Text} {number : F × Text}
    (hs : consumeNumber parse s = .ok number) : consumeNumber parse' s = .ok number := by
  unfold consumeNumber at hs ⊢
  split at hs
  next value hvalue =>
    rw [h _ _ hvalue]
    exact hs
  next => cases hs

theorem map_eq_ok {α β : Type} {e : Except CssParseError α} {f : α → β} {b : β} (h : e.map f = .ok b) :
    ∃ a, e = .ok a ∧ b = f a := by
  cases e with
  | error error => cases h
  | ok a => exact ⟨a, rfl, (Except.ok.inj h).symm⟩

/-- A number starts with none of the characters that are looked for first. -/
theorem consumeToken_of_isNumberStart {ch : Char} {rest : Text} (h : isNumberStart (ch :: rest) = true) :
    consumeToken parse ch rest =
      (consumeNumeric parse (ch :: rest)).map fun number => (some number.1, number.2) := by
  have hfirst : (ch.isDigit || ch == '.' || ch == '+' || ch == '-') = true := by
    simp only [isNumberStart, Bool.or_eq_true, Bool.and_eq_true] at h ⊢
    rcases h with (hdigit | ⟨hpoint, -⟩) | ⟨hplus | hminus, -⟩
    · exact .inl (.inl (.inl hdigit))
    · exact .inl (.inl (.inr hpoint))
    · exact .inl (.inr hplus)
    · exact .inr hminus
  have hnone : ∀ other ∈ ['\t', '\n', '\x0C', '\r', ' ', '/', '@', '#', '"', '\''],
      (other.isDigit || other == '.' || other == '+' || other == '-') = false :=
    List.forall_iff_forall_mem.mp (by decide)
  have hne : ∀ other ∈ ['\t', '\n', '\x0C', '\r', ' ', '/', '@', '#', '"', '\''], ch ≠ other := by
    rintro _ hother rfl
    rw [hnone ch hother] at hfirst
    cases hfirst
  simp only [List.forall_mem_cons, List.not_mem_nil, false_implies, implies_true, and_true] at hne
  obtain ⟨htab, hline, hfeed, hreturn, hspace, hslash, hat, hhash, hdouble, hsingle⟩ := hne
  have hblank : ¬ Text.isAsciiWhitespace ch = true := by
    simp [Text.isAsciiWhitespace, htab, hline, hfeed, hreturn, hspace]
  rw [consumeToken, if_neg hblank, if_neg (hslash ·.1), if_neg hat, if_neg hhash,
    if_neg (not_or.mpr ⟨hdouble, hsingle⟩), if_pos h]

theorem consumeNumeric_mono (h : Reads parse parse') {s : Text} {number : CssToken F × Text}
    (hs : consumeNumeric parse s = .ok number) : consumeNumeric parse' s = .ok number := by
  obtain ⟨value, hvalue, rfl⟩ := map_eq_ok hs
  rw [consumeNumeric, consumeNumber_mono h hvalue]
  rfl

theorem consumeToken_mono (h : Reads parse parse') {ch : Char} {rest : Text}
    {read : Option (CssToken F) × Text} (hs : consumeToken parse ch rest = .ok read) :
    consumeToken parse' ch rest = .ok read := by
  by_cases hnumber : isNumberStart (ch :: rest) = true
  · rw [consumeToken_of_isNumberStart hnumber] at hs ⊢
    obtain ⟨numeric, hnumeric, rfl⟩ := map_eq_ok hs
    rw [consumeNumeric_mono h hnumeric]
    rfl
  · have hsame : consumeToken parse' ch rest = consumeToken parse ch rest := by
      simp only [consumeToken, if_neg hnumber]
    rw [hsame]
    exact hs

theorem tokenizeFrom_mono (h : Reads parse parse') : ∀ {passes : Nat} {s : Text}
    {tokens : List (CssToken F)}, tokenizeFrom parse passes s = .ok tokens →
      tokenizeFrom parse' passes s = .ok tokens
  | 0, _, _, hs => hs
  | _ + 1, [], _, hs => hs
  | passes + 1, ch :: rest, _, hs => by
    rw [tokenizeFrom] at hs ⊢
    cases hread : consumeToken parse ch rest with
    | error error =>
      simp only [hread] at hs
      cases hs
    | ok read =>
      simp only [hread] at hs
      obtain ⟨tokens, htokens, rfl⟩ := map_eq_ok hs
      rw [consumeToken_mono h hread]
      dsimp only
      rw [tokenizeFrom_mono h htokens]
      rfl

/-- What is tokenized without a spelling that has no value is tokenized alike. -/
theorem tokenize_mono (h : Reads parse parse') {s : Text} {tokens : List (CssToken F)}
    (hs : tokenize parse s = .ok tokens) : tokenize parse' s = .ok tokens :=
  tokenizeFrom_mono h hs

end

end Omoikane.Css
