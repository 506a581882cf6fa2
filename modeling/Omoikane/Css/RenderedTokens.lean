import Omoikane.Css.TokenReading

/-!
# Tokens that are written and read again

The body of some rules is kept as text: `consume_raw_block` writes the tokens of a block with
`render_tokens`, and they are read again later.  Nothing is escaped when they are written.  `Stands`
says which tokens are read again as they were, in front of a text; `AllStand` says it of all tokens of
a list in front of those behind them.

That tokens which do not stand are not read again is about lengths.  No token is read from less text
than it is written as, so that a list can only be read from what it is written as if each token is read
from its own part.  Two tokens are exceptions, and both need the end of the text or a character that is
not there: an address without a closing parenthesis, and a number with an exponent.
-/

namespace Omoikane.Css

open Base

variable {F : Type}

/-! ## Integers -/

/-- An integer in decimal. -/
def decimal (n : Int) : Text :=
  if n < 0 then '-' :: Text.ofNat n.natAbs else Text.ofNat n.natAbs

/-- The integer that digits spell, with a minus sign if it is negative. -/
def parseInteger : Text → Option Int
  | '-' :: digits => ((Text.parseDigits digits).filter (0 < ·)).map fun n : Nat => -(n : Int)
  | digits => (Text.parseDigits digits).map Int.ofNat

/-- Numbers among which the integers are read and written exactly. -/
structure ExactNumbers (F : Type) extends FloatParser F where
  trimmedNumber : F → Text
  ofInt : Int → F
  parse_integer : ∀ spelling n, parseInteger spelling = some n → parse spelling = some (ofInt n)
  trimmedNumber_ofInt : ∀ n, trimmedNumber (ofInt n) = decimal n

/-- A parser of the integers only. -/
def ExactNumbers.integers (numbers : ExactNumbers F) (spelling : Text) : Option F :=
  (parseInteger spelling).map numbers.ofInt

/-! ## Raw blocks -/

/-- `consume_raw_block`, behind the opening brace of a block of the given depth: the text of the block and
the tokens behind it. -/
def consumeRawBlock (trimmedNumber : F → Text) :
    Nat → List (CssToken F) → Option (Text × List (CssToken F))
  | _, [] => none
  | depth, .curlyOpen :: tokens =>
    (consumeRawBlock trimmedNumber (depth + 1) tokens).map fun block => ('{' :: block.1, block.2)
  | depth, .curlyClose :: tokens =>
    if depth - 1 = 0 then some ([], tokens)
    else (consumeRawBlock trimmedNumber (depth - 1) tokens).map fun block =>
      ('}' :: block.1, block.2)
  | depth, token :: tokens =>
    (consumeRawBlock trimmedNumber depth tokens).map fun block =>
      (renderTokens trimmedNumber [token] ++ block.1, block.2)

/-! ## Tokens that are read again -/

/-- The exponent of a number. -/
def startsExponent (s : Text) : Bool := (consumeExponent s).1 ≠ []

/-- A parenthesis that opens an address without quotes, behind `url`. -/
def opensUrl (rest : Text) : Bool :=
  rest.head? == some '(' &&
    !(rest.tail.dropWhile Text.isAsciiWhitespace).head?.any fun ch => ch == '"' || ch == '\''

/-- A token is read again as it is, in front of a text. -/
def Stands (token : CssToken F) (rest : Text) : Prop :=
  match token with
  | .ident value => value.all isIdentChar = true ∧ startsIdentSequence value = true ∧
      endsName rest = true ∧
        ¬ (Text.eqIgnoreAsciiCase value "url".toList = true ∧ opensUrl rest = true)
  | .atKeyword value | .hash value => value.all isIdentChar = true ∧ endsName rest = true
  | .string value => ∀ ch ∈ value, ch ≠ '"' ∧ ch ≠ '\\' ∧ isFiltered ch = false
  | .number _ => rest.head?.any Char.isDigit = false ∧ (consumeFraction rest).1 = [] ∧
      rest.head? ≠ some '%' ∧ startsIdentSequence rest = false
  | .dimension _ unit => unit.all isIdentChar = true ∧ startsIdentSequence unit = true ∧
      endsName rest = true ∧ startsExponent (unit ++ rest) = false
  | .whitespace => rest.head?.any Text.isAsciiWhitespace = false
  | .delim ch => startsLonger ch rest = false
  | _ => True

/-- All tokens are read again as they are, in front of those behind them. -/
def AllStand (trimmedNumber : F → Text) : List (CssToken F) → Prop
  | [] => True
  | token :: tokens =>
    Stands token (renderTokens trimmedNumber tokens) ∧ AllStand trimmedNumber tokens

/-! ## Tokens of a text -/

/-- What is known of a token that was read from a text whose numbers are integers. -/
def Emitted (numbers : ExactNumbers F) : CssToken F → Prop
  | .number value | .percentage value | .dimension value _ => ∃ n, value = numbers.ofInt n
  | .url value => IsFiltered value ∧ value.head?.any Text.isAsciiWhitespace = false ∧
      value.head?.any (fun ch => ch == '"' || ch == '\'') = false ∧
        ∀ rest, consumeUnquotedUrl (value ++ ')' :: rest) = .ok (value, rest)
  | .delim ch => (punctuation ch : CssToken F) = .delim ch ∧ isFiltered ch = false ∧
      Text.isAsciiWhitespace ch = false
  | _ => True

/-! ## Numbers -/

/-- No digits are fewer than those that a number is written with. -/
theorem length_ofNat_le {digits : Text} (h : ∀ ch ∈ digits, ch.isDigit = true) (hne : digits ≠ []) :
    (Text.ofNat (Text.ofDigits 10 digits)).length ≤ digits.length :=
  (Nat.length_toDigits_le_iff (by decide) (List.length_pos_iff.mpr hne)).mpr (Text.ofDigits_lt h)

/-- A digit in front of the value of a number that is not zero. -/
theorem ofDigits_prefix_pos {digits : Text} {n : Nat} (hn : 0 < n) (hne : digits ≠ [])
    (h : digits <+: Text.ofNat n) : 0 < Text.ofDigits 10 digits := by
  obtain ⟨more, hmore⟩ := h
  obtain ⟨-, hdigits, hvalue⟩ := Text.isNumeral_ofNat n
  by_contra hzero
  have hsum : ∀ front : Text, Text.ofDigits 10 (front ++ more) =
      Text.ofDigits 10 front * 10 ^ more.length + Text.ofDigits 10 more := by
    intro front
    induction front with
    | nil => simp [Text.ofDigits]
    | cons ch front ih =>
      rw [List.cons_append, Text.ofDigits_cons, Text.ofDigits_cons, ih, List.length_append, Nat.pow_add,
        Nat.add_mul, Nat.mul_assoc, Nat.add_assoc]
  have hwhole := hsum digits
  rw [hmore, hvalue, Nat.eq_zero_of_not_pos hzero, Nat.zero_mul, Nat.zero_add] at hwhole
  have hall : ∀ ch ∈ more, ch.isDigit = true := fun ch hch =>
    hdigits ch (hmore ▸ List.mem_append_right digits hch)
  obtain rfl | hmoreNe := eq_or_ne more []
  · rw [hwhole] at hn
    exact absurd hn (by decide)
  · have hle := length_ofNat_le hall hmoreNe
    rw [← hwhole, ← hmore, List.length_append] at hle
    have hpos := List.length_pos_iff.mpr hne
    omega

theorem parseInteger_digits {digits : Text} (hne : digits ≠ [])
    (h : ∀ ch ∈ digits, ch.isDigit = true) :
    parseInteger digits = some (Text.ofDigits 10 digits : Int) := by
  have hparse := Text.parseDigits_eq_some.mpr ⟨hne, h, rfl⟩
  cases digits with
  | nil => exact absurd rfl hne
  | cons ch digits =>
    have hminus : ch ≠ '-' := fun heq => absurd (h ch List.mem_cons_self) (by rw [heq]; decide)
    rw [parseInteger, hparse]
    · rfl
    · exact fun _ heq => hminus (List.cons.inj heq).1

theorem parseInteger_minus {digits : Text} (hne : digits ≠ [])
    (h : ∀ ch ∈ digits, ch.isDigit = true) (hpos : 0 < Text.ofDigits 10 digits) :
    parseInteger ('-' :: digits) = some (-(Text.ofDigits 10 digits : Int)) := by
  rw [parseInteger, Text.parseDigits_eq_some.mpr ⟨hne, h, rfl⟩, Option.filter_some,
    if_pos (decide_eq_true hpos)]
  rfl

theorem parseInteger_decimal (n : Int) : parseInteger (decimal n) = some n := by
  obtain ⟨hne, hdigits, hvalue⟩ := Text.isNumeral_ofNat n.natAbs
  unfold decimal
  split
  next hneg =>
    rw [parseInteger_minus hne hdigits (by rw [hvalue]; omega), hvalue]
    exact congrArg some (by omega)
  next hneg =>
    rw [parseInteger_digits hne hdigits, hvalue]
    exact congrArg some (by omega)

/-- The characters of an integer. -/
theorem mem_decimal {n : Int} {ch : Char} (h : ch ∈ decimal n) : ch.isDigit = true ∨ ch = '-' := by
  obtain ⟨-, hdigits, -⟩ := Text.isNumeral_ofNat n.natAbs
  unfold decimal at h
  split at h
  · rcases List.mem_cons.mp h with rfl | h
    · exact .inr rfl
    · exact .inl (hdigits ch h)
  · exact .inl (hdigits ch h)

theorem ExactNumbers.ofInt_injective (numbers : ExactNumbers F) {m n : Int}
    (h : numbers.ofInt m = numbers.ofInt n) : m = n := by
  have hdecimal := congrArg numbers.trimmedNumber h
  rw [numbers.trimmedNumber_ofInt, numbers.trimmedNumber_ofInt] at hdecimal
  have hparse := parseInteger_decimal m
  rw [hdecimal, parseInteger_decimal n] at hparse
  exact (Option.some.inj hparse).symm

/-- A spelling of digits and minus signs spells an integer. -/
theorem isFloat_digits {spelling : Text} (h : IsFloat spelling)
    (hmem : ∀ ch ∈ spelling, ch.isDigit = true ∨ ch = '-') :
    ∃ digits, digits ≠ [] ∧ (∀ ch ∈ digits, ch.isDigit = true) ∧
      (spelling = digits ∨ spelling = '-' :: digits) := by
  cases h with
  | @word sign word hsign hword =>
    have hletter : ∀ lower ∈ ["inf".toList, "infinity".toList, "nan".toList],
        ∃ first more, lower = first :: more ∧ 57 < first.toNat := by
      simp only [List.forall_mem_cons, List.not_mem_nil, false_implies, implies_true, and_true]
      exact ⟨⟨_, _, rfl, by decide⟩, ⟨_, _, rfl, by decide⟩, ⟨_, _, rfl, by decide⟩⟩
    obtain ⟨first, more, hlower, hfirst⟩ := hletter _ hword
    cases word with
    | nil => cases hlower
    | cons ch word =>
      have hch : ch.toLower = first := (List.cons.inj hlower).1
      have hheavy := textWeight_of_toLower (hch ▸ hfirst)
      have hlight : isLight ch = true := by
        rcases hmem ch (List.mem_append_right _ List.mem_cons_self) with hdigit | rfl
        · rw [isLight, hdigit]
          rfl
        · rfl
      rw [textWeight, if_pos hlight] at hheavy
      cases hheavy
  | @number sign whole fraction exponent hsign hwhole hfraction hdigit hexponent =>
    have hpoint : ∀ ch ∈ fraction ++ exponent, ch ≠ '.' ∧ ch ≠ 'e' ∧ ch ≠ 'E' := by
      intro ch hch
      have hch' := hmem ch (by
        rw [List.append_assoc]
        exact List.mem_append_right _ hch)
      refine ⟨?_, ?_, ?_⟩ <;> (rintro rfl; exact absurd hch' (by decide))
    obtain rfl : fraction = [] := by
      rcases hfraction with rfl | ⟨digits, rfl, -⟩
      · rfl
      · exact absurd rfl (hpoint '.' (by simp)).1
    obtain rfl : exponent = [] := by
      rcases hexponent with rfl | ⟨e, sign, digits, rfl, rfl | rfl, -⟩
      · rfl
      · exact absurd rfl (hpoint 'e' (by simp)).2.1
      · exact absurd rfl (hpoint 'E' (by simp)).2.2
    have hne : whole ≠ [] := hdigit.resolve_right (by decide)
    refine ⟨whole, hne, hwhole, ?_⟩
    rcases hsign with rfl | rfl | rfl
    · exact .inl (by simp)
    · exact absurd (hmem '+' (by simp)) (by decide)
    · exact .inr (by simp)

/-- An integer is spelled as it is written, in front of what no number goes on with. -/
theorem numberSpelling_decimal {n : Int} {rest : Text} :
    numberSpelling (decimal n ++ rest) = (decimal n, rest) ↔ rest.head?.any Char.isDigit = false ∧
      (consumeFraction rest).1 = [] ∧ (consumeExponent rest).1 = [] := by
  obtain ⟨hne, hdigits, -⟩ := Text.isNumeral_ofNat n.natAbs
  rw [← unsignedSpelling_digits hdigits]
  unfold decimal
  split
  next =>
    rw [List.cons_append, numberSpelling_sign (.inr rfl), Prod.ext_iff, Prod.ext_iff,
      List.cons_eq_cons]
    simp only [true_and]
  next =>
    cases hnat : Text.ofNat n.natAbs with
    | nil => exact absurd hnat hne
    | cons ch digits =>
      have hdigit := hdigits ch (hnat ▸ List.mem_cons_self)
      rw [List.cons_append, numberSpelling_unsigned]
      all_goals
        rintro rfl
        exact absurd hdigit (by decide)

/-- An integer starts a number. -/
theorem isNumberStart_decimal (n : Int) (rest : Text) :
    isNumberStart (decimal n ++ rest) = true := by
  obtain ⟨hne, hdigits, -⟩ := Text.isNumeral_ofNat n.natAbs
  cases hnat : Text.ofNat n.natAbs with
  | nil => exact absurd hnat hne
  | cons ch digits =>
    have hdigit := hdigits ch (hnat ▸ List.mem_cons_self)
    unfold decimal
    rw [hnat]
    split
    next => simp [isNumberStart, hdigit]
    next => simp [isNumberStart, hdigit]

/-- The spelling of an integer that is read from the end of what it is written as is all of that. -/
theorem spelling_eq_decimal (numbers : ExactNumbers F) {n : Int} {spelling more part : Text}
    (hvalue : numbers.parse spelling = some (numbers.ofInt n)) (hpart : part <:+ decimal n)
    (hspelling : spelling ++ more = part) : spelling = decimal n ∧ more = [] := by
  have hfloat : IsFloat spelling := (numbers.accepts spelling).mp (by rw [hvalue]; rfl)
  have hmem : ∀ ch ∈ spelling, ch.isDigit = true ∨ ch = '-' := fun ch hch =>
    mem_decimal (hpart.subset (hspelling ▸ List.mem_append_left more hch))
  obtain ⟨digits, hne, hdigits, hshape⟩ := isFloat_digits hfloat hmem
  obtain ⟨-, hall, -⟩ := Text.isNumeral_ofNat n.natAbs
  have hsame : ∀ m, parseInteger spelling = some m → m = n := fun m hm =>
    numbers.ofInt_injective (Option.some.inj ((numbers.parse_integer spelling m hm).symm.trans hvalue))
  have hlength : (spelling ++ more).length ≤ (decimal n).length := hspelling ▸ hpart.length_le
  have hfits : (decimal n).length ≤ spelling.length → spelling = decimal n ∧ more = [] := by
    intro hle
    rw [List.length_append] at hlength
    obtain rfl : more = [] := List.length_eq_zero_iff.mp (by omega)
    rw [List.append_nil] at hspelling
    subst hspelling
    exact ⟨hpart.eq_of_length_le hle, rfl⟩
  apply hfits
  rcases hshape with rfl | rfl
  · have hn := hsame _ (parseInteger_digits hne hdigits)
    have hle := length_ofNat_le hdigits hne
    unfold decimal
    rw [if_neg (by omega), ← hn, Int.natAbs_natCast]
    exact hle
  · -- a minus sign is only in front of the digits
    by_cases hneg : n < 0
    · have hdecimal : decimal n = '-' :: Text.ofNat n.natAbs := if_pos hneg
      rw [hdecimal] at hpart hlength ⊢
      have hprefix : digits <+: Text.ofNat n.natAbs := by
        rcases List.suffix_cons_iff.mp hpart with hwhole | hpart
        · rw [← hspelling, List.cons_append] at hwhole
          exact ⟨more, (List.cons.inj hwhole).2⟩
        · have hminus : '-' ∈ Text.ofNat n.natAbs := hpart.subset (by rw [← hspelling]; simp)
          exact absurd (hall '-' hminus) (by decide)
      have hpos := ofDigits_prefix_pos (by omega) hne hprefix
      have hn := hsame _ (parseInteger_minus hne hdigits hpos)
      have hle := length_ofNat_le hdigits hne
      have hnat : n.natAbs = Text.ofDigits 10 digits := by omega
      rw [hnat, List.length_cons, List.length_cons]
      omega
    · have hminus : '-' ∈ decimal n := hpart.subset (by rw [← hspelling]; simp)
      rw [decimal, if_neg hneg] at hminus
      exact absurd (hall '-' hminus) (by decide)

/-! ## What is read -/

theorem emitted_punctuation (numbers : ExactNumbers F) {ch : Char} {rest : Text}
    (hfiltered : isFiltered ch = false) (hlonger : startsLonger ch rest = false) :
    Emitted numbers (punctuation ch) := by
  have hblank : Text.isAsciiWhitespace ch = false := by
    rw [Bool.eq_false_iff]
    intro hblank
    rw [startsLonger, hblank] at hlonger
    cases hlonger
  have hrender : renderToken numbers.trimmedNumber (punctuation ch) = [ch] :=
    renderToken_punctuation numbers.trimmedNumber ch
  have hsingle : (punctuation ch : CssToken F).IsSingle := punctuation_isSingle ch
  cases htoken : (punctuation ch : CssToken F) with
  | delim other =>
    rw [htoken] at hrender
    obtain rfl : other = ch := (List.cons.inj hrender).1
    exact ⟨htoken, hfiltered, hblank⟩
  | number | percentage | dimension | url =>
    rw [htoken] at hsingle
    exact absurd hsingle id
  | _ => trivial

/-- A token that is read has the values of integers, and an address that is read again. -/
theorem emitted_of_readToken (numbers : ExactNumbers F) {ch : Char} {rest behind : Text}
    {token : CssToken F} (hs : IsFiltered (ch :: rest))
    (h : ReadToken numbers.integers ch rest (some token) behind) : Emitted numbers token := by
  have hinteger : ∀ {spelling value}, numbers.integers spelling = some value →
      ∃ n, value = numbers.ofInt n := by
    intro spelling value hvalue
    obtain ⟨n, -, rfl⟩ := Option.map_eq_some_iff.mp hvalue
    exact ⟨n, rfl⟩
  cases h with
  | whitespace => trivial
  | atKeyword => trivial
  | hash => trivial
  | string => trivial
  | percentage hstart hspelling hvalue => exact hinteger hvalue
  | dimension hstart hspelling hvalue hunit => exact hinteger hvalue
  | number hstart hspelling hvalue hpercent hunit => exact hinteger hvalue
  | @url _ _ name more url hstart hident hname hquote hurl =>
    have hsuffix := consumeIdentFrom_suffix (ch :: rest).length (ch :: rest)
    change Css.consumeIdentFrom (ch :: rest).length (ch :: rest) = (name, '(' :: more) at hident
    rw [hident] at hsuffix
    have hmore : IsFiltered (more.dropWhile Text.isAsciiWhitespace) :=
      (hs.suffix hsuffix).tail.suffix (List.dropWhile_suffix _)
    have hread := readUrl_of_consume (Nat.le_refl _) hurl
    refine ⟨fun other hother => hmore other (hread.subset other hother), ?_, ?_,
      fun rest' => (hread.stable rest').consume (Nat.le_refl _)⟩
    · rcases hread.head with hnil | ⟨hhead, hblank⟩
      · rw [hnil]
        rfl
      · rw [hhead]
        exact hblank
    · rcases hread.head with hnil | ⟨hhead, -⟩
      · rw [hnil]
        rfl
      · rw [hhead]
        exact hquote
  | ident => trivial
  | single hlonger htoken =>
    rw [htoken]
    exact emitted_punctuation numbers (hs ch List.mem_cons_self) hlonger

theorem emitted_of_tokenizeFrom (numbers : ExactNumbers F) : ∀ {tokens : List (CssToken F)}
    {passes : Nat} {s : Text}, IsFiltered s → tokenizeFrom numbers.integers passes s = .ok tokens →
    ∀ token ∈ tokens, Emitted numbers token
  | [], _, _, _, _ => fun _ htoken => nomatch htoken
  | token :: tokens, passes, s, hs, h => by
    obtain ⟨ch, rest, behind, passes', hsuffix, hread, hmore⟩ := tokenizeFrom_cons h
    have hchars := hs.suffix hsuffix
    exact List.forall_mem_cons.mpr ⟨emitted_of_readToken numbers hchars hread,
      emitted_of_tokenizeFrom numbers (hchars.tail.suffix hread.suffix) hmore⟩

/-! ## Tokens that stand are read -/

/-- An identifier that is written starts as it does alone. -/
theorem startsIdentSequence_append {value rest : Text} (hvalue : value.all isIdentChar = true)
    (hends : endsName rest = true) :
    startsIdentSequence (value ++ rest) = startsIdentSequence value := by
  obtain ⟨hhead, hescape⟩ := endsName_iff.mp hends
  have hrest : ∀ {ch more}, rest = ch :: more → isIdentStart ch = false ∧ ch ≠ '-' := by
    rintro ch more rfl
    have hident : isIdentChar ch = false := hhead
    refine ⟨Bool.eq_false_iff.mpr fun hstart => ?_, fun hminus => ?_⟩
    · rw [isIdentChar_of_isIdentStart hstart] at hident
      cases hident
    · rw [hminus] at hident
      cases hident
  have hslash : ∀ {ch : Char}, isIdentChar ch = true → ch ≠ '\\' := by
    rintro ch hch rfl
    cases hch
  cases value with
  | nil =>
    refine Bool.eq_false_iff.mpr fun hstart => ?_
    rw [List.nil_append] at hstart
    cases hrest' : rest with
    | nil =>
      rw [hrest'] at hstart
      cases hstart
    | cons ch more =>
      obtain ⟨hident, hminus⟩ := hrest hrest'
      rw [hrest'] at hstart hescape
      rcases first_of_startsIdentSequence hstart with ⟨heq, -⟩ | heq | hfirst
      · exact hminus heq
      · subst heq
        rw [startsIdentSequence, hescape] at hstart
        cases hstart
      · rw [hident] at hfirst
        cases hfirst
  | cons ch value =>
    rw [List.all_cons, Bool.and_eq_true] at hvalue
    by_cases hminus : ch = '-'
    · subst hminus
      cases value with
      | nil =>
        rw [List.cons_append, List.nil_append, startsIdentSequence, startsIdentSequence, hescape]
        cases hrest' : rest with
        | nil => rfl
        | cons other more =>
          obtain ⟨hident, hminus⟩ := hrest hrest'
          simp [hident, hminus, validEscape]
      | cons next value =>
        rw [List.all_cons, Bool.and_eq_true] at hvalue
        have hnext := hslash hvalue.2.1
        rw [List.cons_append, List.cons_append, startsIdentSequence, startsIdentSequence,
          validEscape, validEscape]
        · rfl
        · exact fun rest' heq => hnext (List.cons_eq_cons.mp heq).1
        · exact fun rest' heq => hnext (List.cons_eq_cons.mp heq).1
    · have hfirst := hslash hvalue.1
      have hstart : ∀ more, startsIdentSequence (ch :: more) = isIdentStart ch := by
        intro more
        rw [startsIdentSequence]
        · exact hminus
        · exact hfirst
      rw [List.cons_append, hstart, hstart]

/-- A character that none of the first branches is for. -/
theorem consumeToken_of_startsIdent {parse : Text → Option F} {ch : Char} {rest : Text}
    (h : startsIdentSequence (ch :: rest) = true) :
    consumeToken parse ch rest =
      (consumeIdentLike (ch :: rest)).map fun ident => (some ident.1, ident.2) := by
  have hnumber : ¬ isNumberStart (ch :: rest) = true := fun hnumber => by
    rw [not_startsIdent_of_isNumberStart hnumber] at h
    cases h
  have hnone : ∀ other ∈ ['\t', '\n', '\x0C', '\r', ' ', '/', '@', '#', '"', '\''],
      (other == '-' || other == '\\' || isIdentStart other) = false :=
    List.forall_iff_forall_mem.mp (by decide)
  have hfirst : (ch == '-' || ch == '\\' || isIdentStart ch) = true := by
    rcases first_of_startsIdentSequence h with ⟨rfl, -⟩ | rfl | hstart
    · rfl
    · rfl
    · rw [hstart, Bool.or_true]
  have hne : ∀ other ∈ ['\t', '\n', '\x0C', '\r', ' ', '/', '@', '#', '"', '\''], ch ≠ other := by
    rintro _ hother rfl
    rw [hnone ch hother] at hfirst
    cases hfirst
  simp only [List.forall_mem_cons, List.not_mem_nil, false_implies, implies_true, and_true] at hne
  obtain ⟨htab, hline, hfeed, hreturn, hspace, hslash, hat, hhash, hdouble, hsingle⟩ := hne
  have hblank : ¬ Text.isAsciiWhitespace ch = true := by
    simp [Text.isAsciiWhitespace, htab, hline, hfeed, hreturn, hspace]
  rw [consumeToken, if_neg hblank, if_neg (hslash ·.1), if_neg hat, if_neg hhash,
    if_neg (not_or.mpr ⟨hdouble, hsingle⟩), if_neg hnumber, if_pos h]

theorem consumeToken_of_single {parse : Text → Option F} {ch : Char} {rest : Text}
    (h : startsLonger ch rest = false) : consumeToken parse ch rest = .ok (some (punctuation ch), rest) := by
  simp only [startsLonger, Bool.or_eq_false_iff, Bool.and_eq_false_imp, beq_eq_false_iff_ne,
    beq_iff_eq] at h
  obtain ⟨⟨⟨⟨⟨⟨⟨hblank, hat⟩, hhash⟩, hdouble⟩, hsingle⟩, hslash⟩, hnumber⟩, hident⟩ := h
  rw [consumeToken, if_neg (Bool.eq_false_iff.mp hblank), if_neg (fun hboth => hslash hboth.1 hboth.2),
    if_neg hat, if_neg hhash, if_neg (not_or.mpr ⟨hdouble, hsingle⟩),
    if_neg (Bool.eq_false_iff.mp hnumber), if_neg (Bool.eq_false_iff.mp hident)]

/-- A string that is written is read up to its quote. -/
theorem consumeStringFrom_text {quote : Char} : ∀ {value rest : Text} {passes : Nat},
    (∀ ch ∈ value, ch ≠ quote ∧ ch ≠ '\\') → value.length < passes →
    consumeStringFrom quote passes (value ++ quote :: rest) = .ok (value, rest)
  | [], rest, passes + 1, _, _ => by
    rw [List.nil_append, consumeStringFrom, if_pos rfl]
  | ch :: value, rest, passes + 1, hvalue, hpasses => by
    obtain ⟨hquote, hslash⟩ := hvalue ch List.mem_cons_self
    rw [List.cons_append, consumeStringFrom, if_neg hquote, if_neg hslash,
      consumeStringFrom_text (fun other hother => hvalue other (List.mem_cons_of_mem ch hother))
        (Nat.lt_of_succ_lt_succ hpasses)]
    rfl

/-- A text is read as a token. -/
def ReadsAs (parse : Text → Option F) (s : Text) (token : CssToken F) (behind : Text) : Prop :=
  ∃ ch rest, s = ch :: rest ∧ consumeToken parse ch rest = .ok (some token, behind)

theorem readsAs_punctuation {parse : Text → Option F} {ch : Char} {token : CssToken F} {rest : Text}
    (htoken : punctuation ch = token) (h : startsLonger ch rest = false) :
    ReadsAs parse (ch :: rest) token rest :=
  ⟨ch, rest, rfl, by rw [consumeToken_of_single h, htoken]⟩

theorem readsAs_number (numbers : ExactNumbers F) {n : Int} {rest behind : Text} {token : CssToken F}
    (h : rest.head?.any Char.isDigit = false ∧ (consumeFraction rest).1 = [] ∧
      (consumeExponent rest).1 = [])
    (htoken : (if rest.head? = some '%' then (.percentage (numbers.ofInt n), rest.tail)
      else if startsIdentSequence rest then
        (.dimension (numbers.ofInt n) (consumeIdent rest).1, (consumeIdent rest).2)
      else (.number (numbers.ofInt n), rest)) = (token, behind)) :
    ReadsAs numbers.parse (decimal n ++ rest) token behind := by
  have hstart := isNumberStart_decimal n rest
  have hspelling : numberSpelling (decimal n ++ rest) = (decimal n, rest) :=
    numberSpelling_decimal.mpr h
  have hvalue := numbers.parse_integer _ n (parseInteger_decimal n)
  cases hdecimal : decimal n ++ rest with
  | nil =>
    rw [hdecimal] at hstart
    cases hstart
  | cons ch more =>
    rw [hdecimal] at hstart hspelling
    refine ⟨ch, more, rfl, ?_⟩
    rw [consumeToken_of_isNumberStart hstart, consumeNumeric, consumeNumber, hspelling]
    dsimp only
    rw [hvalue]
    dsimp only [Except.map]
    rw [htoken]

theorem consumeFraction_of_head {rest : Text} (h : rest.head? ≠ some '.') : (consumeFraction rest).1 = [] := by
  rw [consumeFraction.eq_def]
  split
  next => exact absurd rfl h
  next => rfl

theorem consumeExponent_of_head {rest : Text} (h : ∀ ch, rest.head? = some ch → isIdentStart ch = false) :
    (consumeExponent rest).1 = [] := by
  cases rest with
  | nil => rfl
  | cons ch rest =>
    have hletter : ¬ (ch = 'e' ∨ ch = 'E') := by
      have hch := h ch rfl
      rintro (rfl | rfl) <;> cases hch
    rw [consumeExponent, if_neg hletter]

theorem head_isIdentStart {rest : Text} (h : startsIdentSequence rest = false) :
    ∀ ch, rest.head? = some ch → isIdentStart ch = false := by
  intro ch hch
  cases rest with
  | nil => cases hch
  | cons first rest =>
    obtain rfl := Option.some.inj hch
    rw [Bool.eq_false_iff]
    intro hstart
    rw [startsIdentSequence] at h
    · rw [hstart] at h
      cases h
    all_goals
      rintro rfl
      cases hstart

/-- A unit does not start as a fraction or a digit. -/
theorem head_of_startsIdent {unit rest : Text} (h : startsIdentSequence unit = true) :
    (unit ++ rest).head?.any Char.isDigit = false ∧ (unit ++ rest).head? ≠ some '.' ∧
      (unit ++ rest).head? ≠ some '%' := by
  cases unit with
  | nil => cases h
  | cons ch unit =>
    have hch : (ch == '-' || ch == '\\' || isIdentStart ch) = true := by
      rcases first_of_startsIdentSequence h with ⟨rfl, -⟩ | rfl | hstart
      · rfl
      · rfl
      · rw [hstart, Bool.or_true]
    refine ⟨Bool.eq_false_iff.mpr fun hdigit => ?_, fun hpoint => ?_, fun hpercent => ?_⟩
    · have hdigit' : ch.isDigit = true := hdigit
      rw [isIdentStart_of_isDigit hdigit', Bool.or_false, Bool.or_eq_true, beq_iff_eq, beq_iff_eq] at hch
      rcases hch with rfl | rfl <;> cases hdigit'
    · rw [Option.some.inj hpoint] at hch
      cases hch
    · rw [Option.some.inj hpercent] at hch
      cases hch

theorem consumeIdentLike_url {s ident behind : Text} {url : Text × Text}
    (hident : consumeIdent s = (ident, '(' :: behind))
    (hname : Text.eqIgnoreAsciiCase ident "url".toList = true)
    (hquote : (behind.dropWhile Text.isAsciiWhitespace).head?.any
      (fun ch => ch == '"' || ch == '\'') = false)
    (h : consumeUnquotedUrl (behind.dropWhile Text.isAsciiWhitespace) = .ok url) :
    @consumeIdentLike F s = .ok (.url url.1, url.2) := by
  simp only [consumeIdentLike, hident, hname, hquote, h, List.head?_cons, List.tail_cons,
    beq_self_eq_true, Bool.and_self, if_true, Bool.false_eq_true, if_false]
  rfl

/-- A token that stands is read in front of the text. -/
theorem readsAs_of_stands (numbers : ExactNumbers F) {token : CssToken F} {rest : Text}
    (hemitted : Emitted numbers token) (h : Stands token rest) :
    ReadsAs numbers.parse (renderToken numbers.trimmedNumber token ++ rest) token rest := by
  have hname : ∀ {value}, value.all isIdentChar = true → endsName rest = true →
      consumeIdent (value ++ rest) = (value, rest) := fun hvalue hends =>
    consumeIdentFrom_name hvalue hends (Nat.le_refl _)
  cases token with
  | ident value =>
    obtain ⟨hvalue, hstart, hends, hurl⟩ := h
    have hread := hname hvalue hends
    have hwhole := startsIdentSequence_append hvalue hends
    rw [hstart] at hwhole
    change ReadsAs numbers.parse (value ++ rest) _ _
    cases hs : value ++ rest with
    | nil =>
      rw [hs] at hwhole
      cases hwhole
    | cons ch more =>
      refine ⟨ch, more, rfl, ?_⟩
      rw [hs] at hread hwhole
      rw [consumeToken_of_startsIdent hwhole, consumeIdentLike, hread]
      dsimp only
      split
      next hparen =>
        rw [Bool.and_eq_true] at hparen
        split
        next => rfl
        next hquote =>
          refine absurd ⟨hparen.1, ?_⟩ hurl
          rw [opensUrl, hparen.2, Bool.eq_false_iff.mpr hquote]
          rfl
      next => rfl
  | atKeyword value =>
    refine ⟨'@', value ++ rest, rfl, ?_⟩
    rw [consumeToken, if_neg (by decide), if_neg (fun hboth => absurd hboth.1 (by decide)), if_pos rfl,
      hname h.1 h.2]
  | hash value =>
    refine ⟨'#', value ++ rest, rfl, ?_⟩
    rw [consumeToken, if_neg (by decide), if_neg (fun hboth => absurd hboth.1 (by decide)),
      if_neg (by decide), if_pos rfl, hname h.1 h.2]
  | string value =>
    refine ⟨'"', value ++ '"' :: rest, by simp [renderToken], ?_⟩
    have hread : consumeString '"' (value ++ '"' :: rest) = .ok (value, rest) :=
      consumeStringFrom_text (fun ch hch => ⟨(h ch hch).1, (h ch hch).2.1⟩)
        (by rw [List.length_append]; omega)
    rw [consumeToken, if_neg (by decide), if_neg (fun hboth => absurd hboth.1 (by decide)),
      if_neg (by decide), if_neg (by decide), if_pos (.inl rfl), hread]
    rfl
  | url value =>
    obtain ⟨-, hblank, hquote, hurl⟩ := hemitted
    have hstart : startsIdentSequence ('u' :: 'r' :: 'l' :: '(' :: (value ++ ')' :: rest)) = true := rfl
    have hident : consumeIdent ("url".toList ++ '(' :: (value ++ ')' :: rest)) =
        ("url".toList, '(' :: (value ++ ')' :: rest)) :=
      consumeIdentFrom_name (by decide) rfl (Nat.le_refl _)
    have hdrop : (value ++ ')' :: rest).dropWhile Text.isAsciiWhitespace = value ++ ')' :: rest := by
      cases value with
      | nil => rfl
      | cons ch value => exact List.dropWhile_cons_of_neg (Bool.eq_false_iff.mp hblank)
    have hunquoted : (value ++ ')' :: rest).head?.any (fun ch => ch == '"' || ch == '\'') = false := by
      cases value with
      | nil => rfl
      | cons ch value => exact hquote
    refine ⟨'u', 'r' :: 'l' :: '(' :: (value ++ ')' :: rest), by simp [renderToken], ?_⟩
    change consumeIdent ('u' :: 'r' :: 'l' :: '(' :: (value ++ ')' :: rest)) = _ at hident
    have hread : @consumeIdentLike F _ = _ := consumeIdentLike_url hident (by decide)
      (by rw [hdrop]; exact hunquoted) (by rw [hdrop]; exact hurl rest)
    rw [consumeToken_of_startsIdent hstart, hread]
    rfl
  | number value =>
    obtain ⟨n, rfl⟩ := hemitted
    obtain ⟨hdigit, hfraction, hpercent, hstart⟩ := h
    change ReadsAs numbers.parse (numbers.trimmedNumber _ ++ rest) _ _
    rw [numbers.trimmedNumber_ofInt]
    refine readsAs_number numbers ⟨hdigit, hfraction, ?_⟩ ?_
    · exact consumeExponent_of_head (head_isIdentStart hstart)
    · rw [if_neg hpercent, hstart, if_neg (by decide)]
  | percentage value =>
    obtain ⟨n, rfl⟩ := hemitted
    change ReadsAs numbers.parse (numbers.trimmedNumber _ ++ ['%'] ++ rest) _ _
    rw [numbers.trimmedNumber_ofInt, List.append_assoc]
    exact readsAs_number numbers ⟨rfl, rfl, rfl⟩ rfl
  | dimension value unit =>
    obtain ⟨n, rfl⟩ := hemitted
    obtain ⟨hunit, hstart, hends, hexponent⟩ := h
    change ReadsAs numbers.parse (numbers.trimmedNumber _ ++ unit ++ rest) _ _
    rw [numbers.trimmedNumber_ofInt, List.append_assoc]
    obtain ⟨hdigit, hpoint, hpercent⟩ := @head_of_startsIdent unit rest hstart
    have hwhole := startsIdentSequence_append hunit hends
    refine readsAs_number numbers ⟨hdigit, consumeFraction_of_head hpoint, ?_⟩ ?_
    · simpa [startsExponent] using hexponent
    · rw [if_neg hpercent, hwhole, if_pos hstart, hname hunit hends]
  | delim ch => exact readsAs_punctuation hemitted.1 h
  | whitespace =>
    refine ⟨' ', rest, rfl, ?_⟩
    have hdrop : rest.dropWhile Text.isAsciiWhitespace = rest := by
      cases rest with
      | nil => rfl
      | cons ch rest => exact List.dropWhile_cons_of_neg (Bool.eq_false_iff.mp h)
    rw [consumeToken, if_pos (by decide), hdrop]
  | colon => exact @readsAs_punctuation _ _ ':' _ _ rfl rfl
  | semicolon => exact @readsAs_punctuation _ _ ';' _ _ rfl rfl
  | comma => exact @readsAs_punctuation _ _ ',' _ _ rfl rfl
  | curlyOpen => exact @readsAs_punctuation _ _ '{' _ _ rfl rfl
  | curlyClose => exact @readsAs_punctuation _ _ '}' _ _ rfl rfl
  | parenOpen => exact @readsAs_punctuation _ _ '(' _ _ rfl rfl
  | parenClose => exact @readsAs_punctuation _ _ ')' _ _ rfl rfl
  | bracketOpen => exact @readsAs_punctuation _ _ '[' _ _ rfl rfl
  | bracketClose => exact @readsAs_punctuation _ _ ']' _ _ rfl rfl

/-! ## All tokens -/

theorem renderTokens_cons (trimmedNumber : F → Text) (token : CssToken F) (tokens : List (CssToken F)) :
    renderTokens trimmedNumber (token :: tokens) =
      renderToken trimmedNumber token ++ renderTokens trimmedNumber tokens := by
  rw [renderTokens, renderTokens, List.flatMap_cons]

theorem isFiltered_of_isIdentChar {value : Text} (h : value.all isIdentChar = true) : IsFiltered value := by
  intro ch hch
  rw [Bool.eq_false_iff]
  intro hfiltered
  have hident := List.all_eq_true.mp h ch hch
  simp only [isFiltered, Bool.or_eq_true, beq_iff_eq] at hfiltered
  rcases hfiltered with (rfl | rfl) | rfl <;> cases hident

theorem IsFiltered.append {s t : Text} (hs : IsFiltered s) (ht : IsFiltered t) : IsFiltered (s ++ t) :=
  fun ch hch => (List.mem_append.mp hch).elim (hs ch) (ht ch)

theorem isFiltered_decimal (n : Int) : IsFiltered (decimal n) := by
  intro ch hch
  rw [Bool.eq_false_iff]
  intro hfiltered
  have hdigit := mem_decimal hch
  simp only [isFiltered, Bool.or_eq_true, beq_iff_eq] at hfiltered
  rcases hfiltered with (rfl | rfl) | rfl <;> exact absurd hdigit (by decide)

/-- Nothing is replaced in a token that stands. -/
theorem isFiltered_renderToken (numbers : ExactNumbers F) {token : CssToken F} {rest : Text}
    (hemitted : Emitted numbers token) (h : Stands token rest) :
    IsFiltered (renderToken numbers.trimmedNumber token) := by
  have hclosed : ∀ s : Text, s.all (fun ch => !isFiltered ch) = true → IsFiltered s := by
    intro s hs ch hch
    exact (Bool.not_eq_true' _).mp (List.all_eq_true.mp hs ch hch)
  cases token with
  | ident value => exact isFiltered_of_isIdentChar h.1
  | atKeyword value | hash value =>
    exact IsFiltered.append (hclosed [_] (by decide)) (isFiltered_of_isIdentChar h.1)
  | string value =>
    exact IsFiltered.append (hclosed ['"'] (by decide))
      (IsFiltered.append (fun ch hch => (h ch hch).2.2) (hclosed ['"'] (by decide)))
  | url value =>
    exact IsFiltered.append (IsFiltered.append (hclosed "url(".toList (by decide)) hemitted.1)
      (hclosed [')'] (by decide))
  | number value =>
    obtain ⟨n, rfl⟩ := hemitted
    rw [renderToken, numbers.trimmedNumber_ofInt]
    exact isFiltered_decimal n
  | percentage value =>
    obtain ⟨n, rfl⟩ := hemitted
    rw [renderToken, numbers.trimmedNumber_ofInt]
    exact IsFiltered.append (isFiltered_decimal n) (hclosed ['%'] (by decide))
  | dimension value unit =>
    obtain ⟨n, rfl⟩ := hemitted
    rw [renderToken, numbers.trimmedNumber_ofInt]
    exact IsFiltered.append (isFiltered_decimal n) (isFiltered_of_isIdentChar h.1)
  | delim ch => exact List.forall_mem_singleton.mpr hemitted.2.1
  | _ => exact hclosed _ rfl

theorem isFiltered_of_allStand (numbers : ExactNumbers F) : ∀ {tokens : List (CssToken F)},
    (∀ token ∈ tokens, Emitted numbers token) → AllStand numbers.trimmedNumber tokens →
    IsFiltered (renderTokens numbers.trimmedNumber tokens)
  | [], _, _ => fun _ hch => nomatch hch
  | token :: tokens, hemitted, hall => by
    rw [renderTokens_cons]
    exact IsFiltered.append (isFiltered_renderToken numbers (hemitted token List.mem_cons_self) hall.1)
      (isFiltered_of_allStand numbers (fun other hother => hemitted other (List.mem_cons_of_mem token hother))
        hall.2)

/-- Tokens that stand are read. -/
theorem tokenizeFrom_of_allStand (numbers : ExactNumbers F) : ∀ {tokens : List (CssToken F)} {passes : Nat},
    (∀ token ∈ tokens, Emitted numbers token) → AllStand numbers.trimmedNumber tokens →
    (renderTokens numbers.trimmedNumber tokens).length ≤ passes →
    tokenizeFrom numbers.parse passes (renderTokens numbers.trimmedNumber tokens) = .ok tokens
  | [], passes, _, _, _ => by
    rw [renderTokens, List.flatMap_nil, tokenizeFrom]
    intro _ _ _ _ heq
    cases heq
  | token :: tokens, passes, hemitted, hall, hpasses => by
    obtain ⟨ch, rest, hsplit, hread⟩ :=
      readsAs_of_stands numbers (hemitted token List.mem_cons_self) hall.1
    rw [renderTokens_cons, hsplit] at hpasses ⊢
    obtain ⟨passes, rfl, hlength⟩ := exists_pass hpasses
    have hshort := (readToken hread).suffix.length_le
    have ih := tokenizeFrom_of_allStand numbers
      (fun other hother => hemitted other (List.mem_cons_of_mem token hother)) hall.2
      (hshort.trans hlength)
    rw [tokenizeFrom, hread]
    dsimp only
    rw [ih]
    rfl

/-! ## Only what is written is read -/

theorem number_whole (numbers : ExactNumbers F) {n : Int} {spelling behind more unit : Text}
    (hvalue : numbers.parse spelling = some (numbers.ofInt n))
    (hpart : spelling ++ (behind ++ more) <:+ decimal n ++ unit) (hlength : unit.length ≤ behind.length) :
    spelling = decimal n ∧ behind = unit ∧ more = [] := by
  have hunit : unit <:+ behind ++ more :=
    List.suffix_of_suffix_length_le (List.suffix_append _ _) ((List.suffix_append _ _).trans hpart)
      (by rw [List.length_append]; omega)
  obtain ⟨front, hfront⟩ := hunit
  obtain ⟨before, hbefore⟩ := hpart
  have hdecimal : spelling ++ front <:+ decimal n := by
    have hcancel : before ++ (spelling ++ front) ++ unit = decimal n ++ unit → _ :=
      List.append_cancel_right
    refine ⟨before, hcancel ?_⟩
    rw [← hbefore, ← hfront]
    simp only [List.append_assoc]
  obtain ⟨hspelling, rfl⟩ := spelling_eq_decimal numbers hvalue hdecimal rfl
  rw [List.nil_append] at hfront
  have hsum := congrArg List.length hfront
  rw [List.length_append] at hsum
  obtain rfl : more = [] := List.length_eq_zero_iff.mp (by omega)
  exact ⟨hspelling, by rw [hfront, List.append_nil], rfl⟩

/-- A string that is read as it is written has no quotes and no escapes. -/
theorem string_of_consumeStringFrom {quote : Char} : ∀ {value rest : Text} {passes : Nat},
    IsFiltered (value ++ quote :: rest) →
    consumeStringFrom quote passes (value ++ quote :: rest) = .ok (value, rest) →
    ∀ ch ∈ value, ch ≠ quote ∧ ch ≠ '\\'
  | [], _, _, _, _ => List.forall_mem_nil _
  | ch :: value, rest, 0, _, hread => by
    rw [consumeStringFrom] at hread
    · cases hread
    · intro _ _ _ heq
      cases heq
  | ch :: value, rest, passes + 1, hs, hread => by
    rw [List.cons_append] at hs hread
    rw [consumeStringFrom] at hread
    split at hread
    next => exact absurd (congrArg Prod.fst (Except.ok.inj hread)) (List.cons_ne_nil _ _).symm
    next hquote =>
      split at hread
      next hslash =>
        -- an escape takes more of the text than the character that is read
        obtain ⟨inner, hinner, heq⟩ := map_eq_ok hread
        obtain ⟨hchar, hvalue⟩ := List.cons.inj (congrArg Prod.fst heq)
        have hrest := congrArg Prod.snd heq
        dsimp only at hvalue hrest
        have hlength := outweighs_one.consumeStringFrom
          (hs.tail.suffix (consumeCssEscape_suffix (value ++ quote :: rest))) hinner
        rw [← hvalue, ← hrest, weigh_one, weigh_one, weigh_one] at hlength
        cases hbehind : value ++ quote :: rest with
        | nil => exact absurd hbehind (by simp)
        | cons next more =>
          have hshort := consumeCssEscape_length next more
          rw [← hbehind, List.length_append, List.length_cons] at hshort
          omega
      next hslash =>
        obtain ⟨inner, hinner, heq⟩ := map_eq_ok hread
        obtain ⟨-, hvalue⟩ := List.cons.inj (congrArg Prod.fst heq)
        have hrest := congrArg Prod.snd heq
        have hboth : inner = (value, rest) := Prod.ext hvalue.symm hrest.symm
        rw [hboth] at hinner
        exact List.forall_mem_cons.mpr ⟨⟨hquote, hslash⟩,
          string_of_consumeStringFrom hs.tail hinner⟩

/-- A part of a token that is long enough is all of it. -/
theorem whole_of_length {part tail behind whole s : Text} (hsplit : s = part ++ tail)
    (hpart : part <:+ whole) (htail : tail <:+ behind)
    (h : whole.length + behind.length ≤ s.length) : part = whole ∧ behind = tail := by
  have hle := hpart.length_le
  have hle' := htail.length_le
  rw [hsplit, List.length_append] at h
  exact ⟨hpart.eq_of_length (by omega), (htail.eq_of_length (by omega)).symm⟩


theorem stands_whitespace {rest : Text} :
    Stands (.whitespace : CssToken F) (rest.dropWhile Text.isAsciiWhitespace) := by
  have hhead := List.head?_dropWhile_not Text.isAsciiWhitespace rest
  unfold Stands
  dsimp only
  revert hhead
  cases (rest.dropWhile Text.isAsciiWhitespace).head? with
  | none => exact fun _ => rfl
  | some ch => exact id

theorem stands_punctuation {ch : Char} {rest : Text} (h : startsLonger ch rest = false) :
    Stands (punctuation ch : CssToken F) rest := by
  have hrender : renderToken (fun _ => []) (punctuation ch : CssToken F) = [ch] :=
    renderToken_punctuation (fun _ => []) ch
  have hsingle : (punctuation ch : CssToken F).IsSingle := punctuation_isSingle ch
  cases htoken : (punctuation ch : CssToken F) with
  | delim other =>
    rw [htoken] at hrender
    obtain rfl : other = ch := (List.cons.inj hrender).1
    exact h
  | ident | atKeyword | hash | string | number | dimension | whitespace =>
    rw [htoken] at hsingle
    exact absurd hsingle id
  | _ => trivial

/-- A name that is read as it is written. -/
theorem name_of_consumeIdent {rest : Text} (hs : IsFiltered rest)
    (h : rest = (consumeIdent rest).1 ++ (consumeIdent rest).2) :
    (consumeIdent rest).1.all isIdentChar = true ∧ endsName (consumeIdent rest).2 = true := by
  refine @name_of_consumeIdentFrom _ _ rest.length ?_ ?_ ?_
  · rw [← h]
  · rwa [← h]
  · rw [← h]
    rfl

/-- A number with its unit that is read from a part of what it is written as. -/
theorem number_of_part (numbers : ExactNumbers F) {n : Int}
    {s spelling part tail middle behind unit : Text}
    (hspelling : numberSpelling s = (spelling, middle ++ behind))
    (hvalue : numbers.parse spelling = some (numbers.ofInt n)) (hsplit : s = part ++ tail)
    (hpart : part <:+ decimal n ++ unit) (htail : tail <:+ behind)
    (hlength : unit.length ≤ middle.length) :
    spelling = decimal n ∧ middle = unit ∧ part = decimal n ++ unit ∧ behind = tail := by
  obtain ⟨more, rfl⟩ := htail
  have happend := numberSpelling_append s
  rw [hspelling, hsplit] at happend
  have hparts : spelling ++ (middle ++ more) = part := by
    refine (List.append_cancel_right : _ ++ tail = part ++ tail → _) ?_
    rw [← happend]
    simp only [List.append_assoc]
  subst hparts
  obtain ⟨hdecimal, hunit, rfl⟩ := number_whole numbers hvalue hpart hlength
  rw [List.append_nil]
  exact ⟨hdecimal, hunit, by rw [hdecimal, hunit], rfl⟩

/-- An address is read to the end of the text without its parenthesis, but its name is complete. -/
theorem url_of_part (numbers : ExactNumbers F) {s name behind part tail : Text} {url : Text × Text}
    (hemitted : Emitted numbers (.url url.1)) (hident : consumeIdent s = (name, '(' :: behind))
    (hname : Text.eqIgnoreAsciiCase name "url".toList = true)
    (hurl : consumeUnquotedUrl (behind.dropWhile Text.isAsciiWhitespace) = .ok url)
    (hsplit : s = part ++ tail) (hpart : part <:+ renderToken numbers.trimmedNumber (.url url.1))
    (htail : tail <:+ url.2) (hlength : ("url(".toList ++ url.1).length + url.2.length ≤ s.length) :
    part = renderToken numbers.trimmedNumber (.url url.1) ∧ url.2 = tail := by
  have hletters : name.length = 3 := by
    have hlower := congrArg List.length (Text.eqIgnoreAsciiCase_iff.mp hname)
    rwa [Text.toAsciiLowercase, Text.toAsciiLowercase, List.length_map, List.length_map] at hlower
  have hpartLength : 4 + url.1.length ≤ part.length := by
    have hle := htail.length_le
    rw [hsplit, List.length_append, List.length_append] at hlength
    have hfour : "url(".toList.length = 4 := rfl
    omega
  have hread : ∀ rest : Text, rest = url.1 ++ ')' :: tail →
      consumeIdent ("url".toList ++ '(' :: rest) = ("url".toList, '(' :: rest) ∧
        consumeIdent ("rl".toList ++ '(' :: rest) = ("rl".toList, '(' :: rest) := fun rest _ =>
    ⟨consumeIdentFrom_name (by decide) rfl (Nat.le_refl _),
      consumeIdentFrom_name (by decide) rfl (Nat.le_refl _)⟩
  obtain ⟨hfull, hshort⟩ := hread _ rfl
  have hrender : renderToken numbers.trimmedNumber (.url url.1) = 'u' :: ("rl(".toList ++ url.1 ++ [')']) :=
    rfl
  rw [hrender] at hpart ⊢
  have hend : ∀ front : Text, front ++ url.1 ++ [')'] ++ tail = front ++ (url.1 ++ ')' :: tail) := by
    intro front
    simp
  rcases List.suffix_cons_iff.mp hpart with rfl | hpart
  · obtain ⟨-, hblank, -, hunquoted⟩ := hemitted
    have hsame : s = "url".toList ++ '(' :: (url.1 ++ ')' :: tail) := by
      rw [hsplit]
      exact congrArg ('u' :: ·) (hend "rl(".toList)
    rw [hsame, hfull] at hident
    obtain rfl : url.1 ++ ')' :: tail = behind := (List.cons.inj (Prod.mk.inj hident).2).2
    have hdrop : (url.1 ++ ')' :: tail).dropWhile Text.isAsciiWhitespace = url.1 ++ ')' :: tail := by
      cases hvalue : url.1 with
      | nil => rfl
      | cons ch value =>
        rw [hvalue] at hblank
        exact List.dropWhile_cons_of_neg (Bool.eq_false_iff.mp hblank)
    rw [hdrop, hunquoted tail] at hurl
    exact ⟨rfl, congrArg Prod.snd (Except.ok.inj hurl).symm⟩
  · -- the first letter is missing
    have hall : part = "rl(".toList ++ url.1 ++ [')'] := by
      refine hpart.eq_of_length ?_
      have hle := hpart.length_le
      have hthree : "rl(".toList.length = 3 := rfl
      simp only [List.length_append, List.length_singleton] at hle ⊢
      omega
    have hsame : s = "rl".toList ++ '(' :: (url.1 ++ ')' :: tail) := by
      rw [hsplit, hall]
      exact hend "rl(".toList
    rw [hsame, hshort] at hident
    rw [← (Prod.mk.inj hident).1] at hletters
    exact absurd hletters (by decide)

/-- The spelling of a number that is read in front of something else. -/
theorem split_of_numberSpelling {ch : Char} {rest spelling behind : Text}
    (h : numberSpelling (ch :: rest) = (spelling, behind)) : ch :: rest = spelling ++ behind := by
  have happend := numberSpelling_append (ch :: rest)
  rw [h] at happend
  exact happend.symm

/-- A token that is read from a part of what it is written as is read from all of it. -/
theorem ReadToken.whole (numbers : ExactNumbers F) {ch : Char} {rest behind part tail : Text}
    {token : CssToken F} (hs : IsFiltered (ch :: rest)) (hemitted : Emitted numbers token)
    (hread : ReadToken numbers.parse ch rest (some token) behind) (hsplit : ch :: rest = part ++ tail)
    (hpart : part <:+ renderToken numbers.trimmedNumber token) (htail : tail <:+ behind) :
    part = renderToken numbers.trimmedNumber token ∧ behind = tail ∧ Stands token tail := by
  have hlength := outweighs_one.readToken hs hread
  rw [weigh_one, weigh_one, weigh_one] at hlength
  have hwhole (hsame : token.essence = renderToken numbers.trimmedNumber token) :
      part = renderToken numbers.trimmedNumber token ∧ behind = tail := by
    refine whole_of_length hsplit hpart htail ?_
    rw [← hsame]
    exact hlength
  cases hread with
  | whitespace =>
    obtain ⟨hpart, rfl⟩ := hwhole rfl
    exact ⟨hpart, rfl, stands_whitespace⟩
  | atKeyword | hash =>
    obtain ⟨hpart, htail⟩ := hwhole rfl
    rw [hpart, ← htail] at hsplit
    rw [← htail]
    exact ⟨hpart, rfl, name_of_consumeIdent hs.tail (List.cons.inj hsplit).2⟩
  | @string _ _ value _ hquote hstring =>
    obtain ⟨hpart, rfl⟩ := hwhole rfl
    rw [hpart] at hsplit
    obtain ⟨rfl, hrest⟩ := List.cons.inj hsplit
    obtain rfl : rest = value ++ '"' :: behind := by simpa using hrest
    refine ⟨hpart, rfl, fun other hother => ?_⟩
    obtain ⟨hdouble, hslash⟩ := string_of_consumeStringFrom hs.tail hstring other hother
    exact ⟨hdouble, hslash, hs.tail other (List.mem_append_left _ hother)⟩
  | percentage hstart hspelling hvalue =>
    obtain ⟨n, rfl⟩ := hemitted
    rw [renderToken, numbers.trimmedNumber_ofInt] at hpart ⊢
    obtain ⟨-, -, hwhole, hbehind⟩ := number_of_part numbers
      (show _ = (_, ['%'] ++ behind) from hspelling) hvalue hsplit hpart htail (Nat.le_refl _)
    exact ⟨hwhole, hbehind, trivial⟩
  | @dimension _ _ spelling more _ hstart hspelling hvalue hunit =>
    obtain ⟨n, rfl⟩ := hemitted
    rw [renderToken, numbers.trimmedNumber_ofInt] at hpart ⊢
    obtain ⟨middle, hmiddle⟩ := consumeIdentFrom_suffix more.length more
    change middle ++ (consumeIdent more).2 = more at hmiddle
    have hmore : IsFiltered more := by
      have hsuffix := (numberSpelling_spec hstart).2
      rw [hspelling] at hsuffix
      exact hs.tail.suffix hsuffix
    have hunitLength : (consumeIdent more).1.length ≤ middle.length := by
      have hident := outweighs_one.consumeIdentFrom more.length hmore
      have hsum := congrArg List.length hmiddle
      rw [weigh_one, weigh_one, weigh_one] at hident
      rw [List.length_append] at hsum
      change (consumeIdent more).1.length + (consumeIdent more).2.length ≤ more.length at hident
      omega
    obtain ⟨hdecimal, hname, hwhole, hbehind⟩ := number_of_part numbers
      (hmiddle.symm ▸ hspelling) hvalue hsplit hpart htail hunitLength
    rw [hname] at hmiddle
    obtain ⟨hchars, hends⟩ := name_of_consumeIdent hmore hmiddle.symm
    have hstart' := startsIdentSequence_append hchars hends
    rw [hmiddle, hunit] at hstart'
    have hnumber : numberSpelling (decimal n ++ more) = (decimal n, more) := by
      rw [← hdecimal, ← split_of_numberSpelling hspelling, hspelling]
    have hexponent := (numberSpelling_decimal.mp hnumber).2.2
    refine ⟨hwhole, hbehind, hchars, hstart'.symm, ?_⟩
    rw [← hbehind, hmiddle, startsExponent, hexponent]
    exact ⟨hends, rfl⟩
  | number hstart hspelling hvalue hpercent hunit =>
    obtain ⟨n, rfl⟩ := hemitted
    rw [renderToken, numbers.trimmedNumber_ofInt] at hpart ⊢
    obtain ⟨hdecimal, -, hall, hbehind⟩ := number_of_part numbers
      (show _ = (_, [] ++ behind) from hspelling) hvalue hsplit
        (show _ <:+ decimal n ++ [] by rwa [List.append_nil]) htail (Nat.le_refl _)
    rw [List.append_nil] at hall
    have hnumber : numberSpelling (decimal n ++ behind) = (decimal n, behind) := by
      rw [← hdecimal, ← split_of_numberSpelling hspelling, hspelling]
    obtain ⟨hdigit, hfraction, -⟩ := numberSpelling_decimal.mp hnumber
    subst hbehind
    exact ⟨hall, rfl, hdigit, hfraction, hpercent, hunit⟩
  | url hstart hident hname hquote hurl =>
    obtain ⟨hpart, hbehind⟩ := url_of_part numbers hemitted hident hname hurl hsplit hpart htail hlength
    exact ⟨hpart, hbehind, trivial⟩
  | ident hstart hname =>
    obtain ⟨hpart, htail⟩ := hwhole rfl
    rw [hpart, ← htail] at hsplit
    have happend : ch :: rest = (consumeIdent (ch :: rest)).1 ++ (consumeIdent (ch :: rest)).2 := hsplit
    obtain ⟨hchars, hends⟩ := name_of_consumeIdent hs happend
    have hstart' := startsIdentSequence_append hchars hends
    rw [← happend, hstart] at hstart'
    refine ⟨hpart, htail, hchars, hstart'.symm, htail ▸ hends, ?_⟩
    rintro ⟨hurl, hopens⟩
    rw [← htail] at hopens
    cases hbehind : (consumeIdent (ch :: rest)).2 with
    | nil =>
      rw [hbehind] at hopens
      cases hopens
    | cons paren more =>
      rw [hbehind, opensUrl, Bool.and_eq_true, Bool.not_eq_true', beq_iff_eq] at hopens
      obtain rfl := Option.some.inj hopens.1
      have hquote := hname more hbehind hurl
      rw [List.tail_cons] at hopens
      rw [hopens.2] at hquote
      cases hquote
  | single hlonger htoken =>
    subst htoken
    obtain ⟨hpart, rfl⟩ := hwhole (by rw [essence_punctuation, renderToken_punctuation])
    exact ⟨hpart, rfl, stands_punctuation hlonger⟩

/-! ## Rendered tokens -/

/-- What is read from the end of what tokens are written as is all of it, and they stand. -/
theorem allStand_of_tokenizeFrom (numbers : ExactNumbers F) : ∀ {tokens : List (CssToken F)} {passes : Nat}
    {s : Text}, (∀ token ∈ tokens, Emitted numbers token) →
    IsFiltered (renderTokens numbers.trimmedNumber tokens) →
    s <:+ renderTokens numbers.trimmedNumber tokens →
    tokenizeFrom numbers.parse passes s = .ok tokens →
    s = renderTokens numbers.trimmedNumber tokens ∧ AllStand numbers.trimmedNumber tokens
  | [], _, _, _, _, hs, _ => ⟨List.suffix_nil.mp hs, trivial⟩
  | token :: tokens, passes, s, hemitted, hfiltered, hs, h => by
    obtain ⟨ch, rest, behind, passes', hsuffix, hread, hmore⟩ := tokenizeFrom_cons h
    rw [renderTokens_cons] at hfiltered hs ⊢
    have hends := hsuffix.trans hs
    have hbehind := (hread.suffix.trans (List.suffix_cons ch rest)).trans hends
    have hrender := List.suffix_append (renderToken numbers.trimmedNumber token)
      (renderTokens numbers.trimmedNumber tokens)
    have ih : ∀ {s}, s <:+ renderTokens numbers.trimmedNumber tokens →
        tokenizeFrom numbers.parse passes' s = .ok tokens →
        s = renderTokens numbers.trimmedNumber tokens ∧ AllStand numbers.trimmedNumber tokens :=
      allStand_of_tokenizeFrom numbers
        (fun other hother => hemitted other (List.mem_cons_of_mem token hother))
        (hfiltered.suffix hrender)
    have htail : renderTokens numbers.trimmedNumber tokens <:+ behind := by
      rcases Nat.le_total behind.length (renderTokens numbers.trimmedNumber tokens).length with hle | hle
      · have hshort := List.suffix_of_suffix_length_le hbehind hrender hle
        rw [(ih hshort hmore).1]
      · exact List.suffix_of_suffix_length_le hrender hbehind hle
    obtain ⟨part, hsplit⟩ := htail.trans (hread.suffix.trans (List.suffix_cons ch rest))
    have hpart : part <:+ renderToken numbers.trimmedNumber token := by
      obtain ⟨before, hbefore⟩ := hends
      rw [← hsplit, ← List.append_assoc] at hbefore
      exact ⟨before, List.append_cancel_right hbefore⟩
    obtain ⟨hwhole, hsame, hstands⟩ := hread.whole numbers (hfiltered.suffix hends)
      (hemitted token List.mem_cons_self) hsplit.symm hpart htail
    rw [hsame] at hmore
    rw [← hsplit, hwhole] at hsuffix
    exact ⟨hs.eq_of_length_le hsuffix.length_le, hstands, (ih (List.suffix_refl _) hmore).2⟩

/-! ## Filtered characters of tokens -/

theorem tokenWeight_eq {s : Text} (h : weigh tokenWeight s ≤ weigh textWeight s) : IsFiltered s := by
  induction s with
  | nil => exact fun _ hch => nomatch hch
  | cons ch s ih =>
    have hle : ∀ s, weigh textWeight s ≤ weigh tokenWeight s := by
      intro s
      induction s with
      | nil => exact Nat.le_refl 0
      | cons ch s ih => exact Nat.add_le_add (Nat.le_add_right ..) ih
    rw [weigh_cons, weigh_cons, tokenWeight] at h
    have hrest := hle s
    have hch : isFiltered ch = false := by
      rw [Bool.eq_false_iff]
      intro hfiltered
      rw [if_pos hfiltered] at h
      omega
    exact List.forall_mem_cons.mpr ⟨hch, ih (by omega)⟩

theorem weigh_preprocessInput (input : Text) :
    weigh textWeight (preprocessInput input) ≤ weigh textWeight input := by
  induction input using preprocessInput.induct with
  | case1 rest ih =>
    rw [preprocessInput]
    simp only [weigh_cons]
    omega
  | case2 ch rest hpair ih =>
    rw [preprocessInput]
    · have hch : textWeight (if ch = '\r' ∨ ch = '\x0C' then '\n'
          else if ch = '\x00' then Char.ofNat 0xfffd else ch) ≤ textWeight ch := by
        split
        next hline => rcases hline with rfl | rfl <;> decide
        next =>
          split
          next hnull =>
            subst hnull
            decide
          next => exact Nat.le_refl _
      simp only [weigh_cons]
      omega
    · exact hpair
  | case3 => exact Nat.le_refl _

/-- What tokens need in the text that they are read from. -/
theorem Outweighs.tokenizeFrom {parse : Text → Option F} {v w : Char → Nat} (h : Outweighs v w) :
    ∀ {tokens : List (CssToken F)} {passes : Nat} {s : Text}, IsFiltered s →
    tokenizeFrom parse passes s = .ok tokens → weigh v (tokens.flatMap CssToken.essence) ≤ weigh w s
  | [], _, _, _, _ => Nat.zero_le _
  | token :: tokens, passes, s, hs, hread => by
    obtain ⟨ch, rest, behind, passes', hsuffix, hfirst, hmore⟩ := tokenizeFrom_cons hread
    have hchars := hs.suffix hsuffix
    have hone := h.readToken hchars hfirst
    have hrest := h.tokenizeFrom (hchars.tail.suffix hfirst.suffix) hmore
    have hall := weigh_suffix w hsuffix
    rw [List.flatMap_cons, weigh_append]
    change weigh v token.essence + _ ≤ _ at hone
    omega

theorem weigh_decimal (n : Int) : weigh textWeight (decimal n) = 0 := by
  have hlight : ∀ s : Text, (∀ ch ∈ s, ch.isDigit = true ∨ ch = '-') → weigh textWeight s = 0 := by
    intro s hs
    induction s with
    | nil => rfl
    | cons ch s ih =>
      have hch : textWeight ch = 0 := by
        rcases hs ch List.mem_cons_self with hdigit | rfl
        · rw [textWeight, isLight, hdigit]
          rfl
        · rfl
      rw [weigh_cons, hch, ih fun other hother => hs other (List.mem_cons_of_mem ch hother)]
  exact hlight _ fun ch hch => mem_decimal hch

/-- What a token is written as has the weight of what it needs, and nothing else that is replaced. -/
theorem renderToken_essence (numbers : ExactNumbers F) {token : CssToken F}
    (hemitted : Emitted numbers token) :
    weigh textWeight (renderToken numbers.trimmedNumber token) = weigh textWeight token.essence ∧
      (IsFiltered token.essence → IsFiltered (renderToken numbers.trimmedNumber token)) := by
  cases token with
  | url value =>
    have hclose : IsFiltered [')'] := List.forall_mem_singleton.mpr (by decide)
    refine ⟨weigh_append textWeight ("url(".toList ++ value) [')'], fun h => IsFiltered.append h hclose⟩
  | number value =>
    obtain ⟨n, rfl⟩ := hemitted
    rw [renderToken, numbers.trimmedNumber_ofInt]
    exact ⟨weigh_decimal n, fun _ => isFiltered_decimal n⟩
  | percentage value =>
    obtain ⟨n, rfl⟩ := hemitted
    rw [renderToken, numbers.trimmedNumber_ofInt, weigh_append, weigh_decimal, Nat.zero_add]
    exact ⟨rfl, IsFiltered.append (isFiltered_decimal n)⟩
  | dimension value unit =>
    obtain ⟨n, rfl⟩ := hemitted
    rw [renderToken, numbers.trimmedNumber_ofInt, weigh_append, weigh_decimal, Nat.zero_add]
    exact ⟨rfl, IsFiltered.append (isFiltered_decimal n)⟩
  | _ => exact ⟨rfl, id⟩

theorem renderTokens_essence (numbers : ExactNumbers F) : ∀ {tokens : List (CssToken F)},
    (∀ token ∈ tokens, Emitted numbers token) →
    weigh textWeight (renderTokens numbers.trimmedNumber tokens) =
        weigh textWeight (tokens.flatMap CssToken.essence) ∧
      (IsFiltered (tokens.flatMap CssToken.essence) →
        IsFiltered (renderTokens numbers.trimmedNumber tokens))
  | [], _ => ⟨rfl, fun _ _ hch => nomatch hch⟩
  | token :: tokens, hemitted => by
    obtain ⟨hweight, hfiltered⟩ := renderToken_essence numbers (hemitted token List.mem_cons_self)
    obtain ⟨hweights, hall⟩ := renderTokens_essence numbers fun other hother =>
      hemitted other (List.mem_cons_of_mem token hother)
    rw [renderTokens_cons, List.flatMap_cons, weigh_append, weigh_append, hweight, hweights]
    exact ⟨rfl, fun h => IsFiltered.append (hfiltered fun ch hch => h ch (List.mem_append_left _ hch))
      (hall (h.suffix (List.suffix_append _ _)))⟩

/-- Nothing is replaced in the text of tokens that are read again. -/
theorem isFiltered_of_tokenize (numbers : ExactNumbers F) {tokens : List (CssToken F)}
    (hemitted : ∀ token ∈ tokens, Emitted numbers token)
    (h : tokenize numbers.parse (renderTokens numbers.trimmedNumber tokens) = .ok tokens) :
    IsFiltered (renderTokens numbers.trimmedNumber tokens) := by
  obtain ⟨hweights, hfiltered⟩ := renderTokens_essence numbers hemitted
  refine hfiltered (tokenWeight_eq ?_)
  calc weigh tokenWeight (tokens.flatMap CssToken.essence)
      ≤ weigh textWeight (preprocessInput (renderTokens numbers.trimmedNumber tokens)) :=
        outweighs_filtered.tokenizeFrom (isFiltered_preprocessInput _) h
    _ ≤ weigh textWeight (renderTokens numbers.trimmedNumber tokens) := weigh_preprocessInput _
    _ = weigh textWeight (tokens.flatMap CssToken.essence) := hweights

theorem tokenize_renderTokens (numbers : ExactNumbers F) {tokens : List (CssToken F)}
    (hemitted : ∀ token ∈ tokens, Emitted numbers token) :
    tokenize numbers.parse (renderTokens numbers.trimmedNumber tokens) = .ok tokens ↔
      AllStand numbers.trimmedNumber tokens := by
  constructor
  · intro h
    have hfiltered := isFiltered_of_tokenize numbers hemitted h
    rw [tokenize, preprocessInput_of_isFiltered hfiltered] at h
    exact (allStand_of_tokenizeFrom numbers hemitted hfiltered (List.suffix_refl _) h).2
  · intro hall
    rw [tokenize, preprocessInput_of_isFiltered (isFiltered_of_allStand numbers hemitted hall)]
    exact tokenizeFrom_of_allStand numbers hemitted hall (Nat.le_refl _)

/-- A raw block is the text of the tokens in front of its closing brace. -/
theorem consumeRawBlock_spec {trimmedNumber : F → Text} : ∀ {tokens : List (CssToken F)} {depth : Nat}
    {block : Text × List (CssToken F)}, consumeRawBlock trimmedNumber depth tokens = some block →
    ∃ body, tokens = body ++ .curlyClose :: block.2 ∧ block.1 = renderTokens trimmedNumber body
  | [], _, _, h => nomatch h
  | token :: tokens, depth, block, h => by
    have hmore : ∀ {depth' text}, text = renderToken trimmedNumber token →
        (consumeRawBlock trimmedNumber depth' tokens).map (fun block => (text ++ block.1, block.2)) =
          some block →
        ∃ body, token :: tokens = body ++ .curlyClose :: block.2 ∧
          block.1 = renderTokens trimmedNumber body := by
      rintro depth' text rfl hblock
      obtain ⟨inner, hinner, rfl⟩ := Option.map_eq_some_iff.mp hblock
      obtain ⟨body, htokens, htext⟩ := consumeRawBlock_spec hinner
      refine ⟨token :: body, by rw [htokens]; rfl, ?_⟩
      rw [renderTokens_cons, htext]
    unfold consumeRawBlock at h
    split at h
    next heq => cases heq
    next heq =>
      obtain ⟨rfl, rfl⟩ := List.cons.inj heq
      exact hmore rfl h
    next heq =>
      obtain ⟨rfl, rfl⟩ := List.cons.inj heq
      split at h
      next =>
        cases h
        exact ⟨[], rfl, rfl⟩
      next => exact hmore rfl h
    next heq =>
      obtain ⟨rfl, rfl⟩ := List.cons.inj heq
      refine hmore ?_ h
      rw [renderTokens_cons]
      exact List.append_nil _

/-- The tokens of a text with integers are written and read again exactly if they all stand, and so are
those of a raw block. -/
theorem survives_iff (numbers : ExactNumbers F) {s : Text} {tokens : List (CssToken F)}
    (h : tokenize numbers.integers s = .ok tokens) :
    tokenize numbers.parse s = .ok tokens ∧
      (tokenize numbers.parse (renderTokens numbers.trimmedNumber tokens) = .ok tokens ↔
        AllStand numbers.trimmedNumber tokens) ∧
      ∀ before block text behind, tokens = before ++ block →
        consumeRawBlock numbers.trimmedNumber 1 block = some (text, behind) →
        ∃ body, block = body ++ .curlyClose :: behind ∧
          (tokenize numbers.parse text = .ok body ↔ AllStand numbers.trimmedNumber body) := by
  have hemitted := emitted_of_tokenizeFrom numbers (isFiltered_preprocessInput s) h
  refine ⟨tokenize_mono ?_ h, tokenize_renderTokens numbers hemitted, ?_⟩
  · intro spelling value hvalue
    obtain ⟨n, hn, rfl⟩ := Option.map_eq_some_iff.mp hvalue
    exact numbers.parse_integer spelling n hn
  · rintro before block text behind rfl hblock
    obtain ⟨body, rfl, htext⟩ := consumeRawBlock_spec hblock
    refine ⟨body, rfl, ?_⟩
    rw [show text = _ from htext]
    exact tokenize_renderTokens numbers fun token htoken =>
      hemitted token (List.mem_append_right before (List.mem_append_left _ htoken))

theorem isFloat_of_parseInteger {spelling : Text} {n : Int} (h : parseInteger spelling = some n) :
    IsFloat spelling := by
  have hdigits : ∀ {sign digits : Text} {n : Nat}, IsSignText sign → Text.parseDigits digits = some n →
      IsFloat (sign ++ digits) := by
    intro sign digits n hsign hparse
    obtain ⟨hne, hall, -⟩ := Text.parseDigits_eq_some.mp hparse
    have hfloat := @IsFloat.number sign digits [] [] hsign hall (.inl rfl) (.inl hne) (.inl rfl)
    rwa [List.append_nil, List.append_nil] at hfloat
  unfold parseInteger at h
  split at h
  next digits =>
    obtain ⟨value, hvalue, -⟩ := Option.map_eq_some_iff.mp h
    exact @hdigits ['-'] _ _ (.inr (.inr rfl)) (Option.filter_eq_some_iff.mp hvalue).1
  next =>
    obtain ⟨value, hvalue, -⟩ := Option.map_eq_some_iff.mp h
    exact hdigits (.inl rfl) hvalue

open Classical in
/-- Numbers that are integers: a number with a fraction or an exponent is zero. -/
noncomputable def integerNumbers : ExactNumbers Int where
  parse s := if IsFloat s then some ((parseInteger s).getD 0) else none
  accepts s := by
    split
    next h => exact iff_of_true rfl h
    next h => exact iff_of_false (fun hsome => nomatch hsome) h
  trimmedNumber := decimal
  ofInt := id
  parse_integer spelling n h := by
    rw [if_pos (isFloat_of_parseInteger h), h]
    rfl
  trimmedNumber_ofInt _ := rfl

theorem survives_keyframe :
    tokenize integerNumbers.integers "@a{b{c:-7px}}".toList = .ok [.atKeyword ['a'], .curlyOpen,
      .ident ['b'], .curlyOpen, .ident ['c'], .colon, .dimension (-7) "px".toList, .curlyClose,
      .curlyClose] ∧
    tokenize integerNumbers.parse "b{c:-7px}".toList = .ok [.ident ['b'], .curlyOpen, .ident ['c'],
      .colon, .dimension (-7) "px".toList, .curlyClose] := by
  have htokens : tokenize integerNumbers.integers "@a{b{c:-7px}}".toList = .ok [.atKeyword ['a'],
      .curlyOpen, .ident ['b'], .curlyOpen, .ident ['c'], .colon, .dimension (-7) "px".toList,
      .curlyClose, .curlyClose] := rfl
  obtain ⟨-, -, hblock⟩ := survives_iff integerNumbers htokens
  obtain ⟨body, hbody, hiff⟩ := hblock [.atKeyword ['a'], .curlyOpen] _ "b{c:-7px}".toList [] rfl rfl
  have hsplit : [.ident ['b'], .curlyOpen, .ident ['c'], .colon, .dimension (-7) "px".toList,
      .curlyClose] ++ [.curlyClose] = body ++ [.curlyClose] := hbody
  obtain rfl := List.append_cancel_right hsplit
  refine ⟨htokens, hiff.mpr ?_⟩
  refine ⟨⟨rfl, rfl, rfl, by decide⟩, trivial, ⟨rfl, rfl, rfl, by decide⟩, trivial, ⟨rfl, rfl, rfl, rfl⟩,
    trivial, trivial⟩

/-- A quote that is not escaped ends the string that it is in. -/
theorem quote_lost : ∃ tokens, tokenize integerNumbers.integers "'\"'".toList = .ok tokens ∧
    tokenize integerNumbers.parse (renderTokens integerNumbers.trimmedNumber tokens) ≠ .ok tokens :=
  ⟨[.string ['"']], rfl, fun h => nomatch h⟩

end Omoikane.Css
