import Omoikane.Base.Numerals
import Omoikane.Css.TokenizerErrors

/-!
# What a token is read from

`ReadToken` says which part of a text a token is read from, one case for each branch of the tokenizer.
A text that is read cannot be shorter than what the token is written as, but for numbers, whose
exponents make them short, and an address at the end of the text, which needs no parenthesis.
Lengths are weights here: a weight of the characters of the text, and one of those of the token.

The last sections say when a number, a name or an address is read from what it is written as.
-/

namespace Omoikane.Css

open Base

variable {F : Type} {parse : Text → Option F}

/-! ## The branches of the tokenizer -/

/-- A token of one character: punctuation, or a delimiter. -/
def CssToken.IsSingle : CssToken F → Prop
  | .colon | .semicolon | .comma | .curlyOpen | .curlyClose | .parenOpen | .parenClose
  | .bracketOpen | .bracketClose | .delim _ => True
  | _ => False

theorem punctuation_isSingle (ch : Char) : (punctuation ch : CssToken F).IsSingle := by
  unfold punctuation
  repeat' split
  all_goals trivial

/-- A character that starts an identifier or a number, white space, a string or another token that is
longer than one character. -/
def startsLonger (ch : Char) (rest : Text) : Bool :=
  Text.isAsciiWhitespace ch || ch == '@' || ch == '#' || ch == '"' || ch == '\'' ||
    (ch == '/' && rest.head? == some '*') || isNumberStart (ch :: rest) ||
      startsIdentSequence (ch :: rest)

/-- How `consumeToken` reads a token or a comment. -/
inductive ReadToken (parse : Text → Option F) : Char → Text → Option (CssToken F) → Text → Prop
  | whitespace {ch : Char} {rest : Text} (h : Text.isAsciiWhitespace ch = true) :
      ReadToken parse ch rest (some .whitespace) (rest.dropWhile Text.isAsciiWhitespace)
  | comment {rest behind : Text} (h : skipComment rest = some behind) :
      ReadToken parse '/' ('*' :: rest) none behind
  | atKeyword {rest : Text} :
      ReadToken parse '@' rest (some (.atKeyword (consumeIdent rest).1)) (consumeIdent rest).2
  | hash {rest : Text} :
      ReadToken parse '#' rest (some (.hash (consumeIdent rest).1)) (consumeIdent rest).2
  | string {quote : Char} {rest value behind : Text} (hquote : quote = '"' ∨ quote = '\'')
      (h : consumeString quote rest = .ok (value, behind)) :
      ReadToken parse quote rest (some (.string value)) behind
  | percentage {ch : Char} {rest spelling behind : Text} {value : F}
      (hstart : isNumberStart (ch :: rest) = true)
      (h : numberSpelling (ch :: rest) = (spelling, '%' :: behind)) (hvalue : parse spelling = some value) :
      ReadToken parse ch rest (some (.percentage value)) behind
  | dimension {ch : Char} {rest spelling behind : Text} {value : F}
      (hstart : isNumberStart (ch :: rest) = true)
      (h : numberSpelling (ch :: rest) = (spelling, behind)) (hvalue : parse spelling = some value)
      (hunit : startsIdentSequence behind = true) :
      ReadToken parse ch rest (some (.dimension value (consumeIdent behind).1)) (consumeIdent behind).2
  | number {ch : Char} {rest spelling behind : Text} {value : F}
      (hstart : isNumberStart (ch :: rest) = true)
      (h : numberSpelling (ch :: rest) = (spelling, behind)) (hvalue : parse spelling = some value)
      (hpercent : behind.head? ≠ some '%') (hunit : startsIdentSequence behind = false) :
      ReadToken parse ch rest (some (.number value)) behind
  | url {ch : Char} {rest ident behind : Text} {url : Text × Text}
      (hstart : startsIdentSequence (ch :: rest) = true)
      (hident : consumeIdent (ch :: rest) = (ident, '(' :: behind))
      (hname : Text.eqIgnoreAsciiCase ident "url".toList = true)
      (hquote : (behind.dropWhile Text.isAsciiWhitespace).head?.any
        (fun ch => ch == '"' || ch == '\'') = false)
      (h : consumeUnquotedUrl (behind.dropWhile Text.isAsciiWhitespace) = .ok url) :
      ReadToken parse ch rest (some (.url url.1)) url.2
  | ident {ch : Char} {rest : Text} (hstart : startsIdentSequence (ch :: rest) = true)
      (hname : ∀ behind, (consumeIdent (ch :: rest)).2 = '(' :: behind →
        Text.eqIgnoreAsciiCase (consumeIdent (ch :: rest)).1 "url".toList = true →
          (behind.dropWhile Text.isAsciiWhitespace).head?.any
            (fun ch => ch == '"' || ch == '\'') = true) :
      ReadToken parse ch rest (some (.ident (consumeIdent (ch :: rest)).1))
        (consumeIdent (ch :: rest)).2
  | single {ch : Char} {rest : Text} {token : CssToken F} (hlonger : startsLonger ch rest = false)
      (htoken : token = punctuation ch) : ReadToken parse ch rest (some token) rest

theorem readToken_number {ch : Char} {rest behind : Text} {token : CssToken F}
    (hstart : isNumberStart (ch :: rest) = true)
    (h : consumeNumeric parse (ch :: rest) = .ok (token, behind)) :
    ReadToken parse ch rest (some token) behind := by
  obtain ⟨⟨value, more⟩, hnumber, heq⟩ := map_eq_ok h
  unfold consumeNumber at hnumber
  split at hnumber
  next value' hvalue =>
    cases hnumber
    dsimp only at heq
    split at heq
    next hpercent =>
      cases heq
      refine .percentage hstart (?_ : _ = ((numberSpelling (ch :: rest)).1, '%' :: _)) hvalue
      cases hmore : (numberSpelling (ch :: rest)).2 with
      | nil =>
        rw [hmore] at hpercent
        cases hpercent
      | cons percent more =>
        rw [hmore] at hpercent
        rw [← Option.some.inj hpercent]
        exact Prod.ext rfl hmore
    next hpercent =>
      split at heq
      next hunit =>
        cases heq
        exact .dimension hstart rfl hvalue hunit
      next hunit =>
        cases heq
        exact .number hstart rfl hvalue hpercent (Bool.eq_false_iff.mpr hunit)
  next => cases hnumber

theorem readToken_ident {ch : Char} {rest behind : Text} {token : CssToken F}
    (hstart : startsIdentSequence (ch :: rest) = true)
    (h : consumeIdentLike (ch :: rest) = .ok (token, behind)) :
    ReadToken parse ch rest (some token) behind := by
  unfold consumeIdentLike at h
  dsimp only at h
  split at h
  next hurl =>
    rw [Bool.and_eq_true, beq_iff_eq] at hurl
    obtain ⟨hname, hparen⟩ := hurl
    obtain ⟨more, hmore⟩ : ∃ more, (consumeIdent (ch :: rest)).2 = '(' :: more := by
      cases hbehind : (consumeIdent (ch :: rest)).2 with
      | nil =>
        rw [hbehind] at hparen
        cases hparen
      | cons paren more =>
        rw [hbehind] at hparen
        exact ⟨more, by rw [Option.some.inj hparen]⟩
    rw [hmore, List.tail_cons] at h
    split at h
    next hquote =>
      cases h
      rw [← hmore]
      refine .ident hstart fun other hother _ => ?_
      rw [hmore] at hother
      rw [← (List.cons.inj hother).2]
      exact hquote
    next hquote =>
      obtain ⟨url, hread, heq⟩ := map_eq_ok h
      cases heq
      exact .url hstart (Prod.ext rfl hmore) hname (Bool.eq_false_iff.mpr hquote) hread
  next hurl =>
    cases h
    refine .ident hstart fun other hother hname => absurd ?_ hurl
    rw [hname, hother]
    rfl

/-- A token or a comment is read by one of the branches. -/
theorem readToken {ch : Char} {rest behind : Text} {token : Option (CssToken F)}
    (h : consumeToken parse ch rest = .ok (token, behind)) : ReadToken parse ch rest token behind := by
  by_cases hnumber : isNumberStart (ch :: rest) = true
  · rw [consumeToken_of_isNumberStart hnumber] at h
    obtain ⟨⟨numeric, more⟩, hread, heq⟩ := map_eq_ok h
    cases heq
    exact readToken_number hnumber hread
  unfold consumeToken at h
  split at h
  next hblank =>
    cases h
    exact .whitespace hblank
  next hblank =>
  split at h
  next hcomment =>
    obtain ⟨rfl, hstar⟩ := hcomment
    split at h
    next behind' hbehind =>
      cases h
      cases rest with
      | nil => cases hstar
      | cons star rest =>
        obtain rfl := Option.some.inj hstar
        exact .comment hbehind
    next => cases h
  next hcomment =>
  split at h
  next hat =>
    cases h
    cases hat
    exact .atKeyword
  next hat =>
  split at h
  next hhash =>
    cases h
    cases hhash
    exact .hash
  next hhash =>
  split at h
  next hquote =>
    obtain ⟨string, hread, heq⟩ := map_eq_ok h
    cases heq
    exact .string hquote hread
  next hquote =>
  split at h
  next hstart =>
    obtain ⟨⟨ident, more⟩, hread, heq⟩ := map_eq_ok h
    cases heq
    exact readToken_ident hstart hread
  next hstart =>
    cases h
    obtain ⟨hdouble, hsingle⟩ := not_or.mp hquote
    refine .single ?_ rfl
    simp [startsLonger, hblank, hat, hhash, hdouble, hsingle, hnumber, hstart] at hcomment ⊢
    exact hcomment

/-! ## Filtered characters -/

/-- A character that is replaced before a text is tokenized. -/
def isFiltered (ch : Char) : Bool := ch == '\r' || ch == '\x0C' || ch == '\x00'

/-- A text without characters that are replaced. -/
def IsFiltered (s : Text) : Prop := ∀ ch ∈ s, isFiltered ch = false

theorem IsFiltered.tail {ch : Char} {s : Text} (h : IsFiltered (ch :: s)) : IsFiltered s :=
  fun other hother => h other (List.mem_cons_of_mem ch hother)

theorem IsFiltered.suffix {s t : Text} (h : IsFiltered s) (ht : t <:+ s) : IsFiltered t :=
  fun ch hch => h ch (ht.subset hch)

theorem isFiltered_preprocessInput (input : Text) : IsFiltered (preprocessInput input) := by
  induction input using preprocessInput.induct with
  | case1 rest ih =>
    rw [preprocessInput]
    exact List.forall_mem_cons.mpr ⟨by decide, ih⟩
  | case2 ch rest hpair ih =>
    rw [preprocessInput]
    · refine List.forall_mem_cons.mpr ⟨?_, ih⟩
      split
      next => decide
      next hline =>
        split
        next => decide
        next hnull => simpa [isFiltered, hnull] using hline
    · exact hpair
  | case3 => exact List.forall_mem_nil _

theorem preprocessInput_of_isFiltered {input : Text} (h : IsFiltered input) :
    preprocessInput input = input := by
  induction input using preprocessInput.induct with
  | case1 rest _ => exact absurd (h '\r' List.mem_cons_self) (by decide)
  | case2 ch rest hpair ih =>
    have hch : (¬ ch = '\r' ∧ ¬ ch = '\x0C') ∧ ¬ ch = '\x00' := by
      simpa [isFiltered] using h ch List.mem_cons_self
    rw [preprocessInput, if_neg (not_or.mpr hch.1), if_neg hch.2, ih h.tail]
    exact hpair
  | case3 => rfl

/-! ## Weights -/

/-- The weight of a text. -/
def weigh (w : Char → Nat) (s : Text) : Nat := (s.map w).sum

@[simp] theorem weigh_nil (w : Char → Nat) : weigh w [] = 0 := rfl

@[simp] theorem weigh_cons (w : Char → Nat) (ch : Char) (s : Text) :
    weigh w (ch :: s) = w ch + weigh w s := rfl

@[simp] theorem weigh_append (w : Char → Nat) (s t : Text) :
    weigh w (s ++ t) = weigh w s + weigh w t := by
  simp only [weigh, List.map_append, List.sum_append]

theorem weigh_suffix (w : Char → Nat) {s t : Text} (h : t <:+ s) : weigh w t ≤ weigh w s := by
  obtain ⟨front, rfl⟩ := h
  rw [weigh_append]
  exact Nat.le_add_left ..

/-- Nothing weighs more in a token than where it is read: `v` weighs the characters of tokens and `w`
those of texts. -/
structure Outweighs (v w : Char → Nat) : Prop where
  char : ∀ ch, isFiltered ch = false → v ch ≤ w ch
  quote : v '"' ≤ w '\''
  blank : ∀ ch, Text.isAsciiWhitespace ch = true → v ' ' ≤ w ch
  name : ∀ name, Text.eqIgnoreAsciiCase name "url".toList = true →
    weigh v "url".toList ≤ weigh v name
  escape : ∀ rest, IsFiltered rest →
    v (consumeCssEscape rest).1 + weigh w (consumeCssEscape rest).2 ≤ w '\\' + weigh w rest

/-- What a token needs in the text: a number nothing, and an address no parenthesis behind it. -/
def CssToken.essence : CssToken F → Text
  | .url value => "url(".toList ++ value
  | .number _ => []
  | .percentage _ => ['%']
  | .dimension _ unit => unit
  | token => renderToken (fun _ => []) token

theorem renderToken_punctuation (trimmedNumber : F → Text) (ch : Char) :
    renderToken trimmedNumber (punctuation ch) = [ch] := by
  unfold punctuation
  repeat' split
  all_goals first | rfl | (subst ch; rfl)

theorem essence_punctuation (ch : Char) : (punctuation ch : CssToken F).essence = [ch] := by
  unfold punctuation
  repeat' split
  all_goals first | rfl | (subst ch; rfl)

section

variable {v w : Char → Nat}

theorem Outweighs.text (h : Outweighs v w) : ∀ {s : Text}, IsFiltered s → weigh v s ≤ weigh w s
  | [], _ => Nat.le_refl _
  | ch :: _, hs => Nat.add_le_add (h.char ch (hs ch List.mem_cons_self)) (h.text hs.tail)

theorem Outweighs.consumeIdentFrom (h : Outweighs v w) : ∀ (passes : Nat) {s : Text}, IsFiltered s →
    weigh v (consumeIdentFrom passes s).1 + weigh w (consumeIdentFrom passes s).2 ≤ weigh w s
  | 0, _, _ => by simp [Css.consumeIdentFrom]
  | _ + 1, [], _ => by simp [Css.consumeIdentFrom]
  | passes + 1, ch :: rest, hs => by
    rw [Css.consumeIdentFrom]
    split
    next hescape =>
      subst hescape
      split
      next =>
        have hchar := h.escape rest hs.tail
        have hrest := h.consumeIdentFrom passes (hs.tail.suffix (consumeCssEscape_suffix rest))
        simp only [weigh_cons]
        omega
      next => simp
    next =>
      split
      next =>
        have hchar := h.char ch (hs ch List.mem_cons_self)
        have hrest := h.consumeIdentFrom passes hs.tail
        simp only [weigh_cons]
        omega
      next => simp

theorem Outweighs.consumeStringFrom (h : Outweighs v w) {quote : Char} : ∀ {passes : Nat} {s : Text}
    {string : Text × Text}, IsFiltered s → consumeStringFrom quote passes s = .ok string →
    weigh v string.1 + w quote + weigh w string.2 ≤ weigh w s
  | 0, _, _, _, hread => by
    rw [Css.consumeStringFrom] at hread
    · cases hread
    · intro _ _ _ heq
      cases heq
  | _ + 1, [], _, _, hread => by cases hread
  | passes + 1, ch :: rest, string, hs, hread => by
    rw [Css.consumeStringFrom] at hread
    split at hread
    next hquote =>
      cases hread
      simp [hquote]
    next =>
      split at hread
      next hescape =>
        subst hescape
        obtain ⟨inner, hinner, rfl⟩ := map_eq_ok hread
        have hchar := h.escape rest hs.tail
        have hrest := h.consumeStringFrom (hs.tail.suffix (consumeCssEscape_suffix rest)) hinner
        simp only [weigh_cons]
        omega
      next =>
        obtain ⟨inner, hinner, rfl⟩ := map_eq_ok hread
        have hchar := h.char ch (hs ch List.mem_cons_self)
        have hrest := h.consumeStringFrom hs.tail hinner
        simp only [weigh_cons]
        omega

theorem Outweighs.readUrl (h : Outweighs v w) {s value behind : Text} (hread : ReadUrl s value behind) :
    IsFiltered s → weigh v value + weigh w behind ≤ weigh w s := by
  induction hread with
  | ends => simp
  | close => simp
  | @blank ch rest =>
    intro _
    have htail := weigh_suffix w (List.tail_suffix (rest.dropWhile Text.isAsciiWhitespace))
    have hdrop := weigh_suffix w (List.dropWhile_suffix Text.isAsciiWhitespace (l := rest))
    simp only [weigh_cons, weigh_nil]
    omega
  | @escape next raw rest value _ _ _ _ ih =>
    intro hs
    have hraw : IsFiltered ('\\' :: next :: raw) := fun ch hch =>
      hs ch (List.mem_append_left rest hch : ch ∈ ('\\' :: next :: raw) ++ rest)
    have htext := h.text hraw
    have hrest := ih (hs.suffix (List.suffix_append ('\\' :: next :: raw) rest))
    simp only [weigh_cons, weigh_append] at htext ⊢
    omega
  | @char ch _ _ _ _ _ _ _ _ ih =>
    intro hs
    have hchar := h.char ch (hs ch List.mem_cons_self)
    have hrest := ih hs.tail
    simp only [weigh_cons]
    omega

/-- A token weighs no more than what it is read from. -/
theorem Outweighs.readToken (h : Outweighs v w) {ch : Char} {rest behind : Text} {token : Option (CssToken F)}
    (hs : IsFiltered (ch :: rest)) (hread : ReadToken parse ch rest token behind) :
    weigh v (token.elim [] CssToken.essence) + weigh w behind ≤ weigh w (ch :: rest) := by
  have hchar := h.char ch (hs ch List.mem_cons_self)
  have hstop : ∀ {spelling more : Text}, isNumberStart (ch :: rest) = true →
      numberSpelling (ch :: rest) = (spelling, more) → more <:+ rest := by
    intro spelling more hstart hspelling
    have hsuffix := (numberSpelling_spec hstart).2
    rwa [hspelling] at hsuffix
  cases hread with
  | whitespace hblank =>
    have hdrop := weigh_suffix w ((List.dropWhile_suffix Text.isAsciiWhitespace (l := rest)))
    have hspace := h.blank ch hblank
    simp only [Option.elim, CssToken.essence, renderToken, weigh_cons, weigh_nil]
    omega
  | comment hskip =>
    have hdrop := weigh_suffix w (skipComment_suffix hskip)
    simp only [Option.elim, weigh_nil, weigh_cons]
    omega
  | atKeyword =>
    have hident := h.consumeIdentFrom rest.length hs.tail
    simp only [Option.elim, CssToken.essence, renderToken, weigh_cons, consumeIdent]
    omega
  | hash =>
    have hident := h.consumeIdentFrom rest.length hs.tail
    simp only [Option.elim, CssToken.essence, renderToken, weigh_cons, consumeIdent]
    omega
  | string hquote hstring =>
    have hvalue := h.consumeStringFrom hs.tail hstring
    have hopen : v '"' ≤ w ch := by
      rcases hquote with rfl | rfl
      · exact hchar
      · exact h.quote
    dsimp only at hvalue
    simp only [Option.elim, CssToken.essence, renderToken, weigh_cons, weigh_append, weigh_nil]
    omega
  | percentage hstart hspelling hvalue =>
    have hdrop := weigh_suffix w (hstop hstart hspelling)
    have hpercent := h.char '%' (by decide)
    simp only [Option.elim, CssToken.essence, weigh_cons, weigh_nil] at hdrop ⊢
    omega
  | @dimension _ _ _ more _ hstart hspelling hvalue hunit =>
    have hsuffix := hstop hstart hspelling
    have hdrop := weigh_suffix w hsuffix
    have hident := h.consumeIdentFrom more.length (hs.tail.suffix hsuffix)
    simp only [Option.elim, CssToken.essence, weigh_cons, consumeIdent]
    omega
  | number hstart hspelling hvalue hpercent hunit =>
    have hdrop := weigh_suffix w (hstop hstart hspelling)
    simp only [Option.elim, CssToken.essence, weigh_cons, weigh_nil]
    omega
  | @url _ _ name more url hstart hident hname hquote hurl =>
    have hread := h.consumeIdentFrom (ch :: rest).length hs
    have hsuffix := consumeIdentFrom_suffix (ch :: rest).length (ch :: rest)
    change Css.consumeIdentFrom (ch :: rest).length (ch :: rest) = (name, '(' :: more) at hident
    rw [hident] at hread hsuffix
    have hmore : IsFiltered more := (hs.suffix hsuffix).tail
    have hdrop := List.dropWhile_suffix Text.isAsciiWhitespace (l := more)
    have hvalue := h.readUrl (readUrl_of_consume (Nat.le_refl _) hurl) (hmore.suffix hdrop)
    have hblanks := weigh_suffix w hdrop
    have hparen := h.char '(' (by decide)
    have hurlName := h.name name hname
    have hfour : weigh v "url(".toList = weigh v "url".toList + v '(' :=
      weigh_append v "url".toList ['(']
    simp only [Option.elim, CssToken.essence, weigh_cons, weigh_append] at hread hfour ⊢
    omega
  | ident hstart hname =>
    have hident := h.consumeIdentFrom (ch :: rest).length hs
    exact hident
  | single hlonger htoken =>
    rw [htoken, Option.elim, essence_punctuation]
    simp only [weigh_cons, weigh_nil]
    omega

end

/-! ## Lengths and what escapes are for -/

theorem weigh_one (s : Text) : weigh (fun _ => 1) s = s.length := by
  induction s with
  | nil => rfl
  | cons ch s ih => rw [weigh_cons, ih, List.length_cons, Nat.add_comm]

/-- The length of a token is that of a text. -/
theorem outweighs_one : Outweighs (fun _ => 1) fun _ => 1 where
  char _ _ := Nat.le_refl 1
  quote := Nat.le_refl 1
  blank _ _ := Nat.le_refl 1
  name name h := by
    have hlength := congrArg List.length (Text.eqIgnoreAsciiCase_iff.mp h)
    rw [Text.toAsciiLowercase, Text.toAsciiLowercase, List.length_map, List.length_map] at hlength
    rw [weigh_one, weigh_one, hlength]
  escape rest _ := by
    rw [weigh_one, weigh_one]
    exact Nat.add_le_add_left (consumeCssEscape_suffix rest).length_le 1

/-- A character that numbers are written with, or the parenthesis that may be missing. -/
def isLight (ch : Char) : Bool := ch.isDigit || ch == '-' || ch == ')'

/-- What a character weighs in a text. -/
def textWeight (ch : Char) : Nat := if isLight ch then 0 else 1

/-- What a character weighs in a token: more if it can only be read from an escape. -/
def tokenWeight (ch : Char) : Nat := textWeight ch + if isFiltered ch then 1 else 0

theorem tokenWeight_of_not_isFiltered {ch : Char} (h : isFiltered ch = false) :
    tokenWeight ch = textWeight ch := by
  rw [tokenWeight, h]
  rfl

theorem textWeight_of_toNat {ch : Char} (h : 57 < ch.toNat) : textWeight ch = 1 := by
  have hlight : isLight ch = false := by
    rw [Bool.eq_false_iff]
    intro hlight
    simp only [isLight, Char.isDigit, Bool.or_eq_true, Bool.and_eq_true, decide_eq_true_eq,
      beq_iff_eq, UInt32.le_iff_toNat_le, ge_iff_le] at hlight
    rcases hlight with (⟨-, hdigit⟩ | rfl) | rfl
    · have hdigit' : ch.toNat ≤ 57 := hdigit
      omega
    · exact absurd h (by decide)
    · exact absurd h (by decide)
  rw [textWeight, hlight]
  rfl

/-- A letter keeps its weight in either case. -/
theorem textWeight_of_toLower {ch : Char} (h : 57 < ch.toLower.toNat) : textWeight ch = 1 := by
  refine textWeight_of_toNat ?_
  by_contra hle
  have hsame : ch.toLower = ch := by
    unfold Char.toLower
    rw [dif_neg]
    intro hupper
    have hupper' : 65 ≤ ch.toNat := hupper.1
    omega
  rw [hsame] at h
  exact hle h

/-- A hexadecimal number whose last digit is above nine is written with a letter. -/
theorem textWeight_of_ofDigits {digits : Text} (hdigits : ∀ ch ∈ digits, Text.isHexDigit ch = true)
    (h : 9 < Text.ofDigits 16 digits % 16) : 1 ≤ weigh textWeight digits := by
  obtain rfl | ⟨front, last, rfl⟩ := List.eq_nil_or_concat' digits
  · exact absurd h (by decide)
  · have hlast := Text.isHexDigit_toNat (hdigits last (by simp))
    have hvalue : 9 < Text.hexValue last % 16 := by
      rwa [Text.ofDigits_concat, Nat.mul_add_mod_self_right] at h
    have hletter : 57 < last.toNat := by
      by_contra hle
      have hdigit : last.isDigit = true := by
        simp only [Char.isDigit, Bool.and_eq_true, decide_eq_true_eq, UInt32.le_iff_toNat_le,
          ge_iff_le]
        exact ⟨(by omega : 48 ≤ last.toNat), (by omega : last.toNat ≤ 57)⟩
      rw [Text.hexValue, if_pos hdigit] at hvalue
      have hzero : '0'.toNat = 48 := rfl
      omega
    rw [weigh_append, weigh_cons, textWeight_of_toNat hletter]
    omega

theorem toNat_of_isFiltered {ch : Char} (h : isFiltered ch = true) :
    ch.toNat = 13 ∨ ch.toNat = 12 ∨ ch.toNat = 0 := by
  simp only [isFiltered, Bool.or_eq_true, beq_iff_eq] at h
  rcases h with (rfl | rfl) | rfl
  · exact .inl rfl
  · exact .inr (.inl rfl)
  · exact .inr (.inr rfl)

/-- An escape is read behind its digits, and stands for the character that these are the code of. -/
theorem consumeCssEscape_hex {next : Char} {more : Text} (h : Text.isHexDigit next = true) :
    ∃ hex behind, next :: more = hex ++ behind ∧ hex ≠ [] ∧
      (∀ ch ∈ hex, Text.isHexDigit ch = true) ∧
      (consumeCssEscape (next :: more)).2 <:+ behind ∧
      (consumeCssEscape (next :: more)).1 =
        if Text.ofDigits 16 hex ≠ 0 ∧ (Text.ofDigits 16 hex).isValidChar then
          Char.ofNat (Text.ofDigits 16 hex) else Char.ofNat 0xfffd := by
  have hprefix : ((next :: more).take 6).takeWhile Text.isHexDigit <+: next :: more :=
    (List.takeWhile_prefix _).trans (List.take_prefix _ _)
  obtain ⟨behind, hbehind⟩ := hprefix
  refine ⟨_, behind, hbehind.symm, ?_, fun ch hch => List.mem_takeWhile_imp hch, ?_, ?_⟩
  · rw [List.take_succ_cons, List.takeWhile_cons_of_pos h]
    exact List.cons_ne_nil _ _
  · have hdrop : (next :: more).drop (((next :: more).take 6).takeWhile Text.isHexDigit).length =
        behind := by
      conv => lhs; arg 2; rw [← hbehind]
      exact List.drop_left
    rw [consumeCssEscape, if_pos h]
    dsimp only
    rw [hdrop]
    split
    next => exact List.tail_suffix behind
    next => exact List.suffix_refl behind
  · rw [consumeCssEscape, if_pos h]

/-- A character that is replaced in texts is read from an escape with a letter in it. -/
theorem outweighs_filtered : Outweighs tokenWeight textWeight where
  char ch h := Nat.le_of_eq (tokenWeight_of_not_isFiltered h)
  quote := by decide
  blank ch h := by
    have hall : ∀ other ∈ [' ', '\t', '\n', '\x0C', '\r'], tokenWeight ' ' ≤ textWeight other :=
      List.forall_iff_forall_mem.mp (by decide)
    refine hall ch ?_
    simpa [Text.isAsciiWhitespace, or_assoc] using h
  name name h := by
    have hname : name.map Char.toLower = ['u', 'r', 'l'] := Text.eqIgnoreAsciiCase_iff.mp h
    have hheavy : ∀ ch ∈ name, 1 ≤ tokenWeight ch := by
      intro ch hch
      have hlower : ch.toLower ∈ ['u', 'r', 'l'] := hname ▸ List.mem_map_of_mem hch
      have hletter : ∀ letter ∈ ['u', 'r', 'l'], 57 < letter.toNat :=
        List.forall_iff_forall_mem.mp (by decide)
      rw [tokenWeight, textWeight_of_toLower (hletter _ hlower)]
      exact Nat.le_add_right ..
    have hlength : name.length = 3 := by
      rw [← List.length_map (f := Char.toLower), hname]
      rfl
    have hsum : ∀ s : Text, (∀ ch ∈ s, 1 ≤ tokenWeight ch) → s.length ≤ weigh tokenWeight s := by
      intro s hs
      induction s with
      | nil => exact Nat.le_refl 0
      | cons ch s ih =>
        have hch := hs ch List.mem_cons_self
        have hrest := ih fun other hother => hs other (List.mem_cons_of_mem ch hother)
        rw [weigh_cons, List.length_cons]
        omega
    have hurl : weigh tokenWeight "url".toList = 3 := by decide
    rw [hurl, ← hlength]
    exact hsum name hheavy
  escape rest hrest := by
    have hslash : textWeight '\\' = 1 := by decide
    have hdrop := weigh_suffix textWeight (consumeCssEscape_suffix rest)
    have hone : ∀ ch : Char, textWeight ch ≤ 1 := by
      intro ch
      unfold textWeight
      split <;> omega
    have hchar := hone (consumeCssEscape rest).1
    by_cases hfiltered : isFiltered (consumeCssEscape rest).1 = true
    · cases rest with
      | nil => exact absurd hfiltered (by decide)
      | cons next more =>
        by_cases hhex : Text.isHexDigit next = true
        · obtain ⟨hex, behind, hsplit, -, hdigits, hsuffix, hread⟩ :=
            @consumeCssEscape_hex next more hhex
          have hcode : 9 < Text.ofDigits 16 hex % 16 := by
            rw [hread] at hfiltered
            split at hfiltered
            next hvalid =>
              have hnat := toNat_of_isFiltered hfiltered
              have hsame : (Char.ofNat (Text.ofDigits 16 hex)).toNat = Text.ofDigits 16 hex := by
                rw [Char.ofNat, dif_pos hvalid.2]
                rfl
              omega
            next => exact absurd hfiltered (by decide)
          have hletter := textWeight_of_ofDigits hdigits hcode
          have hbehind := weigh_suffix textWeight hsuffix
          rw [hsplit, weigh_append, ← hsplit, tokenWeight, if_pos hfiltered]
          omega
        · have hsame : (consumeCssEscape (next :: more)).1 = next := by
            rw [consumeCssEscape, if_neg hhex]
          rw [hsame, hrest next List.mem_cons_self] at hfiltered
          cases hfiltered
    · rw [tokenWeight_of_not_isFiltered (Bool.eq_false_iff.mpr hfiltered)]
      omega

/-! ## The loop -/

/-- Every token is read from a character at least. -/
theorem ReadToken.suffix {ch : Char} {rest behind : Text} {token : Option (CssToken F)}
    (h : ReadToken parse ch rest token behind) : behind <:+ rest := by
  have hstop : ∀ {spelling more : Text}, isNumberStart (ch :: rest) = true →
      numberSpelling (ch :: rest) = (spelling, more) → more <:+ rest := by
    intro spelling more hstart hspelling
    have hsuffix := (numberSpelling_spec hstart).2
    rwa [hspelling] at hsuffix
  cases h with
  | whitespace => exact List.dropWhile_suffix _
  | comment hskip => exact (skipComment_suffix hskip).trans (List.suffix_cons _ _)
  | atKeyword => exact consumeIdentFrom_suffix _ rest
  | hash => exact consumeIdentFrom_suffix _ rest
  | string _ hstring => exact consumeStringFrom_suffix hstring
  | percentage hstart hspelling => exact (List.suffix_cons _ _).trans (hstop hstart hspelling)
  | dimension hstart hspelling => exact (consumeIdentFrom_suffix _ _).trans (hstop hstart hspelling)
  | number hstart hspelling => exact hstop hstart hspelling
  | url hstart hident _ _ hurl =>
    have hsuffix := consumeIdent_suffix hstart
    rw [hident] at hsuffix
    exact ((consumeUnquotedUrl_suffix hurl).trans (List.dropWhile_suffix _)).trans
      ((List.suffix_cons _ _).trans hsuffix)
  | ident hstart => exact consumeIdent_suffix hstart
  | single => exact List.suffix_refl rest

/-- The first token of a text is read behind comments. -/
theorem tokenizeFrom_cons : ∀ {passes : Nat} {s : Text} {token : CssToken F}
    {tokens : List (CssToken F)}, tokenizeFrom parse passes s = .ok (token :: tokens) →
    ∃ ch rest behind passes', ch :: rest <:+ s ∧ ReadToken parse ch rest (some token) behind ∧
      tokenizeFrom parse passes' behind = .ok tokens
  | 0, _, _, _, h => by
    rw [tokenizeFrom] at h
    · cases h
    · intro _ _ _ heq
      cases heq
  | _ + 1, [], _, _, h => by cases h
  | passes + 1, ch :: rest, token, tokens, h => by
    rw [tokenizeFrom] at h
    cases hread : consumeToken parse ch rest with
    | error error =>
      simp only [hread] at h
      cases h
    | ok read =>
      obtain ⟨first, behind⟩ := read
      simp only [hread] at h
      obtain ⟨more, hmore, heq⟩ := map_eq_ok h
      have htoken := readToken hread
      cases first with
      | none =>
        obtain rfl : token :: tokens = more := heq
        obtain ⟨ch', rest', behind', passes', hsuffix, hfirst, htokens⟩ := tokenizeFrom_cons hmore
        exact ⟨ch', rest', behind', passes',
          (hsuffix.trans htoken.suffix).trans (List.suffix_cons ch rest), hfirst, htokens⟩
      | some first =>
        obtain ⟨rfl, rfl⟩ := List.cons.inj (show token :: tokens = first :: more from heq)
        exact ⟨ch, rest, behind, passes, List.suffix_refl _, htoken, hmore⟩

/-! ## The spelling of a number -/

/-- A sign is taken from the front of a text. -/
theorem filter_sign_append (s : Text) :
    ((s.take 1).filter fun ch => ch == '+' || ch == '-') ++
      s.drop ((s.take 1).filter fun ch => ch == '+' || ch == '-').length = s := by
  cases s with
  | nil => rfl
  | cons ch rest =>
    rw [List.take_succ_cons, List.take_zero, List.filter_cons]
    split <;> rfl

theorem consumeFraction_append (s : Text) : (consumeFraction s).1 ++ (consumeFraction s).2 = s := by
  rw [consumeFraction.eq_def]
  split
  next rest =>
    split
    next => exact congrArg ('.' :: ·) List.takeWhile_append_dropWhile
    next => rfl
  next => rfl

theorem consumeExponent_append (s : Text) : (consumeExponent s).1 ++ (consumeExponent s).2 = s := by
  cases s with
  | nil => rfl
  | cons ch rest =>
    rw [consumeExponent]
    split
    next =>
      dsimp only
      split
      next =>
        have hsign := filter_sign_append rest
        rw [List.cons_append, List.append_assoc, List.takeWhile_append_dropWhile, hsign]
      next => rfl
    next => rfl

theorem unsignedSpelling_append (s : Text) :
    (unsignedSpelling s).1 ++ (unsignedSpelling s).2 = s := by
  rw [unsignedSpelling, List.append_assoc, consumeExponent_append, List.append_assoc,
    consumeFraction_append, List.takeWhile_append_dropWhile]

/-- A number is spelled in front of what is behind it. -/
theorem numberSpelling_append (s : Text) : (numberSpelling s).1 ++ (numberSpelling s).2 = s := by
  have hrest := unsignedSpelling_append (s.drop ((s.take 1).filter fun ch => ch == '+' || ch == '-').length)
  have hsign := filter_sign_append s
  have hsplit : numberSpelling s = (((s.take 1).filter fun ch => ch == '+' || ch == '-') ++
      (unsignedSpelling (s.drop ((s.take 1).filter fun ch => ch == '+' || ch == '-').length)).1,
      (unsignedSpelling (s.drop ((s.take 1).filter fun ch => ch == '+' || ch == '-').length)).2) := by
    rw [numberSpelling, unsignedSpelling]
    simp only [List.append_assoc]
  rw [hsplit, List.append_assoc, hrest, hsign]

theorem takeWhile_digit_eq_nil {rest : Text} :
    rest.takeWhile Char.isDigit = [] ↔ rest.head?.any Char.isDigit = false := by
  cases rest with
  | nil => exact ⟨fun _ => rfl, fun _ => rfl⟩
  | cons ch rest =>
    rw [List.head?_cons, Option.any_some, List.takeWhile_cons]
    cases ch.isDigit <;> simp

/-- Digits are a number, in front of what no number goes on with. -/
theorem unsignedSpelling_digits {digits rest : Text} (h : ∀ ch ∈ digits, ch.isDigit = true) :
    unsignedSpelling (digits ++ rest) = (digits, rest) ↔ rest.head?.any Char.isDigit = false ∧
      (consumeFraction rest).1 = [] ∧ (consumeExponent rest).1 = [] := by
  rw [unsignedSpelling, List.takeWhile_append_of_pos h, List.dropWhile_append_of_pos h]
  have hfraction := consumeFraction_append rest
  have hexponent := consumeExponent_append rest
  constructor
  · intro hspelling
    have hdigits := (Prod.mk.inj hspelling).1
    simp only [List.append_assoc, List.append_right_eq_self, List.append_eq_nil_iff] at hdigits
    obtain ⟨hmore, hdigits⟩ := hdigits
    have hrest : rest.dropWhile Char.isDigit = rest := by
      have hsplit := List.takeWhile_append_dropWhile (p := Char.isDigit) (l := rest)
      rwa [hmore] at hsplit
    rw [hrest] at hdigits
    rw [hdigits.1, List.nil_append] at hfraction
    rw [hfraction] at hdigits
    exact ⟨takeWhile_digit_eq_nil.mp hmore, hdigits⟩
  · rintro ⟨hhead, hpoint, hletter⟩
    have hmore := takeWhile_digit_eq_nil.mpr hhead
    have hrest : rest.dropWhile Char.isDigit = rest := by
      have hsplit := List.takeWhile_append_dropWhile (p := Char.isDigit) (l := rest)
      rwa [hmore] at hsplit
    rw [hpoint, List.nil_append] at hfraction
    rw [hletter, List.nil_append] at hexponent
    rw [hmore, hrest, hpoint, hfraction, hletter, hexponent, List.append_nil, List.append_nil,
      List.append_nil]

/-! ## Names that are read as they are written -/

/-- No name goes on into a text. -/
def endsName (rest : Text) : Bool := !rest.head?.any isIdentChar && !validEscape rest

theorem endsName_iff {rest : Text} : endsName rest = true ↔
    rest.head?.any isIdentChar = false ∧ validEscape rest = false := by
  rw [endsName, Bool.and_eq_true, Bool.not_eq_true', Bool.not_eq_true']

/-- A name that is written is read up to where it ends. -/
theorem consumeIdentFrom_name : ∀ {value rest : Text} {passes : Nat}, value.all isIdentChar = true →
    endsName rest = true → (value ++ rest).length ≤ passes →
    consumeIdentFrom passes (value ++ rest) = (value, rest)
  | [], rest, passes, _, hends, hpasses => by
    obtain ⟨hhead, hescape⟩ := endsName_iff.mp hends
    cases rest with
    | nil => cases passes <;> rfl
    | cons ch rest =>
      obtain ⟨passes, rfl, -⟩ := exists_pass hpasses
      have hident : isIdentChar ch = false := hhead
      rw [List.nil_append, consumeIdentFrom, hescape, hident]
      simp only [Bool.false_eq_true, if_false, ite_self]
  | ch :: value, rest, passes, hvalue, hends, hpasses => by
    rw [List.all_cons, Bool.and_eq_true] at hvalue
    obtain ⟨passes, rfl, hlength⟩ := exists_pass hpasses
    have hslash : ch ≠ '\\' := fun heq => absurd (heq ▸ hvalue.1) (by decide)
    rw [List.cons_append, consumeIdentFrom, if_neg hslash, if_pos hvalue.1,
      consumeIdentFrom_name hvalue.2 hends hlength]

/-- An escape is longer than its backslash. -/
theorem consumeCssEscape_length (next : Char) (more : Text) :
    (consumeCssEscape (next :: more)).2.length < (next :: more).length :=
  Nat.lt_succ_of_le (consumeCssEscape_cons next more).length_le

/-- Only a name is read as it is written. -/
theorem name_of_consumeIdentFrom : ∀ {value rest : Text} {passes : Nat},
    (value ++ rest).length ≤ passes → IsFiltered (value ++ rest) →
    consumeIdentFrom passes (value ++ rest) = (value, rest) →
    value.all isIdentChar = true ∧ endsName rest = true
  | [], [], _, _, _, _ => ⟨rfl, rfl⟩
  | [], ch :: rest, 0, hpasses, _, _ => absurd hpasses (by simp)
  | [], ch :: rest, passes + 1, _, _, hread => by
    refine ⟨rfl, endsName_iff.mpr ?_⟩
    rw [List.nil_append, consumeIdentFrom] at hread
    split at hread
    next hslash =>
      subst hslash
      refine ⟨rfl, Bool.eq_false_iff.mpr fun hescape => ?_⟩
      rw [if_pos hescape] at hread
      exact absurd (congrArg Prod.fst hread) (List.cons_ne_nil _ _)
    next hslash =>
      split at hread
      next => exact absurd (congrArg Prod.fst hread) (List.cons_ne_nil _ _)
      next hident =>
        refine ⟨Bool.eq_false_iff.mpr hident, ?_⟩
        rw [validEscape]
        exact fun rest' heq => hslash (List.cons_eq_cons.mp heq).1
  | ch :: value, rest, 0, hpasses, _, _ => absurd hpasses (by simp)
  | ch :: value, rest, passes + 1, hpasses, hs, hread => by
    rw [List.cons_append] at hs hpasses
    rw [List.cons_append, consumeIdentFrom] at hread
    split at hread
    next hslash =>
      subst hslash
      split at hread
      next =>
        -- an escape takes more of the text than the character that is read
        obtain ⟨hchar, hvalue⟩ := List.cons.inj (congrArg Prod.fst hread)
        have hrest := congrArg Prod.snd hread
        dsimp only at hvalue hrest
        have hlength := outweighs_one.consumeIdentFrom passes
          (hs.tail.suffix (consumeCssEscape_suffix (value ++ rest)))
        rw [hvalue, hrest, weigh_one, weigh_one, weigh_one] at hlength
        cases hbehind : value ++ rest with
        | nil =>
          rw [hbehind] at hchar
          exact absurd hchar (by decide)
        | cons next more =>
          have hshort := consumeCssEscape_length next more
          rw [← hbehind, List.length_append] at hshort
          omega
      next => exact absurd (congrArg Prod.fst hread) (List.cons_ne_nil _ _).symm
    next hslash =>
      split at hread
      next hident =>
        obtain ⟨-, hvalue⟩ := List.cons.inj (congrArg Prod.fst hread)
        have hrest := congrArg Prod.snd hread
        have ih : value.all isIdentChar = true ∧ endsName rest = true :=
          name_of_consumeIdentFrom (Nat.le_of_succ_le_succ hpasses) hs.tail (Prod.ext hvalue hrest)
        rw [List.all_cons, hident, ih.1]
        exact ⟨rfl, ih.2⟩
      next => exact absurd (congrArg Prod.fst hread) (List.cons_ne_nil _ _).symm

/-! ## Addresses that are read again -/

theorem takeWhile_take_append {p : Char → Bool} : ∀ {n : Nat} {front rest : Text},
    (∀ ch ∈ front, p ch = true) → front.length ≤ n → (front.length = n ∨ rest.head?.any p = false) →
    ((front ++ rest).take n).takeWhile p = front
  | 0, [], _, _, _, _ => by simp
  | 0, _ :: _, _, _, hlength, _ => absurd hlength (by simp)
  | n + 1, [], [], _, _, _ => by simp
  | n + 1, [], ch :: rest, _, _, hstop => by
    have hch : p ch = false := hstop.resolve_left (by simp)
    rw [List.nil_append, List.take_succ_cons, List.takeWhile_cons_of_neg (by rw [hch]; decide)]
  | n + 1, ch :: front, rest, hall, hlength, hstop => by
    have ih : ((front ++ rest).take n).takeWhile p = front :=
      takeWhile_take_append (fun other hother => hall other (List.mem_cons_of_mem ch hother))
        (Nat.le_of_succ_le_succ hlength) (hstop.imp_left Nat.succ.inj)
    rw [List.cons_append, List.take_succ_cons, List.takeWhile_cons_of_pos (hall ch List.mem_cons_self),
      ih]

theorem takeWhile_take_stops {p : Char → Bool} : ∀ (n : Nat) (s : Text),
    ((s.take n).takeWhile p).length = n ∨ (s.drop ((s.take n).takeWhile p).length).head?.any p = false
  | 0, _ => .inl (by simp)
  | n + 1, [] => .inr (by simp)
  | n + 1, ch :: s => by
    rw [List.take_succ_cons, List.takeWhile_cons]
    split
    next =>
      refine (takeWhile_take_stops n s).imp (congrArg Nat.succ) fun hstop => ?_
      rw [List.length_cons, List.drop_succ_cons]
      exact hstop
    next hch => exact .inr (Bool.eq_false_iff.mpr hch)

/-- An escape of digits is that of the first six of them. -/
theorem consumeCssEscape_digits {hex rest : Text} (hne : hex ≠ [])
    (hall : ∀ ch ∈ hex, Text.isHexDigit ch = true) (hlength : hex.length ≤ 6)
    (hstop : hex.length = 6 ∨ rest.head?.any Text.isHexDigit = false) :
    consumeCssEscape (hex ++ rest) =
      (if Text.ofDigits 16 hex ≠ 0 ∧ (Text.ofDigits 16 hex).isValidChar then
          Char.ofNat (Text.ofDigits 16 hex) else Char.ofNat 0xfffd,
        if rest.head?.any Text.isAsciiWhitespace then rest.tail else rest) := by
  have htake := takeWhile_take_append hall hlength hstop
  cases hex with
  | nil => exact absurd rfl hne
  | cons ch hex =>
    rw [List.cons_append] at htake ⊢
    rw [consumeCssEscape, if_pos (hall ch List.mem_cons_self)]
    dsimp only
    rw [htake, ← List.cons_append, List.drop_left]

theorem not_isHexDigit_of_isAsciiWhitespace {ch : Char} (h : Text.isAsciiWhitespace ch = true) :
    Text.isHexDigit ch = false := by
  have hall : ∀ other ∈ [' ', '\t', '\n', '\x0C', '\r'], Text.isHexDigit other = false :=
    List.forall_iff_forall_mem.mp (by decide)
  exact hall ch (by simpa [Text.isAsciiWhitespace, or_assoc] using h)

/-- An escape is the same in front of the same character, and of a parenthesis. -/
theorem consumeCssEscape_stable {next : Char} {more rest : Text}
    (h : rest.head? = some ')' ∨ rest.head? = (consumeCssEscape (next :: more)).2.head?) :
    ∃ raw, next :: more = next :: raw ++ (consumeCssEscape (next :: more)).2 ∧
      consumeCssEscape (next :: raw ++ rest) = ((consumeCssEscape (next :: more)).1, rest) := by
  by_cases hhex : Text.isHexDigit next = true
  · have hsplit := List.take_append_drop ((((next :: more).take 6).takeWhile Text.isHexDigit).length)
      (next :: more)
    have hprefix : ((next :: more).take 6).takeWhile Text.isHexDigit <+: next :: more :=
      (List.takeWhile_prefix _).trans (List.take_prefix _ _)
    have hstops := takeWhile_take_stops (p := Text.isHexDigit) 6 (next :: more)
    have hall : ∀ ch ∈ ((next :: more).take 6).takeWhile Text.isHexDigit, Text.isHexDigit ch = true :=
      fun ch hch => List.mem_takeWhile_imp hch
    have hlength : (((next :: more).take 6).takeWhile Text.isHexDigit).length ≤ 6 :=
      (List.takeWhile_prefix _).length_le.trans (List.length_take_le _ _)
    have hcons : ∃ raw, ((next :: more).take 6).takeWhile Text.isHexDigit = next :: raw :=
      ⟨_, by rw [List.take_succ_cons, List.takeWhile_cons_of_pos hhex]⟩
    rw [← List.prefix_iff_eq_take.mp hprefix] at hsplit
    revert hsplit hstops hall hlength hcons
    generalize ((next :: more).take 6).takeWhile Text.isHexDigit = hex
    generalize (next :: more).drop hex.length = behind
    rintro hsplit hstops hall hlength ⟨raw, rfl⟩
    have hne : next :: raw ≠ [] := List.cons_ne_nil _ _
    rw [← hsplit, consumeCssEscape_digits hne hall hlength hstops] at h ⊢
    dsimp only at h ⊢
    by_cases hblank : behind.head?.any Text.isAsciiWhitespace = true
    · cases behind with
      | nil => cases hblank
      | cons blank behind =>
        rw [if_pos hblank] at h ⊢
        refine ⟨raw ++ [blank], by simp, ?_⟩
        have hnot : (blank :: rest).head?.any Text.isHexDigit = false :=
          not_isHexDigit_of_isAsciiWhitespace hblank
        have hread := @consumeCssEscape_digits _ (blank :: rest) hne hall hlength (.inr hnot)
        rw [if_pos (show (blank :: rest).head?.any Text.isAsciiWhitespace = true from hblank)] at hread
        simpa using hread
    · rw [if_neg hblank] at h ⊢
      refine ⟨raw, rfl, ?_⟩
      have hnot : rest.head?.any Text.isAsciiWhitespace = false := by
        rcases h with h | h
        · rw [h]
          rfl
        · rw [h]
          exact Bool.eq_false_iff.mpr hblank
      have hstop : (next :: raw).length = 6 ∨ rest.head?.any Text.isHexDigit = false := by
        refine hstops.imp_right fun hstop => ?_
        rcases h with h | h
        · rw [h]
          rfl
        · rw [h]
          exact hstop
      rw [consumeCssEscape_digits hne hall hlength hstop, hnot]
      rfl
  · have hread : ∀ rest, consumeCssEscape (next :: rest) = (next, rest) := fun rest => by
      rw [consumeCssEscape, if_neg hhex]
    refine ⟨[], ?_, ?_⟩
    · rw [hread]
      rfl
    · rw [List.cons_append, List.nil_append, hread, hread]

/-- An address starts as the text that it is read from. -/
theorem ReadUrl.head {s value behind : Text} (h : ReadUrl s value behind) :
    value = [] ∨ (value.head? = s.head? ∧ s.head?.any Text.isAsciiWhitespace = false) := by
  cases h with
  | ends | close | blank => exact .inl rfl
  | escape => exact .inr ⟨rfl, rfl⟩
  | char _ hblank => exact .inr ⟨rfl, hblank⟩

/-- An address is read again as it is, in front of a parenthesis. -/
theorem ReadUrl.stable {s value behind : Text} (rest : Text) (h : ReadUrl s value behind) :
    ReadUrl (value ++ ')' :: rest) value rest := by
  induction h with
  | ends | close | blank => exact .close rest
  | @escape next raw text value _ hnext hraw h ih =>
    have hhead : (value ++ ')' :: rest).head? = some ')' ∨
        (value ++ ')' :: rest).head? = (consumeCssEscape (next :: (raw ++ text))).2.head? := by
      rcases h.head with rfl | ⟨hhead, -⟩
      · exact .inl rfl
      · cases value with
        | nil => exact .inl rfl
        | cons first value => exact .inr (hhead.trans (congrArg List.head? hraw.symm))
    obtain ⟨raw', hsplit, hstable⟩ := consumeCssEscape_stable hhead
    have hsame : raw = raw' := by
      have hbehind : (consumeCssEscape (next :: (raw ++ text))).2 = text := hraw
      rw [hbehind] at hsplit
      exact List.append_cancel_right (List.cons.inj hsplit).2
    subst hsame
    have hescaped := @ReadUrl.escape next raw (value ++ ')' :: rest) value rest hnext
      (congrArg Prod.snd hstable) ih
    simpa only [List.cons_append, List.append_assoc] using hescaped
  | char hclose hblank hch hescape _ ih => exact .char hclose hblank hch hescape ih

/-- An address is written with characters of the text that it is read from. -/
theorem ReadUrl.subset {s value behind : Text} (h : ReadUrl s value behind) : ∀ ch ∈ value, ch ∈ s := by
  induction h with
  | ends | close | blank => exact fun _ hch => nomatch hch
  | @escape next raw rest _ _ _ _ _ ih =>
    intro ch hch
    have hmem : ch ∈ ('\\' :: next :: raw) ++ rest :=
      (List.mem_append.mp hch).elim (List.mem_append_left rest) fun hvalue => List.mem_append_right _ (ih ch hvalue)
    exact hmem
  | char _ _ _ _ _ ih =>
    exact fun other hother => (List.mem_cons.mp hother).elim (fun heq => heq ▸ List.mem_cons_self)
      fun hvalue => List.mem_cons_of_mem _ (ih other hvalue)

end Omoikane.Css
