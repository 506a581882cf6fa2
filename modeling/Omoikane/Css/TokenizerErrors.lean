import Omoikane.Css.Tokenizer

/-!
# What the tokenizer refuses

A text is tokenized unless a comment, a string or an address in it is malformed, or a sign stands in front
of a `.` without a digit behind it: `isNumberStart` takes that for a number, and its spelling is the sign
alone.
-/

namespace Omoikane.Css

open Base

/-! ## What is read of a text -/

/-- An escape takes the character behind its backslash. -/
theorem consumeCssEscape_cons (next : Char) (more : Text) : (consumeCssEscape (next :: more)).2 <:+ more := by
  rw [consumeCssEscape]
  split
  next hhex =>
    have hdrop : (next :: more).drop (((next :: more).take 6).takeWhile Text.isHexDigit).length <:+ more := by
      rw [List.take_succ_cons, List.takeWhile_cons_of_pos hhex, List.length_cons, List.drop_succ_cons]
      exact List.drop_suffix _ _
    dsimp only
    split
    next => exact (List.tail_suffix _).trans hdrop
    next => exact hdrop
  next => exact List.suffix_refl more

theorem consumeCssEscape_suffix : ∀ rest : Text, (consumeCssEscape rest).2 <:+ rest
  | [] => List.suffix_refl []
  | next :: more => (consumeCssEscape_cons next more).trans (List.suffix_cons next more)

theorem consumeIdentFrom_suffix : ∀ (passes : Nat) (s : Text), (consumeIdentFrom passes s).2 <:+ s
  | 0, s => List.suffix_refl s
  | _ + 1, [] => List.suffix_refl []
  | passes + 1, ch :: rest => by
    rw [consumeIdentFrom]
    split
    next =>
      split
      next =>
        have hescape := consumeCssEscape_suffix rest
        exact ((consumeIdentFrom_suffix passes _).trans hescape).trans (List.suffix_cons ch rest)
      next => exact List.suffix_refl _
    next =>
      split
      next => exact (consumeIdentFrom_suffix passes rest).trans (List.suffix_cons ch rest)
      next => exact List.suffix_refl _

theorem isIdentChar_of_isIdentStart {ch : Char} (h : isIdentStart ch = true) : isIdentChar ch = true := by
  rw [isIdentChar, h]
  rfl

/-- An identifier has a character. -/
theorem consumeIdent_suffix {ch : Char} {rest : Text} (h : startsIdentSequence (ch :: rest) = true) :
    (consumeIdent (ch :: rest)).2 <:+ rest := by
  rw [consumeIdent, List.length_cons, consumeIdentFrom]
  split
  next hescape =>
    subst hescape
    rw [startsIdentSequence] at h
    · rw [if_pos h]
      exact (consumeIdentFrom_suffix _ _).trans (consumeCssEscape_suffix rest)
  next hescape =>
    have hident : isIdentChar ch = true := by
      by_cases hminus : ch = '-'
      · rw [hminus]
        rfl
      · have hstart : startsIdentSequence (ch :: rest) = isIdentStart ch := by
          rw [startsIdentSequence]
          · exact fun heq => absurd heq hminus
          · exact fun heq => absurd heq hescape
        exact isIdentChar_of_isIdentStart (hstart ▸ h)
    rw [if_pos hident]
    exact consumeIdentFrom_suffix _ rest

theorem skipComment_suffix : ∀ {rest behind : Text}, skipComment rest = some behind → behind <:+ rest
  | [], _, h => nomatch h
  | ch :: rest, behind, h => by
    rw [skipComment.eq_def] at h
    split at h
    next rest' heq =>
      cases h
      rw [heq]
      exact ⟨['*', '/'], rfl⟩
    next heq =>
      obtain ⟨rfl, rfl⟩ := List.cons_eq_cons.mp heq
      exact (skipComment_suffix h).trans (List.suffix_cons _ _)
    next heq => cases heq

theorem consumeStringFrom_suffix {quote : Char} : ∀ {passes : Nat} {s : Text} {string : Text × Text},
    consumeStringFrom quote passes s = .ok string → string.2 <:+ s
  | 0, _, _, h => by
    rw [consumeStringFrom] at h
    · cases h
    · exact fun _ _ _ heq => nomatch heq
  | _ + 1, [], _, h => nomatch h
  | passes + 1, ch :: rest, string, h => by
    rw [consumeStringFrom] at h
    split at h
    next =>
      cases h
      exact List.suffix_cons ch rest
    next =>
      split at h
      next =>
        obtain ⟨inner, hinner, rfl⟩ := map_eq_ok h
        exact ((consumeStringFrom_suffix hinner).trans (consumeCssEscape_suffix rest)).trans
          (List.suffix_cons ch rest)
      next =>
        obtain ⟨inner, hinner, rfl⟩ := map_eq_ok h
        exact (consumeStringFrom_suffix hinner).trans (List.suffix_cons ch rest)

theorem take_length_sub {s t : Text} (h : t <:+ s) : s.take (s.length - t.length) ++ t = s := by
  obtain ⟨front, rfl⟩ := h
  rw [List.length_append, Nat.add_sub_cancel, List.take_left]

/-- An address, as it is written, in front of what is behind it. -/
inductive ReadUrl : Text → Text → Text → Prop
  | ends : ReadUrl [] [] []
  | close (rest : Text) : ReadUrl (')' :: rest) [] rest
  | blank {ch : Char} {rest : Text} (hch : Text.isAsciiWhitespace ch = true)
      (hend : ∀ next ∈ (rest.dropWhile Text.isAsciiWhitespace).head?, next = ')') :
      ReadUrl (ch :: rest) [] (rest.dropWhile Text.isAsciiWhitespace).tail
  | escape {next : Char} {raw rest value behind : Text} (hnext : isNewline next = false)
      (hraw : (consumeCssEscape (next :: raw ++ rest)).2 = rest) (h : ReadUrl rest value behind) :
      ReadUrl ('\\' :: (next :: raw ++ rest)) ('\\' :: (next :: raw ++ value)) behind
  | char {ch : Char} {rest value behind : Text} (hclose : ch ≠ ')')
      (hblank : Text.isAsciiWhitespace ch = false) (hch : isNotInUrl ch = false) (hescape : ch ≠ '\\')
      (h : ReadUrl rest value behind) : ReadUrl (ch :: rest) (ch :: value) behind

theorem readUrl_of_consume : ∀ {passes : Nat} {s : Text} {url : Text × Text}, s.length ≤ passes →
    consumeUnquotedUrlFrom passes s = .ok url → ReadUrl s url.1 url.2
  | passes, [], url, _, h => by
    rw [consumeUnquotedUrlFrom] at h
    · cases h
      exact .ends
    · exact fun _ _ _ _ heq => nomatch heq
  | 0, _ :: _, _, hpasses, _ => absurd hpasses (Nat.not_succ_le_zero _)
  | passes + 1, ch :: rest, url, hpasses, h => by
    have hlength := Nat.le_of_succ_le_succ hpasses
    rw [consumeUnquotedUrlFrom] at h
    split at h
    next hclose =>
      cases h
      rw [hclose]
      exact .close rest
    next hclose =>
      split at h
      next hblank =>
        have hread := @ReadUrl.blank ch rest hblank
        split at h
        next heq =>
          cases h
          rw [heq] at hread
          exact hread nofun
        next close behind heq =>
          split at h
          next hend =>
            cases h
            rw [heq] at hread
            exact hread fun next hnext => Option.some.inj hnext ▸ hend
          next => cases h
      next hblank =>
        split at h
        next => cases h
        next hallowed =>
          split at h
          next hescape =>
            subst hescape
            split at h
            next => cases h
            next hnewline =>
              obtain ⟨inner, hinner, rfl⟩ := map_eq_ok h
              cases rest with
              | nil => exact absurd rfl hnewline
              | cons next more =>
                have hsuffix := consumeCssEscape_cons next more
                have hread := readUrl_of_consume (hsuffix.length_le.trans (Nat.le_of_succ_le hlength)) hinner
                have htake := take_length_sub (consumeCssEscape_suffix (next :: more))
                obtain ⟨raw, hraw⟩ := hsuffix
                have hsplit : next :: raw ++ (consumeCssEscape (next :: more)).2 = next :: more :=
                  congrArg (next :: ·) hraw
                rw [List.append_cancel_right (htake.trans hsplit.symm)]
                have hescaped := ReadUrl.escape (Bool.eq_false_iff.mpr hnewline) (by rw [hsplit]) hread
                rwa [hsplit] at hescaped
          next hescape =>
            obtain ⟨inner, hinner, rfl⟩ := map_eq_ok h
            exact .char hclose (Bool.eq_false_iff.mpr hblank) (Bool.eq_false_iff.mpr hallowed) hescape
              (readUrl_of_consume hlength hinner)

/-- There is a pass for each character. -/
theorem exists_pass {ch : Char} {rest : Text} {passes : Nat} (h : (ch :: rest).length ≤ passes) :
    ∃ more, passes = more + 1 ∧ rest.length ≤ more := by
  cases passes with
  | zero => exact absurd h (Nat.not_succ_le_zero _)
  | succ more => exact ⟨more, rfl, Nat.le_of_succ_le_succ h⟩

theorem ReadUrl.consume {s value behind : Text} (h : ReadUrl s value behind) : ∀ {passes : Nat},
    s.length ≤ passes → consumeUnquotedUrlFrom passes s = .ok (value, behind) := by
  induction h with
  | ends =>
    intro passes _
    rw [consumeUnquotedUrlFrom]
    exact fun _ _ _ _ heq => nomatch heq
  | close rest =>
    intro passes hpasses
    obtain ⟨more, rfl, -⟩ := exists_pass hpasses
    rw [consumeUnquotedUrlFrom, if_pos rfl]
  | @blank ch rest hch hend =>
    intro passes hpasses
    obtain ⟨more, rfl, -⟩ := exists_pass hpasses
    have hclose : ch ≠ ')' := fun heq => absurd (heq ▸ hch) (by decide)
    rw [consumeUnquotedUrlFrom, if_neg hclose, if_pos hch]
    cases hdrop : rest.dropWhile Text.isAsciiWhitespace with
    | nil => rfl
    | cons close behind =>
      rw [hdrop] at hend
      dsimp only
      rw [if_pos (hend close rfl)]
      rfl
  | @escape next raw rest value behind hnext hraw _ ih =>
    intro passes hpasses
    obtain ⟨more, rfl, hlength⟩ := exists_pass hpasses
    have hnewline : ¬ (next :: raw ++ rest).head?.all isNewline = true := Bool.eq_false_iff.mp hnext
    have htake : (next :: raw ++ rest).take ((next :: raw ++ rest).length - rest.length) = next :: raw :=
      List.append_cancel_right (take_length_sub (List.suffix_append (next :: raw) rest))
    rw [consumeUnquotedUrlFrom, if_neg (by decide), if_neg (by decide), if_neg (by decide), if_pos rfl,
      if_neg hnewline]
    dsimp only
    rw [hraw, ih ((List.suffix_append (next :: raw) rest).length_le.trans hlength), htake]
    rfl
  | char hclose hblank hch hescape _ ih =>
    intro passes hpasses
    obtain ⟨more, rfl, hlength⟩ := exists_pass hpasses
    rw [consumeUnquotedUrlFrom, if_neg hclose, if_neg (Bool.eq_false_iff.mp hblank),
      if_neg (Bool.eq_false_iff.mp hch), if_neg hescape, ih hlength]
    rfl

theorem ReadUrl.suffix {s value behind : Text} (h : ReadUrl s value behind) : behind <:+ s := by
  induction h with
  | ends => exact List.suffix_refl []
  | close rest => exact List.suffix_cons ')' rest
  | blank => exact ((List.tail_suffix _).trans (List.dropWhile_suffix _)).trans (List.suffix_cons _ _)
  | escape _ _ _ ih => exact (ih.trans (List.suffix_append _ _)).trans (List.suffix_cons _ _)
  | char _ _ _ _ _ ih => exact ih.trans (List.suffix_cons _ _)

theorem consumeUnquotedUrl_suffix {s : Text} {url : Text × Text} (h : consumeUnquotedUrl s = .ok url) :
    url.2 <:+ s :=
  (readUrl_of_consume (Nat.le_refl _) h).suffix

/-! ## Spellings of numbers -/

/-- `.` and digits, or nothing. -/
def IsFraction (s : Text) : Prop := s = [] ∨ ∃ digits, s = '.' :: digits ∧ ∀ ch ∈ digits, ch.isDigit = true

def IsSignText (s : Text) : Prop := s = [] ∨ s = ['+'] ∨ s = ['-']

/-- An exponent, or nothing. -/
def IsExponent (s : Text) : Prop := s = [] ∨ ∃ e sign digits, s = e :: (sign ++ digits) ∧
  (e = 'e' ∨ e = 'E') ∧ IsSignText sign ∧ digits ≠ [] ∧ ∀ ch ∈ digits, ch.isDigit = true

/-- The texts that the standard library reads as floating-point numbers. -/
inductive IsFloat : Text → Prop
  | word {sign word : Text} (hsign : IsSignText sign)
      (hword : Text.toAsciiLowercase word ∈ ["inf".toList, "infinity".toList, "nan".toList]) :
      IsFloat (sign ++ word)
  | number {sign whole fraction exponent : Text} (hsign : IsSignText sign)
      (hwhole : ∀ ch ∈ whole, ch.isDigit = true) (hfraction : IsFraction fraction)
      (hdigit : whole ≠ [] ∨ 1 < fraction.length) (hexponent : IsExponent exponent) :
      IsFloat (sign ++ whole ++ fraction ++ exponent)

/-- `parse` of a type of floating-point numbers. -/
structure FloatParser (F : Type) where
  parse : Text → Option F
  accepts : ∀ s, (parse s).isSome = true ↔ IsFloat s

/-- A sign in front of a `.` without a digit behind it. -/
def IsSignPoint : Text → Prop
  | sign :: '.' :: rest => (sign = '+' ∨ sign = '-') ∧ rest.head?.any Char.isDigit = false
  | _ => False

theorem not_isFloat_sign {sign : Char} (h : sign = '+' ∨ sign = '-') : ¬ IsFloat [sign] := by
  have hdigit : sign.isDigit = false := by rcases h with rfl | rfl <;> rfl
  have hpoint : sign ≠ '.' := by rcases h with rfl | rfl <;> decide
  intro hfloat
  generalize htext : [sign] = text at hfloat
  cases hfloat with
  | @word front word hsign hword =>
    have hlength := congrArg List.length htext
    have hword' : 3 ≤ word.length := by
      have hsame : (Text.toAsciiLowercase word).length = word.length := List.length_map _
      rw [← hsame]
      revert hword
      generalize Text.toAsciiLowercase word = lower
      simp only [List.mem_cons, List.not_mem_nil, or_false]
      rintro (rfl | rfl | rfl) <;> decide
    rw [List.length_append, List.length_singleton] at hlength
    omega
  | @number front whole fraction exponent hsign hwhole hfraction hnumber hexponent =>
    rw [List.append_assoc, List.append_assoc] at htext
    have hmem : ∀ ch ∈ whole ++ (fraction ++ exponent), ch = sign := fun ch hch =>
      List.mem_singleton.mp (htext ▸ List.mem_append_right front hch)
    rcases hnumber with hnumber | hnumber
    · obtain ⟨ch, rest, rfl⟩ := List.exists_cons_of_ne_nil hnumber
      have heq := hmem ch (List.mem_append_left _ List.mem_cons_self)
      have hch := hwhole ch List.mem_cons_self
      rw [heq, hdigit] at hch
      cases hch
    · rcases hfraction with rfl | ⟨digits, rfl, -⟩
      · cases hnumber
      · exact hpoint (hmem '.' (List.mem_append_right _ (List.mem_append_left _ List.mem_cons_self))).symm

theorem forall_mem_takeWhile (s : Text) : ∀ ch ∈ s.takeWhile Char.isDigit, ch.isDigit = true :=
  fun _ hch => List.mem_takeWhile_imp hch

theorem consumeFraction_spec (s : Text) : IsFraction (consumeFraction s).1 ∧ (consumeFraction s).2 <:+ s := by
  rw [consumeFraction.eq_def]
  split
  next rest =>
    split
    next =>
      exact ⟨.inr ⟨_, rfl, forall_mem_takeWhile rest⟩,
        (List.dropWhile_suffix _).trans (List.suffix_cons '.' rest)⟩
    next => exact ⟨.inl rfl, List.suffix_refl _⟩
  next => exact ⟨.inl rfl, List.suffix_refl _⟩

/-- A point with a digit behind it is read. -/
theorem consumeFraction_point {rest : Text} (h : rest.head?.any Char.isDigit = true) :
    1 < (consumeFraction ('.' :: rest)).1.length ∧ (consumeFraction ('.' :: rest)).2 <:+ rest := by
  rw [consumeFraction, if_pos h]
  constructor
  · cases rest with
    | nil => cases h
    | cons ch rest =>
      have hch : ch.isDigit = true := h
      rw [List.takeWhile_cons_of_pos hch]
      simp
  · exact List.dropWhile_suffix _

theorem isSignText_filter (s : Text) : IsSignText ((s.take 1).filter fun next => next == '+' || next == '-') := by
  cases s with
  | nil => exact .inl rfl
  | cons ch rest =>
    by_cases hplus : ch = '+'
    · exact .inr (.inl (by simp [hplus]))
    · by_cases hminus : ch = '-'
      · exact .inr (.inr (by simp [hminus]))
      · exact .inl (by simp [hplus, hminus])

theorem consumeExponent_spec (s : Text) : IsExponent (consumeExponent s).1 ∧ (consumeExponent s).2 <:+ s := by
  cases s with
  | nil => exact ⟨.inl rfl, List.suffix_refl []⟩
  | cons ch rest =>
    rw [consumeExponent]
    split
    next he =>
      dsimp only
      split
      next hdigit =>
        refine ⟨.inr ⟨ch, _, _, rfl, he, isSignText_filter rest, ?_, forall_mem_takeWhile _⟩, ?_⟩
        · revert hdigit
          generalize List.drop _ rest = digits
          cases digits with
          | nil => nofun
          | cons digit digits =>
            intro hdigit
            have hdigit' : digit.isDigit = true := hdigit
            rw [List.takeWhile_cons_of_pos hdigit']
            exact List.cons_ne_nil _ _
        · exact ((List.dropWhile_suffix _).trans (List.drop_suffix _ rest)).trans (List.suffix_cons ch rest)
      next => exact ⟨.inl rfl, List.suffix_refl _⟩
    next => exact ⟨.inl rfl, List.suffix_refl _⟩

/-- The spelling of a number, behind its sign. -/
def unsignedSpelling (rest : Text) : Text × Text :=
  let fraction := consumeFraction (rest.dropWhile Char.isDigit)
  let exponent := consumeExponent fraction.2
  (rest.takeWhile Char.isDigit ++ fraction.1 ++ exponent.1, exponent.2)

theorem numberSpelling_sign {sign : Char} (h : sign = '+' ∨ sign = '-') (rest : Text) :
    numberSpelling (sign :: rest) = (sign :: (unsignedSpelling rest).1, (unsignedSpelling rest).2) := by
  have hsign : ([sign].filter fun ch => ch == '+' || ch == '-') = [sign] := by
    rcases h with rfl | rfl <;> rfl
  rw [numberSpelling, List.take_succ_cons, List.take_zero, hsign]
  rfl

theorem numberSpelling_unsigned {ch : Char} (hplus : ch ≠ '+') (hminus : ch ≠ '-') (rest : Text) :
    numberSpelling (ch :: rest) = unsignedSpelling (ch :: rest) := by
  have hsign : ([ch].filter fun ch => ch == '+' || ch == '-') = [] := by simp [hplus, hminus]
  rw [numberSpelling, List.take_succ_cons, List.take_zero, hsign]
  rfl

theorem isFloat_unsigned {rest sign : Text} (hsign : IsSignText sign)
    (h : rest.takeWhile Char.isDigit ≠ [] ∨
      1 < (consumeFraction (rest.dropWhile Char.isDigit)).1.length) :
    IsFloat (sign ++ (unsignedSpelling rest).1) := by
  have hfloat := IsFloat.number hsign (forall_mem_takeWhile rest) (consumeFraction_spec _).1 h
    (consumeExponent_spec (consumeFraction (rest.dropWhile Char.isDigit)).2).1
  rw [unsignedSpelling]
  simpa only [List.append_assoc] using hfloat

theorem unsignedSpelling_suffix (rest : Text) : (unsignedSpelling rest).2 <:+ rest :=
  ((consumeExponent_spec _).2.trans (consumeFraction_spec _).2).trans (List.dropWhile_suffix _)

theorem takeWhile_digit {ch : Char} (h : ch.isDigit = true) (rest : Text) :
    (ch :: rest).takeWhile Char.isDigit ≠ [] := by
  rw [List.takeWhile_cons_of_pos h]
  exact List.cons_ne_nil _ _

/-- A point that is in front of a digit starts a number. -/
theorem isFloat_point {rest sign : Text} (hsign : IsSignText sign) (h : rest.head?.any Char.isDigit = true) :
    IsFloat (sign ++ (unsignedSpelling ('.' :: rest)).1) ∧ (unsignedSpelling ('.' :: rest)).2 <:+ rest := by
  have hdrop : ('.' :: rest).dropWhile Char.isDigit = '.' :: rest := List.dropWhile_cons_of_neg (by decide)
  obtain ⟨hlength, hsuffix⟩ := consumeFraction_point h
  constructor
  · refine isFloat_unsigned hsign (.inr ?_)
    rw [hdrop]
    exact hlength
  · rw [unsignedSpelling, hdrop]
    exact (consumeExponent_spec _).2.trans hsuffix

/-- A number is spelled as one, but for a sign in front of a point. -/
theorem numberSpelling_spec {ch : Char} {rest : Text} (h : isNumberStart (ch :: rest) = true) :
    (IsFloat (numberSpelling (ch :: rest)).1 ↔ ¬ IsSignPoint (ch :: rest)) ∧
      (numberSpelling (ch :: rest)).2 <:+ rest := by
  by_cases hsign : ch = '+' ∨ ch = '-'
  · rw [numberSpelling_sign hsign]
    have hsignText : IsSignText [ch] := by
      rcases hsign with rfl | rfl
      · exact .inr (.inl rfl)
      · exact .inr (.inr rfl)
    refine ⟨?_, unsignedSpelling_suffix rest⟩
    have hnext : rest.head?.any (fun next => next.isDigit || next == '.') = true := by
      simp only [isNumberStart, Bool.or_eq_true, Bool.and_eq_true, beq_iff_eq] at h
      rcases h with (h | ⟨h, -⟩) | ⟨-, h⟩
      · rcases hsign with rfl | rfl <;> cases h
      · rcases hsign with rfl | rfl <;> cases h
      · simpa using h
    cases rest with
    | nil => cases hnext
    | cons next rest =>
      by_cases hpoint : next = '.'
      · subst hpoint
        by_cases hdigit : rest.head?.any Char.isDigit = true
        · refine ⟨fun _ hpoint => ?_, fun _ => (isFloat_point hsignText hdigit).1⟩
          rw [IsSignPoint, hdigit] at hpoint
          cases hpoint.2
        · rw [Bool.not_eq_true] at hdigit
          have hspelling : (unsignedSpelling ('.' :: rest)).1 = [] := by
            have hdrop : ('.' :: rest).dropWhile Char.isDigit = '.' :: rest :=
              List.dropWhile_cons_of_neg (by decide)
            have htake : ('.' :: rest).takeWhile Char.isDigit = [] :=
              List.takeWhile_cons_of_neg (by decide)
            have hfraction : consumeFraction ('.' :: rest) = ([], '.' :: rest) := by
              rw [consumeFraction, hdigit]
              rfl
            rw [unsignedSpelling, hdrop, htake, hfraction]
            rfl
          rw [hspelling]
          exact iff_of_false (not_isFloat_sign hsign) fun hnot => hnot ⟨hsign, hdigit⟩
      · have hdigit : next.isDigit = true := by
          have hor : (next.isDigit || next == '.') = true := hnext
          simpa [hpoint] using hor
        refine iff_of_true (isFloat_unsigned hsignText (.inl (takeWhile_digit hdigit rest))) fun hnot => ?_
        rw [IsSignPoint.eq_def] at hnot
        split at hnot
        next heq => exact hpoint (List.cons_eq_cons.mp (List.cons_eq_cons.mp heq).2).1
        next => exact hnot
  · obtain ⟨hplus, hminus⟩ := not_or.mp hsign
    rw [numberSpelling_unsigned hplus hminus]
    have hnot : ¬ IsSignPoint (ch :: rest) := by
      intro hpoint
      rw [IsSignPoint.eq_def] at hpoint
      split at hpoint
      next heq =>
        rw [← (List.cons_eq_cons.mp heq).1] at hpoint
        exact hsign hpoint.1
      next => exact hpoint
    simp only [isNumberStart, Bool.or_eq_true, Bool.and_eq_true, beq_iff_eq] at h
    rcases h with (hdigit | ⟨hpoint, hdigit⟩) | ⟨hsign', -⟩
    · refine ⟨iff_of_true (isFloat_unsigned (.inl rfl) (.inl (takeWhile_digit hdigit rest))) hnot, ?_⟩
      rw [unsignedSpelling, List.dropWhile_cons_of_pos hdigit]
      exact unsignedSpelling_suffix rest
    · subst hpoint
      obtain ⟨hfloat, hsuffix⟩ := @isFloat_point rest [] (.inl rfl) hdigit
      exact ⟨iff_of_true hfloat hnot, hsuffix⟩
    · exact absurd hsign' hsign

/-! ## Malformed texts -/

/-- A string is closed, behind its quote. -/
inductive IsClosed (quote : Char) : Text → Prop
  | close (rest : Text) : IsClosed quote (quote :: rest)
  | escape {rest : Text} (h : IsClosed quote (consumeCssEscape rest).2) : IsClosed quote ('\\' :: rest)
  | char {ch : Char} {rest : Text} (hch : ch ≠ '\\') (h : IsClosed quote rest) : IsClosed quote (ch :: rest)

/-- An address without quotes is well formed, behind the parenthesis and the white space. -/
inductive IsUrl : Text → Prop
  | nil : IsUrl []
  | close (rest : Text) : IsUrl (')' :: rest)
  | blank {ch : Char} {rest : Text} (hch : Text.isAsciiWhitespace ch = true)
      (hend : ∀ next ∈ (rest.dropWhile Text.isAsciiWhitespace).head?, next = ')') : IsUrl (ch :: rest)
  | escape {next : Char} {rest : Text} (hnext : isNewline next = false)
      (h : IsUrl (consumeCssEscape (next :: rest)).2) : IsUrl ('\\' :: next :: rest)
  | char {ch : Char} {rest : Text} (hblank : Text.isAsciiWhitespace ch = false)
      (hch : isNotInUrl ch = false) (hescape : ch ≠ '\\') (h : IsUrl rest) : IsUrl (ch :: rest)

/-- A comment or a string that is not closed, or an address that is not well formed. -/
inductive Malformed : Text → Prop
  | comment {rest : Text} (h : ¬ ['*', '/'] <:+: rest) : Malformed ('/' :: '*' :: rest)
  | string {quote : Char} {rest : Text} (hquote : quote = '"' ∨ quote = '\'') (h : ¬ IsClosed quote rest) :
      Malformed (quote :: rest)
  | url {s ident rest : Text} (hstart : startsIdentSequence s = true)
      (hident : consumeIdent s = (ident, '(' :: rest)) (hurl : Text.eqIgnoreAsciiCase ident "url".toList = true)
      (h : ¬ IsUrl (rest.dropWhile Text.isAsciiWhitespace))
      (hquote : ∀ ch ∈ (rest.dropWhile Text.isAsciiWhitespace).head?, ch ≠ '"' ∧ ch ≠ '\'') : Malformed s

theorem skipComment_isSome {rest : Text} : (∃ behind, skipComment rest = some behind) ↔ ['*', '/'] <:+: rest := by
  induction rest with
  | nil => 
      refine ⟨fun ⟨_, h⟩ => (nomatch h), fun h => ?_⟩
      cases List.infix_nil.mp h
  | cons ch rest ih =>
    rw [skipComment.eq_def, List.infix_cons_iff]
    split
    next rest' heq =>
      refine ⟨fun _ => .inl ?_, fun _ => ⟨rest', rfl⟩⟩
      rw [heq]
      exact ⟨rest', rfl⟩
    next hclose heq =>
      obtain ⟨rfl, rfl⟩ := List.cons_eq_cons.mp heq
      rw [ih]
      refine ⟨.inr, fun h => h.resolve_left ?_⟩
      rintro ⟨rest', heq'⟩
      obtain ⟨rfl, rfl⟩ := List.cons_eq_cons.mp heq'
      exact hclose rest' rfl rfl
    next heq => cases heq

theorem consumeString_ok {quote : Char} : ∀ {passes : Nat} {s : Text}, s.length < passes →
    ((∃ string, consumeStringFrom quote passes s = .ok string) ↔ IsClosed quote s)
  | 0, _, h => absurd h (Nat.not_lt_zero _)
  | _ + 1, [], _ => ⟨fun ⟨_, h⟩ => (nomatch h), nofun⟩
  | passes + 1, ch :: rest, h => by
    have hlength : rest.length < passes := Nat.lt_of_succ_lt_succ h
    rw [consumeStringFrom]
    by_cases hquote : ch = quote
    · subst hquote
      rw [if_pos rfl]
      exact ⟨fun _ => .close rest, fun _ => ⟨_, rfl⟩⟩
    · rw [if_neg hquote]
      by_cases hescape : ch = '\\'
      · subst hescape
        have hlength' := (consumeCssEscape_suffix rest).length_le
        have ih := @consumeString_ok quote passes (consumeCssEscape rest).2 (by omega)
        rw [if_pos rfl]
        constructor
        · rintro ⟨string, hstring⟩
          obtain ⟨inner, hinner, -⟩ := map_eq_ok hstring
          exact .escape (ih.mp ⟨inner, hinner⟩)
        · intro hclosed
          cases hclosed with
          | close => exact absurd rfl hquote
          | escape hclosed =>
            obtain ⟨inner, hinner⟩ := ih.mpr hclosed
            dsimp only
            rw [hinner]
            exact ⟨_, rfl⟩
          | char hch => exact absurd rfl hch
      · have ih := @consumeString_ok quote passes rest hlength
        rw [if_neg hescape]
        constructor
        · rintro ⟨string, hstring⟩
          obtain ⟨inner, hinner, -⟩ := map_eq_ok hstring
          exact .char hescape (ih.mp ⟨inner, hinner⟩)
        · intro hclosed
          cases hclosed with
          | close => exact absurd rfl hquote
          | escape => exact absurd rfl hescape
          | char _ hclosed =>
            obtain ⟨inner, hinner⟩ := ih.mpr hclosed
            rw [hinner]
            exact ⟨_, rfl⟩

theorem ReadUrl.isUrl {s value behind : Text} (h : ReadUrl s value behind) : IsUrl s := by
  induction h with
  | ends => exact .nil
  | close rest => exact .close rest
  | blank hch hend => exact .blank hch hend
  | escape hnext hraw _ ih => exact .escape hnext (hraw.symm ▸ ih)
  | char _ hblank hch hescape _ ih => exact .char hblank hch hescape ih

theorem IsUrl.readUrl {s : Text} (h : IsUrl s) : ∃ value behind, ReadUrl s value behind := by
  induction h with
  | nil => exact ⟨_, _, .ends⟩
  | close rest => exact ⟨_, _, .close rest⟩
  | blank hch hend => exact ⟨_, _, .blank hch hend⟩
  | @escape next rest hnext _ ih =>
    obtain ⟨value, behind, hread⟩ := ih
    obtain ⟨raw, hraw⟩ := consumeCssEscape_cons next rest
    have hsplit : next :: raw ++ (consumeCssEscape (next :: rest)).2 = next :: rest :=
      congrArg (next :: ·) hraw
    have hescaped := ReadUrl.escape hnext (by rw [hsplit]) hread
    rw [hsplit] at hescaped
    exact ⟨_, _, hescaped⟩
  | @char ch rest hblank hch hescape _ ih =>
    obtain ⟨value, behind, hread⟩ := ih
    by_cases hclose : ch = ')'
    · rw [hclose]
      exact ⟨_, _, .close rest⟩
    · exact ⟨_, _, .char hclose hblank hch hescape hread⟩

theorem consumeUrl_ok {s : Text} : (∃ url, consumeUnquotedUrl s = .ok url) ↔ IsUrl s := by
  constructor
  · rintro ⟨url, hurl⟩
    exact (readUrl_of_consume (Nat.le_refl _) hurl).isUrl
  · intro hurl
    obtain ⟨value, behind, hread⟩ := hurl.readUrl
    exact ⟨_, hread.consume (Nat.le_refl _)⟩

/-! ## Tokens of a text -/

/-- What is behind the token or the comment at the start of a text.  Any spelling of a number counts. -/
def behindToken (ch : Char) (rest : Text) : Except CssParseError Text :=
  (consumeToken (fun _ => some ()) ch rest).map Prod.snd

/-- A text is read up to a place between its tokens. -/
inductive ReadsTo : Text → Text → Prop
  | refl (s : Text) : ReadsTo s s
  | step {ch : Char} {rest behind place : Text} (h : behindToken ch rest = .ok behind)
      (hplace : ReadsTo behind place) : ReadsTo (ch :: rest) place

theorem map_map_snd {α β : Type} {γ : Type} (e : Except CssParseError (α × β)) (f : α → γ) :
    (e.map fun p => (f p.1, p.2)).map Prod.snd = e.map Prod.snd := by
  cases e <;> rfl

variable {F : Type}

theorem consumeIdentLike_snd (s : Text) :
    (@consumeIdentLike F s).map Prod.snd = (@consumeIdentLike Unit s).map Prod.snd := by
  rw [consumeIdentLike, consumeIdentLike]
  dsimp only
  split
  next =>
    split
    next => rfl
    next => rw [map_map_snd _ (fun value => CssToken.url value), map_map_snd _ (fun value => CssToken.url value)]
  next => rfl

/-- Only numbers matter for what is behind a token. -/
theorem consumeToken_snd {parse : Text → Option F} {ch : Char} {rest : Text}
    (h : isNumberStart (ch :: rest) = false) :
    (consumeToken parse ch rest).map Prod.snd = behindToken ch rest := by
  have hnumber : ¬ isNumberStart (ch :: rest) = true := Bool.eq_false_iff.mp h
  rw [behindToken, consumeToken, consumeToken]
  simp only [if_neg hnumber]
  split
  next => rfl
  split
  next => cases skipComment rest.tail <;> rfl
  split
  next => rfl
  split
  next => rfl
  split
  next =>
    rw [map_map_snd _ fun value => some (CssToken.string value),
      map_map_snd _ fun value => some (CssToken.string value)]
  split
  next =>
    rw [map_map_snd _ some, map_map_snd _ some]
    exact consumeIdentLike_snd (ch :: rest)
  next => rfl

/-- What is behind a number does not depend on its value. -/
theorem consumeNumeric_snd {parse : Text → Option F} {s : Text} :
    (consumeNumeric parse s).map Prod.snd =
      match parse (numberSpelling s).1 with
      | some _ => .ok
          (if (numberSpelling s).2.head? = some '%' then (numberSpelling s).2.tail
          else if startsIdentSequence (numberSpelling s).2 then (consumeIdent (numberSpelling s).2).2
          else (numberSpelling s).2)
      | none => .error .invalidNumber := by
  rw [consumeNumeric, consumeNumber]
  cases parse (numberSpelling s).1 with
  | none => rfl
  | some value =>
    dsimp only [Except.map]
    split
    next => rfl
    next => split <;> rfl

theorem behindNumber_suffix (s : Text) :
    (if s.head? = some '%' then s.tail else if startsIdentSequence s then (consumeIdent s).2 else s) <:+ s := by
  split
  next => exact List.tail_suffix s
  next =>
    split
    next => exact consumeIdentFrom_suffix _ s
    next => exact List.suffix_refl s

/-- Every pass of the loop reads a character. -/
theorem behindToken_suffix {ch : Char} {rest behind : Text} (h : behindToken ch rest = .ok behind) :
    behind <:+ rest := by
  obtain ⟨read, hread, rfl⟩ := map_eq_ok h
  by_cases hnumber : isNumberStart (ch :: rest) = true
  · rw [consumeToken_of_isNumberStart hnumber] at hread
    obtain ⟨number, hnumeric, rfl⟩ := map_eq_ok hread
    have hsnd := @consumeNumeric_snd Unit (fun _ => some ()) (ch :: rest)
    rw [hnumeric] at hsnd
    have heq : number.2 = _ := Except.ok.inj hsnd
    dsimp only
    rw [heq]
    exact (behindNumber_suffix _).trans (numberSpelling_spec hnumber).2
  · rw [consumeToken] at hread
    simp only [if_neg hnumber] at hread
    split at hread
    next =>
      cases hread
      exact List.dropWhile_suffix _
    split at hread
    next hcomment =>
      split at hread
      next behind hbehind =>
        cases hread
        exact (skipComment_suffix hbehind).trans (List.tail_suffix rest)
      next => cases hread
    split at hread
    next =>
      cases hread
      exact consumeIdentFrom_suffix _ rest
    split at hread
    next =>
      cases hread
      exact consumeIdentFrom_suffix _ rest
    split at hread
    next =>
      obtain ⟨string, hstring, rfl⟩ := map_eq_ok hread
      exact consumeStringFrom_suffix hstring
    split at hread
    next hstart =>
      obtain ⟨ident, hident, rfl⟩ := map_eq_ok hread
      have hsuffix := consumeIdent_suffix hstart
      rw [consumeIdentLike] at hident
      dsimp only at hident
      split at hident
      next =>
        split at hident
        next =>
          cases hident
          exact hsuffix
        next =>
          obtain ⟨url, hurl, rfl⟩ := map_eq_ok hident
          exact ((consumeUnquotedUrl_suffix hurl).trans (List.dropWhile_suffix _)).trans
            ((List.tail_suffix _).trans hsuffix)
      next =>
        cases hident
        exact hsuffix
    next =>
      cases hread
      exact List.suffix_refl rest

theorem first_of_startsIdentSequence {ch : Char} {rest : Text} (h : startsIdentSequence (ch :: rest) = true) :
    (ch = '-' ∧ (rest.head?.any (fun next => isIdentStart next || next == '-') || validEscape rest) = true) ∨
      ch = '\\' ∨ isIdentStart ch = true := by
  rw [startsIdentSequence.eq_def] at h
  split at h
  next rest' heq =>
    obtain ⟨rfl, rfl⟩ := List.cons_eq_cons.mp heq
    exact .inl ⟨rfl, h⟩
  next heq => exact .inr (.inl (List.cons_eq_cons.mp heq).1)
  next heq =>
    rw [(List.cons_eq_cons.mp heq).1]
    exact .inr (.inr h)
  next heq => cases heq

theorem isIdentStart_of_isDigit {ch : Char} (h : ch.isDigit = true) : isIdentStart ch = false := by
  simp only [Char.isDigit, Bool.and_eq_true, decide_eq_true_eq, UInt32.le_iff_toNat_le, ge_iff_le] at h
  change 48 ≤ ch.toNat ∧ ch.toNat ≤ 57 at h
  rw [Bool.eq_false_iff]
  intro hstart
  simp only [isIdentStart, Char.isAlpha, Char.isUpper, Char.isLower, Bool.or_eq_true, Bool.and_eq_true,
    decide_eq_true_eq, UInt32.le_iff_toNat_le, ge_iff_le, beq_iff_eq] at hstart
  rcases hstart with (hletter | rfl) | hlarge
  · change (65 ≤ ch.toNat ∧ ch.toNat ≤ 90) ∨ (97 ≤ ch.toNat ∧ ch.toNat ≤ 122) at hletter
    omega
  · exact absurd h.2 (by decide)
  · omega

/-- A number does not start like an identifier. -/
theorem not_startsIdent_of_isNumberStart {ch : Char} {rest : Text} (h : isNumberStart (ch :: rest) = true) :
    startsIdentSequence (ch :: rest) = false := by
  rw [Bool.eq_false_iff]
  intro hstart
  simp only [isNumberStart, Bool.or_eq_true, Bool.and_eq_true, beq_iff_eq] at h
  rcases first_of_startsIdentSequence hstart with ⟨rfl, hnext⟩ | rfl | hident
  · rcases h with (h | ⟨h, -⟩) | ⟨-, h⟩
    · cases h
    · cases h
    · cases rest with
      | nil => cases h
      | cons next rest =>
        have hdigit : next.isDigit = true ∨ next = '.' := by simpa using h
        have hnot : isIdentStart next = false ∧ next ≠ '-' ∧ next ≠ '\\' := by
          rcases hdigit with hdigit | rfl
          · refine ⟨isIdentStart_of_isDigit hdigit, ?_, ?_⟩ <;> (rintro rfl; cases hdigit)
          · decide
        have hescape : validEscape (next :: rest) = false := by
          rw [validEscape]
          exact fun rest' heq => hnot.2.2 (List.cons_eq_cons.mp heq).1
        have hor : ((isIdentStart next || next == '-') || validEscape (next :: rest)) = true := hnext
        rw [hnot.1, hescape] at hor
        simp [hnot.2.1] at hor
  · rcases h with (h | ⟨h, -⟩) | ⟨h | h, -⟩ <;> cases h
  · rcases h with (h | ⟨rfl, -⟩) | ⟨rfl | rfl, -⟩
    · rw [isIdentStart_of_isDigit h] at hident
      cases hident
    all_goals cases hident

theorem consumeIdentLike_ok {s : Text} :
    (∃ ident, @consumeIdentLike F s = .ok ident) ↔
      ∀ ident rest, consumeIdent s = (ident, '(' :: rest) → Text.eqIgnoreAsciiCase ident "url".toList = true →
        (∀ ch ∈ (rest.dropWhile Text.isAsciiWhitespace).head?, ch ≠ '"' ∧ ch ≠ '\'') →
          IsUrl (rest.dropWhile Text.isAsciiWhitespace) := by
  rw [consumeIdentLike]
  dsimp only
  generalize consumeIdent s = read
  obtain ⟨ident, behind⟩ := read
  split
  next hurl =>
    rw [Bool.and_eq_true, beq_iff_eq] at hurl
    obtain ⟨hname, hparen⟩ := hurl
    obtain ⟨rest, rfl⟩ : ∃ rest, behind = '(' :: rest := by
      cases behind with
      | nil => cases hparen
      | cons paren rest => exact ⟨rest, by rw [Option.some.inj hparen]⟩
    have hall (P : Text → Text → Prop) : (∀ ident' rest', (ident, '(' :: rest) = (ident', '(' :: rest') →
        P ident' rest') ↔ P ident rest := by
      constructor
      · exact fun h => h _ _ rfl
      · rintro h _ _ heq
        cases heq
        exact h
    have hiff := hall fun ident rest => Text.eqIgnoreAsciiCase ident "url".toList = true →
        (∀ ch ∈ (rest.dropWhile Text.isAsciiWhitespace).head?, ch ≠ '"' ∧ ch ≠ '\'') →
          IsUrl (rest.dropWhile Text.isAsciiWhitespace)
    rw [hiff]
    dsimp only [List.tail_cons]
    by_cases hquote : (rest.dropWhile Text.isAsciiWhitespace).head?.any
        (fun ch => ch == '"' || ch == '\'') = true
    · simp only [hquote, if_true]
      refine ⟨fun _ _ hnone => ?_, fun _ => ⟨_, rfl⟩⟩
      obtain ⟨ch, hch, hch'⟩ := (Option.any_eq_true _ _).mp hquote
      rw [Bool.or_eq_true, beq_iff_eq, beq_iff_eq] at hch'
      obtain ⟨hdouble, hsingle⟩ := hnone ch hch
      exact absurd hch' (not_or.mpr ⟨hdouble, hsingle⟩)
    · simp only [hquote, Bool.false_eq_true, if_false]
      rw [← consumeUrl_ok]
      constructor
      · rintro ⟨read, hread⟩ _ _
        obtain ⟨url, hurl, -⟩ := map_eq_ok hread
        exact ⟨url, hurl⟩
      · intro h
        obtain ⟨url, hurl⟩ := h hname fun ch hch => by
          have hnot : ¬ (ch == '"' || ch == '\'') = true := fun htrue =>
            hquote ((Option.any_eq_true _ _).mpr ⟨ch, hch, htrue⟩)
          simpa using hnot
        rw [hurl]
        exact ⟨_, rfl⟩
  next hurl =>
    refine ⟨fun _ ident' rest heq hname => ?_, fun _ => ⟨_, rfl⟩⟩
    obtain ⟨rfl, rfl⟩ := Prod.mk.inj heq
    exact absurd (by rw [hname]; rfl) hurl

theorem map_ok_iff {α β : Type} {e : Except CssParseError α} {f : α → β} :
    (∃ b, e.map f = .ok b) ↔ ∃ a, e = .ok a := by
  constructor
  · rintro ⟨b, hb⟩
    obtain ⟨a, ha, -⟩ := map_eq_ok hb
    exact ⟨a, ha⟩
  · rintro ⟨a, rfl⟩
    exact ⟨_, rfl⟩

/-- What a malformed text starts with. -/
theorem Malformed.first {ch : Char} {rest : Text} (h : Malformed (ch :: rest)) :
    (ch = '/' ∧ rest.head? = some '*') ∨ (ch = '"' ∨ ch = '\'') ∨ startsIdentSequence (ch :: rest) = true := by
  cases h with
  | comment => exact .inl ⟨rfl, rfl⟩
  | string hquote => exact .inr (.inl hquote)
  | url hstart => exact .inr (.inr hstart)

theorem not_startsIdentSequence {ch : Char} {rest : Text} (hminus : ch ≠ '-') (hescape : ch ≠ '\\')
    (hident : isIdentStart ch = false) : ¬ startsIdentSequence (ch :: rest) = true := by
  intro h
  rcases first_of_startsIdentSequence h with ⟨rfl, -⟩ | rfl | h
  · exact hminus rfl
  · exact hescape rfl
  · rw [hident] at h
    cases h

/-- A token is read, unless the text is malformed. -/
theorem behindToken_ok {ch : Char} {rest : Text} :
    (∃ behind, behindToken ch rest = .ok behind) ↔ ¬ Malformed (ch :: rest) := by
  have hplain (hne : ch ∈ ['\t', '\n', '\x0C', '\r', ' ', '@', '#']) : ¬ Malformed (ch :: rest) := by
    intro hmalformed
    simp only [List.mem_cons, List.not_mem_nil, or_false] at hne
    rcases hmalformed.first with ⟨rfl, -⟩ | (rfl | rfl) | hstart
    · exact absurd hne (by decide)
    · exact absurd hne (by decide)
    · exact absurd hne (by decide)
    · rcases hne with rfl | rfl | rfl | rfl | rfl | rfl | rfl <;>
        exact not_startsIdentSequence (by decide) (by decide) (by decide) hstart
  rw [behindToken, map_ok_iff]
  by_cases hnumber : isNumberStart (ch :: rest) = true
  · rw [consumeToken_of_isNumberStart hnumber, map_ok_iff, consumeNumeric, map_ok_iff]
    refine iff_of_true ⟨_, rfl⟩ fun hmalformed => ?_
    rcases hmalformed.first with ⟨rfl, -⟩ | (rfl | rfl) | hstart
    · cases hnumber
    · cases hnumber
    · cases hnumber
    · rw [not_startsIdent_of_isNumberStart hnumber] at hstart
      cases hstart
  rw [consumeToken]
  simp only [if_neg hnumber]
  by_cases hblank : Text.isAsciiWhitespace ch = true
  · rw [if_pos hblank]
    refine iff_of_true ⟨_, rfl⟩ (hplain ?_)
    simp only [Text.isAsciiWhitespace, Bool.or_eq_true, beq_iff_eq] at hblank
    rcases hblank with (((rfl | rfl) | rfl) | rfl) | rfl <;> decide
  rw [if_neg hblank]
  by_cases hcomment : ch = '/' ∧ rest.head? = some '*'
  · rw [if_pos hcomment]
    obtain ⟨rfl, hstar⟩ := hcomment
    obtain ⟨rest', rfl⟩ : ∃ rest', rest = '*' :: rest' := by
      cases rest with
      | nil => cases hstar
      | cons star rest' => exact ⟨rest', by rw [Option.some.inj hstar]⟩
    have hiff : Malformed ('/' :: '*' :: rest') ↔ ¬ ['*', '/'] <:+: rest' := by
      constructor
      · intro hmalformed
        cases hmalformed with
        | comment h => exact h
        | string hquote => exact absurd hquote (by decide)
        | url hstart => exact absurd hstart (not_startsIdentSequence (by decide) (by decide) (by decide))
      · exact .comment
    rw [hiff, not_not, ← skipComment_isSome, List.tail_cons]
    cases skipComment rest' with
    | none =>
      constructor
      · rintro ⟨_, h⟩
        cases h
      · rintro ⟨_, h⟩
        cases h
    | some behind => exact ⟨fun _ => ⟨_, rfl⟩, fun _ => ⟨_, rfl⟩⟩
  rw [if_neg hcomment]
  by_cases hat : ch = '@'
  · rw [if_pos hat]
    exact iff_of_true ⟨_, rfl⟩ (hplain (by rw [hat]; decide))
  rw [if_neg hat]
  by_cases hhash : ch = '#'
  · rw [if_pos hhash]
    exact iff_of_true ⟨_, rfl⟩ (hplain (by rw [hhash]; decide))
  rw [if_neg hhash]
  by_cases hquote : ch = '"' ∨ ch = '\''
  · rw [if_pos hquote, map_ok_iff, consumeString, consumeString_ok (Nat.lt_succ_self _)]
    have hiff : Malformed (ch :: rest) ↔ ¬ IsClosed ch rest := by
      constructor
      · intro hmalformed
        cases hmalformed with
        | comment => exact absurd hquote (by decide)
        | string _ h => exact h
        | url hstart =>
          rcases hquote with rfl | rfl <;>
            exact absurd hstart (not_startsIdentSequence (by decide) (by decide) (by decide))
      · exact .string hquote
    rw [hiff, not_not]
  rw [if_neg hquote]
  by_cases hstart : startsIdentSequence (ch :: rest) = true
  · rw [if_pos hstart, map_ok_iff, consumeIdentLike_ok]
    constructor
    · intro hurl hmalformed
      cases hmalformed with
      | comment => exact hcomment ⟨rfl, rfl⟩
      | string hquote' => exact hquote hquote'
      | url _ hident hname h hnone => exact h (hurl _ _ hident hname hnone)
    · intro hmalformed ident rest' hident hname hnone
      by_contra h
      exact hmalformed (.url hstart hident hname h hnone)
  · rw [if_neg hstart]
    refine iff_of_true ⟨_, rfl⟩ fun hmalformed => ?_
    rcases hmalformed.first with h | h | h
    · exact hcomment h
    · exact hquote h
    · exact hstart h

/-- The loop reads the token at the start of a text, but for a sign in front of a point. -/
theorem consumeToken_ok (numbers : FloatParser F) {ch : Char} {rest : Text} :
    (¬ IsSignPoint (ch :: rest) → (consumeToken numbers.parse ch rest).map Prod.snd = behindToken ch rest) ∧
      (IsSignPoint (ch :: rest) → consumeToken numbers.parse ch rest = .error .invalidNumber) := by
  by_cases hnumber : isNumberStart (ch :: rest) = true
  · obtain ⟨hfloat, -⟩ := numberSpelling_spec hnumber
    rw [behindToken, consumeToken_of_isNumberStart hnumber, consumeToken_of_isNumberStart hnumber,
      map_map_snd _ some, map_map_snd _ some]
    constructor
    · intro hpoint
      obtain ⟨value, hvalue⟩ := Option.isSome_iff_exists.mp ((numbers.accepts _).mpr (hfloat.mpr hpoint))
      rw [consumeNumeric_snd, consumeNumeric_snd, hvalue]
    · intro hpoint
      have hnone : numbers.parse (numberSpelling (ch :: rest)).1 = none := by
        rw [← Option.not_isSome_iff_eq_none, numbers.accepts, hfloat]
        exact not_not_intro hpoint
      rw [consumeNumeric, consumeNumber, hnone]
      rfl
  · rw [Bool.not_eq_true] at hnumber
    refine ⟨fun _ => consumeToken_snd hnumber, fun hpoint => ?_⟩
    rw [IsSignPoint.eq_def] at hpoint
    split at hpoint
    next sign rest' heq =>
      obtain ⟨rfl, rfl⟩ := List.cons_eq_cons.mp heq
      rcases hpoint.1 with rfl | rfl <;> cases hnumber
    next => exact hpoint.elim

theorem readsTo_iff {s place : Text} : ReadsTo s place ↔ s = place ∨
    ∃ ch rest behind, s = ch :: rest ∧ behindToken ch rest = .ok behind ∧ ReadsTo behind place := by
  constructor
  · intro h
    cases h with
    | refl => exact .inl rfl
    | step h hplace => exact .inr ⟨_, _, _, rfl, h, hplace⟩
  · rintro (rfl | ⟨ch, rest, behind, rfl, h, hplace⟩)
    · exact .refl s
    · exact .step h hplace

theorem tokenizeFrom_ok (numbers : FloatParser F) : ∀ {passes : Nat} {s : Text}, s.length ≤ passes →
    ((∃ tokens, tokenizeFrom numbers.parse passes s = .ok tokens) ↔
      ∀ place, ReadsTo s place → ¬ Malformed place ∧ ¬ IsSignPoint place)
  | passes, [], _ => by
    refine iff_of_true ⟨[], by cases passes <;> rfl⟩ fun place hplace => ?_
    rcases readsTo_iff.mp hplace with rfl | ⟨_, _, _, heq, -⟩
    · refine ⟨fun hmalformed => ?_, id⟩
      cases hmalformed with
      | url hstart => cases hstart
    · cases heq
  | 0, _ :: _, h => absurd h (Nat.not_succ_le_zero _)
  | passes + 1, ch :: rest, h => by
    have hlength : rest.length ≤ passes := Nat.le_of_succ_le_succ h
    obtain ⟨hsame, hfails⟩ := @consumeToken_ok _ numbers ch rest
    rw [tokenizeFrom]
    by_cases hpoint : IsSignPoint (ch :: rest)
    · rw [hfails hpoint]
      refine iff_of_false ?_ fun hplace => (hplace _ (.refl _)).2 hpoint
      rintro ⟨_, h⟩
      cases h
    by_cases hmalformed : Malformed (ch :: rest)
    · refine iff_of_false ?_ fun hplace => (hplace _ (.refl _)).1 hmalformed
      have hnone : ¬ ∃ read, consumeToken numbers.parse ch rest = .ok read := by
        rw [← @map_ok_iff _ _ _ Prod.snd, hsame hpoint, behindToken_ok]
        exact not_not_intro hmalformed
      cases hread : consumeToken numbers.parse ch rest with
      | error =>
        rintro ⟨_, h⟩
        cases h
      | ok read => exact absurd ⟨read, hread⟩ hnone
    · obtain ⟨behind, hbehind⟩ := behindToken_ok.mpr hmalformed
      have hread := hsame hpoint
      rw [hbehind] at hread
      obtain ⟨⟨token, behind'⟩, hread', heq⟩ := map_eq_ok hread
      cases heq
      have ih := tokenizeFrom_ok numbers ((behindToken_suffix hbehind).length_le.trans hlength)
      rw [hread']
      dsimp only
      rw [map_ok_iff, ih]
      constructor
      · intro hplaces place hplace
        rcases readsTo_iff.mp hplace with rfl | ⟨_, _, behind', heq, hbehind', hplace⟩
        · exact ⟨hmalformed, hpoint⟩
        · obtain ⟨rfl, rfl⟩ := List.cons_eq_cons.mp heq
          rw [hbehind] at hbehind'
          cases hbehind'
          exact hplaces place hplace
      · exact fun hplaces place hplace => hplaces place (.step hbehind hplace)

/-! ## Texts without quotes, escapes, comments and addresses -/

theorem suffix_of_readsTo {s place : Text} (h : ReadsTo s place) : place <:+ s := by
  induction h with
  | refl s => exact List.suffix_refl s
  | @step ch rest _ _ h _ ih => exact (ih.trans (behindToken_suffix h)).trans (List.suffix_cons ch rest)

theorem prefix_of_preprocess {word : Text} : ∀ {s : Text}, '\n' ∉ word → Char.ofNat 0xfffd ∉ word →
    word <+: preprocessInput s → word <+: s := by
  induction word with
  | nil => exact fun _ _ _ => List.nil_prefix
  | cons ch word ih =>
    intro s hline hreplaced h
    rw [preprocessInput.eq_def] at h
    split at h
    next =>
      obtain ⟨heq, -⟩ := List.cons_prefix_cons.mp h
      exact absurd heq fun heq => hline (heq ▸ List.mem_cons_self)
    next first rest hpair =>
      obtain ⟨heq, hrest⟩ := List.cons_prefix_cons.mp h
      split at heq
      next => exact absurd heq fun heq => hline (heq ▸ List.mem_cons_self)
      next =>
        split at heq
        next => exact absurd heq fun heq => hreplaced (heq ▸ List.mem_cons_self)
        next =>
          subst heq
          have hprefix := ih (fun hmem => hline (List.mem_cons_of_mem _ hmem))
            (fun hmem => hreplaced (List.mem_cons_of_mem _ hmem)) hrest
          exact List.cons_prefix_cons.mpr ⟨rfl, hprefix⟩
    next => exact absurd (List.prefix_nil.mp h) (List.cons_ne_nil _ _)

theorem suffix_of_preprocess :
    ∀ {s t : Text}, t <:+ preprocessInput s → ∃ s', s' <:+ s ∧ t = preprocessInput s' := by
  intro s
  induction s using preprocessInput.induct with
  | case1 rest ih =>
    intro t h
    rw [preprocessInput] at h
    rcases List.suffix_cons_iff.mp h with rfl | h
    · exact ⟨'\r' :: '\n' :: rest, List.suffix_refl _, by rw [preprocessInput]⟩
    · obtain ⟨s', hs', rfl⟩ := ih h
      exact ⟨s', (hs'.trans (List.suffix_cons _ _)).trans (List.suffix_cons _ _), rfl⟩
  | case2 ch rest hpair ih =>
    intro t h
    rw [preprocessInput] at h
    · rcases List.suffix_cons_iff.mp h with rfl | h
      · exact ⟨ch :: rest, List.suffix_refl _, by rw [preprocessInput]; exact hpair⟩
      · obtain ⟨s', hs', rfl⟩ := ih h
        exact ⟨s', hs'.trans (List.suffix_cons _ _), rfl⟩
    · exact hpair
  | case3 =>
    intro t h
    exact ⟨[], List.suffix_refl _, List.suffix_nil.mp h⟩

theorem infix_of_preprocess {word s : Text} (hline : '\n' ∉ word) (hreplaced : Char.ofNat 0xfffd ∉ word)
    (h : word <:+: preprocessInput s) : word <:+: s := by
  obtain ⟨t, hprefix, hsuffix⟩ := List.infix_iff_prefix_suffix.mp h
  obtain ⟨s', hs', rfl⟩ := suffix_of_preprocess hsuffix
  exact (prefix_of_preprocess hline hreplaced hprefix).isInfix.trans hs'.isInfix

/-- Neither quotes nor backslashes, comments or addresses without quotes. -/
structure IsBare (input : Text) : Prop where
  double : '"' ∉ input
  single : '\'' ∉ input
  escape : '\\' ∉ input
  comment : ¬ ['/', '*'] <:+: input
  url : ∀ word, Text.eqIgnoreAsciiCase word "url(".toList = true → ¬ word <:+: input

theorem consumeIdentFrom_append : ∀ {passes : Nat} {s : Text}, '\\' ∉ s →
    (consumeIdentFrom passes s).1 ++ (consumeIdentFrom passes s).2 = s
  | 0, _, _ => rfl
  | _ + 1, [], _ => rfl
  | passes + 1, ch :: rest, h => by
    have hch : ch ≠ '\\' := fun heq => h (heq ▸ List.mem_cons_self)
    rw [consumeIdentFrom, if_neg hch]
    split
    next => exact congrArg (ch :: ·) (consumeIdentFrom_append fun hmem => h (List.mem_cons_of_mem _ hmem))
    next => rfl

/-- What is malformed has a quote, a backslash, a comment or an address in it. -/
theorem not_isBare {input place : Text} (hsuffix : place <:+ preprocessInput input) (h : Malformed place) :
    ¬ IsBare input := by
  have hwithin {word : Text} (hline : '\n' ∉ word) (hreplaced : Char.ofNat 0xfffd ∉ word) (h : word <:+: place) :
      word <:+: input := infix_of_preprocess hline hreplaced (h.trans hsuffix.isInfix)
  have hmem {c : Char} (hline : c ≠ '\n') (hreplaced : c ≠ Char.ofNat 0xfffd) (hc : c ∈ place) : c ∈ input := by
    obtain ⟨front, back, rfl⟩ := List.append_of_mem hc
    have hword : [c] <:+: input := hwithin (by simpa using hline.symm) (by simpa using hreplaced.symm)
      ⟨front, back, by simp⟩
    exact hword.subset List.mem_cons_self
  intro hbare
  cases h with
  | comment => exact hbare.comment (hwithin (by decide) (by decide) ⟨[], _, rfl⟩)
  | string hquote =>
    rcases hquote with rfl | rfl
    · exact hbare.double (hmem (by decide) (by decide) List.mem_cons_self)
    · exact hbare.single (hmem (by decide) (by decide) List.mem_cons_self)
  | @url _ ident rest _ hident hurl =>
    have hescape : '\\' ∉ place := fun hc => hbare.escape (hmem (by decide) (by decide) hc)
    have happend := @consumeIdentFrom_append place.length place hescape
    rw [consumeIdent] at hident
    rw [hident] at happend
    have hlower : Text.toAsciiLowercase (ident ++ ['(']) = "url(".toList := by
      rw [Text.toAsciiLowercase, List.map_append]
      have hname := Text.eqIgnoreAsciiCase_iff.mp hurl
      rw [Text.toAsciiLowercase] at hname
      rw [hname]
      rfl
    have hnot {c : Char} (hc : c.toLower ∉ "url(".toList) : c ∉ ident ++ ['('] := fun hmem =>
      hc (hlower ▸ List.mem_map_of_mem hmem)
    refine hbare.url (ident ++ ['(']) ?_ (hwithin (hnot (by decide)) (hnot (by decide)) ?_)
    · rw [Text.eqIgnoreAsciiCase_iff, hlower]
      rfl
    · exact ⟨[], rest, by rw [← happend]; simp⟩

/-- `tokenize` fails for malformed texts only if no sign is read in front of a point without digits behind
it, or if the text is malformed as well.  Each pass of its loop reads a character. -/
theorem tokenize_fails_iff (numbers : FloatParser F) (input : Text) :
    (((¬ ∃ tokens, tokenize numbers.parse input = .ok tokens) →
        ∃ place, ReadsTo (preprocessInput input) place ∧ Malformed place) ↔
      (∀ place, ReadsTo (preprocessInput input) place → ¬ IsSignPoint place) ∨
        ∃ place, ReadsTo (preprocessInput input) place ∧ Malformed place) ∧
    (IsBare input → ((∃ tokens, tokenize numbers.parse input = .ok tokens) ↔
      ∀ place, ReadsTo (preprocessInput input) place → ¬ IsSignPoint place)) ∧
    ∀ ch rest token behind, consumeToken numbers.parse ch rest = .ok (token, behind) →
      behind.length < (ch :: rest).length := by
  have hok : (∃ tokens, tokenize numbers.parse input = .ok tokens) ↔
      ∀ place, ReadsTo (preprocessInput input) place → ¬ Malformed place ∧ ¬ IsSignPoint place :=
    tokenizeFrom_ok numbers (Nat.le_refl _)
  refine ⟨?_, fun hbare => ?_, fun ch rest token behind h => ?_⟩
  · rw [hok]
    constructor
    · intro h
      by_cases hmalformed : ∃ place, ReadsTo (preprocessInput input) place ∧ Malformed place
      · exact .inr hmalformed
      · refine .inl fun place hplace hpoint => hmalformed (h fun hall => (hall place hplace).2 hpoint)
    · rintro (hpoint | hmalformed) hnot
      · by_contra hnone
        exact hnot fun place hplace => ⟨fun h => hnone ⟨place, hplace, h⟩, hpoint place hplace⟩
      · exact hmalformed
  · rw [hok]
    exact ⟨fun h place hplace => (h place hplace).2,
      fun h place hplace => ⟨fun hmal => not_isBare (suffix_of_readsTo hplace) hmal hbare, h place hplace⟩⟩
  · obtain ⟨hsame, hfails⟩ := @consumeToken_ok _ numbers ch rest
    by_cases hpoint : IsSignPoint (ch :: rest)
    · rw [hfails hpoint] at h
      cases h
    · have hread := hsame hpoint
      rw [h] at hread
      exact Nat.lt_succ_of_le (behindToken_suffix hread.symm).length_le

open Classical in
/-- A parser that keeps nothing of the number. -/
noncomputable def unitFloat : FloatParser Unit where
  parse s := if IsFloat s then some () else none
  accepts s := by
    split
    next h => exact iff_of_true rfl h
    next h => exact iff_of_false (fun hsome => nomatch hsome) h

/-- A sign in front of a point is refused, with nothing malformed in the text. -/
theorem plus_point_fails : (¬ ∃ tokens, tokenize unitFloat.parse "+.".toList = .ok tokens) ∧
    IsBare "+.".toList ∧
      ¬ ∃ place, ReadsTo (preprocessInput "+.".toList) place ∧ Malformed place := by
  have hbare : IsBare "+.".toList := by
    refine ⟨by decide, by decide, by decide, by decide, fun word hword hwithin => ?_⟩
    have hlength := congrArg List.length (Text.eqIgnoreAsciiCase_iff.mp hword)
    rw [Text.toAsciiLowercase, Text.toAsciiLowercase, List.length_map, List.length_map] at hlength
    have hle := hwithin.length_le
    rw [hlength] at hle
    exact absurd hle (by decide)
  refine ⟨fun hok => ?_, hbare, ?_⟩
  · have hreached := (tokenizeFrom_ok unitFloat (Nat.le_refl _)).mp hok
    exact (hreached _ (.refl _)).2 ⟨.inl rfl, rfl⟩
  · rintro ⟨place, hplace, hmalformed⟩
    exact not_isBare (suffix_of_readsTo hplace) hmalformed hbare

end Omoikane.Css
