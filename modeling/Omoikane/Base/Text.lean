import Mathlib

/-!
# Texts

A text is the list of its Unicode scalar values.  This module has the string
operations of the Rust standard library that a model of string-handling code
needs, each with the few facts its users need and never unfold again.

Positions in Rust are byte positions.  Here a text is cut at characters only,
and `Text.utf8Len` gives the byte length where a program asks for it.
-/

namespace Base

/-- A text, as the list of its scalar values. -/
abbrev Text := List Char

namespace Text

/-! ## ASCII case -/

/-- `to_ascii_lowercase`. -/
def toAsciiLowercase (s : Text) : Text := s.map Char.toLower

/-- `eq_ignore_ascii_case`. -/
def eqIgnoreAsciiCase (s t : Text) : Bool := toAsciiLowercase s == toAsciiLowercase t

@[simp] theorem toAsciiLowercase_idem (s : Text) :
    toAsciiLowercase (toAsciiLowercase s) = toAsciiLowercase s := by
  simp [toAsciiLowercase]

@[simp] theorem toAsciiLowercase_nil : toAsciiLowercase [] = [] := rfl

@[simp] theorem toAsciiLowercase_append (s t : Text) :
    toAsciiLowercase (s ++ t) = toAsciiLowercase s ++ toAsciiLowercase t := by
  simp [toAsciiLowercase]

theorem eqIgnoreAsciiCase_iff {s t : Text} :
    eqIgnoreAsciiCase s t = true ↔ toAsciiLowercase s = toAsciiLowercase t := by
  simp [eqIgnoreAsciiCase]

@[simp] theorem eqIgnoreAsciiCase_refl (s : Text) : eqIgnoreAsciiCase s s = true := by
  simp [eqIgnoreAsciiCase]

theorem eqIgnoreAsciiCase_comm (s t : Text) :
    eqIgnoreAsciiCase s t = eqIgnoreAsciiCase t s := by
  rw [Bool.eq_iff_iff, eqIgnoreAsciiCase_iff, eqIgnoreAsciiCase_iff, eq_comm]

/-- Texts equal up to ASCII case compare alike with every text. -/
theorem eqIgnoreAsciiCase_congr_left {s t : Text} (h : eqIgnoreAsciiCase s t = true) (u : Text) :
    eqIgnoreAsciiCase s u = eqIgnoreAsciiCase t u := by
  rw [eqIgnoreAsciiCase_iff] at h
  simp [eqIgnoreAsciiCase, h]

/-! ## Trimming -/

/-- The characters with the Unicode property `White_Space`. -/
def isWhitespace (c : Char) : Bool :=
  (0x09 ≤ c.toNat && c.toNat ≤ 0x0d) || c.toNat == 0x20 || c.toNat == 0x85 || c.toNat == 0xa0 ||
    c.toNat == 0x1680 || (0x2000 ≤ c.toNat && c.toNat ≤ 0x200a) || c.toNat == 0x2028 ||
    c.toNat == 0x2029 || c.toNat == 0x202f || c.toNat == 0x205f || c.toNat == 0x3000

/-- `trim_end_matches`. -/
def trimEndMatches (p : Char → Bool) (s : Text) : Text := (s.reverse.dropWhile p).reverse

/-- `trim_matches`. -/
def trimMatches (p : Char → Bool) (s : Text) : Text := trimEndMatches p (s.dropWhile p)

/-- `trim`. -/
def trim (s : Text) : Text := trimMatches isWhitespace s

theorem trimEndMatches_subset {p : Char → Bool} {s : Text} : trimEndMatches p s ⊆ s := by
  intro c hc
  have h := (List.dropWhile_sublist p).subset (List.mem_reverse.mp hc)
  exact List.mem_reverse.mp h

theorem trimMatches_subset {p : Char → Bool} {s : Text} : trimMatches p s ⊆ s :=
  fun _ hc => (List.dropWhile_sublist p).subset (trimEndMatches_subset hc)

theorem trim_subset {s : Text} : trim s ⊆ s := trimMatches_subset

/-- What is left at the end is not trimmed further. -/
theorem trimEndMatches_eq_self {p : Char → Bool} {s : Text} {c : Char} (h : p c = false) :
    trimEndMatches p (s ++ [c]) = s ++ [c] := by
  simp [trimEndMatches, List.dropWhile_cons_of_neg, h]

/-- What ends without whitespace on either side is trimmed already. -/
theorem trim_eq_self {s : Text} (hhead : ∀ c ∈ s.head?, isWhitespace c = false)
    (hlast : ∀ c ∈ s.getLast?, isWhitespace c = false) : trim s = s := by
  have hfront : s.dropWhile isWhitespace = s := by
    cases s with
    | nil => rfl
    | cons c rest => exact List.dropWhile_cons_of_neg (by simp [hhead c rfl])
  rw [trim, trimMatches, hfront]
  rcases List.eq_nil_or_concat' s with rfl | ⟨front, last, rfl⟩
  · rfl
  · exact trimEndMatches_eq_self (hlast last List.getLast?_concat)

theorem trimEndMatches_append {p : Char → Bool} {s t : Text} (h : ∀ c ∈ t, p c = true) :
    trimEndMatches p (s ++ t) = trimEndMatches p s := by
  have hr : ∀ c ∈ t.reverse, p c = true := fun c hc => h c (List.mem_reverse.mp hc)
  unfold trimEndMatches
  rw [List.reverse_append, List.dropWhile_append_of_pos hr]

theorem trimEndMatches_of_forall {p : Char → Bool} {s : Text} (h : ∀ c ∈ s, p c = false) :
    trimEndMatches p s = s := by
  unfold trimEndMatches
  cases hs : s.reverse with
  | nil =>
    rw [List.reverse_eq_nil_iff.mp hs]
    rfl
  | cons c rest =>
    have hc : p c = false := h c (List.mem_reverse.mp (by rw [hs]; exact List.mem_cons_self ..))
    rw [List.dropWhile_cons_of_neg (by rw [hc]; decide), ← hs, List.reverse_reverse]

/-- A blank in front is trimmed. -/
theorem trim_cons_space (s : Text) : trim (' ' :: s) = trim s := rfl

/-- Blanks behind a text without whitespace are trimmed. -/
theorem trim_append_of_isWhitespace {s blanks : Text} (hs : ∀ c ∈ s, isWhitespace c = false)
    (hne : s ≠ []) (hblanks : ∀ c ∈ blanks, isWhitespace c = true) : trim (s ++ blanks) = s := by
  have hfront : (s ++ blanks).dropWhile isWhitespace = s ++ blanks := by
    cases s with
    | nil => exact absurd rfl hne
    | cons c s =>
      rw [List.cons_append, List.dropWhile_cons_of_neg]
      rw [hs c (List.mem_cons_self ..)]
      decide
  have hback : s = s.dropLast ++ [s.getLast hne] := (List.dropLast_concat_getLast hne).symm
  rw [trim, trimMatches, hfront, trimEndMatches_append hblanks, hback,
    trimEndMatches_eq_self (hs _ (List.getLast_mem hne))]

/-! ## Searching and splitting -/

/-- `starts_with` a text. -/
def startsWith (s prefixText : Text) : Bool := prefixText.isPrefixOf s

/-- `ends_with` a text. -/
def endsWith (s suffixText : Text) : Bool := suffixText.isSuffixOf s

/-- `split_once` at a character. -/
def splitOnce (c : Char) : Text → Option (Text × Text)
  | [] => none
  | d :: s => if d = c then some ([], s) else (splitOnce c s).map fun p => (d :: p.1, p.2)

/-- `strip_suffix`. -/
def stripSuffix (s suffixText : Text) : Option Text :=
  if endsWith s suffixText then some (s.take (s.length - suffixText.length)) else none

theorem stripSuffix_eq_some {s suffixText front : Text} :
    stripSuffix s suffixText = some front ↔ s = front ++ suffixText := by
  unfold stripSuffix endsWith
  constructor
  · intro h
    split at h
    next hsuffix =>
      obtain ⟨t, rfl⟩ := List.isSuffixOf_iff_suffix.mp hsuffix
      simp only [List.length_append, Nat.add_sub_cancel, List.take_left, Option.some.injEq] at h
      rw [h]
    next => cases h
  · rintro rfl
    rw [if_pos (List.isSuffixOf_iff_suffix.mpr ⟨front, rfl⟩)]
    simp

/-- `splitn(2, c)`: the first piece, and what follows the separator if there is one. -/
def splitFirst (c : Char) (s : Text) : Text × Option Text :=
  match splitOnce c s with
  | some (first, rest) => (first, some rest)
  | none => (s, none)

theorem splitOnce_eq_some {c : Char} : ∀ {s a b : Text},
    splitOnce c s = some (a, b) ↔ s = a ++ c :: b ∧ c ∉ a
  | [], a, b => by simp [splitOnce]
  | d :: s, a, b => by
    by_cases hd : d = c
    · subst hd
      simp only [splitOnce, if_true, Option.some.injEq, Prod.mk.injEq]
      constructor
      · rintro ⟨rfl, rfl⟩
        simp
      · rintro ⟨h, hn⟩
        cases a with
        | nil => simpa using h
        | cons e a =>
          simp only [List.cons_append, List.cons.injEq] at h
          exact absurd h.1 (fun he => hn (by simp [he]))
    · simp only [splitOnce, hd, if_false, Option.map_eq_some_iff, Prod.mk.injEq]
      constructor
      · rintro ⟨⟨a', b'⟩, h, rfl, rfl⟩
        obtain ⟨rfl, hn⟩ := splitOnce_eq_some.mp h
        simp [hn, Ne.symm hd]
      · rintro ⟨h, hn⟩
        cases a with
        | nil =>
          simp only [List.nil_append, List.cons.injEq] at h
          exact absurd h.1 hd
        | cons e a =>
          simp only [List.cons_append, List.cons.injEq] at h
          obtain ⟨rfl, rfl⟩ := h
          refine ⟨(a, b), splitOnce_eq_some.mpr ⟨rfl, ?_⟩, rfl, rfl⟩
          exact fun hm => hn (List.mem_cons_of_mem _ hm)

theorem splitOnce_eq_none {c : Char} : ∀ {s : Text}, splitOnce c s = none ↔ c ∉ s
  | [] => by simp [splitOnce]
  | d :: s => by
    by_cases hd : d = c
    · simp [splitOnce, hd]
    · simp [splitOnce, hd, splitOnce_eq_none (s := s), Ne.symm hd]

/-- The first piece of a split has no separator, whether or not there was one. -/
theorem splitFirst_fst {c : Char} {s : Text} : c ∉ (splitFirst c s).1 := by
  unfold splitFirst
  split
  next h => exact (splitOnce_eq_some.mp h).2
  next h => exact splitOnce_eq_none.mp h

/-- `join` with a separator. -/
def join (separator : Text) : List Text → Text
  | [] => []
  | [s] => s
  | s :: t :: rest => s ++ separator ++ join separator (t :: rest)

/-- The length in bytes of the UTF-8 encoding, `len`. -/
def utf8Len (s : Text) : Nat := (s.map Char.utf8Size).sum

/-! ## Numbers -/

/-- A test that comes out alike on every character of a fixed text. -/
theorem forall_mem_of_all {p : Char → Bool} {value : Bool} {s : Text}
    (h : s.all (fun c => p c == value) = true) : ∀ c ∈ s, p c = value :=
  fun c hc => beq_iff_eq.mp (List.all_eq_true.mp h c hc)

/-- `is_ascii_hexdigit`. -/
def isHexDigit (c : Char) : Bool :=
  c.isDigit || ('a' ≤ c && c ≤ 'f') || ('A' ≤ c && c ≤ 'F')

theorem isHexDigit_toNat {c : Char} (h : isHexDigit c = true) :
    (48 ≤ c.toNat ∧ c.toNat ≤ 57) ∨ (97 ≤ c.toNat ∧ c.toNat ≤ 102) ∨
      (65 ≤ c.toNat ∧ c.toNat ≤ 70) := by
  simp only [isHexDigit, Char.isDigit, Bool.or_eq_true, Bool.and_eq_true, decide_eq_true_eq,
    Char.le_def, UInt32.le_iff_toNat_le, ge_iff_le] at h
  have hval : c.val.toNat = c.toNat := rfl
  simp only [hval] at h
  simp at h
  omega

/-- A hexadecimal digit is not whitespace. -/
theorem isWhitespace_of_isHexDigit {c : Char} (h : isHexDigit c = true) :
    isWhitespace c = false := by
  have hrange := isHexDigit_toNat h
  rw [Bool.eq_false_iff]
  intro hw
  simp only [isWhitespace, Bool.or_eq_true, Bool.and_eq_true, decide_eq_true_eq, beq_iff_eq] at hw
  omega

/-- `to_digit(16)`, on hexadecimal digits. -/
def hexValue (c : Char) : Nat :=
  if c.isDigit then c.toNat - '0'.toNat
  else if 'a' ≤ c then c.toNat - 'a'.toNat + 10
  else c.toNat - 'A'.toNat + 10

/-- The value of a list of digits in a base. -/
def ofDigits (base : Nat) (digits : Text) : Nat :=
  digits.foldl (fun value c => value * base + hexValue c) 0

/-- The value of a nonempty list of decimal digits. -/
def parseDigits (s : Text) : Option Nat :=
  if s = [] ∨ ¬ s.all Char.isDigit then none else some (ofDigits 10 s)

/-- `parse` to an unsigned integer type with the given maximum. -/
def parseUnsigned (max : Nat) (s : Text) : Option Nat :=
  let digits := match s with
    | '+' :: rest => rest
    | _ => s
  (parseDigits digits).filter (· ≤ max)

/-- `parse::<i64>`. -/
def parseI64 (s : Text) : Option Int :=
  match s with
  | '+' :: rest => ((parseDigits rest).filter (· < 2 ^ 63)).map Int.ofNat
  | '-' :: rest => ((parseDigits rest).filter (· ≤ 2 ^ 63)).map fun n => -(n : Int)
  | _ => ((parseDigits s).filter (· < 2 ^ 63)).map Int.ofNat

/-- The decimal digits of a number, `to_string`. -/
def ofNat (n : Nat) : Text := Nat.toDigits 10 n

example : parseI64 "-12".toList = some (-12) := by decide
example : trim " a b ".toList = "a b".toList := by decide

/-! ## Splitting -/

/-- `split` at a character; there is always a piece, which may be empty. -/
def split (c : Char) (s : Text) : List Text := s.splitOnP (· == c)

/-- `split_whitespace`. -/
def splitWhitespace (s : Text) : List Text := (s.splitOnP isWhitespace).filter (· ≠ [])

/-- `is_ascii_whitespace`. -/
def isAsciiWhitespace (c : Char) : Bool :=
  c == ' ' || c == '\t' || c == '\n' || c == '\x0C' || c == '\r'

def splitAsciiWhitespace (s : Text) : List Text :=
  (s.splitOnP isAsciiWhitespace).filter fun piece => !piece.isEmpty

def stripPrefix (s prefixText : Text) : Option Text :=
  if startsWith s prefixText then some (s.drop prefixText.length) else none

/-- The text before and after the first occurrence of a text, as `find` locates it. -/
def splitOnceText (pattern : Text) : Text → Option (Text × Text)
  | [] => if pattern = [] then some ([], []) else none
  | c :: s =>
    match stripPrefix (c :: s) pattern with
    | some rest => some ([], rest)
    | none => (splitOnceText pattern s).map fun p => (c :: p.1, p.2)

/-- `rsplit_once`: at the last occurrence of a character. -/
def rsplitOnce (c : Char) (s : Text) : Option (Text × Text) :=
  (splitOnce c s.reverse).map fun p => (p.2.reverse, p.1.reverse)

/-- A separator between two texts splits them. -/
theorem split_append (c : Char) (s t : Text) : split c (s ++ c :: t) = split c s ++ split c t :=
  List.splitOnP_append_cons s t (beq_self_eq_true c)

/-- A text without the separator is one piece. -/
theorem split_eq_singleton {c : Char} {s : Text} (h : c ∉ s) : split c s = [s] :=
  List.splitOnP_eq_singleton fun _ hd => beq_eq_false_iff_ne.mpr fun heq => h (heq ▸ hd)

example : splitAsciiWhitespace " a  b\t".toList = ["a".toList, "b".toList] := by decide
example : splitOnceText "://".toList "http://a".toList = some ("http".toList, "a".toList) := by
  decide
example : rsplitOnce ':' "a:b:1".toList = some ("a:b".toList, "1".toList) := by decide

end Text

end Base
