import Omoikane.Base.Numerals
import Omoikane.Base.Words
import Omoikane.Css.Assignments

/-!
# Formulas of positions

`Denotes` is the grammar of `An+B`, on a text in lower case: white space stands around the sign of `B`
and, by `Written`, at the ends.  The parser removes white space wherever it stands and reads numbers of
64 bits, so that it agrees with the grammar on a text just if one of these matters as much as the
other (`parseAnPlusB_iff_written`).

A formula counts the positions `a * n + b`.  The test fails where the difference of a position and `b`
does not fit 64 bits, and the condition `matches_iff_counts` is exact.  No other operation of the test can
fail (`matches_total`).
-/

namespace Omoikane.Css

open Base
open Text (IsBlank IsSolid IsInteger squeeze toAsciiLowercase)

variable {formula : AnPlusB} {position : Nat}

/-! ## Positions -/

/-- The coefficients are 64-bit integers. -/
def AnPlusB.Fits (formula : AnPlusB) : Prop := FitsI64 formula.a ∧ FitsI64 formula.b

/-- The formula gives the position for a number that is not negative. -/
def AnPlusB.Counts (formula : AnPlusB) (position : Nat) : Prop :=
  ∃ n : Nat, formula.a * n + formula.b = position

/-- `matches` with the operations of the machine; `none` is a panic. -/
def AnPlusB.checkedMatches (formula : AnPlusB) (position : Nat) : Option Bool :=
  if 2 ^ 63 ≤ position then some false
  else if (position : Int) ≤ 0 then some false
  else if formula.a = 0 then some ((position : Int) == formula.b)
  else
    match checkedSub position formula.b with
    | none => some false
    | some difference => do
      let remainder ← checkedRem difference formula.a
      if remainder = 0 then
        let quotient ← checkedDiv difference formula.a
        return decide (0 ≤ quotient)
      else return false

/-- The test neither overflows nor divides by zero. -/
theorem matches_total (hfits : formula.Fits) (hposition : 0 < position) :
    formula.checkedMatches position = some (formula.matches position) := by
  obtain ⟨a, b⟩ := formula
  obtain ⟨-, hb : FitsI64 b⟩ := hfits
  rw [FitsI64] at hb
  rw [AnPlusB.checkedMatches, AnPlusB.matches]
  by_cases hlarge : 2 ^ 63 ≤ position
  · rw [if_pos hlarge, if_pos (.inl hlarge)]
  · rw [if_neg hlarge, if_neg (by omega), if_neg (c := _ ∨ _) (by omega)]
    by_cases hzero : a = 0
    · rw [if_pos hzero, if_pos hzero]
    · rw [if_neg hzero, if_neg hzero, checkedSub]
      dsimp only
      by_cases hdifference : (position : Int) - b < 2 ^ 63
      · -- the difference is not the least integer, so that its quotients fit
        have hquotient : FitsI64 (((position : Int) - b).tdiv a) :=
          FitsI64.tdiv ⟨by omega, hdifference⟩ (by omega)
        rw [if_pos ⟨by omega, hdifference⟩]
        simp only [checkedRem, checkedDiv, hzero, hquotient, hdifference, not_true_eq_false,
          or_self, if_false, decide_true, Bool.true_and, Option.bind_eq_bind, Option.bind_some]
        by_cases hmod : ((position : Int) - b).tmod a = 0
        · simp [hmod]
        · simp [hmod]
      · rw [if_neg (fun h => hdifference h.2)]
        simp only [decide_eq_false hdifference, Bool.false_and]

/-- The test rejects what does not fit. -/
theorem matches_of_large (hfits : formula.Fits) 
    (hlarge : ¬ (position < 2 ^ 63 ∧ (position : Int) - formula.b < 2 ^ 63)) :
    formula.matches position = false := by
  have hb := hfits.2
  rw [FitsI64] at hb
  rw [AnPlusB.matches]
  split
  · rfl
  · have hdifference : ¬ (position : Int) - formula.b < 2 ^ 63 := by omega
    split
    · rw [beq_eq_false_iff_ne]
      omega
    · simp only [decide_eq_false hdifference, Bool.false_and]

/-- The positions above `b` that a formula counts. -/
theorem counts_iff_dvd (hpositive : 0 < (position : Int) - formula.b) :
    formula.Counts position ↔ 0 < formula.a ∧ formula.a ∣ (position : Int) - formula.b := by
  constructor
  · rintro ⟨n, hn⟩
    have hmul : (position : Int) - formula.b = formula.a * n := by omega
    rw [hmul] at hpositive ⊢
    exact ⟨pos_of_mul_pos_left hpositive (Int.natCast_nonneg n), Int.dvd_mul_right ..⟩
  · rintro ⟨ha, n, hn⟩
    rw [hn] at hpositive
    refine ⟨n.toNat, ?_⟩
    rw [Int.toNat_of_nonneg (pos_of_mul_pos_right hpositive ha.le).le]
    omega

/-- The test finds the positions that the formula counts, unless the difference of the position and
`b` is one that the formula counts and too large. -/
theorem matches_iff_counts (hfits : formula.Fits) (hposition : 0 < position) :
    (formula.matches position = true ↔ formula.Counts position) ↔
      (position < 2 ^ 63 ∧ (position : Int) - formula.b < 2 ^ 63) ∨
        ¬ (0 < formula.a ∧ formula.a ∣ (position : Int) - formula.b) := by
  by_cases hsmall : position < 2 ^ 63 ∧ (position : Int) - formula.b < 2 ^ 63
  · simp only [hsmall, and_self, true_or, iff_true]
    rw [AnPlusB.matches_iff hposition hsmall.1 hsmall.2]
    exact exists_congr fun n => eq_comm
  · have hpositive : 0 < (position : Int) - formula.b := by
      have hb := hfits.2
      rw [FitsI64] at hb
      omega
    rw [counts_iff_dvd hpositive, matches_of_large hfits hsmall]
    simp only [hsmall, false_or, Bool.false_eq_true, false_iff]

/-! ## The grammar -/

/-- The coefficient of `n`, of which one is not written. -/
inductive IsCoefficient : Text → Int → Prop
  | one : IsCoefficient [] 1
  | positive : IsCoefficient ['+'] 1
  | negative : IsCoefficient ['-'] (-1)
  | integer {s a} : IsInteger s a → IsCoefficient s a

/-- What follows `n`: nothing, or a sign and digits with white space around the sign. -/
inductive IsSummand : Text → Int → Prop
  | none : IsSummand [] 0
  | signed {before sign after digits b} : IsBlank before → IsBlank after → sign = '+' ∨ sign = '-' →
      IsInteger (sign :: digits) b → IsSummand (before ++ sign :: (after ++ digits)) b

/-- The grammar of `An+B`. -/
inductive Denotes : Text → AnPlusB → Prop
  | odd : Denotes "odd".toList ⟨2, 1⟩
  | even : Denotes "even".toList ⟨2, 0⟩
  | integer {s b} : IsInteger s b → Denotes s ⟨0, b⟩
  | multiple {s t a b} : IsCoefficient s a → IsSummand t b → Denotes (s ++ 'n' :: t) ⟨a, b⟩

/-- A text is a formula in letters of either case, with white space at the ends. -/
def Written (s : Text) (formula : AnPlusB) : Prop :=
  ∃ before body after, toAsciiLowercase s = before ++ (body ++ after) ∧ IsBlank before ∧
    IsBlank after ∧ Denotes body formula

variable {s t body : Text} {a b : Int}

/-! ### Characters -/

theorem isAsciiWhitespace_of_isDigit_or_sign {c : Char}
    (h : c.isDigit = true ∨ c = '+' ∨ c = '-') : Text.isAsciiWhitespace c = false := by
  rcases h with h | rfl | rfl
  · rw [Bool.eq_false_iff]
    intro hblank
    simp only [Text.isAsciiWhitespace, Bool.or_eq_true, beq_iff_eq] at hblank
    rcases hblank with (((rfl | rfl) | rfl) | rfl) | rfl <;> exact absurd h (by decide)
  · rfl
  · rfl

theorem isSolid_of_isInteger (h : IsInteger s a) : IsSolid s :=
  fun c hc => isAsciiWhitespace_of_isDigit_or_sign (h.isDigit_or_sign c hc)

theorem not_mem_of_isInteger (h : IsInteger s a) : 'n' ∉ s := fun hmem =>
  absurd (h.isDigit_or_sign _ hmem) (by decide)

theorem IsCoefficient.isDigit_or_sign (h : IsCoefficient s a) :
    ∀ c ∈ s, c.isDigit = true ∨ c = '+' ∨ c = '-' := by
  cases h with
  | one => simp
  | positive => simp
  | negative => simp
  | integer h => exact h.isDigit_or_sign

theorem IsCoefficient.isSolid (h : IsCoefficient s a) : IsSolid s :=
  fun c hc => isAsciiWhitespace_of_isDigit_or_sign (h.isDigit_or_sign c hc)

theorem IsCoefficient.not_mem (h : IsCoefficient s a) : 'n' ∉ s := fun hmem =>
  absurd (h.isDigit_or_sign _ hmem) (by decide)

/-- A summand without white space is nothing or an integer with a sign. -/
theorem isSummand_iff_of_isSolid (hsolid : IsSolid t) :
    IsSummand t b ↔ (t = [] ∧ b = 0) ∨
      ∃ sign digits, t = sign :: digits ∧ (sign = '+' ∨ sign = '-') ∧ IsInteger t b := by
  constructor
  · intro h
    cases h with
    | none => exact .inl ⟨rfl, rfl⟩
    | @signed before sign after digits _ hbefore hafter hsign hinteger =>
      have hnil : before = [] :=
        hbefore.eq_nil fun c hc => hsolid c (List.mem_append_left _ hc)
      have hnil' : after = [] := hafter.eq_nil fun c hc =>
        hsolid c (List.mem_append_right _ (List.mem_cons_of_mem _ (List.mem_append_left _ hc)))
      subst hnil hnil'
      exact .inr ⟨sign, digits, rfl, hsign, hinteger⟩
  · rintro (⟨rfl, rfl⟩ | ⟨sign, digits, rfl, hsign, hinteger⟩)
    · exact .none
    · exact @IsSummand.signed [] _ [] _ _ (by simp [IsBlank]) (by simp [IsBlank]) hsign
        hinteger

theorem IsSummand.not_mem (h : IsSummand t b) : 'n' ∉ t := by
  cases h with
  | none => simp
  | signed hbefore hafter hsign hinteger =>
    intro hmem
    rcases List.mem_append.mp hmem with hmem | hmem
    · exact hbefore.not_mem rfl hmem
    · rcases List.mem_cons.mp hmem with rfl | hmem
      · exact absurd hsign (by decide)
      · rcases List.mem_append.mp hmem with hmem | hmem
        · exact hafter.not_mem rfl hmem
        · exact not_mem_of_isInteger hinteger (List.mem_cons_of_mem _ hmem)

/-! ### White space -/

/-- White space stands around a sign after `n` only. -/
def IsSpaced (body : Text) : Prop :=
  IsSolid body ∨ ∃ front before sign after back,
    body = front ++ 'n' :: (before ++ sign :: (after ++ back)) ∧ IsSolid front ∧ IsSolid back ∧
      IsBlank before ∧ IsBlank after ∧ (sign = '+' ∨ sign = '-')

/-- White space stands at the ends too. -/
def WellSpaced (s : Text) : Prop :=
  ∃ before body after, toAsciiLowercase s = before ++ (body ++ after) ∧ IsBlank before ∧
    IsBlank after ∧ IsSpaced body

theorem Denotes.isSpaced (h : Denotes body formula) : IsSpaced body := by
  cases h with
  | odd => exact .inl (List.forall_iff_forall_mem.mp (by decide))
  | even => exact .inl (List.forall_iff_forall_mem.mp (by decide))
  | integer h => exact .inl (isSolid_of_isInteger h)
  | @multiple s t a b hcoefficient hsummand =>
    cases hsummand with
    | none =>
      refine .inl fun c hc => ?_
      rcases List.mem_append.mp hc with hc | hc
      · exact hcoefficient.isSolid c hc
      · rw [List.mem_singleton.mp hc]
        rfl
    | signed hbefore hafter hsign hinteger =>
      exact .inr ⟨_, _, _, _, _, rfl, hcoefficient.isSolid,
        fun c hc => isSolid_of_isInteger hinteger c (List.mem_cons_of_mem _ hc), hbefore, hafter,
        hsign⟩

theorem sign_solid {sign : Char} (h : sign = '+' ∨ sign = '-') :
    Text.isAsciiWhitespace sign = false := isAsciiWhitespace_of_isDigit_or_sign (.inr h)

/-- White space in the middle does not change what a formula denotes. -/
theorem IsSummand.squeezed (h : IsSummand t b) : IsSummand (squeeze t) b := by
  cases h with
  | none => exact .none
  | signed hbefore hafter hsign hinteger =>
    have hsolid := isSolid_of_isInteger hinteger
    rw [Text.squeeze_append, hbefore.squeeze_eq, List.nil_append,
      Text.squeeze_cons (sign_solid hsign), Text.squeeze_append, hafter.squeeze_eq, List.nil_append,
      IsSolid.squeeze_eq fun c hc => hsolid c (List.mem_cons_of_mem _ hc)]
    exact (isSummand_iff_of_isSolid hsolid).mpr (.inr ⟨_, _, rfl, hsign, hinteger⟩)

theorem Denotes.squeezed (h : Denotes body formula) : Denotes (squeeze body) formula := by
  cases h with
  | odd => exact .odd
  | even => exact .even
  | integer h =>
    rw [(isSolid_of_isInteger h).squeeze_eq]
    exact .integer h
  | multiple hcoefficient hsummand =>
    rw [Text.squeeze_append, hcoefficient.isSolid.squeeze_eq, Text.squeeze_cons rfl]
    exact .multiple hcoefficient hsummand.squeezed

/-- A formula may have white space around a sign after `n`. -/
theorem Denotes.of_squeeze (h : Denotes (squeeze body) formula) (hspaced : IsSpaced body) :
    Denotes body formula := by
  rcases hspaced with
    hsolid | ⟨front, before, sign, after, back, rfl, hfront, hback, hbefore, hafter, hsign⟩
  · rw [← hsolid.squeeze_eq]
    exact h
  · have hsqueeze : Text.squeeze (front ++ 'n' :: (before ++ sign :: (after ++ back))) =
        front ++ 'n' :: (sign :: back) := by
      rw [Text.squeeze_append, hfront.squeeze_eq, Text.squeeze_cons rfl, Text.squeeze_append,
        hbefore.squeeze_eq, List.nil_append, Text.squeeze_cons (sign_solid hsign),
        Text.squeeze_append, hafter.squeeze_eq, List.nil_append, hback.squeeze_eq]
    rw [hsqueeze] at h
    generalize heq : front ++ 'n' :: (sign :: back) = squeezed at h
    have hmemN : 'n' ∈ squeezed := by rw [← heq]; simp
    have hmemSign : sign ∈ squeezed := by rw [← heq]; simp
    cases h with
    | odd => exact absurd hmemN (by decide)
    | even => rcases hsign with rfl | rfl <;> exact absurd hmemSign (by decide)
    | integer h => exact absurd hmemN (not_mem_of_isInteger h)
    | multiple hcoefficient hsummand =>
      obtain ⟨rfl, -, rfl⟩ :=
        (List.append_cons_inj_of_notMem hcoefficient.not_mem hsummand.not_mem).mp heq.symm
      -- the sign in front of the digits is the one that the white space surrounds
      refine .multiple hcoefficient ?_
      have hsolid : IsSolid (sign :: back) := by
        rintro c (_ | ⟨_, hc⟩)
        · exact sign_solid hsign
        · exact hback c hc
      obtain ⟨h, -⟩ | ⟨_, _, -, -, hinteger⟩ := (isSummand_iff_of_isSolid hsolid).mp hsummand
      · cases h
      · exact .signed hbefore hafter hsign hinteger

/-! ## The parser -/

/-- The coefficient as the parser reads it. -/
def readCoefficient (coefficient : Text) : Option Int :=
  if coefficient = [] ∨ coefficient = ['+'] then some 1
  else if coefficient = ['-'] then some (-1)
  else Text.parseI64 coefficient

/-- What the parser reads after `n`. -/
def readSummand (remainder : Text) : Option Int :=
  match remainder with
  | [] => some 0
  | '+' :: _ => Text.parseI64 remainder
  | '-' :: _ => Text.parseI64 remainder
  | _ => none

theorem readCoefficient_eq_some :
    readCoefficient s = some a ↔ IsCoefficient s a ∧ FitsI64 a := by
  rw [readCoefficient]
  constructor
  · intro h
    split at h
    next hs =>
      cases h
      refine ⟨?_, by decide⟩
      rcases hs with rfl | rfl
      · exact .one
      · exact .positive
    next =>
      split at h
      next hs =>
        cases h
        exact ⟨hs ▸ .negative, by decide⟩
      next =>
        obtain ⟨hinteger, hfits⟩ := Text.parseI64_eq_some.mp h
        exact ⟨.integer hinteger, hfits⟩
  · rintro ⟨h, hfits⟩
    cases h with
    | one => rfl
    | positive => rfl
    | negative => rfl
    | integer hinteger =>
      have hparse := Text.parseI64_eq_some.mpr ⟨hinteger, hfits⟩
      -- a sign alone is no integer
      rw [if_neg, if_neg]
      · exact hparse
      · rintro rfl
        exact absurd hparse (by simp [Text.parseI64, Text.parseDigits])
      · rintro (rfl | rfl) <;> exact absurd hparse (by simp [Text.parseI64, Text.parseDigits])

theorem readSummand_eq_some (hsolid : IsSolid t) :
    readSummand t = some b ↔ IsSummand t b ∧ FitsI64 b := by
  rw [isSummand_iff_of_isSolid hsolid, readSummand.eq_def]
  constructor
  · intro h
    split at h
    · cases h
      exact ⟨.inl ⟨rfl, rfl⟩, by decide⟩
    · obtain ⟨hinteger, hfits⟩ := Text.parseI64_eq_some.mp h
      exact ⟨.inr ⟨_, _, rfl, .inl rfl, hinteger⟩, hfits⟩
    · obtain ⟨hinteger, hfits⟩ := Text.parseI64_eq_some.mp h
      exact ⟨.inr ⟨_, _, rfl, .inr rfl, hinteger⟩, hfits⟩
    · cases h
  · rintro ⟨⟨rfl, rfl⟩ | ⟨sign, digits, rfl, rfl | rfl, hinteger⟩, hfits⟩
    · rfl
    · exact Text.parseI64_eq_some.mpr ⟨hinteger, hfits⟩
    · exact Text.parseI64_eq_some.mpr ⟨hinteger, hfits⟩

/-- The parser on the text without white space. -/
def readCompact (compact : Text) : Option AnPlusB :=
  if compact = "odd".toList then some ⟨2, 1⟩
  else if compact = "even".toList then some ⟨2, 0⟩
  else match Text.parseI64 compact with
    | some b => some ⟨0, b⟩
    | none =>
      (Text.splitOnce 'n' compact).bind fun p =>
        if 'n' ∈ p.2 then none
        else (readCoefficient p.1).bind fun a => (readSummand p.2).map fun b => ⟨a, b⟩

theorem parseAnPlusB_eq (s : Text) :
    parseAnPlusB s = readCompact (toAsciiLowercase (squeeze s)) := by
  have hcompact : (s.filter fun c => !Text.isAsciiWhitespace c).map Char.toLower =
      toAsciiLowercase (squeeze s) := rfl
  simp only [parseAnPlusB, hcompact, readCompact]
  generalize toAsciiLowercase (squeeze s) = compact
  congr 2
  cases Text.parseI64 compact with
  | some b => rfl
  | none =>
    cases Text.splitOnce 'n' compact with
    | none => rfl
    | some p =>
      obtain ⟨coefficient, remainder⟩ := p
      have hsummand (a : Int) : (match remainder with
          | [] => pure ⟨a, 0⟩
          | '+' :: _ => (Text.parseI64 remainder).bind fun b => pure ⟨a, b⟩
          | '-' :: _ => (Text.parseI64 remainder).bind fun b => pure ⟨a, b⟩
          | _ => none.bind fun b => pure ⟨a, b⟩) =
          (readSummand remainder).map fun b => AnPlusB.mk a b := by
        rw [readSummand.eq_def]
        split <;> first | rfl | exact (Option.map_eq_bind ..).symm
      simp only [Option.bind_eq_bind, Option.bind_some, readCoefficient]
      split
      · rfl
      · split
        · exact hsummand 1
        · split
          · exact hsummand (-1)
          · exact congrArg _ (funext hsummand)

/-- What the parser reads. -/
theorem parseAnPlusB_eq_some :
    parseAnPlusB s = some formula ↔
      Denotes (toAsciiLowercase (squeeze s)) formula ∧ formula.Fits := by
  have hsolid : IsSolid (toAsciiLowercase (squeeze s)) := by
    rw [← Text.squeeze_toAsciiLowercase]
    exact Text.isSolid_squeeze _
  rw [parseAnPlusB_eq, readCompact]
  generalize toAsciiLowercase (squeeze s) = compact at hsolid ⊢
  constructor
  · intro h
    split at h
    next hodd =>
      cases h
      exact ⟨hodd ▸ .odd, by decide, by decide⟩
    next =>
      split at h
      next heven =>
        cases h
        exact ⟨heven ▸ .even, by decide, by decide⟩
      next =>
        split at h
        next b hparse =>
          cases h
          obtain ⟨hinteger, hfits⟩ := Text.parseI64_eq_some.mp hparse
          exact ⟨.integer hinteger, show FitsI64 0 by decide, hfits⟩
        next =>
          obtain ⟨⟨coefficient, remainder⟩, hsplit, hread⟩ := Option.bind_eq_some_iff.mp h
          obtain ⟨rfl, -⟩ := Text.splitOnce_eq_some.mp hsplit
          split at hread
          · cases hread
          · obtain ⟨a, ha, hread⟩ := Option.bind_eq_some_iff.mp hread
            obtain ⟨b, hb, rfl⟩ := Option.map_eq_some_iff.mp hread
            have hsolid' : IsSolid remainder := fun c hc =>
              hsolid c (List.mem_append_right _ (List.mem_cons_of_mem _ hc))
            obtain ⟨hcoefficient, hfits⟩ := readCoefficient_eq_some.mp ha
            obtain ⟨hsummand, hfits'⟩ := (readSummand_eq_some hsolid').mp hb
            exact ⟨.multiple hcoefficient hsummand, hfits, hfits'⟩
  · rintro ⟨h, hfits, hfits'⟩
    cases h with
    | odd => rfl
    | even => rfl
    | @integer compact b hinteger =>
      have hparse := Text.parseI64_eq_some.mpr ⟨hinteger, hfits'⟩
      have hodd : compact ≠ "odd".toList := by
        rintro rfl
        cases hparse
      have heven : compact ≠ "even".toList := by
        rintro rfl
        cases hparse
      rw [if_neg hodd, if_neg heven, hparse]
    | @multiple coefficient remainder a b hcoefficient hsummand =>
      have hsolid' : IsSolid remainder := fun c hc =>
        hsolid c (List.mem_append_right _ (List.mem_cons_of_mem _ hc))
      have hparse : Text.parseI64 (coefficient ++ 'n' :: remainder) = none := by
        rw [Option.eq_none_iff_forall_ne_some]
        intro value hvalue
        exact not_mem_of_isInteger (Text.parseI64_eq_some.mp hvalue).1 (by simp)
      rw [if_neg, if_neg, hparse, Text.splitOnce_eq_some.mpr ⟨rfl, hcoefficient.not_mem⟩]
      · simp only [Option.bind_some, hsummand.not_mem, if_false,
          readCoefficient_eq_some.mpr ⟨hcoefficient, hfits⟩,
          (readSummand_eq_some hsolid').mpr ⟨hsummand, hfits'⟩, Option.map_some]
      · -- the letters before the `n` of `even` are no coefficient
        intro heven
        have hmem : 'e' ∈ coefficient := by
          have heven' : coefficient ++ 'n' :: remainder = "eve".toList ++ 'n' :: [] := heven
          obtain ⟨rfl, -⟩ :=
            (List.append_cons_inj_of_notMem hcoefficient.not_mem hsummand.not_mem).mp heven'
          decide
        exact absurd (hcoefficient.isDigit_or_sign _ hmem) (by decide)
      · intro hodd
        have hmem : 'n' ∈ "odd".toList := hodd ▸ by simp
        exact absurd hmem (by decide)

/-- A text is written after the grammar if its letters are and its white space may be there. -/
theorem written_iff :
    Written s formula ↔ Denotes (toAsciiLowercase (squeeze s)) formula ∧ WellSpaced s := by
  rw [← Text.squeeze_toAsciiLowercase]
  constructor
  · rintro ⟨before, body, after, hs, hbefore, hafter, hdenotes⟩
    refine ⟨?_, before, body, after, hs, hbefore, hafter, hdenotes.isSpaced⟩
    rw [hs, Text.squeeze_append, hbefore.squeeze_eq, Text.squeeze_append, hafter.squeeze_eq,
      List.append_nil]
    exact hdenotes.squeezed
  · rintro ⟨hdenotes, before, body, after, hs, hbefore, hafter, hspaced⟩
    rw [hs, Text.squeeze_append, hbefore.squeeze_eq, Text.squeeze_append, hafter.squeeze_eq,
      List.append_nil] at hdenotes
    exact ⟨before, body, after, hs, hbefore, hafter, hdenotes.of_squeeze hspaced⟩

/-- The texts on which the parser and the grammar agree. -/
theorem parseAnPlusB_iff_written :
    (∀ formula, parseAnPlusB s = some formula ↔ Written s formula) ↔
      ∀ formula, Denotes (toAsciiLowercase (squeeze s)) formula → (formula.Fits ↔ WellSpaced s) := by
  refine forall_congr' fun formula => ?_
  rw [parseAnPlusB_eq_some, written_iff, and_congr_right_iff]

/-! ## Formulas -/

/-- The test finds the positions that a formula counts just if the differences fit, and cannot fail; the
parser reads the formulas of the grammar just if the numbers fit and white space stands where it may. -/
theorem nthFormula_counts_and_reads (hfits : formula.Fits) (hposition : 0 < position) (s : Text) :
    ((formula.matches position = true ↔ formula.Counts position) ↔
      (position < 2 ^ 63 ∧ (position : Int) - formula.b < 2 ^ 63) ∨
        ¬ (0 < formula.a ∧ formula.a ∣ (position : Int) - formula.b)) ∧
      formula.checkedMatches position = some (formula.matches position) ∧
      ((∀ formula, parseAnPlusB s = some formula ↔ Written s formula) ↔
        ∀ formula, Denotes (toAsciiLowercase (squeeze s)) formula →
          (formula.Fits ↔ WellSpaced s)) :=
  ⟨matches_iff_counts hfits hposition, matches_total hfits hposition, parseAnPlusB_iff_written⟩

/-- `2n + 1` counts 3. -/
theorem nthFormula_counts_and_reads_odd :
    (((AnPlusB.mk 2 1).matches 3 = true ↔ (AnPlusB.mk 2 1).Counts 3) ↔
      (3 < 2 ^ 63 ∧ ((3 : Nat) : Int) - 1 < 2 ^ 63) ∨ ¬ (0 < (2 : Int) ∧ (2 : Int) ∣ (3 : Nat) - 1)) ∧
      (AnPlusB.mk 2 1).checkedMatches 3 = some ((AnPlusB.mk 2 1).matches 3) ∧
      ((∀ formula, parseAnPlusB "2n + 1".toList = some formula ↔ Written "2n + 1".toList formula) ↔
        ∀ formula, Denotes (toAsciiLowercase (squeeze "2n + 1".toList)) formula →
          (formula.Fits ↔ WellSpaced "2n + 1".toList)) :=
  @nthFormula_counts_and_reads ⟨2, 1⟩ _ ⟨by decide, by decide⟩ (by decide) _

/-- `1 2` is read as 12, which the grammar does not allow, and `n - 9223372036854775808` counts 1, which
is not found. -/
theorem nthFormula_split_digits :
    ¬ (parseAnPlusB "1 2".toList = some ⟨0, 12⟩ ↔ Written "1 2".toList ⟨0, 12⟩) ∧
      ¬ ((AnPlusB.mk 1 (-9223372036854775808)).matches 1 = true ↔
        (AnPlusB.mk 1 (-9223372036854775808)).Counts 1) := by
  constructor
  · intro h
    obtain ⟨before, body, after, hs, hbefore, hafter, hdenotes⟩ := h.mp (by decide)
    have hlower : toAsciiLowercase "1 2".toList = ['1', ' ', '2'] := rfl
    rw [hlower] at hs
    have hnil : before = [] := by
      cases before with
      | nil => rfl
      | cons c before =>
        obtain ⟨rfl, -⟩ := List.cons_eq_cons.mp hs
        exact absurd List.mem_cons_self (hbefore.not_mem rfl)
    have hnil' : after = [] := by
      rcases List.eq_nil_or_concat after with rfl | ⟨front, c, rfl⟩
      · rfl
      · have hlast := congrArg List.getLast? hs
        rw [List.concat_eq_append, ← List.append_assoc, ← List.append_assoc,
          List.getLast?_concat] at hlast
        obtain rfl : '2' = c := Option.some.inj hlast
        exact absurd (by simp) (hafter.not_mem (c := '2') rfl)
    subst hnil hnil'
    rw [List.nil_append, List.append_nil] at hs
    obtain hsolid | ⟨front, _, _, _, _, rfl, _⟩ := hdenotes.isSpaced
    · have hmem : ' ' ∈ body := hs ▸ by simp
      exact absurd (hsolid ' ' hmem) (by decide)
    · have hmem : 'n' ∈ ['1', ' ', '2'] := hs ▸ by simp
      exact absurd hmem (by decide)
  · intro h
    exact absurd (h.mpr ⟨9223372036854775809, by decide⟩) (by decide)

end Omoikane.Css
