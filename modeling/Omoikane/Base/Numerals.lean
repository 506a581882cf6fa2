import Omoikane.Base.Text

/-!
# Numerals

Decimal integers as they are written, and the integers of 64 bits, among which `parse` finds those
that fit.  Checked operations give nothing where their result does not fit.
-/

namespace Base

/-- The integers of 64 bits with a sign. -/
def FitsI64 (value : Int) : Prop := -2 ^ 63 ≤ value ∧ value < 2 ^ 63

instance (value : Int) : Decidable (FitsI64 value) := inferInstanceAs (Decidable (_ ∧ _))

/-- `checked_sub`. -/
def checkedSub (x y : Int) : Option Int := if FitsI64 (x - y) then some (x - y) else none

/-- `%`, which fails for zero and where the quotient does not fit. -/
def checkedRem (x y : Int) : Option Int :=
  if y = 0 ∨ ¬ FitsI64 (x.tdiv y) then none else some (x.tmod y)

/-- `/`, which fails alike. -/
def checkedDiv (x y : Int) : Option Int :=
  if y = 0 ∨ ¬ FitsI64 (x.tdiv y) then none else some (x.tdiv y)

/-- A quotient fits, except for the least integer by minus one. -/
theorem FitsI64.tdiv {x y : Int} (hx : FitsI64 x) (hne : x ≠ -2 ^ 63) : FitsI64 (x.tdiv y) := by
  have hle : (x.tdiv y).natAbs ≤ x.natAbs := by
    rw [Int.natAbs_tdiv]
    exact Nat.div_le_self _ _
  rw [FitsI64] at hx ⊢
  omega

/-- `checked_add` on 32 bits without a sign. -/
def checkedAddU32 (x y : Nat) : Option Nat := if x + y < 2 ^ 32 then some (x + y) else none

theorem checkedAddU32_of_lt {x y : Nat} (h : x + y < 2 ^ 32) : checkedAddU32 x y = some (x + y) :=
  if_pos h

theorem map_checkedAddU32 {α : Type} (x y : Nat) (f : Nat → α) :
    (checkedAddU32 x y).map f = if x + y < 2 ^ 32 then some (f (x + y)) else none := by
  rw [checkedAddU32]
  split <;> rfl

/-! ## Exactness

A computation on integers of 64 bits gives a value whatever happens: a sum that does not fit wraps
around, and so does a conversion.  Beside its value stands whether every step gave the integer that it
would give without a bound. -/

/-- The value of a computation, and whether each of its steps was exact. -/
@[ext] structure Machine (α : Type) where
  value : α
  exact : Bool
deriving DecidableEq, Repr

namespace Machine

variable {α β : Type}

instance : Monad Machine where
  pure a := ⟨a, true⟩
  bind x f := ⟨(f x.value).value, x.exact && (f x.value).exact⟩

@[simp] theorem value_pure (a : α) : (pure a : Machine α).value = a := rfl

@[simp] theorem exact_pure (a : α) : (pure a : Machine α).exact = true := rfl

@[simp] theorem value_bind (x : Machine α) (f : α → Machine β) :
    (x >>= f).value = (f x.value).value := rfl

@[simp] theorem exact_bind (x : Machine α) (f : α → Machine β) :
    (x >>= f).exact = (x.exact && (f x.value).exact) := rfl

/-- An exact step is done. -/
@[simp] theorem mk_bind (a : α) (f : α → Machine β) : (⟨a, true⟩ : Machine α) >>= f = f a := rfl

instance : LawfulMonad Machine := LawfulMonad.mk' Machine
  (fun x => congrArg (Machine.mk x.value) (Bool.and_true _))
  (fun _ _ => rfl)
  (fun _ _ _ => congrArg (Machine.mk _) (Bool.and_assoc ..))

@[simp] theorem value_map (x : Machine α) (f : α → β) : (f <$> x).value = f x.value := rfl

@[simp] theorem exact_map (x : Machine α) (f : α → β) : (f <$> x).exact = x.exact :=
  Bool.and_true _

@[simp] theorem value_mapM (f : α → Machine β) (items : List α) :
    (items.mapM f).value = items.map fun item => (f item).value := by
  induction items with
  | nil => rfl
  | cons item items ih => simp [ih]

@[simp] theorem exact_mapM (f : α → Machine β) (items : List α) :
    (items.mapM f).exact = items.all fun item => (f item).exact := by
  induction items with
  | nil => rfl
  | cons item items ih => simp [ih]

/-- A list of exact computations. -/
theorem mapM_eq {f : α → Machine β} {g : α → β} {items : List α}
    (h : ∀ item ∈ items, f item = ⟨g item, true⟩) : items.mapM f = ⟨items.map g, true⟩ := by
  ext1
  · rw [value_mapM]
    exact List.map_congr_left fun item hitem => by rw [h item hitem]
  · rw [exact_mapM]
    exact List.all_eq_true.mpr fun item hitem => by rw [h item hitem]

end Machine

/-- `+` on 64 bits without a sign. -/
def addUsize (x y : Nat) : Machine Nat := ⟨(x + y) % 2 ^ 64, x + y < 2 ^ 64⟩

/-- `+` on 64 bits with a sign. -/
def addIsize (x y : Int) : Machine Int := ⟨(x + y).bmod (2 ^ 64), FitsI64 (x + y)⟩

/-- What an operation on 64 bits with a sign gives for its result without a bound. -/
def i64 (n : Int) : Machine Int := ⟨n.bmod (2 ^ 64), FitsI64 n⟩

/-- `as isize`. -/
def usizeAsIsize (n : Nat) : Machine Int := ⟨(n : Int).bmod (2 ^ 64), n < 2 ^ 63⟩

/-- `as usize`. -/
def isizeAsUsize (n : Int) : Machine Nat := ⟨(n % 2 ^ 64).toNat, 0 ≤ n⟩

/-- `saturating_sub`. -/
def saturatingSub (x y : Int) : Int := max (-2 ^ 63) (min (x - y) (2 ^ 63 - 1))

theorem addUsize_of_lt {x y : Nat} (h : x + y < 2 ^ 64) : addUsize x y = ⟨x + y, true⟩ := by
  rw [addUsize, Nat.mod_eq_of_lt h, decide_eq_true h]

/-- An integer that fits is not wrapped around. -/
theorem FitsI64.bmod_eq {n : Int} (h : FitsI64 n) : n.bmod (2 ^ 64) = n :=
  Int.bmod_eq_of_le (by rw [FitsI64] at h; omega) (by rw [FitsI64] at h; omega)

theorem i64_of_fits {n : Int} (h : FitsI64 n) : i64 n = ⟨n, true⟩ := by
  rw [i64, decide_eq_true h, h.bmod_eq]

theorem addIsize_of_fits {x y : Int} (h : FitsI64 (x + y)) : addIsize x y = ⟨x + y, true⟩ := by
  rw [addIsize, decide_eq_true h, h.bmod_eq]

theorem exact_usizeAsIsize {n : Nat} : (usizeAsIsize n).exact = true ↔ n < 2 ^ 63 :=
  decide_eq_true_iff

theorem exact_addIsize {x y : Int} : (addIsize x y).exact = true ↔ FitsI64 (x + y) :=
  decide_eq_true_iff

theorem usizeAsIsize_of_lt {n : Nat} (h : n < 2 ^ 63) : usizeAsIsize n = ⟨n, true⟩ := by
  have hfits : FitsI64 n := by
    rw [FitsI64]
    omega
  unfold usizeAsIsize
  simp only [hfits.bmod_eq, h, decide_true]

theorem isizeAsUsize_of_nonneg {n : Int} (h : 0 ≤ n) (hfits : FitsI64 n) :
    isizeAsUsize n = ⟨n.toNat, true⟩ := by
  rw [FitsI64] at hfits
  rw [isizeAsUsize, decide_eq_true h, Int.emod_eq_of_lt h (by omega)]

namespace Text

/-- Digits and their value. -/
structure IsNumeral (digits : Text) (n : Nat) : Prop where
  ne_nil : digits ≠ []
  isDigit : ∀ c ∈ digits, c.isDigit = true
  value : ofDigits 10 digits = n

/-- An integer is digits with an optional sign. -/
inductive IsInteger : Text → Int → Prop
  | unsigned {s n} : IsNumeral s n → IsInteger s n
  | positive {s n} : IsNumeral s n → IsInteger ('+' :: s) n
  | negative {s n} : IsNumeral s n → IsInteger ('-' :: s) (-n)

variable {s : Text} {n : Nat} {value : Int}

theorem parseDigits_eq_some : parseDigits s = some n ↔ IsNumeral s n := by
  rw [parseDigits]
  constructor
  · intro h
    split at h
    · cases h
    · next hdigits =>
        rw [not_or, Decidable.not_not, List.all_eq_true] at hdigits
        exact ⟨hdigits.1, hdigits.2, Option.some.inj h⟩
  · rintro ⟨hne, hdigits, rfl⟩
    rw [if_neg (by rw [not_or, Decidable.not_not, List.all_eq_true]; exact ⟨hne, hdigits⟩)]

theorem ofDigits_eq_ofDigitChars : ∀ {digits : Text} (start : Nat),
    (∀ c ∈ digits, c.isDigit = true) →
      digits.foldl (fun value c => value * 10 + hexValue c) start = Nat.ofDigitChars 10 digits start
  | [], _, _ => rfl
  | c :: digits, start, h => by
    rw [List.foldl_cons, Nat.ofDigitChars_cons, hexValue, if_pos (h c List.mem_cons_self),
      Nat.mul_comm 10]
    exact ofDigits_eq_ofDigitChars _ fun d hd => h d (List.mem_cons_of_mem c hd)

/-- What is written is a numeral. -/
theorem isNumeral_ofNat (n : Nat) : IsNumeral (ofNat n) n := by
  have hdigits : ∀ c ∈ ofNat n, c.isDigit = true :=
    fun c hc => Nat.isDigit_of_mem_toDigits (by decide) (by decide) hc
  refine ⟨Nat.toDigits_ne_nil, hdigits, ?_⟩
  rw [ofDigits, ofDigits_eq_ofDigitChars 0 hdigits]
  exact Nat.ofDigitChars_ten_toDigits

/-- A numeral begins with a digit, not with a sign. -/
theorem IsNumeral.not_sign {c : Char} (h : IsNumeral (c :: s) n) : c ≠ '+' ∧ c ≠ '-' := by
  have hc := h.isDigit c List.mem_cons_self
  constructor <;> (rintro rfl; exact absurd hc (by decide))

/-- `parse::<i64>` reads the integers that fit. -/
theorem parseI64_eq_some : parseI64 s = some value ↔ IsInteger s value ∧ FitsI64 value := by
  constructor
  · intro h
    rw [parseI64.eq_def] at h
    split at h
    · obtain ⟨n, hn, rfl⟩ := Option.map_eq_some_iff.mp h
      obtain ⟨hparse, hfit⟩ := Option.filter_eq_some_iff.mp hn
      rw [decide_eq_true_eq] at hfit
      exact ⟨.positive (parseDigits_eq_some.mp hparse), by
        simp only [FitsI64, Int.ofNat_eq_natCast]; omega⟩
    · obtain ⟨m, hm, rfl⟩ := Option.map_eq_some_iff.mp h
      obtain ⟨n, hn, hmn⟩ := Option.bind_eq_some_iff.mp hm
      obtain ⟨hparse, hfit⟩ := Option.filter_eq_some_iff.mp hn
      rw [decide_eq_true_eq] at hfit
      cases hmn
      exact ⟨.negative (parseDigits_eq_some.mp hparse), by simp only [FitsI64]; omega⟩
    · obtain ⟨n, hn, rfl⟩ := Option.map_eq_some_iff.mp h
      obtain ⟨hparse, hfit⟩ := Option.filter_eq_some_iff.mp hn
      rw [decide_eq_true_eq] at hfit
      exact ⟨.unsigned (parseDigits_eq_some.mp hparse), by
        simp only [FitsI64, Int.ofNat_eq_natCast]; omega⟩
  · rintro ⟨hinteger, hfit⟩
    cases hinteger with
    | positive h =>
      rw [FitsI64] at hfit
      rw [parseI64, parseDigits_eq_some.mpr h, Option.filter_some,
        if_pos (by rw [decide_eq_true_eq]; omega)]
      rfl
    | negative h =>
      rw [FitsI64] at hfit
      rw [parseI64, parseDigits_eq_some.mpr h, Option.filter_some,
        if_pos (by rw [decide_eq_true_eq]; omega)]
      rfl
    | unsigned h =>
      rw [FitsI64] at hfit
      cases s with
      | nil => exact absurd rfl h.ne_nil
      | cons c s =>
        rw [parseI64.eq_def]
        split
        next heq => cases heq; exact absurd rfl h.not_sign.1
        next heq => cases heq; exact absurd rfl h.not_sign.2
        next =>
          rw [parseDigits_eq_some.mpr h, Option.filter_some,
            if_pos (by rw [decide_eq_true_eq]; omega)]
          rfl

/-- The characters of an integer. -/
theorem IsInteger.isDigit_or_sign (h : IsInteger s value) :
    ∀ c ∈ s, c.isDigit = true ∨ c = '+' ∨ c = '-' := by
  intro c hc
  cases h with
  | unsigned h => exact .inl (h.isDigit c hc)
  | positive h =>
    rcases List.mem_cons.mp hc with rfl | hc
    · exact .inr (.inl rfl)
    · exact .inl (h.isDigit c hc)
  | negative h =>
    rcases List.mem_cons.mp hc with rfl | hc
    · exact .inr (.inr rfl)
    · exact .inl (h.isDigit c hc)

/-- A numeral in range is parsed to its value. -/
theorem IsNumeral.parseUnsigned {max : Nat} (h : IsNumeral s n) (hmax : n ≤ max) :
    parseUnsigned max s = some n := by
  rw [Text.parseUnsigned, parseDigits_eq_some.mpr h, Option.filter_some,
    if_pos (decide_eq_true hmax)]
  rintro rest rfl
  exact absurd rfl h.not_sign.1

/-! ## Digits -/

theorem ofDigits_concat (base : Nat) (digits : Text) (c : Char) :
    ofDigits base (digits ++ [c]) = ofDigits base digits * base + hexValue c := by
  rw [ofDigits, ofDigits, List.foldl_append]
  rfl

theorem ofDigits_cons (base : Nat) (c : Char) (digits : Text) :
    ofDigits base (c :: digits) = hexValue c * base ^ digits.length + ofDigits base digits := by
  induction digits using List.reverseRecOn with
  | nil => simp [ofDigits]
  | append_singleton digits last ih =>
    rw [← List.cons_append, ofDigits_concat, ofDigits_concat, ih, List.length_append,
      List.length_singleton, Nat.pow_succ, Nat.add_mul, Nat.mul_assoc, Nat.add_assoc]

theorem ofDigits_lt {digits : Text} (h : ∀ c ∈ digits, c.isDigit = true) :
    ofDigits 10 digits < 10 ^ digits.length := by
  induction digits with
  | nil => exact Nat.one_pos
  | cons c digits ih =>
    have hdigit : hexValue c ≤ 9 := by
      have hc := h c List.mem_cons_self
      rw [hexValue, if_pos hc]
      simp only [Char.isDigit, Bool.and_eq_true, decide_eq_true_eq, UInt32.le_iff_toNat_le,
        ge_iff_le] at hc
      have hlast : c.toNat ≤ 57 := hc.2
      have hzero : '0'.toNat = 48 := rfl
      omega
    have hrest := ih fun other hother => h other (List.mem_cons_of_mem c hother)
    have hmul := Nat.mul_le_mul_right (10 ^ digits.length) hdigit
    rw [ofDigits_cons, List.length_cons, Nat.pow_succ]
    omega

end Text

end Base
