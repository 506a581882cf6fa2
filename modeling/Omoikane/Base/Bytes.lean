import Mathlib

/-!
# Byte strings

Big-endian numbers, slices, and the order on byte strings that a decoder of
framed messages respects: what it reads from a string it reads from every longer
one (`Slice` lemmas).  `Except.bind_eq_ok` takes a decoder in the error monad
apart.
-/

namespace Base

/-- A string of bytes. -/
abbrev Bytes := List UInt8

/-- A computation that succeeds is one whose parts succeed. -/
theorem bind_eq_ok {ε α β : Type} {x : Except ε α} {f : α → Except ε β} {b : β} :
    (x >>= f) = .ok b ↔ ∃ a, x = .ok a ∧ f a = .ok b := by
  cases x with
  | error e => exact ⟨fun h => (by cases h), fun ⟨_, h, _⟩ => (by cases h)⟩
  | ok a =>
    constructor
    · intro h
      exact ⟨a, rfl, h⟩
    · rintro ⟨_, ⟨⟩, h⟩
      exact h

@[simp] theorem ok_bind {ε α β : Type} (a : α) (f : α → Except ε β) :
    ((Except.ok a : Except ε α) >>= f) = f a := rfl

namespace Bytes

/-! ## Big-endian numbers -/

/-- The last `width` bytes of a number, the highest first (`to_be_bytes`). -/
def ofNatBe : Nat → Nat → Bytes
  | 0, _ => []
  | width + 1, n => UInt8.ofNat (n / 256 ^ width) :: ofNatBe width n

/-- The number with the given bytes (`from_be_bytes`). -/
def toNatBe : Bytes → Nat
  | [] => 0
  | b :: bytes => b.toNat * 256 ^ bytes.length + toNatBe bytes

@[simp] theorem length_ofNatBe : ∀ (width n : Nat), (ofNatBe width n).length = width
  | 0, _ => rfl
  | width + 1, n => by rw [ofNatBe, List.length_cons, length_ofNatBe]

theorem toNatBe_ofNatBe : ∀ (width n : Nat), toNatBe (ofNatBe width n) = n % 256 ^ width
  | 0, n => by rw [Nat.pow_zero, Nat.mod_one]; rfl
  | width + 1, n => by
    have h : n % 256 ^ (width + 1) = n % 256 ^ width + 256 ^ width * (n / 256 ^ width % 256) := by
      rw [Nat.pow_succ, Nat.mod_mul]
    rw [ofNatBe, toNatBe, length_ofNatBe, toNatBe_ofNatBe, UInt8.toNat_ofNat', h, Nat.add_comm,
      Nat.mul_comm]

theorem toNatBe_ofNatBe_of_lt {width n : Nat} (h : n < 256 ^ width) :
    toNatBe (ofNatBe width n) = n := by
  rw [toNatBe_ofNatBe, Nat.mod_eq_of_lt h]

theorem toNatBe_lt : ∀ bytes : Bytes, toNatBe bytes < 256 ^ bytes.length
  | [] => Nat.one_pos
  | b :: bytes => by
    have hb := Nat.mul_le_mul_right (256 ^ bytes.length) (Nat.le_pred_of_lt b.toNat_lt)
    have hrest := toNatBe_lt bytes
    rw [toNatBe, List.length_cons, Nat.pow_succ]
    simp only [Nat.pred_eq_sub_one] at hb
    omega

/-! ## Slices -/

/-- `count` bytes from `start`; `none` if they are not all there. -/
def slice (bytes : Bytes) (start count : Nat) : Option Bytes :=
  if bytes.length < start + count then none else some ((bytes.drop start).take count)

theorem slice_length_le {bytes part : Bytes} {start count : Nat}
    (h : bytes.slice start count = some part) : start + count ≤ bytes.length := by
  unfold slice at h
  split at h
  · cases h
  next hle => omega

theorem slice_length {bytes part : Bytes} {start count : Nat}
    (h : bytes.slice start count = some part) : part.length = count := by
  unfold slice at h
  split at h
  · cases h
  · cases h
    rw [List.length_take, List.length_drop]
    omega

/-- A slice stays where it is when bytes follow. -/
theorem slice_append {bytes part : Bytes} {start count : Nat}
    (h : bytes.slice start count = some part) (more : Bytes) :
    (bytes ++ more).slice start count = some part := by
  have hle := slice_length_le h
  unfold slice at h ⊢
  rw [if_neg (by omega)] at h
  rw [if_neg (by rw [List.length_append]; omega), ← h,
    List.drop_append_of_le_length (by omega),
    List.take_append_of_le_length (by rw [List.length_drop]; omega)]

/-- The slice between a part before and a part after. -/
theorem slice_between (before part after : Bytes) :
    (before ++ (part ++ after)).slice before.length part.length = some part := by
  unfold slice
  rw [if_neg (by simp only [List.length_append]; omega), List.drop_left, List.take_left]

end Bytes

end Base

/-!
## Saturating counters

A `u64` that numbers things and stops at its greatest value.  Until it stops, its
value is the number of increments.
-/

namespace Base

/-- `u64::MAX`. -/
def u64Max : Nat := 2 ^ 64 - 1

/-- `u64::saturating_add`. -/
def saturatingAdd (a b : Nat) : Nat := min (a + b) u64Max

theorem saturatingAdd_le (a b : Nat) : saturatingAdd a b ≤ u64Max := Nat.min_le_right ..

/-- A counter that was incremented `count` times, counted once more. -/
theorem saturatingAdd_count (start count : Nat) :
    saturatingAdd (min (start + count) u64Max) 1 = min (start + (count + 1)) u64Max := by
  unfold saturatingAdd
  omega

end Base

/-!
## Fields of machine words

A word whose bits in a field are zero takes a value there by `|||`: the field reads back as that value, and
the bits outside of it stay.  `signedField` reads a field as a two's complement number.  At the end the
bytes of a word, the lowest first, and words in a string of bytes.
-/

namespace Base

namespace BitFields

/-! ## Fields -/

/-- `count` ones from bit zero. -/
def ones (w count : Nat) : BitVec w := BitVec.ofNat w (2 ^ count - 1)

@[simp] theorem getLsbD_ones {w count : Nat} (hcount : count ≤ w) (i : Nat) :
    (ones w count).getLsbD i = decide (i < count) := by
  rw [ones, BitVec.getLsbD_ofNat, Nat.testBit_two_pow_sub_one]
  cases hi : decide (i < count) with
  | false => exact Bool.and_false _
  | true =>
    have hlt : i < w := Nat.lt_of_lt_of_le (of_decide_eq_true hi) hcount
    rw [decide_eq_true hlt, Bool.and_self]

/-- The bits of a field are zero. -/
def IsClear {w : Nat} (word : BitVec w) (shift count : Nat) : Prop :=
  ∀ i < count, word.getLsbD (shift + i) = false

instance {w : Nat} (word : BitVec w) (shift count : Nat) : Decidable (IsClear word shift count) :=
  inferInstanceAs (Decidable (∀ i < count, word.getLsbD (shift + i) = false))

/-- The bits of a field, moved to the bottom. -/
def field {w : Nat} (word : BitVec w) (shift count : Nat) : BitVec w := word >>> shift &&& ones w count

theorem getLsbD_of_lt {w : Nat} {value : BitVec w} {count i : Nat} (hvalue : value.toNat < 2 ^ count)
    (hi : count ≤ i) : value.getLsbD i = false :=
  Nat.testBit_lt_two_pow (Nat.lt_of_lt_of_le hvalue (Nat.pow_le_pow_right Nat.two_pos hi))

/-- Bits below a field leave it clear. -/
theorem IsClear.or {w : Nat} {word low : BitVec w} {shift count : Nat} (hword : IsClear word shift count)
    (hlow : low.toNat < 2 ^ shift) : IsClear (word ||| low) shift count := by
  intro i hi
  rw [BitVec.getLsbD_or, hword i hi, getLsbD_of_lt hlow (Nat.le_add_right shift i), Bool.or_false]

/-- What is written into a clear field is read from it. -/
theorem field_or {w : Nat} {word value : BitVec w} {shift count : Nat} (hclear : IsClear word shift count)
    (hvalue : value.toNat < 2 ^ count) (hfit : shift + count ≤ w) :
    field (word ||| value <<< shift) shift count = value := by
  apply BitVec.eq_of_getLsbD_eq
  intro i hi
  rw [field, BitVec.getLsbD_and, getLsbD_ones (Nat.le_trans (Nat.le_add_left count shift) hfit),
    BitVec.getLsbD_ushiftRight, BitVec.getLsbD_or, BitVec.getLsbD_shiftLeft]
  by_cases hcount : i < count
  · have hlt : shift + i < w := by omega
    rw [hclear i hcount, decide_eq_true hlt, decide_eq_true hcount, Nat.add_sub_cancel_left]
    simp
  · rw [decide_eq_false hcount, Bool.and_false, getLsbD_of_lt hvalue (Nat.le_of_not_lt hcount)]

/-- What is written into a clear field changes no bit outside of it. -/
theorem or_outside {w : Nat} {word value : BitVec w} {shift count : Nat} (hclear : IsClear word shift count)
    (hvalue : value.toNat < 2 ^ count) (hfit : shift + count ≤ w) :
    (word ||| value <<< shift) &&& ~~~ (ones w count <<< shift) = word := by
  apply BitVec.eq_of_getLsbD_eq
  intro i hi
  rw [BitVec.getLsbD_and, BitVec.getLsbD_not, BitVec.getLsbD_or, BitVec.getLsbD_shiftLeft,
    BitVec.getLsbD_shiftLeft, getLsbD_ones (Nat.le_trans (Nat.le_add_left count shift) hfit)]
  by_cases hbelow : i < shift
  · simp only [hi, hbelow, decide_true, Bool.not_true, Bool.and_false, Bool.false_and, Bool.or_false,
      Bool.not_false, Bool.and_true]
  · obtain ⟨k, rfl⟩ := Nat.exists_eq_add_of_le (Nat.le_of_not_lt hbelow)
    simp only [Nat.add_sub_cancel_left, hi, hbelow, decide_true, decide_false, Bool.not_false, Bool.true_and]
    by_cases hcount : k < count
    · rw [decide_eq_true hcount, hclear k hcount, Bool.not_true, Bool.and_false]
    · rw [decide_eq_false hcount, getLsbD_of_lt hvalue (Nat.le_of_not_lt hcount), Bool.or_false, Bool.not_false,
        Bool.and_true]

theorem field_lt {w : Nat} (word : BitVec w) (shift : Nat) {count : Nat} (hcount : count ≤ w) :
    (field word shift count).toNat < 2 ^ count := by
  have hle : 2 ^ count ≤ 2 ^ w := Nat.pow_le_pow_right Nat.two_pos hcount
  have hpos := Nat.two_pow_pos count
  rw [field, BitVec.toNat_and, ones, BitVec.toNat_ofNat, Nat.mod_eq_of_lt (by omega : 2 ^ count - 1 < 2 ^ w),
    Nat.and_two_pow_sub_one_eq_mod]
  exact Nat.mod_lt _ hpos

/-- The number in the lowest `count` bits of a 64-bit word, as a two's complement number. -/
def signedLow (word : BitVec 64) (count : Nat) : Int :=
  ((word <<< (64 - count)).sshiftRight (64 - count)).toInt

/-- The remainder nearest to zero of a multiple, by the same multiple. -/
theorem bmod_mul_two_pow {n count : Nat} (hn : n < 2 ^ count) (k : Nat) :
    Int.bmod ((n * 2 ^ k : Nat) : Int) (2 ^ count * 2 ^ k) = Int.bmod n (2 ^ count) * (2 ^ k : Nat) := by
  cases count with
  | zero =>
    obtain rfl := Nat.lt_one_iff.mp hn
    rw [Nat.zero_mul, Int.natCast_zero, Int.zero_bmod, Int.zero_bmod, Int.zero_mul]
  | succ count =>
    have hk := Nat.two_pow_pos k
    have hlt : n * 2 ^ k < 2 ^ (count + 1) * 2 ^ k := Nat.mul_lt_mul_of_pos_right hn hk
    have hhalf : ((2 ^ (count + 1) : Nat) + 1) / 2 = 2 ^ count := by rw [Nat.pow_succ]; omega
    have hhalf' : ((2 ^ (count + 1) * 2 ^ k : Nat) + 1) / 2 = 2 ^ count * 2 ^ k := by
      rw [Nat.pow_succ, Nat.mul_right_comm]; omega
    rw [Int.bmod, Int.bmod, ← Int.natCast_emod, ← Int.natCast_emod, Nat.mod_eq_of_lt hn, Nat.mod_eq_of_lt hlt]
    by_cases hsmall : n < 2 ^ count
    · have hsmall' : n * 2 ^ k < 2 ^ count * 2 ^ k := Nat.mul_lt_mul_of_pos_right hsmall hk
      rw [if_pos (by omega), if_pos (by omega), Int.natCast_mul]
    · have hlarge : ¬ n * 2 ^ k < 2 ^ count * 2 ^ k :=
        Nat.not_lt.mpr (Nat.mul_le_mul_right _ (Nat.le_of_not_lt hsmall))
      rw [if_neg (by omega), if_neg (by omega), Int.sub_mul, Int.natCast_mul, Int.natCast_mul]

theorem signedLow_eq {word : BitVec 64} {count : Nat} (hword : word.toNat < 2 ^ count) (hcount : count ≤ 64) :
    signedLow word count = Int.bmod word.toNat (2 ^ count) := by
  have hpow : 2 ^ count * 2 ^ (64 - count) = 2 ^ 64 := by
    rw [← Nat.pow_add, Nat.add_sub_cancel' hcount]
  have hshift : (word <<< (64 - count)).toNat = word.toNat * 2 ^ (64 - count) := by
    rw [BitVec.toNat_shiftLeft, Nat.shiftLeft_eq, Nat.mod_eq_of_lt]
    calc word.toNat * 2 ^ (64 - count) < 2 ^ count * 2 ^ (64 - count) :=
          Nat.mul_lt_mul_of_pos_right hword (Nat.two_pow_pos _)
      _ = 2 ^ 64 := hpow
  rw [signedLow, BitVec.toInt_sshiftRight, BitVec.toInt_eq_toNat_bmod, hshift, ← hpow, bmod_mul_two_pow hword,
    Int.shiftRight_eq_div_pow]
  exact Int.mul_ediv_cancel _ (by exact_mod_cast Nat.ne_of_gt (Nat.two_pow_pos _))

/-- What is read from the low bits lies between the bounds of a field. -/
theorem signedLow_bounds {word : BitVec 64} {count : Nat} (hcount : 0 < count) (hfit : count ≤ 64)
    (hword : word.toNat < 2 ^ count) :
    -(2 ^ (count - 1) : Nat) ≤ signedLow word count ∧ signedLow word count < (2 ^ (count - 1) : Nat) := by
  have hpos := Nat.two_pow_pos count
  have hdouble : 2 ^ count = 2 * 2 ^ (count - 1) := by
    rw [← Nat.pow_succ', Nat.succ_eq_add_one, Nat.sub_add_cancel hcount]
  have hlow := @Int.le_bmod word.toNat _ hpos
  have hhigh := @Int.bmod_lt word.toNat _ hpos
  rw [signedLow_eq hword hfit]
  constructor
  · omega
  · omega

/-- A number between the bounds of a field is read back from its low bits. -/
theorem signedLow_ofInt {word : BitVec 64} {count : Nat} {n : Int} (hcount : 0 < count) (hfit : count ≤ 64)
    (hword : (word.toNat : Int) = n % (2 ^ count : Nat)) (hlow : -(2 ^ (count - 1) : Nat) ≤ n)
    (hhigh : n < (2 ^ (count - 1) : Nat)) : signedLow word count = n := by
  have hpos := Nat.two_pow_pos count
  have hdouble : 2 ^ count = 2 * 2 ^ (count - 1) := by
    rw [← Nat.pow_succ', Nat.succ_eq_add_one, Nat.sub_add_cancel hcount]
  have hlt : word.toNat < 2 ^ count := by
    have hmod := Int.emod_lt_of_pos n (by exact_mod_cast hpos : (0 : Int) < (2 ^ count : Nat))
    omega
  rw [signedLow_eq hlt hfit, hword, Int.emod_bmod, Int.bmod_eq_of_le]
  · omega
  · omega

/-- The low bits of a number in two's complement are its remainder. -/
theorem toNat_ofInt_and_ones {w count : Nat} (hfit : count ≤ w) (n : Int) :
    ((BitVec.ofInt w n &&& ones w count).toNat : Int) = n % (2 ^ count : Nat) := by
  have hle : 2 ^ count ≤ 2 ^ w := Nat.pow_le_pow_right Nat.two_pos hfit
  have hpos := Nat.two_pow_pos count
  have hnonneg : 0 ≤ n % (2 ^ w : Nat) := Int.emod_nonneg _ (by exact_mod_cast Nat.ne_of_gt (Nat.two_pow_pos w))
  rw [BitVec.toNat_and, ones, BitVec.toNat_ofNat, Nat.mod_eq_of_lt (by omega : 2 ^ count - 1 < 2 ^ w),
    Nat.and_two_pow_sub_one_eq_mod, BitVec.toNat_ofInt, Int.natCast_emod, Int.toNat_of_nonneg hnonneg]
  exact Int.emod_emod_of_dvd n (by exact_mod_cast Nat.pow_dvd_pow 2 hfit)

end BitFields

namespace Bytes

/-! ## Little-endian numbers -/

/-- The last `width` bytes of a number, the lowest first (`to_le_bytes`). -/
def ofNatLe (width n : Nat) : Bytes := (ofNatBe width n).reverse

/-- The number with the given bytes (`from_le_bytes`). -/
def toNatLe (bytes : Bytes) : Nat := toNatBe bytes.reverse

@[simp] theorem length_ofNatLe (width n : Nat) : (ofNatLe width n).length = width := by
  rw [ofNatLe, List.length_reverse, length_ofNatBe]

theorem toNatLe_ofNatLe_of_lt {width n : Nat} (h : n < 256 ^ width) : toNatLe (ofNatLe width n) = n := by
  rw [toNatLe, ofNatLe, List.reverse_reverse, toNatBe_ofNatBe_of_lt h]

/-- Bytes above the last `width` are not read. -/
theorem ofNatBe_add : ∀ (width high n : Nat), ofNatBe width (high * 256 ^ width + n) = ofNatBe width n
  | 0, _, _ => rfl
  | width + 1, high, n => by
    have hpos : 0 < 256 ^ width := Nat.pow_pos (by omega)
    have hsum : high * 256 ^ (width + 1) + n = 256 ^ width * (high * 256) + n := by
      rw [Nat.pow_succ, Nat.mul_comm high, Nat.mul_assoc, Nat.mul_comm 256]
    have hbyte : UInt8.ofNat (high * 256 + n / 256 ^ width) = UInt8.ofNat (n / 256 ^ width) := by
      apply UInt8.toNat_inj.mp
      rw [UInt8.toNat_ofNat', UInt8.toNat_ofNat']
      omega
    rw [ofNatBe, ofNatBe, hsum, Nat.mul_add_div hpos, hbyte, Nat.mul_comm, ofNatBe_add width]

theorem ofNatBe_toNatBe : ∀ bytes : Bytes, ofNatBe bytes.length (toNatBe bytes) = bytes
  | [] => rfl
  | b :: bytes => by
    have hpos : 0 < 256 ^ bytes.length := Nat.pow_pos (by omega)
    have hlt := toNatBe_lt bytes
    have hhead : (b.toNat * 256 ^ bytes.length + toNatBe bytes) / 256 ^ bytes.length = b.toNat := by
      rw [Nat.mul_comm, Nat.mul_add_div hpos, Nat.div_eq_of_lt hlt, Nat.add_zero]
    rw [List.length_cons, ofNatBe, toNatBe, hhead, ofNatBe_add, ofNatBe_toNatBe bytes, UInt8.ofNat_toNat]

theorem ofNatLe_toNatLe (bytes : Bytes) : ofNatLe bytes.length (toNatLe bytes) = bytes := by
  have h := ofNatBe_toNatBe bytes.reverse
  rw [List.length_reverse] at h
  rw [ofNatLe, toNatLe, h, List.reverse_reverse]

/-! ## Words in a string of bytes -/

theorem length_flatMap_of_width {α : Type} {bytesOf : α → Bytes} {width : Nat}
    (hwidth : ∀ a, (bytesOf a).length = width) : ∀ l : List α, (l.flatMap bytesOf).length = width * l.length
  | [] => rfl
  | a :: l => by
    rw [List.flatMap_cons, List.length_append, hwidth, length_flatMap_of_width hwidth l, List.length_cons,
      Nat.mul_succ, Nat.add_comm]

/-- The bytes of the words of a list, each of them `width` bytes wide. -/
theorem slice_flatMap {α : Type} {bytesOf : α → Bytes} {width : Nat}
    (hwidth : ∀ a, (bytesOf a).length = width) {words part : List α} (front back : List α)
    (hwords : words = front ++ (part ++ back)) :
    slice (words.flatMap bytesOf) (width * front.length) (width * part.length) =
      some (part.flatMap bytesOf) := by
  rw [hwords, List.flatMap_append, List.flatMap_append, ← length_flatMap_of_width hwidth front,
    ← length_flatMap_of_width hwidth part]
  exact slice_between _ _ _

end Bytes

end Base
