import Omoikane.Base.Bytes
import Omoikane.Base.Text

/-!
# UTF-8

Texts as bytes.  `decode` is the validating decoder of the standard library, on
lists; `decode_eq_some` says that it inverts `encode`, and everything else
follows from that.

An ASCII byte never occurs inside the encoding of another character, so ASCII
delimiters can be looked for in the bytes, and ASCII texts cut off at either end
(`decode_encode_append`, `decode_append_encode`).
-/

namespace Base

namespace Utf8

/-- The UTF-8 bytes of a text. -/
def encode (s : Text) : Bytes := s.flatMap String.utf8EncodeChar

/-- The text of UTF-8 bytes; `none` if they are not valid. -/
def decode (bytes : Bytes) : Option Text := bytes.toByteArray.utf8Decode?.map Array.toList

/-- The bytes that a malformed sequence takes: its longest part that could begin a
character, or one byte. -/
def malformedLength : Bytes → Nat
  | a :: b :: rest =>
    let second :=
      if a = 0xE0 then 0xA0 ≤ b && b ≤ 0xBF
      else if a = 0xED then 0x80 ≤ b && b ≤ 0x9F
      else if 0xE1 ≤ a && a ≤ 0xEF then 0x80 ≤ b && b ≤ 0xBF
      else if a = 0xF0 then 0x90 ≤ b && b ≤ 0xBF
      else if 0xF1 ≤ a && a ≤ 0xF3 then 0x80 ≤ b && b ≤ 0xBF
      else if a = 0xF4 then 0x80 ≤ b && b ≤ 0x8F
      else false
    if !second then 1
    else if 0xF0 ≤ a && (rest.head?.any fun c => 0x80 ≤ c && c ≤ 0xBF) then 3
    else 2
  | _ => 1

/-- The character in front of the bytes, with the number of its bytes. -/
def decodeFirst (bytes : Bytes) : Option (Char × Nat) :=
  [1, 2, 3, 4].findSome? fun n =>
    match decode (bytes.take n) with
    | some [c] => some (c, n)
    | _ => none

/-- `from_utf8_lossy`. -/
def decodeLossy (bytes : Bytes) : Text :=
  match bytes with
  | [] => []
  | first :: rest =>
    match decodeFirst (first :: rest) with
    | some (c, n) => c :: decodeLossy (rest.drop (n - 1))
    | none => '\uFFFD' :: decodeLossy (rest.drop (malformedLength (first :: rest) - 1))
termination_by bytes.length
decreasing_by
  all_goals
    simp only [List.length_cons, List.length_drop]
    omega

@[simp] theorem encode_nil : encode [] = [] := rfl

@[simp] theorem encode_cons (c : Char) (s : Text) :
    encode (c :: s) = String.utf8EncodeChar c ++ encode s := rfl

@[simp] theorem encode_append (s t : Text) : encode (s ++ t) = encode s ++ encode t := by
  simp [encode]

/-- Decoding inverts encoding. -/
theorem decode_eq_some {bytes : Bytes} {s : Text} : decode bytes = some s ↔ bytes = encode s := by
  constructor
  · intro h
    obtain ⟨chars, hchars, rfl⟩ := Option.map_eq_some_iff.mp h
    have hsome : bytes.toByteArray.utf8Decode?.isSome = true := by rw [hchars]; rfl
    have hget := ByteArray.utf8Encode_get_utf8Decode? (h := hsome)
    simp only [hchars, Option.get_some] at hget
    exact (List.toByteArray_inj.mp hget).symm
  · rintro rfl
    have h : (encode s).toByteArray = s.utf8Encode := rfl
    rw [decode, h, List.utf8Decode?_utf8Encode]
    rfl

@[simp] theorem decode_encode (s : Text) : decode (encode s) = some s := decode_eq_some.mpr rfl

/-- A text in front of other bytes is decoded on its own. -/
theorem decode_encode_append (bytes : Bytes) :
    ∀ (s : Text), decode (encode s ++ bytes) = (decode bytes).map (s ++ ·)
  | [] => by simp
  | c :: s => by
    have hc : (String.utf8EncodeChar c ++ (encode s ++ bytes)).toByteArray =
        [c].utf8Encode ++ (encode s ++ bytes).toByteArray := by
      rw [List.toByteArray_append, List.utf8Encode, List.flatMap_singleton]
    rw [encode_cons, List.append_assoc, decode, hc, ByteArray.utf8Decode?_utf8Encode_singleton_append,
      Option.map_map]
    have ih := decode_encode_append bytes s
    unfold decode at ih ⊢
    cases hd : (encode s ++ bytes).toByteArray.utf8Decode? with
    | none =>
      rw [hd] at ih
      cases hb : bytes.toByteArray.utf8Decode? with
      | none => rfl
      | some more => simp [hb] at ih
    | some chars =>
      rw [hd] at ih
      cases hb : bytes.toByteArray.utf8Decode? with
      | none => simp [hb] at ih
      | some more =>
        rw [hb] at ih
        simpa using ih

/-! ## ASCII -/

/-- An ASCII character. -/
def IsAscii (c : Char) : Prop := c.toNat < 128

instance (c : Char) : Decidable (IsAscii c) := inferInstanceAs (Decidable (_ < _))

theorem utf8EncodeChar_ascii {c : Char} (h : IsAscii c) :
    String.utf8EncodeChar c = [UInt8.ofNat c.toNat] := by
  have hv : c.val.toNat ≤ 127 := Nat.le_of_lt_succ h
  simp only [String.utf8EncodeChar, if_pos hv]
  rfl

/-- An ASCII byte stands for itself. -/
theorem mem_utf8EncodeChar {c : Char} {b : UInt8} (hb : b.toNat < 128)
    (h : b ∈ String.utf8EncodeChar c) : c.toNat = b.toNat := by
  have hc : c.toNat = c.val.toNat := rfl
  unfold String.utf8EncodeChar at h
  simp only at h
  have hlt : ∀ n, (UInt8.ofNat n).toNat = n % 256 := fun n => UInt8.toNat_ofNat'
  split at h
  · rw [List.mem_singleton] at h
    rw [h, hlt]
    omega
  · split at h
    · rcases List.mem_cons.mp h with rfl | h
      · rw [hlt] at hb
        omega
      · rw [List.mem_singleton] at h
        rw [h, hlt] at hb
        omega
    · split at h
      · simp only [List.mem_cons, List.not_mem_nil, or_false] at h
        rcases h with rfl | rfl | rfl <;> rw [hlt] at hb <;> omega
      · simp only [List.mem_cons, List.not_mem_nil, or_false] at h
        rcases h with rfl | rfl | rfl | rfl <;> rw [hlt] at hb <;> omega

/-- An ASCII byte in an encoding is one of its characters. -/
theorem mem_encode {s : Text} {b : UInt8} (hb : b.toNat < 128) (h : b ∈ encode s) :
    ∃ c ∈ s, c.toNat = b.toNat := by
  obtain ⟨c, hc, hbc⟩ := List.mem_flatMap.mp h
  exact ⟨c, hc, mem_utf8EncodeChar hb hbc⟩

/-- An ASCII character behind other bytes is decoded on its own. -/
theorem decode_append_singleton {c : Char} (hc : IsAscii c) (bytes : Bytes) :
    decode (bytes ++ encode [c]) = (decode bytes).map (· ++ [c]) := by
  cases hd : decode bytes with
  | some s =>
    rw [decode_eq_some] at hd
    rw [hd, ← encode_append, decode_encode]
    rfl
  | none =>
    cases hw : decode (bytes ++ encode [c]) with
    | none => rfl
    | some s =>
      exfalso
      rw [decode_eq_some] at hw
      have henc : encode [c] = [UInt8.ofNat c.toNat] := by
        rw [encode_cons, encode_nil, List.append_nil, utf8EncodeChar_ascii hc]
      have hne : s ≠ [] := by
        rintro rfl
        rw [henc] at hw
        simp at hw
      -- the last character ends in an ASCII byte, so it is that byte
      obtain ⟨front, last, rfl⟩ : ∃ front last, s = front ++ [last] :=
        ⟨s.dropLast, s.getLast hne, (List.dropLast_concat_getLast hne).symm⟩
      have hnat : (UInt8.ofNat c.toNat).toNat = c.toNat := by
        rw [UInt8.toNat_ofNat']
        have : c.toNat < 128 := hc
        omega
      have hlast : UInt8.ofNat c.toNat ∈ String.utf8EncodeChar last := by
        have h := congrArg List.getLast? hw
        rw [henc, encode_append, List.getLast?_append, List.getLast?_append] at h
        simp only [List.getLast?_singleton, Option.some_or, encode_cons, encode_nil,
          List.append_nil] at h
        have hsome : (String.utf8EncodeChar last).getLast? ≠ none := by
          rw [ne_eq, List.getLast?_eq_none_iff]
          exact String.utf8EncodeChar_ne_nil
        cases hl : (String.utf8EncodeChar last).getLast? with
        | none => exact absurd hl hsome
        | some b =>
          rw [hl, Option.some_or] at h
          rw [Option.some.inj h]
          exact List.mem_of_getLast? hl
      have hbyte : (UInt8.ofNat c.toNat).toNat < 128 := by rw [hnat]; exact hc
      have hsame : last.toNat = c.toNat := (mem_utf8EncodeChar hbyte hlast).trans hnat
      have hchar : last = c := Char.toNat_inj.mp hsame
      rw [hchar, encode_append, List.append_cancel_right_eq] at hw
      rw [decode_eq_some.mpr hw] at hd
      cases hd

/-- An ASCII text behind other bytes is decoded on its own. -/
theorem decode_append_encode (bytes : Bytes) : ∀ {s : Text}, (∀ c ∈ s, IsAscii c) →
    decode (bytes ++ encode s) = (decode bytes).map (· ++ s)
  | [], _ => by simp
  | c :: s, h => by
    have hsplit : bytes ++ encode (c :: s) = (bytes ++ encode [c]) ++ encode s := by
      rw [List.append_assoc, ← encode_append]
      rfl
    rw [hsplit, decode_append_encode _ fun d hd => h d (List.mem_cons_of_mem _ hd),
      decode_append_singleton (h c (List.mem_cons_self ..)), Option.map_map]
    cases decode bytes <;> simp

end Utf8

end Base
