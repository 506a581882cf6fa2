import Omoikane.Http.Hpack

/-!
# The header block of a request is read back

*Integers.*  After a prefix that is full, an integer goes on in groups of seven
bits.  The decoder adds a group at its place (`decodeContinuation_encode`), and
the places end below the width of the type because the integer does.

*Fields.*  A literal field is read back at any place in a block
(`decodeField_literal`), so a block of literals is read back field by field.
-/

namespace Omoikane.Http

open Base

/-! ## Bytes with a mark -/

theorem toNat_and_0x80 (byte : UInt8) : byte &&& 0x80 = 0 ↔ byte.toNat < 128 := by
  have h : ∀ n < 256, UInt8.ofNat n &&& 0x80 = 0 ↔ n < 128 := by decide +kernel
  have hbyte := h byte.toNat byte.toNat_lt
  rwa [UInt8.ofNat_toNat] at hbyte

/-- A group with the mark that more groups follow. -/
theorem toNat_marked (n : Nat) : ((UInt8.ofNat n &&& 0x7F) ||| 0x80).toNat = n % 128 + 128 := by
  have h : ∀ n < 256, ((UInt8.ofNat n &&& 0x7F) ||| 0x80).toNat = n % 128 + 128 := by
    decide +kernel
  have hmod := h (n % 256) (Nat.mod_lt _ (by decide))
  have hsame : UInt8.ofNat (n % 256) = UInt8.ofNat n := UInt8.toNat_inj.mp (by simp)
  rw [hsame] at hmod
  omega

theorem toNat_ofNat_of_lt {n : Nat} (h : n < 256) : (UInt8.ofNat n).toNat = n := by
  rw [UInt8.toNat_ofNat']
  omega

/-- What is put into the free low bits of a byte is read from them. -/
theorem toNat_or_mod {last : UInt8} {n prefixBits : Nat} (hlast : last.toNat % 2 ^ prefixBits = 0)
    (hn : n < 2 ^ prefixBits) (hbyte : n < 256) :
    (last ||| UInt8.ofNat n).toNat % 2 ^ prefixBits = n := by
  rw [UInt8.toNat_or, Nat.or_mod_two_pow, hlast, toNat_ofNat_of_lt hbyte, Nat.zero_or,
    Nat.mod_eq_of_lt hn]

/-! ## Integers -/

/-- The groups of an integer are added at their places. -/
theorem decodeContinuation_encode (t : Bytes) (remaining value m : Nat) (hm : m < 64)
    (h : value + remaining * 2 ^ m ≤ usizeMax) :
    decodeContinuation (encodeContinuation remaining ++ t) value m =
      .ok (value + remaining * 2 ^ m, (encodeContinuation remaining).length) := by
  have hmax : usizeMax < 2 ^ 64 := by decide
  rw [encodeContinuation]
  split
  next hlt =>
    have hnat : (UInt8.ofNat remaining).toNat = remaining := toNat_ofNat_of_lt (by omega)
    have hlow : UInt8.ofNat remaining &&& 0x80 = 0 := by
      rw [toNat_and_0x80, hnat]
      exact hlt
    have hgroup : remaining % 128 * 2 ^ m % 2 ^ 64 = remaining * 2 ^ m := by
      rw [Nat.mod_eq_of_lt hlt, Nat.mod_eq_of_lt (by omega)]
    simp only [List.cons_append, List.nil_append, decodeContinuation, hnat, hgroup, hlow,
      List.length_cons, List.length_nil]
    rw [if_neg (by omega), if_neg (by omega), if_pos trivial]
  next hge =>
    have hsplit : remaining % 128 * 2 ^ m + remaining / 128 * 2 ^ (m + 7) = remaining * 2 ^ m := by
      rw [Nat.pow_add, Nat.mul_comm (2 ^ m), ← Nat.mul_assoc, ← Nat.add_mul]
      congr 1
      omega
    have hnext : 2 ^ (m + 7) ≤ remaining / 128 * 2 ^ (m + 7) :=
      Nat.le_mul_of_pos_left _ (by omega)
    -- a group that follows is at a place within the type
    have hplace : m + 7 < 64 := by
      have hlt : 2 ^ (m + 7) < 2 ^ 64 := by omega
      exact (Nat.pow_lt_pow_iff_right (by decide)).mp hlt
    have hgroup : (remaining % 128 + 128) % 128 * 2 ^ m % 2 ^ 64 = remaining % 128 * 2 ^ m := by
      rw [Nat.add_mod_right, Nat.mod_mod, Nat.mod_eq_of_lt (by omega)]
    have hhigh : ¬ ((UInt8.ofNat remaining &&& 0x7F) ||| 0x80) &&& 0x80 = 0 := by
      rw [toNat_and_0x80, toNat_marked]
      omega
    have ih := decodeContinuation_encode t (remaining / 128) (value + remaining % 128 * 2 ^ m)
      (m + 7) hplace (by omega)
    simp only [List.cons_append, decodeContinuation, toNat_marked, hgroup, if_neg hhigh]
    rw [if_neg (by omega), if_neg (by omega), ih]
    simp only [Except.map, List.length_cons]
    rw [Nat.add_assoc, hsplit]
termination_by remaining

/-- An integer is read back, whatever follows, when the bits of its prefix are free. -/
theorem decodeInteger_encode {last : UInt8} {value prefixBits : Nat} (t : Bytes)
    (hbits : prefixBits ≤ 8) (hlast : last.toNat % 2 ^ prefixBits = 0) (hvalue : value ≤ usizeMax) :
    decodeInteger (encodeInteger last value prefixBits ++ t) prefixBits =
      .ok (value, (encodeInteger last value prefixBits).length) := by
  have hpos : 0 < 2 ^ prefixBits := Nat.two_pow_pos prefixBits
  have hle : 2 ^ prefixBits ≤ 2 ^ 8 := Nat.pow_le_pow_right (by decide) hbits
  by_cases hshort : value < 2 ^ prefixBits - 1
  · have hfirst := toNat_or_mod hlast (show value < 2 ^ prefixBits by omega) (by omega)
    rw [show encodeInteger last value prefixBits = [last ||| UInt8.ofNat value] from
      if_pos hshort]
    simp only [decodeInteger, List.cons_append, List.nil_append, hfirst, if_pos hshort,
      List.length_cons, List.length_nil]
  · have hfirst := toNat_or_mod hlast (show 2 ^ prefixBits - 1 < 2 ^ prefixBits by omega)
      (by omega)
    have hmore := decodeContinuation_encode t (value - (2 ^ prefixBits - 1)) (2 ^ prefixBits - 1) 0
      (by decide) (by omega)
    have hsum : 2 ^ prefixBits - 1 + (value - (2 ^ prefixBits - 1)) * 2 ^ 0 = value := by omega
    rw [hsum] at hmore
    rw [show encodeInteger last value prefixBits = (last ||| UInt8.ofNat (2 ^ prefixBits - 1)) ::
      encodeContinuation (value - (2 ^ prefixBits - 1)) from if_neg hshort]
    simp only [decodeInteger, List.cons_append, hfirst, if_neg (Nat.lt_irrefl _), hmore,
      Except.map, List.length_cons]

/-! ## Fields -/

theorem length_encodeStringLiteral (value : Text) :
    (encodeStringLiteral value).length =
      (encodeInteger 0 (Utf8.encode value).length 7).length + (Utf8.encode value).length :=
  List.length_append

/-- The first byte of a string has no mark. -/
theorem encodeStringLiteral_eq (value : Text) :
    ∃ first rest, encodeStringLiteral value = first :: rest ∧ first &&& 0x80 = 0 := by
  unfold encodeStringLiteral encodeInteger
  dsimp only
  split
  next hshort =>
    refine ⟨_, _, rfl, (toNat_and_0x80 _).mpr ?_⟩
    rw [UInt8.toNat_or, toNat_ofNat_of_lt (by omega)]
    simpa using Nat.lt_of_lt_of_le hshort (by decide)
  next => exact ⟨_, _, rfl, by decide⟩

/-- A string is read back at any place in a block. -/
theorem decodeString_encode (before : Bytes) (value : Text) (rest : Bytes)
    (h : (before ++ (encodeStringLiteral value ++ rest)).length ≤ usizeMax) :
    decodeString (before ++ (encodeStringLiteral value ++ rest)) before.length =
      .ok (value, before.length + (encodeStringLiteral value).length) := by
  obtain ⟨first, more, hliteral, hfirst⟩ := encodeStringLiteral_eq value
  have hget : (before ++ (encodeStringLiteral value ++ rest))[before.length]? = some first := by
    rw [hliteral]
    simp
  simp only [List.length_append, length_encodeStringLiteral] at h
  have hinteger := @decodeInteger_encode 0 _ _ (Utf8.encode value ++ rest)
    (show 7 ≤ 8 by decide) rfl (show (Utf8.encode value).length ≤ usizeMax by omega)
  have hslice := Bytes.slice_between
    (before ++ encodeInteger 0 (Utf8.encode value).length 7) (Utf8.encode value) rest
  rw [List.length_append, List.append_assoc, ← List.append_assoc (encodeInteger 0 _ 7)] at hslice
  unfold decodeString
  rw [hget]
  dsimp only
  rw [if_neg (not_not_intro hfirst), List.drop_left, length_encodeStringLiteral,
    encodeStringLiteral, List.append_assoc, hinteger, ok_bind]
  dsimp only
  rw [if_neg (by omega), ← List.append_assoc (encodeInteger 0 _ 7), hslice, Nat.add_assoc]
  simp only [Utf8.decode_encode]
  rfl

/-- A literal field is read back at any place in a block. -/
theorem decodeField_literal (before : Bytes) (field : Text × Text) (rest : Bytes)
    (h : (before ++ (encodeLiteral field.1 field.2 ++ rest)).length ≤ usizeMax) :
    decodeField (before ++ (encodeLiteral field.1 field.2 ++ rest)) before.length 0 =
      .ok (field, before.length + (encodeLiteral field.1 field.2).length) := by
  obtain ⟨name, value⟩ := field
  dsimp only at h ⊢
  -- the block, cut after the first byte and after the name
  have hname : before ++ (encodeLiteral name value ++ rest) =
      (before ++ [0]) ++ (encodeStringLiteral name ++ (encodeStringLiteral value ++ rest)) := by
    simp [encodeLiteral]
  have hvalue : before ++ (encodeLiteral name value ++ rest) =
      (before ++ ([0] ++ encodeStringLiteral name)) ++ (encodeStringLiteral value ++ rest) := by
    simp [encodeLiteral]
  have hfirst := decodeString_encode (before ++ [0]) name (encodeStringLiteral value ++ rest)
    (by rwa [← hname])
  have hsecond := decodeString_encode (before ++ ([0] ++ encodeStringLiteral name)) value rest
    (by rwa [← hvalue])
  rw [← hname] at hfirst
  rw [← hvalue] at hsecond
  simp only [List.length_append, List.length_cons, List.length_nil] at hfirst hsecond
  have hindex : decodeInteger ((before ++ (encodeLiteral name value ++ rest)).drop before.length) 4 =
      .ok (0, 1) := by
    rw [List.drop_left]
    rfl
  have hlength : (encodeLiteral name value).length =
      1 + (encodeStringLiteral name).length + (encodeStringLiteral value).length := by
    simp [encodeLiteral]
    omega
  unfold decodeField
  rw [if_neg (by decide), if_pos (by decide)]
  simp only [show ¬ (0 : UInt8) &&& 0x40 = 0x40 by decide, if_false, hindex, ok_bind, decodeName,
    if_true]
  simp only [Nat.zero_add, Nat.add_assoc] at hfirst hsecond
  rw [hfirst, ok_bind]
  dsimp only
  rw [hsecond, ok_bind, hlength]
  simp only [Nat.add_assoc]
  rfl

/-- A block of literal fields is read back from any of its fields on. -/
theorem decodeFields_literals (fields : List (Text × Text)) (before : Bytes)
    (h : (before ++ fields.flatMap fun field => encodeLiteral field.1 field.2).length ≤ usizeMax) :
    decodeFields (before ++ fields.flatMap fun field => encodeLiteral field.1 field.2)
      before.length = .ok fields := by
  induction fields generalizing before with
  | nil => exact decodeFields_end (by simp)
  | cons field fields ih =>
    rw [List.flatMap_cons] at h ⊢
    have hfield := decodeField_literal before field _ h
    have hrest := ih (before ++ encodeLiteral field.1 field.2) (by
      rw [List.append_assoc]
      exact h)
    rw [List.append_assoc, List.length_append] at hrest
    have hfirst : (before ++ (encodeLiteral field.1 field.2 ++
        fields.flatMap fun field => encodeLiteral field.1 field.2))[before.length]? = some 0 := by
      rw [List.getElem?_append_right (Nat.le_refl _), Nat.sub_self]
      rfl
    rw [decodeFields_field hfirst hfield, hrest]
    rfl

/-! ## Requests -/

/-- The fields of a request on an HTTP/2 connection: the pseudo-fields, and the
headers but `Host` with their names in lower case. -/
def requestFields (request : HttpRequest) : List (Text × Text) :=
  [(":method".toList, request.method.asStr), (":scheme".toList, request.url.scheme),
    (":authority".toList, request.url.authority), (":path".toList, request.url.requestTarget)] ++
  (request.headers.map fun header => (Text.toAsciiLowercase header.1, header.2)).filter
    fun header => header.1 ≠ "host".toList

/-- A request is encoded field by field. -/
theorem encodeRequest_eq (request : HttpRequest) :
    encodeRequest request =
      (requestFields request).flatMap fun field => encodeLiteral field.1 field.2 := by
  have hheaders : ∀ headers : List (Text × Text),
      (headers.flatMap fun header =>
        if Text.toAsciiLowercase header.1 = "host".toList then []
        else encodeLiteral (Text.toAsciiLowercase header.1) header.2) =
      ((headers.map fun header => (Text.toAsciiLowercase header.1, header.2)).filter
        fun header => header.1 ≠ "host".toList).flatMap
          fun field => encodeLiteral field.1 field.2 := by
    intro headers
    generalize "host".toList = host
    induction headers with
    | nil => rfl
    | cons header headers ih =>
      rw [List.flatMap_cons, ih, List.map_cons, List.filter_cons]
      by_cases hhost : Text.toAsciiLowercase header.1 = host
      · simp [hhost]
      · simp [hhost]
  unfold encodeRequest requestFields
  dsimp only
  rw [hheaders]
  simp only [List.flatMap_append, List.flatMap_cons, List.flatMap_nil, List.append_assoc,
    List.append_nil]

/-- The decoder reads from the block of a request its fields, in order, and from
the bytes of an integer the integer and their number, whatever follows.  The
lengths are those of byte vectors. -/
theorem hpack_round_trip :
    (∀ request : HttpRequest, (encodeRequest request).length ≤ usizeMax →
      decodeHeaderBlock (encodeRequest request) = .ok (requestFields request)) ∧
    ∀ (last : UInt8) (value prefixBits : Nat) (t : Bytes), 1 ≤ prefixBits → prefixBits ≤ 8 →
      last.toNat % 2 ^ prefixBits = 0 → value ≤ usizeMax →
      decodeInteger (encodeInteger last value prefixBits ++ t) prefixBits =
        .ok (value, (encodeInteger last value prefixBits).length) := by
  constructor
  · intro request h
    rw [encodeRequest_eq] at h ⊢
    exact decodeFields_literals (requestFields request) [] h
  · intro last value prefixBits t _ hbits hlast hvalue
    exact decodeInteger_encode t hbits hlast hvalue

/-- A request without headers, and the largest integer after a prefix of seven bits. -/
theorem hpack_round_trip_bare :
    let request := { HttpRequest.new ⟨[], []⟩ .get exampleRoot with headers := [] }
    decodeHeaderBlock (encodeRequest request) = .ok (requestFields request) ∧
      decodeInteger (encodeInteger 0 usizeMax 7 ++ [0xff]) 7 =
        .ok (usizeMax, (encodeInteger 0 usizeMax 7).length) :=
  ⟨hpack_round_trip.1 _ (by decide),
    hpack_round_trip.2 0 usizeMax 7 [0xff] (by decide) (by decide) (by decide) (Nat.le_refl _)⟩

end Omoikane.Http
