import Omoikane.Http.Http2Frame
import Omoikane.Http.Request

/-!
# Header blocks

The encoder writes every field as a literal without Huffman coding, and the
decoder reads a part of HPACK: literals without Huffman coding and a few entries
of the static table.
-/

namespace Omoikane.Http

open Base

/-! ## Encoding -/

/-- The bytes of an integer after its prefix. -/
def encodeContinuation (remaining : Nat) : Bytes :=
  if remaining < 128 then [UInt8.ofNat remaining]
  else ((UInt8.ofNat remaining &&& 0x7F) ||| 0x80) :: encodeContinuation (remaining / 128)
termination_by remaining

/-- `encode_integer`, with the byte that is last before it. -/
def encodeInteger (last : UInt8) (value prefixBits : Nat) : Bytes :=
  let maxPrefix := 2 ^ prefixBits - 1
  if value < maxPrefix then [last ||| UInt8.ofNat value]
  else (last ||| UInt8.ofNat maxPrefix) :: encodeContinuation (value - maxPrefix)

/-- `encode_string_literal`. -/
def encodeStringLiteral (value : Text) : Bytes :=
  encodeInteger 0 (Utf8.encode value).length 7 ++ Utf8.encode value

/-- `encode_literal`. -/
def encodeLiteral (name value : Text) : Bytes :=
  0 :: (encodeStringLiteral name ++ encodeStringLiteral value)

/-- `HpackEncoder::encode_request`. -/
def encodeRequest (request : HttpRequest) : Bytes :=
  encodeLiteral ":method".toList request.method.asStr ++
  encodeLiteral ":scheme".toList request.url.scheme ++
  encodeLiteral ":authority".toList request.url.authority ++
  encodeLiteral ":path".toList request.url.requestTarget ++
  request.headers.flatMap fun header =>
    let lower := Text.toAsciiLowercase header.1
    if lower = "host".toList then [] else encodeLiteral lower header.2

/-! ## Decoding -/

/-- The bytes of an integer after its prefix: the value and their number. -/
def decodeContinuation : Bytes → Nat → Nat → Except Http2Error (Nat × Nat)
  | [], _, _ => .error (.http .invalidHeader)
  | byte :: input, value, m =>
    -- a shift by the whole width and a sum beyond it overflow; bits shifted out do not
    if 64 ≤ m then .error .overflow
    else
      let value := value + (byte.toNat % 128) * 2 ^ m % 2 ^ 64
      if usizeMax < value then .error .overflow
      else if byte &&& 0x80 = 0 then .ok (value, 1)
      else (decodeContinuation input value (m + 7)).map fun p => (p.1, p.2 + 1)

/-- `decode_integer`: the value and the number of bytes it takes. -/
def decodeInteger (input : Bytes) (prefixBits : Nat) : Except Http2Error (Nat × Nat) :=
  match input with
  | [] => .error (.http .invalidHeader)
  | first :: input =>
    let mask := 2 ^ prefixBits - 1
    let value := first.toNat % 2 ^ prefixBits
    if value < mask then .ok (value, 1)
    else (decodeContinuation input value 0).map fun p => (p.1, p.2 + 1)

/-- `decode_string`: the string at a cursor and the cursor after it. -/
def decodeString (input : Bytes) (cursor : Nat) : Except Http2Error (Text × Nat) :=
  match input[cursor]? with
  | none => .error (.http .invalidHeader)
  | some first =>
    if first &&& 0x80 ≠ 0 then .error (.http .invalidHeader)
    else do
      let (length, consumed) ← decodeInteger (input.drop cursor) 7
      let cursor := cursor + consumed
      if usizeMax < cursor + length then throw .overflow
      else match input.slice cursor length with
        | none => throw (.http .invalidHeader)
        | some bytes =>
          match Utf8.decode bytes with
          | none => throw (.http .invalidHeader)
          | some value => return (value, cursor + length)

/-- `indexed_name`. -/
def indexedName (index : Nat) : Except Http2Error Text :=
  match index with
  | 1 => .ok ":authority".toList
  | 2 => .ok ":method".toList
  | 4 => .ok ":path".toList
  | 6 => .ok ":scheme".toList
  | 8 => .ok ":status".toList
  | 28 => .ok "content-length".toList
  | 31 => .ok "content-type".toList
  | _ => .error (.http .invalidHeader)

/-- `indexed_header`. -/
def indexedHeader (index : Nat) : Except Http2Error (Text × Text) :=
  match index with
  | 8 => .ok (":status".toList, "200".toList)
  | 13 => .ok (":status".toList, "404".toList)
  | 16 => .ok ("accept-encoding".toList, "gzip, deflate".toList)
  | _ => .error (.http .invalidHeader)

/-- The name with an index, or the name at the cursor. -/
def decodeName (block : Bytes) (cursor nameIndex : Nat) : Except Http2Error (Text × Nat) :=
  if nameIndex = 0 then decodeString block cursor
  else (indexedName nameIndex).map fun name => (name, cursor)

/-- The field at a cursor, whose first byte is `first`, and the cursor after it. -/
def decodeField (block : Bytes) (cursor : Nat) (first : UInt8) :
    Except Http2Error ((Text × Text) × Nat) := do
  if first &&& 0x80 ≠ 0 then
    let (index, consumed) ← decodeInteger (block.drop cursor) 7
    let field ← indexedHeader index
    return (field, cursor + consumed)
  else if first &&& 0x40 = 0x40 || first &&& 0x10 = 0x10 || first = 0 then
    let prefixBits := if first &&& 0x40 = 0x40 then 6 else 4
    let (nameIndex, consumed) ← decodeInteger (block.drop cursor) prefixBits
    let (name, cursor) ← decodeName block (cursor + consumed) nameIndex
    let (value, cursor) ← decodeString block cursor
    return ((name, value), cursor)
  else throw (.http .invalidHeader)

/-! ## Progress -/

theorem decodeInteger_pos {input : Bytes} {prefixBits : Nat} {p : Nat × Nat}
    (h : decodeInteger input prefixBits = .ok p) : 0 < p.2 := by
  unfold decodeInteger at h
  split at h
  · cases h
  next first input =>
    dsimp only at h
    split at h
    · cases h
      exact Nat.one_pos
    · cases hmore : decodeContinuation input (first.toNat % 2 ^ prefixBits) 0 with
      | error error =>
        rw [hmore] at h
        cases h
      | ok q =>
        rw [hmore] at h
        cases h
        exact Nat.succ_pos _

theorem decodeString_lt {input : Bytes} {cursor : Nat} {p : Text × Nat}
    (h : decodeString input cursor = .ok p) : cursor < p.2 := by
  unfold decodeString at h
  split at h
  · cases h
  · split at h
    · cases h
    · obtain ⟨⟨length, consumed⟩, hinteger, h⟩ := bind_eq_ok.mp h
      have hpos := decodeInteger_pos hinteger
      dsimp only at h hpos
      split at h
      · cases h
      · split at h
        · cases h
        · split at h
          · cases h
          · cases h
            show cursor < cursor + consumed + length
            omega

theorem decodeName_le {block : Bytes} {cursor nameIndex : Nat} {p : Text × Nat}
    (h : decodeName block cursor nameIndex = .ok p) : cursor ≤ p.2 := by
  unfold decodeName at h
  split at h
  · exact Nat.le_of_lt (decodeString_lt h)
  · cases hindexed : indexedName nameIndex with
    | error error =>
      rw [hindexed] at h
      cases h
    | ok name =>
      rw [hindexed] at h
      cases h
      exact Nat.le_refl _

theorem decodeField_lt {block : Bytes} {cursor : Nat} {first : UInt8}
    {p : (Text × Text) × Nat} (h : decodeField block cursor first = .ok p) : cursor < p.2 := by
  unfold decodeField at h
  split at h
  · obtain ⟨⟨index, consumed⟩, hinteger, h⟩ := bind_eq_ok.mp h
    obtain ⟨field, -, h⟩ := bind_eq_ok.mp h
    cases h
    have hpos := decodeInteger_pos hinteger
    show cursor < cursor + consumed
    omega
  · split at h
    · obtain ⟨⟨nameIndex, consumed⟩, hinteger, h⟩ := bind_eq_ok.mp h
      have hpos := decodeInteger_pos hinteger
      obtain ⟨⟨name, middle⟩, hname, h⟩ := bind_eq_ok.mp h
      obtain ⟨⟨value, last⟩, hvalue, h⟩ := bind_eq_ok.mp h
      cases h
      have hmiddle : cursor + consumed ≤ middle := decodeName_le hname
      have hlast : middle < last := decodeString_lt hvalue
      show cursor < last
      omega
    · cases h

/-- The fields from a cursor to the end of the block. -/
def decodeFields (block : Bytes) (cursor : Nat) : Except Http2Error (List (Text × Text)) :=
  match hfirst : block[cursor]? with
  | none => .ok []
  | some first =>
    match h : decodeField block cursor first with
    | .error error => .error error
    | .ok (field, next) =>
      match decodeFields block next with
      | .error error => .error error
      | .ok fields => .ok (field :: fields)
termination_by block.length - cursor
decreasing_by
  have hlt : cursor < block.length := (List.getElem?_eq_some_iff.mp hfirst).1
  have hnext := decodeField_lt h
  omega

/-- `HpackDecoder::decode_header_block`. -/
def decodeHeaderBlock (block : Bytes) : Except Http2Error (List (Text × Text)) :=
  decodeFields block 0

theorem decodeFields_end {block : Bytes} {cursor : Nat} (h : block.length ≤ cursor) :
    decodeFields block cursor = .ok [] := by
  have hnone : block[cursor]? = none := List.getElem?_eq_none h
  rw [decodeFields]
  split
  next => rfl
  next heq =>
    rw [hnone] at heq
    cases heq

theorem decodeFields_field {block : Bytes} {cursor next : Nat} {first : UInt8}
    {field : Text × Text} (hfirst : block[cursor]? = some first)
    (hfield : decodeField block cursor first = .ok (field, next)) :
    decodeFields block cursor = (decodeFields block next).map (field :: ·) := by
  rw [decodeFields]
  split
  next heq =>
    rw [hfirst] at heq
    cases heq
  next heq =>
    rw [hfirst] at heq
    cases heq
    split
    next herror =>
      rw [hfield] at herror
      cases herror
    next hok =>
      rw [hfield] at hok
      cases hok
      cases decodeFields block next with
      | error error => rfl
      | ok fields => rfl

/-- A block that is not empty has a field. -/
theorem decodeHeaderBlock_ne_nil {block : Bytes} {fields : List (Text × Text)} (h : block ≠ [])
    (hfields : decodeHeaderBlock block = .ok fields) : fields ≠ [] := by
  have hfirst : block[0]? ≠ none := by simpa using h
  rw [decodeHeaderBlock, decodeFields] at hfields
  split at hfields
  next hnone => exact absurd hnone hfirst
  next =>
    split at hfields
    · cases hfields
    · split at hfields
      · cases hfields
      · cases hfields
        exact List.cons_ne_nil _ _

end Omoikane.Http
