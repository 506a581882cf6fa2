import Omoikane.Base.Bytes
import Omoikane.Base.Text

/-!
# WebSocket frames

The frame encoder and decoder of the CDP endpoint.  `encode` of this module and
`writeClientFrame` of the realtime client build the same bytes, `frameBytes`,
which differ in the mask only.

Decoding reads from the front and answers alike when bytes follow
(`decode_append`), so a strict prefix of a frame, on which the decoder could
only answer as on the whole frame, is rejected.

`usize` has 64 bits.
-/

namespace Omoikane.Cdp

open Base

/-- The errors of the CDP transport and server. -/
inductive CdpError where
  | invalidHttpRequest (reason : String)
  | invalidWebSocketFrame (reason : String)
  | invalidJsonRpc (reason : String)
  | unknownClient (id : Nat)
  | unknownDeferredRequest (token : Nat)
  | deferredTokenExhausted
  | methodNotFound (method : Text)
deriving DecidableEq, Repr

/-- WebSocket opcodes used by the CDP transport. -/
inductive WebSocketOpcode where
  | continuation
  | text
  | binary
  | close
  | ping
  | pong
deriving DecidableEq, Repr

namespace WebSocketOpcode

/-- `from_u8`. -/
def fromU8 (value : UInt8) : Except CdpError WebSocketOpcode :=
  if value = 0x0 then .ok .continuation
  else if value = 0x1 then .ok .text
  else if value = 0x2 then .ok .binary
  else if value = 0x8 then .ok .close
  else if value = 0x9 then .ok .ping
  else if value = 0xA then .ok .pong
  else .error (.invalidWebSocketFrame "unsupported opcode")

/-- `as_u8`. -/
def asU8 : WebSocketOpcode → UInt8
  | .continuation => 0x0
  | .text => 0x1
  | .binary => 0x2
  | .close => 0x8
  | .ping => 0x9
  | .pong => 0xA

theorem fromU8_asU8 (opcode : WebSocketOpcode) : fromU8 opcode.asU8 = .ok opcode := by
  cases opcode <;> rfl

end WebSocketOpcode

/-- A single WebSocket frame. -/
structure WebSocketFrame where
  fin : Bool
  opcode : WebSocketOpcode
  payload : Bytes
deriving DecidableEq, Repr

/-- Maximum payload accepted in a CDP WebSocket frame (16 MiB). -/
def maxWebsocketPayload : Nat := 16 * 1024 * 1024

/-- Each byte of the payload against the mask byte at its index modulo four. -/
def applyMask (mask : Vector UInt8 4) (payload : Bytes) : Bytes :=
  payload.mapIdx fun index byte => byte ^^^ mask[index % 4]

@[simp] theorem length_applyMask (mask : Vector UInt8 4) (payload : Bytes) :
    (applyMask mask payload).length = payload.length := by simp [applyMask]

/-- Masking twice is not masking. -/
@[simp] theorem applyMask_applyMask (mask : Vector UInt8 4) (payload : Bytes) :
    applyMask mask (applyMask mask payload) = payload := by
  refine List.ext_getElem (by simp) fun index _ _ => ?_
  simp [applyMask]

namespace WebSocketFrame

/-! ## Encoding -/

/-- The first byte of a frame. -/
def firstByte (frame : WebSocketFrame) : UInt8 :=
  (if frame.fin then 0x80 else 0) ||| frame.opcode.asU8

/-- The second byte with the mask bit, and the extended length. -/
def lengthBytes (maskBit : UInt8) (payloadLen : Nat) : Bytes :=
  if payloadLen ≤ 125 then [maskBit ||| UInt8.ofNat payloadLen]
  else if payloadLen ≤ 65535 then (maskBit ||| 126) :: Bytes.ofNatBe 2 payloadLen
  else (maskBit ||| 127) :: Bytes.ofNatBe 8 payloadLen

/-- The mask of `encode`. -/
def encodeMask : Vector UInt8 4 := #v[0x12, 0x34, 0x56, 0x78]

/-- `encode`. -/
def encode (frame : WebSocketFrame) (masked : Bool) : Bytes :=
  [frame.firstByte] ++ lengthBytes (if masked then 0x80 else 0) frame.payload.length ++
    if masked then encodeMask.toList ++ applyMask encodeMask frame.payload else frame.payload

/-! ## Decoding -/

/-- The payload length and the position after it, from the low bits of the second byte. -/
def decodeLength (bytes : Bytes) (code : UInt8) : Except CdpError (Nat × Nat) :=
  if code ≤ 125 then .ok (code.toNat, 2)
  else if code = 126 then
    match bytes.slice 2 2 with
    | none => .error (.invalidWebSocketFrame "missing extended length")
    | some lenBytes => .ok (lenBytes.toNatBe, 4)
  else
    match bytes.slice 2 8 with
    | none => .error (.invalidWebSocketFrame "missing extended length")
    | some lenBytes =>
      if lenBytes.toNatBe / 2 ^ 63 ≠ 0 then .error (.invalidWebSocketFrame "invalid 64-bit length")
      else .ok (lenBytes.toNatBe, 10)

/-- The mask and the position after it. -/
def decodeMask (bytes : Bytes) (masked : Bool) (cursor : Nat) :
    Except CdpError (Option (Vector UInt8 4) × Nat) :=
  if masked then
    match bytes.slice cursor 4 with
    | some [a, b, c, d] => .ok (some #v[a, b, c, d], cursor + 4)
    | _ => .error (.invalidWebSocketFrame "missing mask")
  else .ok (none, cursor)

/-- `decode`: the frame and the consumed length. -/
def decode (bytes : Bytes) : Except CdpError (WebSocketFrame × Nat) :=
  match bytes with
  | first :: second :: _ => do
    let opcode ← WebSocketOpcode.fromU8 (first &&& 0x0F)
    let (payloadLen, cursor) ← decodeLength bytes (second &&& 0x7F)
    if payloadLen > maxWebsocketPayload then
      throw (.invalidWebSocketFrame "payload limit exceeded")
    let (mask, cursor) ← decodeMask bytes (second &&& 0x80 != 0) cursor
    if cursor + payloadLen ≥ 2 ^ 64 then throw (.invalidWebSocketFrame "length overflow")
    match bytes.slice cursor payloadLen with
    | none => throw (.invalidWebSocketFrame "payload truncated")
    | some payload =>
      let payload := match mask with
        | some mask => applyMask mask payload
        | none => payload
      return ({ fin := first &&& 0x80 != 0, opcode, payload }, cursor + payloadLen)
  | _ => .error (.invalidWebSocketFrame "frame too short")

/-- `decode_client`, which insists on a mask. -/
def decodeClient (bytes : Bytes) : Except CdpError (WebSocketFrame × Nat) :=
  if (bytes[1]?).any fun byte => byte &&& 0x80 == 0 then
    .error (.invalidWebSocketFrame "client frame must be masked")
  else decode bytes

/-! ## The bytes of a frame -/

/-- The second byte's mask bit. -/
def maskBit (mask : Option (Vector UInt8 4)) : UInt8 := if mask.isSome then 0x80 else 0

/-- What follows the length: the mask with the masked payload, or the payload. -/
def body (mask : Option (Vector UInt8 4)) (payload : Bytes) : Bytes :=
  match mask with
  | some mask => mask.toList ++ applyMask mask payload
  | none => payload

/-- The bytes of a frame under an optional mask. -/
def frameBytes (mask : Option (Vector UInt8 4)) (frame : WebSocketFrame) : Bytes :=
  frame.firstByte :: (lengthBytes (maskBit mask) frame.payload.length ++ body mask frame.payload)

theorem encode_eq (frame : WebSocketFrame) (masked : Bool) :
    frame.encode masked = frameBytes (if masked then some encodeMask else none) frame := by
  cases masked <;> simp [encode, frameBytes, maskBit, body]

theorem fromU8_firstByte (frame : WebSocketFrame) :
    WebSocketOpcode.fromU8 (frame.firstByte &&& 0x0F) = .ok frame.opcode := by
  have h : ∀ (fin : Bool) (opcode : WebSocketOpcode),
      (((if fin then 0x80 else 0) ||| opcode.asU8) &&& 0x0F) = opcode.asU8 := by
    rintro (_ | _) (_ | _ | _ | _ | _ | _) <;> decide
  rw [firstByte, h, WebSocketOpcode.fromU8_asU8]

theorem fin_firstByte (frame : WebSocketFrame) : (frame.firstByte &&& 0x80 != 0) = frame.fin := by
  have h : ∀ (fin : Bool) (opcode : WebSocketOpcode),
      ((((if fin then 0x80 else 0) ||| opcode.asU8) &&& 0x80) != 0) = fin := by
    rintro (_ | _) (_ | _ | _ | _ | _ | _) <;> decide
  exact h frame.fin frame.opcode

/-- A seven-bit number beside the mask bit is read back, and so is the mask bit. -/
theorem maskBit_or (mask : Option (Vector UInt8 4)) {n : Nat} (h : n < 128) :
    (maskBit mask ||| UInt8.ofNat n) &&& 0x7F = UInt8.ofNat n ∧
      ((maskBit mask ||| UInt8.ofNat n) &&& 0x80 != 0) = mask.isSome := by
  have hset : ∀ n < 128, ((0x80 : UInt8) ||| UInt8.ofNat n) &&& 0x7F = UInt8.ofNat n ∧
      (((0x80 : UInt8) ||| UInt8.ofNat n) &&& 0x80 != 0) = true := by decide
  have hclear : ∀ n < 128, ((0 : UInt8) ||| UInt8.ofNat n) &&& 0x7F = UInt8.ofNat n ∧
      (((0 : UInt8) ||| UInt8.ofNat n) &&& 0x80 != 0) = false := by decide
  cases mask with
  | none => exact hclear n h
  | some mask => exact hset n h

/-- The length bytes are read back as the length, from the second byte's low
bits `code` and the extended length `extended`. -/
theorem lengthBytes_decode (mask : Option (Vector UInt8 4)) (first : UInt8) {payloadLen : Nat}
    (h : payloadLen ≤ maxWebsocketPayload) (rest : Bytes) :
    ∃ second extended, lengthBytes (maskBit mask) payloadLen = second :: extended ∧
      (second &&& 0x80 != 0) = mask.isSome ∧
      decodeLength (first :: second :: (extended ++ rest)) (second &&& 0x7F) =
        .ok (payloadLen, 2 + extended.length) := by
  unfold maxWebsocketPayload at h
  unfold lengthBytes
  by_cases hshort : payloadLen ≤ 125
  · obtain ⟨hcode, hmask⟩ := maskBit_or mask (show payloadLen < 128 by omega)
    refine ⟨_, [], if_pos hshort, hmask, ?_⟩
    have hnat : (UInt8.ofNat payloadLen).toNat = payloadLen := by
      rw [UInt8.toNat_ofNat']
      omega
    have hle : UInt8.ofNat payloadLen ≤ 125 := by
      rw [UInt8.le_iff_toNat_le, hnat]
      exact hshort
    rw [hcode, decodeLength, if_pos hle, hnat]
    rfl
  · rw [if_neg hshort]
    by_cases hmedium : payloadLen ≤ 65535
    · obtain ⟨hcode, hmask⟩ := maskBit_or mask (show 126 < 128 by decide)
      refine ⟨_, _, if_pos hmedium, hmask, ?_⟩
      have hslice := Bytes.slice_between [first, maskBit mask ||| 126]
        (Bytes.ofNatBe 2 payloadLen) rest
      rw [Bytes.length_ofNatBe] at hslice
      simp only [List.length_cons, List.length_nil, List.cons_append, List.nil_append] at hslice
      have hnat : Bytes.toNatBe (Bytes.ofNatBe 2 payloadLen) = payloadLen :=
        Bytes.toNatBe_ofNatBe_of_lt (by omega)
      rw [show (maskBit mask ||| 126) &&& 0x7F = 126 from hcode, decodeLength,
        if_neg (by decide), if_pos rfl, hslice]
      simp [hnat]
    · obtain ⟨hcode, hmask⟩ := maskBit_or mask (show 127 < 128 by decide)
      refine ⟨_, _, if_neg hmedium, hmask, ?_⟩
      have hslice := Bytes.slice_between [first, maskBit mask ||| 127]
        (Bytes.ofNatBe 8 payloadLen) rest
      rw [Bytes.length_ofNatBe] at hslice
      simp only [List.length_cons, List.length_nil, List.cons_append, List.nil_append] at hslice
      have hnat : Bytes.toNatBe (Bytes.ofNatBe 8 payloadLen) = payloadLen :=
        Bytes.toNatBe_ofNatBe_of_lt (by omega)
      have hsmall : payloadLen < 2 ^ 63 := by omega
      rw [show (maskBit mask ||| 127) &&& 0x7F = 127 from hcode, decodeLength,
        if_neg (by decide), if_neg (by decide), hslice]
      dsimp only
      rw [hnat, if_neg (by rw [Nat.div_eq_of_lt hsmall]; exact fun h => h rfl)]
      rfl

/-- The mask is read back, with the position of the payload after it. -/
theorem decodeMask_body (mask : Option (Vector UInt8 4)) (before payload rest : Bytes) :
    ∃ cursor, decodeMask (before ++ (body mask payload ++ rest)) mask.isSome before.length =
        .ok (mask, cursor) ∧
      cursor + payload.length = before.length + (body mask payload).length ∧
      (before ++ (body mask payload ++ rest)).slice cursor payload.length =
        some (mask.elim payload fun mask => applyMask mask payload) := by
  cases mask with
  | none =>
    exact ⟨before.length, rfl, rfl, Bytes.slice_between ..⟩
  | some mask =>
    obtain ⟨a, b, c, d, hmask⟩ : ∃ a b c d, mask = #v[a, b, c, d] :=
      ⟨mask[0], mask[1], mask[2], mask[3], by
        refine Vector.ext fun i hi => ?_
        match i, hi with
        | 0, _ | 1, _ | 2, _ | 3, _ => rfl⟩
    have hlist : mask.toList = [a, b, c, d] := by rw [hmask]; rfl
    refine ⟨before.length + 4, ?_, ?_, ?_⟩
    · have hslice := Bytes.slice_between before [a, b, c, d]
        (applyMask mask payload ++ rest)
      rw [decodeMask, body, hlist, List.append_assoc]
      change (before ++ ([a, b, c, d] ++ (applyMask mask payload ++ rest))).slice before.length 4 =
        some [a, b, c, d] at hslice
      simp only [Option.isSome_some, if_true, hslice]
      rw [hmask]
    · simp [body]
      omega
    · have hslice := Bytes.slice_between (before ++ [a, b, c, d])
        (applyMask mask payload) rest
      rw [List.length_append, length_applyMask] at hslice
      rw [body, hlist]
      simpa [List.append_assoc] using hslice

/-- Every frame is read back from its bytes, whatever follows. -/
theorem decode_frameBytes (mask : Option (Vector UInt8 4)) (frame : WebSocketFrame)
    (h : frame.payload.length ≤ maxWebsocketPayload) (rest : Bytes) :
    decode (frameBytes mask frame ++ rest) = .ok (frame, (frameBytes mask frame).length) := by
  obtain ⟨second, extended, hlength, hmask, hdecode⟩ :=
    lengthBytes_decode mask frame.firstByte h (body mask frame.payload ++ rest)
  obtain ⟨cursor, hdecodeMask, hcursor, hslice⟩ :=
    decodeMask_body mask (frame.firstByte :: second :: extended) frame.payload rest
  have hbytes : frameBytes mask frame ++ rest =
      frame.firstByte :: second :: (extended ++ (body mask frame.payload ++ rest)) := by
    simp [frameBytes, hlength]
  have hlen : (frameBytes mask frame).length = cursor + frame.payload.length := by
    rw [hcursor, frameBytes, hlength]
    simp
    omega
  have hbody : (body mask frame.payload).length ≤ 4 + frame.payload.length := by
    cases mask <;> simp [body]
  have hbound : extended.length ≤ 8 := by
    have hle : (lengthBytes (maskBit mask) frame.payload.length).length ≤ 9 := by
      unfold lengthBytes
      split
      · simp
      · split <;> simp
    rw [hlength, List.length_cons] at hle
    omega
  unfold maxWebsocketPayload at h
  rw [hbytes, decode, fromU8_firstByte, hdecode, hlen]
  simp only [List.cons_append, List.length_cons] at hdecodeMask hslice hcursor
  have hposition : extended.length + 1 + 1 = 2 + extended.length := by omega
  rw [hposition] at hdecodeMask
  have hlimit : ¬ frame.payload.length > maxWebsocketPayload := by
    unfold maxWebsocketPayload
    omega
  have hoverflow : ¬ cursor + frame.payload.length ≥ 2 ^ 64 := by omega
  simp only [ok_bind, if_neg hlimit, hmask, hdecodeMask, if_neg hoverflow, hslice, fin_firstByte]
  cases mask with
  | none => rfl
  | some mask => simp only [Option.elim_some, applyMask_applyMask]; rfl

/-! ## Prefixes -/

/-- What a successful decoding has read. -/
structure Decoded (bytes : Bytes) (frame : WebSocketFrame) (consumed : Nat) where
  first : UInt8
  second : UInt8
  rest : Bytes
  bytes_eq : bytes = first :: second :: rest
  opcode : WebSocketOpcode.fromU8 (first &&& 0x0F) = .ok frame.opcode
  fin : frame.fin = (first &&& 0x80 != 0)
  payloadLen : Nat
  lengthEnd : Nat
  length : decodeLength bytes (second &&& 0x7F) = .ok (payloadLen, lengthEnd)
  payloadLen_le : payloadLen ≤ maxWebsocketPayload
  mask : Option (Vector UInt8 4)
  maskEnd : Nat
  masked : decodeMask bytes (second &&& 0x80 != 0) lengthEnd = .ok (mask, maskEnd)
  consumed_lt : maskEnd + payloadLen < 2 ^ 64
  wire : Bytes
  slice : bytes.slice maskEnd payloadLen = some wire
  payload : frame.payload = mask.elim wire fun mask => applyMask mask wire
  consumed_eq : consumed = maskEnd + payloadLen

theorem decode_eq_ok {bytes : Bytes} {frame : WebSocketFrame} {consumed : Nat} :
    decode bytes = .ok (frame, consumed) ↔ Nonempty (Decoded bytes frame consumed) := by
  constructor
  · intro h
    unfold decode at h
    split at h
    next first second rest =>
      simp only [bind_eq_ok] at h
      obtain ⟨opcode, hopcode, ⟨payloadLen, lengthEnd⟩, hlength, h⟩ := h
      simp only at h
      split at h
      · cases h
      next hlimit =>
        simp only [bind_eq_ok] at h
        obtain ⟨⟨mask, maskEnd⟩, hmask, h⟩ := h
        simp only at h
        split at h
        · cases h
        next hoverflow =>
          split at h
          · cases h
          next wire hslice =>
            cases h
            exact ⟨{
              first, second, rest, payloadLen, lengthEnd, mask, maskEnd, wire
              bytes_eq := rfl
              opcode := hopcode
              fin := rfl
              length := hlength
              payloadLen_le := Nat.le_of_not_lt hlimit
              masked := hmask
              consumed_lt := Nat.lt_of_not_le hoverflow
              slice := hslice
              payload := by cases mask <;> rfl
              consumed_eq := rfl }⟩
    · cases h
  · rintro ⟨⟨first, second, rest, rfl, hopcode, hfin, payloadLen, lengthEnd, hlength, hlimit, mask,
      maskEnd, hmasked, hoverflow, wire, hslice, hpayload, rfl⟩⟩
    obtain ⟨fin, opcode, payload⟩ := frame
    simp only at hfin hpayload hopcode
    rw [decode, hopcode, hlength]
    simp only [ok_bind, if_neg (Nat.not_lt_of_le hlimit), hmasked,
      if_neg (Nat.not_le_of_lt hoverflow), hslice, hfin, hpayload]
    cases mask <;> rfl

/-- A decoded frame lies within the bytes. -/
theorem decode_length_le {bytes : Bytes} {frame : WebSocketFrame} {consumed : Nat}
    (h : decode bytes = .ok (frame, consumed)) : consumed ≤ bytes.length := by
  obtain ⟨d⟩ := decode_eq_ok.mp h
  rw [d.consumed_eq]
  exact Bytes.slice_length_le d.slice

theorem decodeLength_append {bytes : Bytes} {code : UInt8} {result : Nat × Nat}
    (h : decodeLength bytes code = .ok result) (more : Bytes) :
    decodeLength (bytes ++ more) code = .ok result := by
  unfold decodeLength at h ⊢
  split
  next hshort => rwa [if_pos hshort] at h
  next hshort =>
    rw [if_neg hshort] at h
    split
    next hmedium =>
      rw [if_pos hmedium] at h
      cases hslice : bytes.slice 2 2 with
      | none => simp [hslice] at h
      | some lenBytes =>
        rw [Bytes.slice_append hslice]
        simpa [hslice] using h
    next hmedium =>
      rw [if_neg hmedium] at h
      cases hslice : bytes.slice 2 8 with
      | none => simp [hslice] at h
      | some lenBytes =>
        rw [Bytes.slice_append hslice]
        simpa [hslice] using h

theorem decodeMask_append {bytes : Bytes} {masked : Bool} {cursor : Nat}
    {result : Option (Vector UInt8 4) × Nat} (h : decodeMask bytes masked cursor = .ok result)
    (more : Bytes) : decodeMask (bytes ++ more) masked cursor = .ok result := by
  unfold decodeMask at h ⊢
  cases masked with
  | false => exact h
  | true =>
    simp only [if_true] at h ⊢
    cases hslice : bytes.slice cursor 4 with
    | none => simp [hslice] at h
    | some mask =>
      rw [Bytes.slice_append hslice]
      rwa [hslice] at h

/-- A frame is decoded alike when bytes follow. -/
theorem decode_append {bytes : Bytes} {result : WebSocketFrame × Nat}
    (h : decode bytes = .ok result) (more : Bytes) : decode (bytes ++ more) = .ok result := by
  obtain ⟨d⟩ := decode_eq_ok.mp h
  exact decode_eq_ok.mpr ⟨{
    d with
    rest := d.rest ++ more
    bytes_eq := congrArg (· ++ more) d.bytes_eq
    length := decodeLength_append d.length more
    masked := decodeMask_append d.masked more
    slice := Bytes.slice_append d.slice more }⟩

/-- Bytes that decode as a whole have no strict prefix that decodes. -/
theorem decode_take {bytes : Bytes} {frame : WebSocketFrame}
    (h : decode bytes = .ok (frame, bytes.length)) {n : Nat} (hn : n < bytes.length) :
    ∃ error, decode (bytes.take n) = .error error := by
  cases hp : decode (bytes.take n) with
  | error error => exact ⟨error, rfl⟩
  | ok result =>
    have hwhole := decode_append hp (bytes.drop n)
    rw [List.take_append_drop, h] at hwhole
    cases hwhole
    have hle := decode_length_le hp
    rw [List.length_take] at hle
    omega

/-! ## The codec -/

/-- The bytes of a frame: decoded whatever follows, not decoded when cut short,
and accepted from a client exactly when they are masked. -/
structure Framed (bytes : Bytes) (frame : WebSocketFrame) (masked : Bool) : Prop where
  decode : ∀ rest, WebSocketFrame.decode (bytes ++ rest) = .ok (frame, bytes.length)
  prefixes : ∀ n < bytes.length, ∃ error, WebSocketFrame.decode (bytes.take n) = .error error
  client : ∀ rest, decodeClient (bytes ++ rest) = if masked then .ok (frame, bytes.length)
    else .error (.invalidWebSocketFrame "client frame must be masked")

theorem framed_frameBytes (mask : Option (Vector UInt8 4)) (frame : WebSocketFrame)
    (h : frame.payload.length ≤ maxWebsocketPayload) :
    Framed (frameBytes mask frame) frame mask.isSome := by
  have hdecode := decode_frameBytes mask frame h
  refine ⟨hdecode, fun n hn => ?_, fun rest => ?_⟩
  · have hwhole := hdecode []
    rw [List.append_nil] at hwhole
    exact decode_take hwhole hn
  · obtain ⟨second, extended, hlength, hmask, -⟩ :=
      lengthBytes_decode mask frame.firstByte h (body mask frame.payload ++ rest)
    have hsecond : (frameBytes mask frame ++ rest)[1]? = some second := by
      simp [frameBytes, hlength]
    have hbit : (second &&& 0x80 == 0) = !mask.isSome := by
      rw [← hmask, bne, Bool.not_not]
    rw [decodeClient, hsecond, Option.any_some, hbit, hdecode]
    cases mask.isSome <;> rfl

end WebSocketFrame

end Omoikane.Cdp
