import Omoikane.Http.Response

/-!
# HTTP/2 frames

The four frame types the client knows, and their bytes.  A frame whose payload
and stream id fit their fields is read back from its bytes, whatever follows
(`Frame.reads_encode`).

Arithmetic that leaves its machine type is an error of its own, `overflow`, as
with the overflow checks of the test profile.
-/

namespace Omoikane.Http

open Base

/-- The errors of the HTTP/2 transport. -/
inductive Http2Error where
  | http (error : HttpParseError)
  | overflow
deriving DecidableEq, Repr

/-- Frame types. -/
inductive FrameType where
  | data
  | headers
  | settings
  | windowUpdate
deriving DecidableEq, Repr

namespace FrameType

/-- The type as a byte. -/
def asU8 : FrameType → UInt8
  | .data => 0x0
  | .headers => 0x1
  | .settings => 0x4
  | .windowUpdate => 0x8

/-- `from_u8`. -/
def fromU8 (value : UInt8) : Except HttpParseError FrameType :=
  if value = 0x0 then .ok .data
  else if value = 0x1 then .ok .headers
  else if value = 0x4 then .ok .settings
  else if value = 0x8 then .ok .windowUpdate
  else .error .invalidHeader

@[simp] theorem fromU8_asU8 (frameType : FrameType) : fromU8 frameType.asU8 = .ok frameType := by
  cases frameType <;> rfl

end FrameType

/-- The flag of the last frame of a stream. -/
def flagEndStream : UInt8 := 0x1

/-- The flag of a complete header block. -/
def flagEndHeaders : UInt8 := 0x4

/-- An HTTP/2 frame. -/
structure Frame where
  frameType : FrameType
  flags : UInt8
  streamId : Nat
  payload : Bytes
deriving DecidableEq, Repr

namespace Frame

/-- `encode`. -/
def encode (frame : Frame) : Bytes :=
  Bytes.ofNatBe 3 frame.payload.length ++ ([frame.frameType.asU8, frame.flags] ++
    (Bytes.ofNatBe 4 (frame.streamId % 2 ^ 31) ++ frame.payload))

/-- `read`. -/
def read (s : Bytes) : Except HttpParseError (Frame × Bytes) := do
  let (header, s) ← readExact 9 s
  let frameType ← FrameType.fromU8 (header.getD 3 0)
  let (payload, s) ← readExact (Bytes.toNatBe (header.take 3)) s
  return ({
    frameType
    flags := header.getD 4 0
    streamId := Bytes.toNatBe (header.drop 5) % 2 ^ 31
    payload }, s)

/-- The payload and the stream id fit their fields. -/
structure Fits (frame : Frame) : Prop where
  payload_lt : frame.payload.length < 2 ^ 24
  streamId_lt : frame.streamId < 2 ^ 31

/-- A frame is read back from its bytes, whatever follows. -/
theorem reads_encode {frame : Frame} (h : frame.Fits) : Reads Frame.read frame.encode frame := by
  intro rest
  obtain ⟨a, b, c, hlength⟩ : ∃ a b c, Bytes.ofNatBe 3 frame.payload.length = [a, b, c] :=
    ⟨_, _, _, rfl⟩
  obtain ⟨d, e, f, g, hid⟩ : ∃ d e f g, Bytes.ofNatBe 4 (frame.streamId % 2 ^ 31) = [d, e, f, g] :=
    ⟨_, _, _, _, rfl⟩
  have hnat : Bytes.toNatBe [a, b, c] = frame.payload.length := by
    rw [← hlength]
    exact Bytes.toNatBe_ofNatBe_of_lt h.payload_lt
  have hstream : Bytes.toNatBe [d, e, f, g] % 2 ^ 31 = frame.streamId := by
    have hlt := h.streamId_lt
    rw [← hid, Bytes.toNatBe_ofNatBe]
    omega
  have hheader : readExact 9 (frame.encode ++ rest) =
      .ok ([a, b, c, frame.frameType.asU8, frame.flags, d, e, f, g], frame.payload ++ rest) := by
    rw [encode, hlength, hid]
    exact readExact_eq_ok.mpr
      (Bytes.readExact_append [a, b, c, frame.frameType.asU8, frame.flags, d, e, f, g] _)
  have hpayload : readExact frame.payload.length (frame.payload ++ rest) =
      .ok (frame.payload, rest) := readExact_eq_ok.mpr (Bytes.readExact_append ..)
  rw [read, hheader, ok_bind]
  show (FrameType.fromU8 frame.frameType.asU8 >>= _) = _
  rw [FrameType.fromU8_asU8, ok_bind]
  show (readExact (Bytes.toNatBe [a, b, c]) _ >>= _) = _
  rw [hnat, hpayload, ok_bind]
  show Except.ok (Frame.mk frame.frameType frame.flags
    (Bytes.toNatBe [d, e, f, g] % 2 ^ 31) frame.payload, rest) = _
  rw [hstream]

/-- Reading a frame makes progress. -/
theorem read_length_lt {s rest : Bytes} {frame : Frame} (h : read s = .ok (frame, rest)) :
    rest.length < s.length := by
  obtain ⟨⟨header, middle⟩, hheader, h⟩ := bind_eq_ok.mp h
  obtain ⟨frameType, -, h⟩ := bind_eq_ok.mp h
  obtain ⟨⟨payload, rest'⟩, hpayload, h⟩ := bind_eq_ok.mp h
  cases h
  obtain ⟨hs, hlength⟩ := Bytes.readExact_eq_some (readExact_eq_ok.mp hheader)
  obtain ⟨hs', -⟩ := Bytes.readExact_eq_some (readExact_eq_ok.mp hpayload)
  rw [hs, List.length_append, hlength, hs', List.length_append]
  omega

end Frame

end Omoikane.Http
