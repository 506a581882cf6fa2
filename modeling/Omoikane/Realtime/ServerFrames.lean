import Omoikane.Cdp.Transport

/-!
# Server frames of the realtime client

The client scans the header of a frame before it decodes the frame.  The scanner
and the decoder agree on the length of a frame, except that the scanner adds the
declared length to that of the header without a check (`scanner_agrees_iff`).

The scanner answers alike when bytes follow, so what `read_frame` reads does not
depend on how the stream is cut into reads (`readFrame_eq`).
-/

namespace Omoikane.Realtime

open Base Cdp Cdp.WebSocketFrame

/-- The errors of the realtime client that come from frames and messages. -/
inductive RealtimeError where
  | unexpectedContinuation
  | invalidTextFrame
  | missingMessageOpcode
  | frame (error : CdpError)
  | connectionClosed
  | unsupportedRsvBits
  | unsupportedOpcode
  | maskedServerFrame
  | invalidControlFrame
deriving DecidableEq, Repr

/-- An error of the client, or a sum that leaves its machine type. -/
inductive ReadError where
  | realtime (error : RealtimeError)
  | overflow
deriving DecidableEq, Repr

/-! ## Scanning -/

/-- The opcodes a server may send. -/
def isServerOpcode (opcode : UInt8) : Bool := [0, 1, 2, 8, 9, 10].contains opcode

/-- The declared payload length and the position after it, once they are there.
A 64-bit length is a `usize`. -/
def scannedLength (bytes : Bytes) (code : UInt8) : Option (Nat × Nat) :=
  if code ≤ 125 then some (code.toNat, 2)
  else if code = 126 then (bytes.slice 2 2).map fun raw => (raw.toNatBe, 4)
  else (bytes.slice 2 8).map fun raw => (raw.toNatBe, 10)

/-- A fragmented or oversized control frame. -/
def isInvalidControl (first : UInt8) (length : Nat) : Bool :=
  8 ≤ first &&& 0x0f && (first &&& 0x80 == 0 || 125 < length)

/-- `server_frame_length`. -/
def serverFrameLength (bytes : Bytes) : Except ReadError (Option Nat) :=
  match bytes with
  | first :: second :: _ =>
    if first &&& 0x70 ≠ 0 then .error (.realtime .unsupportedRsvBits)
    else if isServerOpcode (first &&& 0x0f) = false then .error (.realtime .unsupportedOpcode)
    else if second &&& 0x80 ≠ 0 then .error (.realtime .maskedServerFrame)
    else
      match scannedLength bytes (second &&& 0x7f) with
      | none => .ok none
      | some (length, cursor) =>
        if isInvalidControl first length then .error (.realtime .invalidControlFrame)
        else if 2 ^ 64 ≤ cursor + length then .error .overflow
        else .ok (some (cursor + length))
  | _ => .ok none

theorem scannedLength_append {bytes : Bytes} {code : UInt8} {result : Nat × Nat}
    (h : scannedLength bytes code = some result) (more : Bytes) :
    scannedLength (bytes ++ more) code = some result := by
  unfold scannedLength at h ⊢
  split
  next hshort => rwa [if_pos hshort] at h
  next hshort =>
    rw [if_neg hshort] at h
    split
    next hmedium =>
      rw [if_pos hmedium] at h
      obtain ⟨raw, hraw, rfl⟩ := Option.map_eq_some_iff.mp h
      rw [Bytes.slice_append hraw]
      rfl
    next hmedium =>
      rw [if_neg hmedium] at h
      obtain ⟨raw, hraw, rfl⟩ := Option.map_eq_some_iff.mp h
      rw [Bytes.slice_append hraw]
      rfl

/-- The header ends where the scanner says, after ten bytes at most. -/
theorem scannedLength_cursor {bytes : Bytes} {code : UInt8} {length cursor : Nat}
    (h : scannedLength bytes code = some (length, cursor)) :
    2 ≤ cursor ∧ cursor ≤ 10 := by
  unfold scannedLength at h
  split at h
  · cases h
    decide
  · split at h
    · obtain ⟨raw, -, hraw⟩ := Option.map_eq_some_iff.mp h
      cases hraw
      decide
    · obtain ⟨raw, -, hraw⟩ := Option.map_eq_some_iff.mp h
      cases hraw
      decide

/-- Once the scanner has answered, bytes that follow change nothing. -/
theorem serverFrameLength_append {bytes : Bytes} (h : serverFrameLength bytes ≠ .ok none)
    (more : Bytes) : serverFrameLength (bytes ++ more) = serverFrameLength bytes := by
  match bytes with
  | [] => exact absurd rfl h
  | [_] => exact absurd rfl h
  | first :: second :: rest =>
    unfold serverFrameLength at h ⊢
    simp only [List.cons_append] at h ⊢
    by_cases hrsv : first &&& 0x70 = 0
    · by_cases hopcode : isServerOpcode (first &&& 0x0f) = false
      · simp only [hopcode, if_true]
      · by_cases hmask : second &&& 0x80 = 0
        · simp only [hrsv, hopcode, hmask, ne_eq, not_true_eq_false, if_false] at h ⊢
          cases hscan : scannedLength (first :: second :: rest) (second &&& 0x7f) with
          | none =>
            rw [hscan] at h
            exact absurd rfl h
          | some result =>
            have hmore := scannedLength_append hscan more
            simp only [List.cons_append] at hmore
            rw [hmore]
        · simp only [hmask, ne_eq, not_false_eq_true, if_true]
    · simp only [hrsv, ne_eq, not_false_eq_true, if_true]

/-! ## What the decoder makes of a header -/

/-- A header the scanner lets through. -/
structure Scanned (bytes : Bytes) (length cursor : Nat) : Prop where
  header : ∃ first second rest, bytes = first :: second :: rest ∧ first &&& 0x70 = 0 ∧
    isServerOpcode (first &&& 0x0f) = true ∧ second &&& 0x80 = 0 ∧
    scannedLength bytes (second &&& 0x7f) = some (length, cursor) ∧
    isInvalidControl first length = false

/-- What the scanner answers on a header that it lets through. -/
theorem Scanned.serverFrameLength {bytes : Bytes} {length cursor : Nat}
    (h : Scanned bytes length cursor) :
    serverFrameLength bytes =
      if 2 ^ 64 ≤ cursor + length then .error .overflow else .ok (some (cursor + length)) := by
  obtain ⟨first, second, rest, rfl, hrsv, hopcode, hmask, hscan, hcontrol⟩ := h
  unfold Realtime.serverFrameLength
  simp [hrsv, hopcode, hmask, hscan, hcontrol]

/-- The scanner names a length, or overflows, on such headers only. -/
theorem scanned_of_answer {bytes : Bytes}
    (h : serverFrameLength bytes = .error .overflow ∨ ∃ n, serverFrameLength bytes = .ok (some n)) :
    ∃ length cursor, Scanned bytes length cursor := by
  match bytes with
  | [] => rcases h with h | ⟨n, h⟩ <;> cases h
  | [_] => rcases h with h | ⟨n, h⟩ <;> cases h
  | first :: second :: rest =>
    unfold serverFrameLength at h
    simp only at h
    split at h
    · rcases h with h | ⟨n, h⟩ <;> cases h
    next hrsv =>
      split at h
      · rcases h with h | ⟨n, h⟩ <;> cases h
      next hopcode =>
        split at h
        · rcases h with h | ⟨n, h⟩ <;> cases h
        next hmask =>
          split at h
          · rcases h with h | ⟨n, h⟩ <;> cases h
          next length cursor hscan =>
            split at h
            · rcases h with h | ⟨n, h⟩ <;> cases h
            next hcontrol =>
              exact ⟨length, cursor, first, second, rest, rfl, Classical.not_not.mp hrsv,
                by simpa using hopcode, Classical.not_not.mp hmask, hscan, by simpa using hcontrol⟩

theorem fromU8_of_isServerOpcode {opcode : UInt8} (h : isServerOpcode opcode = true) :
    ∃ known, WebSocketOpcode.fromU8 opcode = .ok known := by
  simp only [isServerOpcode, List.contains_cons, Bool.or_eq_true, beq_iff_eq,
    List.contains_nil, Bool.false_eq_true, or_false] at h
  rcases h with rfl | rfl | rfl | rfl | rfl | rfl <;> exact ⟨_, rfl⟩

/-- The decoder reads the length that the scanner reads, or rejects it as too long. -/
theorem decodeLength_of_scannedLength {bytes : Bytes} {code : UInt8} {length cursor : Nat}
    (h : scannedLength bytes code = some (length, cursor)) :
    decodeLength bytes code =
      if length < 2 ^ 63 then .ok (length, cursor)
      else .error (.invalidWebSocketFrame "invalid 64-bit length") := by
  unfold scannedLength at h
  unfold decodeLength
  by_cases hshort : code ≤ 125
  · rw [if_pos hshort] at h ⊢
    cases h
    have hlt := code.toNat_lt
    rw [if_pos (by omega)]
  · rw [if_neg hshort] at h ⊢
    by_cases hmedium : code = 126
    · rw [if_pos hmedium] at h ⊢
      obtain ⟨raw, hraw, hresult⟩ := Option.map_eq_some_iff.mp h
      cases hresult
      have hlt := Bytes.toNatBe_lt raw
      have hlength : raw.length = 2 := Bytes.slice_length hraw
      rw [hlength] at hlt
      rw [hraw, if_pos (by omega)]
    · rw [if_neg hmedium] at h ⊢
      obtain ⟨raw, hraw, hresult⟩ := Option.map_eq_some_iff.mp h
      cases hresult
      rw [hraw]
      dsimp only
      by_cases hlt : raw.toNatBe < 2 ^ 63
      · rw [if_pos hlt, if_neg (by rw [Nat.div_eq_of_lt hlt]; exact fun h => h rfl)]
      · rw [if_neg hlt, if_pos (by omega)]

/-- What the decoder makes of a header that the scanner lets through. -/
theorem Scanned.decode {bytes : Bytes} {length cursor : Nat} (h : Scanned bytes length cursor) :
    if length ≤ maxWebsocketPayload then
      if cursor + length ≤ bytes.length then
        ∃ frame, ∀ more, WebSocketFrame.decode (bytes ++ more) = .ok (frame, cursor + length)
      else ∃ error, WebSocketFrame.decode bytes = .error error
    else ∃ error, ∀ more, WebSocketFrame.decode (bytes ++ more) = .error error := by
  obtain ⟨first, second, rest, rfl, hrsv, hopcode, hmask, hscan, hcontrol⟩ := h
  obtain ⟨known, hknown⟩ := fromU8_of_isServerOpcode hopcode
  have hcursor := (scannedLength_cursor hscan).2
  have hunmasked : (second &&& 0x80 != 0) = false := by simp [hmask]
  have hlength : ∀ more, decodeLength (first :: second :: (rest ++ more)) (second &&& 0x7f) = _ :=
    fun more => decodeLength_of_scannedLength (scannedLength_append hscan more)
  by_cases hlimit : length ≤ maxWebsocketPayload
  · have hmax : length ≤ 2 ^ 24 := hlimit
    rw [if_pos hlimit]
    -- the decoder gets as far as the payload
    have hdecode : ∀ more, WebSocketFrame.decode (first :: second :: rest ++ more) =
        (Bytes.slice (first :: second :: rest ++ more) cursor length).elim
          (.error (.invalidWebSocketFrame "payload truncated")) fun payload =>
            .ok ({ fin := first &&& 0x80 != 0, opcode := known, payload }, cursor + length) := by
      intro more
      have hend : decodeMask (first :: second :: (rest ++ more)) (second &&& 0x80 != 0) cursor =
          .ok (none, cursor) := by
        rw [hunmasked]
        rfl
      simp only [List.cons_append]
      rw [WebSocketFrame.decode, hknown, hlength, if_pos (by omega)]
      simp only [ok_bind, if_neg (Nat.not_lt_of_le hlimit), hend]
      rw [if_neg (by omega)]
      cases Bytes.slice (first :: second :: (rest ++ more)) cursor length <;> rfl
    split
    next hwhole =>
      obtain ⟨payload, hpayload⟩ : ∃ payload,
          Bytes.slice (first :: second :: rest) cursor length = some payload :=
        ⟨_, if_neg (by omega)⟩
      refine ⟨{ fin := first &&& 0x80 != 0, opcode := known, payload }, fun more => ?_⟩
      rw [hdecode, Bytes.slice_append hpayload, Option.elim_some]
    next hpart =>
      have hnone : Bytes.slice (first :: second :: rest) cursor length = none := if_pos (by omega)
      have htruncated := hdecode []
      rw [List.append_nil, hnone] at htruncated
      exact ⟨_, htruncated⟩
  · rw [if_neg hlimit]
    by_cases hhuge : length < 2 ^ 63
    · refine ⟨.invalidWebSocketFrame "payload limit exceeded", fun more => ?_⟩
      simp only [List.cons_append]
      rw [WebSocketFrame.decode, hknown, hlength, if_pos hhuge]
      simp only [ok_bind, if_pos (Nat.lt_of_not_le hlimit)]
      rfl
    · refine ⟨.invalidWebSocketFrame "invalid 64-bit length", fun more => ?_⟩
      simp only [List.cons_append]
      rw [WebSocketFrame.decode, hknown, hlength, if_neg hhuge]
      rfl

/-- While the scanner waits for the header, the decoder rejects the bytes. -/
theorem decode_of_pending {bytes : Bytes} (h : serverFrameLength bytes = .ok none) :
    ∃ error, WebSocketFrame.decode bytes = .error error := by
  match bytes with
  | [] => exact ⟨_, rfl⟩
  | [_] => exact ⟨_, rfl⟩
  | first :: second :: rest =>
    unfold serverFrameLength at h
    simp only at h
    split at h
    · cases h
    · split at h
      · cases h
      next hopcode =>
        split at h
        · cases h
        · split at h
          next hscan =>
            obtain ⟨known, hknown⟩ := fromU8_of_isServerOpcode
              (show isServerOpcode (first &&& 0x0f) = true by simpa using hopcode)
            have hlength : decodeLength (first :: second :: rest) (second &&& 0x7f) =
                .error (.invalidWebSocketFrame "missing extended length") := by
              unfold scannedLength at hscan
              unfold decodeLength
              by_cases hshort : second &&& 0x7f ≤ 125
              · rw [if_pos hshort] at hscan
                cases hscan
              · rw [if_neg hshort] at hscan ⊢
                by_cases hmedium : second &&& 0x7f = 126
                · rw [if_pos hmedium] at hscan ⊢
                  rw [Option.map_eq_none_iff.mp hscan]
                · rw [if_neg hmedium] at hscan ⊢
                  rw [Option.map_eq_none_iff.mp hscan]
            refine ⟨.invalidWebSocketFrame "missing extended length", ?_⟩
            rw [WebSocketFrame.decode, hknown, hlength]
            rfl
          next =>
            split at h
            · cases h
            · split at h <;> cases h

/-- The header of a data frame that declares a length within ten of `2 ^ 64`. -/
def HugeLength (bytes : Bytes) : Prop :=
  ∃ first rest, bytes = first :: 127 :: rest ∧ first &&& 0x70 = 0 ∧ first &&& 0x0f ≤ 2 ∧
    8 ≤ rest.length ∧ 2 ^ 64 ≤ 10 + Bytes.toNatBe (rest.take 8)

/-- A second byte for a 64-bit length without a mask. -/
theorem eq_127_of_long {second : UInt8} (hmask : second &&& 0x80 = 0)
    (hshort : ¬ second &&& 0x7f ≤ 125) (hmedium : second &&& 0x7f ≠ 126) : second = 127 := by
  have h : ∀ n < 256, UInt8.ofNat n &&& 0x80 = 0 → ¬ UInt8.ofNat n &&& 0x7f ≤ 125 →
      UInt8.ofNat n &&& 0x7f ≠ 126 → UInt8.ofNat n = 127 := by decide +kernel
  have hsecond := h second.toNat second.toNat_lt
  rw [UInt8.ofNat_toNat] at hsecond
  exact hsecond hmask hshort hmedium

theorem data_of_long {first : UInt8} {length : Nat}
    (hopcode : isServerOpcode (first &&& 0x0f) = true)
    (hcontrol : isInvalidControl first length = false) (hlong : 125 < length) :
    first &&& 0x0f ≤ 2 := by
  unfold isInvalidControl at hcontrol
  simp only [hlong, decide_true, Bool.or_true, Bool.and_true, decide_eq_false_iff_not] at hcontrol
  generalize first &&& 0x0f = opcode at *
  simp only [isServerOpcode, List.contains_cons, Bool.or_eq_true, beq_iff_eq,
    List.contains_nil, Bool.false_eq_true, or_false] at hopcode
  rcases hopcode with rfl | rfl | rfl | rfl | rfl | rfl <;>
    first
    | decide
    | exact absurd (by decide) hcontrol

/-- The scanner overflows on the headers of huge data frames and no others. -/
theorem serverFrameLength_overflow_iff (bytes : Bytes) :
    serverFrameLength bytes = .error .overflow ↔ HugeLength bytes := by
  constructor
  · intro h
    obtain ⟨length, cursor, hscanned⟩ := scanned_of_answer (.inl h)
    have hanswer := hscanned.serverFrameLength
    rw [h] at hanswer
    split at hanswer
    next hover =>
      obtain ⟨first, second, rest, rfl, hrsv, hopcode, hmask, hscan, hcontrol⟩ := hscanned
      have hcursor := (scannedLength_cursor hscan).2
      unfold scannedLength at hscan
      split at hscan
      · cases hscan
        have hlt := (second &&& 0x7f).toNat_lt
        omega
      next hshort =>
        split at hscan
        · obtain ⟨raw, hraw, hresult⟩ := Option.map_eq_some_iff.mp hscan
          cases hresult
          have hlt := Bytes.toNatBe_lt raw
          rw [Bytes.slice_length hraw] at hlt
          omega
        next hmedium =>
          obtain ⟨raw, hraw, hresult⟩ := Option.map_eq_some_iff.mp hscan
          cases hresult
          obtain rfl := eq_127_of_long hmask hshort hmedium
          have hle := Bytes.slice_length_le hraw
          have hraw' : raw = rest.take 8 := by
            unfold Bytes.slice at hraw
            rw [if_neg (by omega)] at hraw
            exact (Option.some.inj hraw).symm
          simp only [List.length_cons] at hle
          exact ⟨first, rest, rfl, hrsv, data_of_long hopcode hcontrol (by omega), by omega,
            by rw [← hraw']; omega⟩
    next => cases hanswer
  · rintro ⟨first, rest, rfl, hrsv, hdata, hlength, hover⟩
    have hslice : Bytes.slice (first :: 127 :: rest) 2 8 = some (rest.take 8) :=
      if_neg (by simp only [List.length_cons]; omega)
    have hopcode : isServerOpcode (first &&& 0x0f) = true := by
      generalize first &&& 0x0f = opcode at hdata
      have hall : ∀ n < 3, isServerOpcode (UInt8.ofNat n) = true := by decide
      have h := hall opcode.toNat (by
        have hle := UInt8.le_iff_toNat_le.mp hdata
        change opcode.toNat ≤ 2 at hle
        omega)
      rwa [UInt8.ofNat_toNat] at h
    have hcontrol : isInvalidControl first (Bytes.toNatBe (rest.take 8)) = false := by
      have hnot : ¬ 8 ≤ first &&& 0x0f := by
        intro h
        exact absurd (UInt8.le_trans h hdata) (by decide)
      simp [isInvalidControl, hnot]
    have hscanned : Scanned (first :: 127 :: rest) (Bytes.toNatBe (rest.take 8)) 10 := by
      refine ⟨first, 127, rest, rfl, hrsv, hopcode, by decide, ?_, hcontrol⟩
      unfold scannedLength
      rw [if_neg (by decide), if_neg (by decide), hslice]
      rfl
    rw [hscanned.serverFrameLength, if_pos hover]

/-! ## Reading -/

/-- `read_frame`, with the buffer and the reads that are to come: the frame, the
buffer after it and the reads that are left. -/
def readFrame (buffer : Bytes) (chunks : List Bytes) :
    Except ReadError (WebSocketFrame × Bytes × List Bytes) :=
  match serverFrameLength buffer with
  | .error error => .error error
  | .ok expected =>
    if expected.any (· ≤ buffer.length) then
      match WebSocketFrame.decode buffer with
      | .ok (frame, consumed) => .ok (frame, buffer.drop consumed, chunks)
      | .error error => .error (.realtime (.frame error))
    else
      match chunks with
      | [] => .error (.realtime .connectionClosed)
      | chunk :: chunks =>
        if chunk = [] then .error (.realtime .connectionClosed)
        else readFrame (buffer ++ chunk) chunks
termination_by structural chunks

/-- The bytes of a buffer and of the reads to come; an empty read ends the stream. -/
def streamBytes (buffer : Bytes) (chunks : List Bytes) : Bytes :=
  buffer ++ (chunks.takeWhile (· ≠ [])).flatten

/-- A frame with the bytes that are left after it. -/
def remaining (p : WebSocketFrame × Bytes × List Bytes) : WebSocketFrame × Bytes :=
  (p.1, streamBytes p.2.1 p.2.2)

/-- A buffer without a whole frame. -/
theorem readFrame_waits {buffer : Bytes} (chunks : List Bytes)
    (h : serverFrameLength buffer = .ok none ∨
      ∃ n, serverFrameLength buffer = .ok (some n) ∧ buffer.length < n) :
    readFrame buffer chunks =
      match chunks with
      | [] => .error (.realtime .connectionClosed)
      | chunk :: chunks =>
        if chunk = [] then .error (.realtime .connectionClosed)
        else readFrame (buffer ++ chunk) chunks := by
  rw [readFrame.eq_def]
  rcases h with h | ⟨n, h, hlt⟩
  · rw [h]
    rfl
  · have hnot : ¬ n ≤ buffer.length := Nat.not_le_of_lt hlt
    simp only [h, Option.any_some, hnot, decide_false, Bool.false_eq_true, if_false]

/-- A buffer with a whole frame gives the same when bytes follow. -/
theorem readFrame_whole {buffer : Bytes} {n : Nat}
    (h : serverFrameLength buffer = .ok (some n)) (hle : n ≤ buffer.length) :
    (∃ error, ∀ more chunks, readFrame (buffer ++ more) chunks = .error error) ∨
      ∃ frame, ∀ more chunks, readFrame (buffer ++ more) chunks =
        .ok (frame, buffer.drop n ++ more, chunks) := by
  have hanswer : ∀ more, serverFrameLength (buffer ++ more) = .ok (some n) := by
    intro more
    rw [serverFrameLength_append (by rw [h]; exact fun h => by cases h), h]
  have hroom : ∀ more, n ≤ (buffer ++ more).length := by
    intro more
    rw [List.length_append]
    omega
  obtain ⟨length, cursor, hscanned⟩ := scanned_of_answer (.inr ⟨n, h⟩)
  have heq := hscanned.serverFrameLength
  rw [h] at heq
  split at heq
  · cases heq
  · cases heq
    have hdecode := hscanned.decode
    by_cases hlimit : length ≤ maxWebsocketPayload
    · rw [if_pos hlimit, if_pos hle] at hdecode
      obtain ⟨frame, hframe⟩ := hdecode
      refine .inr ⟨frame, fun more chunks => ?_⟩
      rw [readFrame.eq_def, hanswer]
      simp only [Option.any_some, hroom more, decide_true, if_true, hframe]
      rw [List.drop_append_of_le_length hle]
    · rw [if_neg hlimit] at hdecode
      obtain ⟨error, herror⟩ := hdecode
      refine .inl ⟨.realtime (.frame error), fun more chunks => ?_⟩
      rw [readFrame.eq_def, hanswer]
      simp only [Option.any_some, hroom more, decide_true, if_true, herror]

/-- What is read does not depend on how the stream is cut into reads. -/
theorem readFrame_streamBytes (buffer : Bytes) (chunks : List Bytes) :
    (readFrame buffer chunks).map remaining =
      (readFrame (streamBytes buffer chunks) []).map remaining := by
  induction chunks generalizing buffer with
  | nil => rw [streamBytes, List.takeWhile_nil, List.flatten_nil, List.append_nil]
  | cons chunk chunks ih =>
    have hwaits : serverFrameLength buffer = .ok none ∨
        (∃ n, serverFrameLength buffer = .ok (some n) ∧ buffer.length < n) →
        (readFrame buffer (chunk :: chunks)).map remaining =
          (readFrame (streamBytes buffer (chunk :: chunks)) []).map remaining := by
      intro h
      rw [readFrame_waits _ h]
      by_cases hchunk : chunk = []
      · -- the stream ends here
        have hbytes : streamBytes buffer (chunk :: chunks) = buffer := by
          simp [streamBytes, hchunk]
        rw [hbytes, readFrame_waits _ h]
        simp only [hchunk, if_true]
      · have hbytes : streamBytes buffer (chunk :: chunks) =
            streamBytes (buffer ++ chunk) chunks := by
          simp [streamBytes, hchunk]
        rw [hbytes, ← ih]
        simp only [hchunk, if_false]
    match h : serverFrameLength buffer with
    | .error error =>
      have hmore : serverFrameLength (streamBytes buffer (chunk :: chunks)) = .error error := by
        rw [streamBytes, serverFrameLength_append (by rw [h]; exact fun h => by cases h), h]
      rw [readFrame.eq_def, h, readFrame.eq_def, hmore]
    | .ok none => exact hwaits (.inl h)
    | .ok (some n) =>
      by_cases hle : n ≤ buffer.length
      · rcases readFrame_whole h hle with ⟨error, herror⟩ | ⟨frame, hframe⟩
        · have hnow := herror [] (chunk :: chunks)
          rw [List.append_nil] at hnow
          rw [hnow, streamBytes, herror]
        · have hnow := hframe [] (chunk :: chunks)
          rw [List.append_nil, List.append_nil] at hnow
          rw [hnow, streamBytes, hframe]
          simp only [Except.map, remaining, streamBytes, List.takeWhile_nil, List.flatten_nil,
            List.append_nil]
      · exact hwaits (.inr ⟨n, h, Nat.lt_of_not_le hle⟩)

/-! ## Agreement -/

/-- The payload length that a header declares. -/
def declaredLength (bytes : Bytes) : Option Nat :=
  match bytes with
  | _ :: second :: _ => (scannedLength bytes (second &&& 0x7f)).map Prod.fst
  | _ => none

/-- The scanner and the decoder agree on some bytes. -/
structure Agrees (bytes : Bytes) : Prop where
  inRange : serverFrameLength bytes ≠ .error .overflow
  /-- A frame that is all there is decoded, unless its payload is over the limit. -/
  complete : ∀ n, serverFrameLength bytes = .ok (some n) → n ≤ bytes.length →
    (∃ frame, WebSocketFrame.decode bytes = .ok (frame, n)) ∨
      (∃ error, WebSocketFrame.decode bytes = .error error) ∧
        ∃ length, declaredLength bytes = some length ∧ maxWebsocketPayload < length
  /-- A frame that is not all there is rejected. -/
  incomplete : ∀ n, serverFrameLength bytes = .ok (some n) → bytes.length < n →
    ∃ error, WebSocketFrame.decode bytes = .error error
  pending : serverFrameLength bytes = .ok none →
    ∃ error, WebSocketFrame.decode bytes = .error error
  /-- An answer is not changed by the bytes that follow. -/
  stable : serverFrameLength bytes ≠ .ok none →
    ∀ more, serverFrameLength (bytes ++ more) = serverFrameLength bytes
  /-- A frame is read alike however the bytes are cut into a buffer and reads. -/
  cut : ∀ buffer chunks, streamBytes buffer chunks = bytes →
    (readFrame buffer chunks).map remaining = (readFrame bytes []).map remaining

/-- The scanner and the decoder agree on all bytes but the headers of huge data frames. -/
theorem scanner_agrees_iff (bytes : Bytes) : Agrees bytes ↔ ¬ HugeLength bytes := by
  constructor
  · exact fun h hhuge => h.inRange ((serverFrameLength_overflow_iff bytes).mpr hhuge)
  · intro h
    have hinRange : serverFrameLength bytes ≠ .error .overflow :=
      fun hover => h ((serverFrameLength_overflow_iff bytes).mp hover)
    -- the header behind an answer
    have hanswer : ∀ n, serverFrameLength bytes = .ok (some n) →
        ∃ length cursor, Scanned bytes length cursor ∧ n = cursor + length := by
      intro n hn
      obtain ⟨length, cursor, hscanned⟩ := scanned_of_answer (.inr ⟨n, hn⟩)
      have heq := hscanned.serverFrameLength
      rw [hn] at heq
      split at heq
      · cases heq
      · cases heq
        exact ⟨length, cursor, hscanned, rfl⟩
    refine ⟨hinRange, fun n hn hle => ?_, fun n hn hlt => ?_, decode_of_pending, fun hsome more =>
      serverFrameLength_append hsome more, ?_⟩
    · obtain ⟨length, cursor, hscanned, rfl⟩ := hanswer n hn
      have hdecode := hscanned.decode
      by_cases hlimit : length ≤ maxWebsocketPayload
      · rw [if_pos hlimit, if_pos hle] at hdecode
        obtain ⟨frame, hframe⟩ := hdecode
        have hwhole := hframe []
        rw [List.append_nil] at hwhole
        exact .inl ⟨frame, hwhole⟩
      · rw [if_neg hlimit] at hdecode
        obtain ⟨error, herror⟩ := hdecode
        have hwhole := herror []
        rw [List.append_nil] at hwhole
        refine .inr ⟨⟨error, hwhole⟩, length, ?_, Nat.lt_of_not_le hlimit⟩
        obtain ⟨first, second, rest, rfl, -, -, -, hscan, -⟩ := hscanned
        simp only [declaredLength, hscan, Option.map_some]
    · obtain ⟨length, cursor, hscanned, rfl⟩ := hanswer n hn
      have hdecode := hscanned.decode
      by_cases hlimit : length ≤ maxWebsocketPayload
      · rw [if_pos hlimit, if_neg (Nat.not_le_of_lt hlt)] at hdecode
        exact hdecode
      · rw [if_neg hlimit] at hdecode
        obtain ⟨error, herror⟩ := hdecode
        have hwhole := herror []
        rw [List.append_nil] at hwhole
        exact ⟨error, hwhole⟩
    · rintro buffer chunks rfl
      exact readFrame_streamBytes buffer chunks

/-- A binary frame whose length and header together are `2 ^ 64`. -/
def hugeHeader : Bytes := [0x82, 127, 0xff, 0xff, 0xff, 0xff, 0xff, 0xff, 0xff, 0xf6]

/-- The scanner overflows on a header that the decoder rejects. -/
theorem scanner_disagrees : ¬ ∀ bytes, Agrees bytes :=
  fun h => (h hugeHeader).inRange ((serverFrameLength_overflow_iff hugeHeader).mpr
    ⟨0x82, _, rfl, by decide, by decide, by decide, by decide⟩)

end Omoikane.Realtime
