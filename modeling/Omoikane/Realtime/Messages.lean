import Omoikane.Base.Utf8
import Omoikane.Cdp.Transport
import Omoikane.Realtime.ServerFrames

/-!
# Messages of the realtime client

`read_message` reads frames one after another and keeps the opcode and the
payload of the message so far.  Frames that leave a message open only extend them
(`readLoop_open`), so what ends the loop is the first frame after them that ends
a message, closes the connection, or continues a message that did not begin
(`readLoop_cases`).

A text or binary frame inside a message replaces the opcode and is appended like
a continuation.  Messages follow the fragmentation rules exactly when no two
messages are merged that way (`messages_fragmented_iff`).

The frames of a stream are found whatever its reads return (`gives_encode`), and
the messages that a server sends are received in order (`messages_delivered`).
-/

/-!
## Client frames of the realtime client

`writeClientFrame` builds the bytes of a masked frame itself.  They are those of
`WebSocketFrame.frameBytes` under the random mask, so the decoder of the CDP
endpoint reads them as it reads `encode`.
-/

namespace Omoikane.Realtime

open Base Cdp Cdp.WebSocketFrame

/-- `write_client_frame`: the bytes it writes, for the mask it has drawn. -/
def writeClientFrame (mask : Vector UInt8 4) (frame : WebSocketFrame) : Bytes :=
  let payloadLen := frame.payload.length
  let bytes := [(if frame.fin then 0x80 else 0) ||| frame.opcode.asU8]
  let bytes :=
    if payloadLen ≤ 125 then bytes ++ [0x80 ||| UInt8.ofNat payloadLen]
    else if payloadLen ≤ 65535 then bytes ++ [0x80 ||| 126] ++ Bytes.ofNatBe 2 payloadLen
    else bytes ++ [0x80 ||| 127] ++ Bytes.ofNatBe 8 payloadLen
  let bytes := bytes ++ mask.toList
  bytes ++ applyMask mask frame.payload

theorem writeClientFrame_eq (mask : Vector UInt8 4) (frame : WebSocketFrame) :
    writeClientFrame mask frame = frameBytes (some mask) frame := by
  unfold writeClientFrame frameBytes lengthBytes maskBit body applyMask firstByte
  simp only [Option.isSome_some, if_true]
  split
  · simp
  · split <;> simp

/-- Every frame within the payload limit is read back from the bytes of `encode`
and of `writeClientFrame`, and from no strict prefix of them. -/
theorem frame_codec (frame : WebSocketFrame)
    (h : frame.payload.length ≤ maxWebsocketPayload) :
    (∀ masked, Framed (frame.encode masked) frame masked) ∧
      ∀ mask, Framed (writeClientFrame mask frame) frame true := by
  constructor
  · intro masked
    rw [encode_eq]
    cases masked with
    | false => exact framed_frameBytes none frame h
    | true => exact framed_frameBytes (some encodeMask) frame h
  · intro mask
    rw [writeClientFrame_eq]
    exact framed_frameBytes (some mask) frame h

/-- A short ping. -/
theorem frame_codec_ping :
    let frame : WebSocketFrame := { fin := true, opcode := .ping, payload := [0x3f] }
    Framed (frame.encode true) frame true :=
  (frame_codec _ (by decide)).1 true

end Omoikane.Realtime

namespace Omoikane.Realtime

open Base Cdp

/-- A message of `read_message`. -/
inductive WebSocketMessage where
  | text (text : Text)
  | binary (payload : Bytes)
  | close (code : Nat) (reason : Text)
deriving DecidableEq, Repr

/-! ## Reading -/

/-- What a call of `read_message` gives: its result, the frames it writes and the
frames it leaves. -/
structure Reading where
  result : Except ReadError WebSocketMessage
  written : List WebSocketFrame
  rest : List WebSocketFrame

/-- The answer to a ping. -/
def pongFrame (ping : WebSocketFrame) : WebSocketFrame :=
  { fin := true, opcode := .pong, payload := ping.payload }

/-- The message of a close frame. -/
def closeMessage (frame : WebSocketFrame) : WebSocketMessage :=
  match frame.payload with
  | a :: b :: reason => .close (Bytes.toNatBe [a, b]) (Utf8.decodeLossy reason)
  | _ => .close 1005 []

/-- The message of an opcode and a payload. -/
def finishMessage (opcode : Option WebSocketOpcode) (payload : Bytes) :
    Except ReadError WebSocketMessage :=
  match opcode with
  | some .text =>
    match Utf8.decode payload with
    | some text => .ok (.text text)
    | none => .error (.realtime .invalidTextFrame)
  | some .binary => .ok (.binary payload)
  | _ => .error (.realtime .missingMessageOpcode)

/-- The loop of `read_message` on the frames that `read_frame` gives, up to an error. -/
def readLoop (ending : ReadError) (opcode : Option WebSocketOpcode) (payload : Bytes) :
    List WebSocketFrame → Reading
  | [] => { result := .error ending, written := [], rest := [] }
  | frame :: frames =>
    match frame.opcode with
    | .ping =>
      let more := readLoop ending opcode payload frames
      { more with written := pongFrame frame :: more.written }
    | .pong => readLoop ending opcode payload frames
    | .close => { result := .ok (closeMessage frame), written := [], rest := frames }
    | .text | .binary =>
      if frame.fin then
        { result := finishMessage (some frame.opcode) (payload ++ frame.payload)
          written := []
          rest := frames }
      else readLoop ending (some frame.opcode) (payload ++ frame.payload) frames
    | .continuation =>
      if opcode.isNone then
        { result := .error (.realtime .unexpectedContinuation), written := [], rest := frames }
      else if frame.fin then
        { result := finishMessage opcode (payload ++ frame.payload)
          written := []
          rest := frames }
      else readLoop ending opcode (payload ++ frame.payload) frames

/-- `read_message`. -/
def readMessage (ending : ReadError) (frames : List WebSocketFrame) : Reading :=
  readLoop ending none [] frames

/-! ## Frames of a message -/

/-- A ping or a pong. -/
def isPingOrPong (frame : WebSocketFrame) : Bool :=
  frame.opcode == .ping || frame.opcode == .pong

/-- A text or binary frame. -/
def startsMessage (frame : WebSocketFrame) : Bool :=
  frame.opcode == .text || frame.opcode == .binary

/-- The frames without pings and pongs. -/
def withoutPings (frames : List WebSocketFrame) : List WebSocketFrame :=
  frames.filter fun frame => !isPingOrPong frame

/-- The answers to the pings among some frames, in order. -/
def pongsOf (frames : List WebSocketFrame) : List WebSocketFrame :=
  (frames.filter fun frame => frame.opcode == .ping).map pongFrame

/-- The payloads of some frames, one after another. -/
def payloadOf (frames : List WebSocketFrame) : Bytes := frames.flatMap WebSocketFrame.payload

/-- The opcode of the last text or binary frame. -/
def kindOf (frames : List WebSocketFrame) : Option WebSocketOpcode :=
  ((frames.filter startsMessage).map WebSocketFrame.opcode).getLast?

/-- Frames that leave a message open: none of them is the last of a message, and
the first one starts a message. -/
structure Open (frames : List WebSocketFrame) : Prop where
  fin : ∀ frame ∈ frames, frame.fin = false
  opcode : ∀ frame ∈ frames, startsMessage frame ∨ frame.opcode = .continuation
  starts : ∀ first rest, frames = first :: rest → startsMessage first

/-- A frame that ends the message after open frames. -/
structure Ends (frames : List WebSocketFrame) (last : WebSocketFrame) : Prop where
  fin : last.fin = true
  opcode : startsMessage last ∨ last.opcode = .continuation ∧ frames ≠ []

@[simp] theorem payloadOf_append (frames more : List WebSocketFrame) :
    payloadOf (frames ++ more) = payloadOf frames ++ payloadOf more := List.flatMap_append

@[simp] theorem payloadOf_singleton (frame : WebSocketFrame) : payloadOf [frame] = frame.payload := by
  simp [payloadOf]

theorem kindOf_append_starts (frames : List WebSocketFrame) {frame : WebSocketFrame}
    (h : startsMessage frame) : kindOf (frames ++ [frame]) = some frame.opcode := by
  simp [kindOf, h]

theorem kindOf_append_continuation (frames : List WebSocketFrame) {frame : WebSocketFrame}
    (h : frame.opcode = .continuation) : kindOf (frames ++ [frame]) = kindOf frames := by
  have hnot : startsMessage frame = false := by rw [startsMessage, h]; rfl
  simp [kindOf, hnot]

/-- Open frames have a kind unless there are none. -/
theorem Open.kindOf_isNone {frames : List WebSocketFrame} (h : Open frames) :
    (kindOf frames).isNone = true ↔ frames = [] := by
  match frames with
  | [] => exact ⟨fun _ => rfl, fun _ => rfl⟩
  | first :: rest =>
    have hfirst := h.starts first rest rfl
    refine ⟨fun hnone => ?_, fun hnil => by cases hnil⟩
    simp [kindOf, hfirst] at hnone

theorem Open.nil : Open [] :=
  ⟨fun _ h => (by cases h), fun _ h => (by cases h), fun _ _ h => (by cases h)⟩

/-- One more frame that does not end the message. -/
theorem Open.append {frames : List WebSocketFrame} (h : Open frames) {frame : WebSocketFrame}
    (hfin : frame.fin = false)
    (hopcode : startsMessage frame ∨ frame.opcode = .continuation ∧ frames ≠ []) :
    Open (frames ++ [frame]) := by
  refine ⟨fun other ho => ?_, fun other ho => ?_, fun first rest heq => ?_⟩
  · rcases List.mem_append.mp ho with ho | ho
    · exact h.fin other ho
    · rw [List.mem_singleton.mp ho]
      exact hfin
  · rcases List.mem_append.mp ho with ho | ho
    · exact h.opcode other ho
    · rw [List.mem_singleton.mp ho]
      exact hopcode.imp_right And.left
  · match frames, h with
    | [], _ =>
      cases heq
      exact hopcode.resolve_right fun hc => hc.2 rfl
    | head :: tail, h =>
      cases heq
      exact h.starts _ _ rfl

theorem Open.left {frames more : List WebSocketFrame} (h : Open (frames ++ more)) :
    Open frames := by
  refine ⟨fun frame hf => h.fin frame (List.mem_append_left _ hf),
    fun frame hf => h.opcode frame (List.mem_append_left _ hf), fun first rest heq => ?_⟩
  subst heq
  exact h.starts first (rest ++ more) rfl

/-! ## The loop -/

theorem withoutPings_cons_data {frame : WebSocketFrame} (frames : List WebSocketFrame)
    (h : isPingOrPong frame = false) :
    withoutPings (frame :: frames) = frame :: withoutPings frames := by
  simp [withoutPings, h]

theorem isPingOrPong_of_open {frame : WebSocketFrame}
    (h : startsMessage frame ∨ frame.opcode = .continuation) : isPingOrPong frame = false := by
  unfold startsMessage at h
  unfold isPingOrPong
  cases hopcode : frame.opcode <;> simp [hopcode] at h ⊢

/-- One frame that leaves the message open. -/
theorem readLoop_frame (ending : ReadError) {past : List WebSocketFrame} (hpast : Open past)
    {frame : WebSocketFrame} (hopen : Open (past ++ [frame])) (frames : List WebSocketFrame) :
    readLoop ending (kindOf past) (payloadOf past) (frame :: frames) =
      readLoop ending (kindOf (past ++ [frame])) (payloadOf (past ++ [frame])) frames := by
  have hfin : frame.fin = false := hopen.fin frame (by simp)
  rcases hopen.opcode frame (by simp) with hstarts | hcontinues
  · rw [kindOf_append_starts past hstarts, payloadOf_append, payloadOf_singleton, readLoop]
    unfold startsMessage at hstarts
    cases hopcode : frame.opcode <;> simp [hopcode, hfin] at hstarts ⊢
  · have hne : past ≠ [] := by
      rintro rfl
      have hstarts := hopen.starts frame [] rfl
      rw [startsMessage, hcontinues] at hstarts
      cases hstarts
    have hsome : (kindOf past).isNone = false := by
      rw [Bool.eq_false_iff]
      exact fun h => hne (hpast.kindOf_isNone.mp h)
    rw [kindOf_append_continuation past hcontinues, payloadOf_append, payloadOf_singleton, readLoop]
    simp [hcontinues, hsome, hfin]

/-- Frames that leave the message open are passed over; pings among them are answered. -/
theorem readLoop_open (ending : ReadError) (frames used past : List WebSocketFrame)
    (h : Open (past ++ withoutPings used)) :
    readLoop ending (kindOf past) (payloadOf past) (used ++ frames) =
      let more := readLoop ending (kindOf (past ++ withoutPings used))
        (payloadOf (past ++ withoutPings used)) frames
      { more with written := pongsOf used ++ more.written } := by
  induction used generalizing past with
  | nil => simp [withoutPings, pongsOf]
  | cons frame used ih =>
    by_cases hcontrol : isPingOrPong frame = true
    · have hwithout : withoutPings (frame :: used) = withoutPings used := by
        simp [withoutPings, hcontrol]
      rw [hwithout] at h ⊢
      have hrest := ih past h
      unfold isPingOrPong at hcontrol
      cases hopcode : frame.opcode <;> simp [hopcode] at hcontrol
      · rw [List.cons_append, readLoop, hopcode]
        simp only [hrest]
        simp [pongsOf, hopcode]
      · rw [List.cons_append, readLoop, hopcode]
        simp only [hrest]
        simp [pongsOf, hopcode]
    · have hdata : isPingOrPong frame = false := by simpa using hcontrol
      have hwithout : past ++ withoutPings (frame :: used) =
          (past ++ [frame]) ++ withoutPings used := by
        rw [withoutPings_cons_data used hdata, List.append_assoc, List.singleton_append]
      have hpongs : pongsOf (frame :: used) = pongsOf used := by
        unfold isPingOrPong at hdata
        simp only [Bool.or_eq_false_iff] at hdata
        simp [pongsOf, hdata.1]
      rw [hwithout] at h ⊢
      rw [List.cons_append, readLoop_frame ending h.left.left h.left, ih _ h, hpongs]

/-- What ends the loop: the last frame of a message, a close frame, a continuation
before any message, or the end of the frames. -/
inductive LoopEnd (past frames used : List WebSocketFrame) : Prop where
  | ends (last : WebSocketFrame) (rest : List WebSocketFrame)
      (hframes : frames = used ++ last :: rest) (hends : Ends (past ++ withoutPings used) last)
  | close (frame : WebSocketFrame) (rest : List WebSocketFrame)
      (hframes : frames = used ++ frame :: rest) (hclose : frame.opcode = .close)
  | unexpected (frame : WebSocketFrame) (rest : List WebSocketFrame)
      (hframes : frames = used ++ frame :: rest) (hopcode : frame.opcode = .continuation)
      (hnone : past ++ withoutPings used = [])
  | exhausted (hframes : frames = used)

/-- After open frames the loop ends in one of these ways. -/
theorem loop_cases (frames past : List WebSocketFrame) (hpast : Open past) :
    ∃ used, Open (past ++ withoutPings used) ∧ LoopEnd past frames used := by
  induction frames generalizing past with
  | nil => exact ⟨[], by simpa [withoutPings] using hpast, .exhausted rfl⟩
  | cons frame frames ih =>
    have hnow : Open (past ++ withoutPings []) := by simpa [withoutPings] using hpast
    by_cases hcontrol : isPingOrPong frame = true
    · have hwithout : ∀ used, withoutPings (frame :: used) = withoutPings used := by
        simp [withoutPings, hcontrol]
      obtain ⟨used, hopen, hend⟩ := ih past hpast
      refine ⟨frame :: used, by rwa [hwithout], ?_⟩
      cases hend with
      | ends last rest hframes hends =>
        exact .ends last rest (by rw [hframes]; rfl) (by rwa [hwithout])
      | close last rest hframes hclose => exact .close last rest (by rw [hframes]; rfl) hclose
      | unexpected last rest hframes hopcode hnone =>
        exact .unexpected last rest (by rw [hframes]; rfl) hopcode (by rwa [hwithout])
      | exhausted hframes => exact .exhausted (by rw [hframes])
    · have hdata : isPingOrPong frame = false := by simpa using hcontrol
      by_cases hclose : frame.opcode = .close
      · exact ⟨[], hnow, .close frame frames rfl hclose⟩
      · by_cases hnone : frame.opcode = .continuation ∧ past = []
        · exact ⟨[], hnow, .unexpected frame frames rfl hnone.1 (by simp [withoutPings, hnone.2])⟩
        · have hopcode : startsMessage frame ∨ frame.opcode = .continuation ∧ past ≠ [] := by
            unfold isPingOrPong at hdata
            unfold startsMessage
            cases hop : frame.opcode <;> simp [hop] at hdata hclose hnone ⊢
            exact hnone
          by_cases hfin : frame.fin = true
          · exact ⟨[], hnow, .ends frame frames rfl
              ⟨hfin, by simpa [withoutPings] using hopcode⟩⟩
          · obtain ⟨used, hopen, hend⟩ := ih (past ++ [frame])
              (hpast.append (by simpa using hfin) hopcode)
            have hwithout : past ++ withoutPings (frame :: used) =
                past ++ [frame] ++ withoutPings used := by
              rw [withoutPings_cons_data used hdata, List.append_assoc, List.singleton_append]
            refine ⟨frame :: used, by rwa [hwithout], ?_⟩
            cases hend with
            | ends last rest hframes hends =>
              exact .ends last rest (by rw [hframes]; rfl) (by rwa [hwithout])
            | close last rest hframes hclose =>
              exact .close last rest (by rw [hframes]; rfl) hclose
            | unexpected last rest hframes hopcode hnone =>
              exact .unexpected last rest (by rw [hframes]; rfl) hopcode (by rwa [hwithout])
            | exhausted hframes => exact .exhausted (by rw [hframes])

/-! ## What a call gives -/

/-- The last frame of a message ends the call. -/
theorem readMessage_ends (ending : ReadError) {used : List WebSocketFrame} {last : WebSocketFrame}
    (rest : List WebSocketFrame) (hopen : Open (withoutPings used))
    (hends : Ends (withoutPings used) last) :
    readMessage ending (used ++ last :: rest) = {
      result := finishMessage (kindOf (withoutPings used ++ [last]))
        (payloadOf (withoutPings used ++ [last]))
      written := pongsOf used
      rest } := by
  have hloop := readLoop_open ending (last :: rest) used [] hopen
  unfold readMessage
  refine hloop.trans ?_
  dsimp only
  rw [List.nil_append, payloadOf_append, payloadOf_singleton]
  rcases hends.opcode with hstarts | ⟨hcontinues, hne⟩
  · rw [kindOf_append_starts _ hstarts, readLoop]
    unfold startsMessage at hstarts
    cases hopcode : last.opcode <;> simp [hopcode, hends.fin] at hstarts ⊢
  · have hsome : (kindOf (withoutPings used)).isNone = false := by
      rw [Bool.eq_false_iff]
      exact fun h => hne (hopen.kindOf_isNone.mp h)
    rw [kindOf_append_continuation _ hcontinues, readLoop]
    simp [hcontinues, hsome, hends.fin]

theorem readMessage_close (ending : ReadError) {used : List WebSocketFrame} {frame : WebSocketFrame}
    (rest : List WebSocketFrame) (hopen : Open (withoutPings used))
    (hclose : frame.opcode = .close) :
    readMessage ending (used ++ frame :: rest) = {
      result := .ok (closeMessage frame), written := pongsOf used, rest } := by
  have hloop := readLoop_open ending (frame :: rest) used [] hopen
  refine hloop.trans ?_
  simp [readLoop, hclose]

theorem readMessage_unexpected (ending : ReadError) {used : List WebSocketFrame}
    {frame : WebSocketFrame} (rest : List WebSocketFrame) (hnone : withoutPings used = [])
    (hopcode : frame.opcode = .continuation) :
    readMessage ending (used ++ frame :: rest) = {
      result := .error (.realtime .unexpectedContinuation), written := pongsOf used, rest } := by
  have hloop := readLoop_open ending (frame :: rest) used [] (by rw [hnone]; exact .nil)
  refine hloop.trans ?_
  simp [readLoop, hopcode, hnone, kindOf]

theorem readMessage_exhausted (ending : ReadError) {used : List WebSocketFrame}
    (hopen : Open (withoutPings used)) :
    readMessage ending used = { result := .error ending, written := pongsOf used, rest := [] } := by
  have hloop := readLoop_open ending [] used [] hopen
  rw [List.append_nil] at hloop
  refine hloop.trans ?_
  simp [readLoop]

/-! ## Fragmentation -/

/-- The frames of one message: a text or binary frame and continuations, of which
only the last has the FIN bit. -/
structure IsMessage (kind : WebSocketOpcode) (frames : List WebSocketFrame) : Prop where
  starts : ∃ first rest, frames = first :: rest ∧ startsMessage first ∧ first.opcode = kind ∧
    ∀ frame ∈ rest, frame.opcode = .continuation
  fin : ∃ init last, frames = init ++ [last] ∧ (∀ frame ∈ init, frame.fin = false) ∧
    last.fin = true

/-- The frames begin with those of a message, with pings and pongs between them. -/
structure BeginsWith (frames used rest : List WebSocketFrame) (kind : WebSocketOpcode)
    (payload : Bytes) : Prop where
  frames : frames = used ++ rest
  last : ∃ init last, used = init ++ [last] ∧ isPingOrPong last = false
  isMessage : IsMessage kind (withoutPings used)
  payload : payload = payloadOf (withoutPings used)

/-- Before the message that began is finished, another one begins, and both are
finished together as text or binary. -/
def Merges (frames : List WebSocketFrame) : Prop :=
  ∃ used last rest, frames = used ++ last :: rest ∧ Open (withoutPings used) ∧
    Ends (withoutPings used) last ∧
    (∃ frame ∈ (withoutPings used ++ [last]).tail, startsMessage frame) ∧
    (kindOf (withoutPings used ++ [last]) = some .text →
      Utf8.decode (payloadOf (withoutPings used ++ [last])) ≠ none)

/-- `read_message` follows the rules of fragmentation on some frames. -/
structure FollowsFragmentation (frames : List WebSocketFrame) : Prop where
  /-- A text message is returned for the frames of one whose payload is UTF-8. -/
  text : ∀ ending text, (readMessage ending frames).result = .ok (.text text) ↔
    ∃ used rest, BeginsWith frames used rest .text (Utf8.encode text)
  binary : ∀ ending payload, (readMessage ending frames).result = .ok (.binary payload) ↔
    ∃ used rest, BeginsWith frames used rest .binary payload
  invalidText : ∀ ending used rest payload, BeginsWith frames used rest .text payload →
    Utf8.decode payload = none →
    (readMessage ending frames).result = .error (.realtime .invalidTextFrame)
  /-- The frames after the message are left for the next call. -/
  rest : ∀ ending used rest kind payload, BeginsWith frames used rest kind payload →
    (readMessage ending frames).rest = rest
  /-- The pings among the frames that are read are answered in order. -/
  pongs : ∀ ending, ∃ used, frames = used ++ (readMessage ending frames).rest ∧
    (readMessage ending frames).written = pongsOf used
  /-- Where no message is returned, there is an error or a close frame was read. -/
  other : ∀ ending, (∃ error, (readMessage ending frames).result = .error error) ∨
    (∃ text, (readMessage ending frames).result = .ok (.text text)) ∨
    (∃ payload, (readMessage ending frames).result = .ok (.binary payload)) ∨
    ∃ used frame, frames = used ++ frame :: (readMessage ending frames).rest ∧
      frame.opcode = .close ∧ (readMessage ending frames).result = .ok (closeMessage frame)

theorem startsMessage_iff {frame : WebSocketFrame} :
    startsMessage frame ↔ frame.opcode = .text ∨ frame.opcode = .binary := by
  simp [startsMessage]

/-- The frames of a message are open frames and one that ends them. -/
theorem BeginsWith.split {frames used rest : List WebSocketFrame} {kind : WebSocketOpcode}
    {payload : Bytes} (h : BeginsWith frames used rest kind payload) :
    ∃ init last, used = init ++ [last] ∧ withoutPings used = withoutPings init ++ [last] ∧
      Open (withoutPings init) ∧ Ends (withoutPings init) last ∧
      (∀ frame ∈ (withoutPings used).tail, frame.opcode = .continuation) ∧
      kindOf (withoutPings used) = some kind := by
  obtain ⟨init, last, rfl, hdata⟩ := h.last
  have hused : withoutPings (init ++ [last]) = withoutPings init ++ [last] := by
    simp [withoutPings, hdata]
  obtain ⟨⟨first, more, hfirst, hstarts, hkind, hcontinues⟩, before, final, hfinal, hfin, hlast⟩ :=
    h.isMessage
  rw [hused] at hfirst hfinal
  obtain ⟨rfl, hsame⟩ := List.append_inj' hfinal rfl
  obtain rfl : last = final := by simpa using hsame
  refine ⟨init, last, rfl, hused, ?_, ?_, ?_, ?_⟩
  · refine ⟨hfin, fun frame hframe => ?_, fun head tail heq => ?_⟩
    · have hmem : frame ∈ first :: more := by
        rw [← hfirst]
        exact List.mem_append_left _ hframe
      rcases List.mem_cons.mp hmem with rfl | hmem
      · exact .inl hstarts
      · exact .inr (hcontinues frame hmem)
    · rw [heq] at hfirst
      cases hfirst
      exact hstarts
  · refine ⟨hlast, ?_⟩
    cases hinit : withoutPings init with
    | nil =>
      rw [hinit] at hfirst
      cases hfirst
      exact .inl hstarts
    | cons head tail =>
      rw [hinit] at hfirst
      cases hfirst
      exact .inr ⟨hcontinues last (by simp), List.cons_ne_nil _ _⟩
  · rw [hused, hfirst]
    exact hcontinues
  · have hnone : more.filter startsMessage = [] := by
      rw [List.filter_eq_nil_iff]
      intro frame hframe hs
      rw [startsMessage, hcontinues frame hframe] at hs
      cases hs
    rw [hused, hfirst, kindOf, List.filter_cons_of_pos hstarts, hnone, List.map_cons, List.map_nil,
      hkind]
    rfl

/-- What a call gives on the frames of a message. -/
theorem BeginsWith.readMessage {frames used rest : List WebSocketFrame} {kind : WebSocketOpcode}
    {payload : Bytes} (h : BeginsWith frames used rest kind payload) (ending : ReadError) :
    (readMessage ending frames).result = finishMessage (some kind) payload ∧
      (readMessage ending frames).rest = rest := by
  obtain ⟨init, last, hused, hwithout, hopen, hends, -, hkind⟩ := h.split
  have hread := readMessage_ends ending rest hopen hends
  rw [← hwithout, hkind, ← h.payload] at hread
  rw [h.frames, hused, List.append_assoc, List.singleton_append, hread]
  exact ⟨rfl, rfl⟩

/-- The kind of a message that is finished is text or binary. -/
theorem kindOf_eq_text_or_binary {frames : List WebSocketFrame} {kind : WebSocketOpcode}
    (h : kindOf frames = some kind) : kind = .text ∨ kind = .binary := by
  have hmem := List.mem_of_getLast? h
  obtain ⟨frame, hframe, rfl⟩ := List.mem_map.mp hmem
  exact startsMessage_iff.mp (List.mem_filter.mp hframe).2

/-- Frames that end as a message without another one inside are a message. -/
theorem beginsWith_of_ends {used : List WebSocketFrame} {last : WebSocketFrame}
    {kind : WebSocketOpcode} (rest : List WebSocketFrame) (hopen : Open (withoutPings used))
    (hends : Ends (withoutPings used) last)
    (hplain : ∀ frame ∈ (withoutPings used ++ [last]).tail, ¬ startsMessage frame)
    (hkind : kindOf (withoutPings used ++ [last]) = some kind) :
    BeginsWith (used ++ last :: rest) (used ++ [last]) rest kind
      (payloadOf (withoutPings used ++ [last])) := by
  have hdata : isPingOrPong last = false :=
    isPingOrPong_of_open (hends.opcode.imp_right And.left)
  have hused : withoutPings (used ++ [last]) = withoutPings used ++ [last] := by
    simp [withoutPings, hdata]
  refine ⟨by simp, ⟨used, last, rfl, hdata⟩, ⟨?_, ?_⟩, by rw [hused]⟩
  · obtain ⟨first, more, hfirst⟩ := List.exists_cons_of_ne_nil
      (show withoutPings used ++ [last] ≠ [] by simp)
    have hstarts : startsMessage first := by
      cases hpast : withoutPings used with
      | nil =>
        rw [hpast] at hfirst
        cases hfirst
        exact hends.opcode.resolve_right fun h => h.2 hpast
      | cons head tail =>
        rw [hpast] at hfirst
        cases hfirst
        exact hopen.starts _ _ hpast
    have hcontinues : ∀ frame ∈ more, frame.opcode = .continuation := by
      intro frame hframe
      have hnot := hplain frame (by rw [hfirst]; exact hframe)
      have hmem : frame ∈ withoutPings used ++ [last] := by
        rw [hfirst]
        exact List.mem_cons_of_mem _ hframe
      rcases List.mem_append.mp hmem with hm | hm
      · exact (hopen.opcode frame hm).resolve_left hnot
      · rw [List.mem_singleton.mp hm] at hnot ⊢
        exact (hends.opcode.resolve_left hnot).1
    have hnone : more.filter startsMessage = [] := by
      rw [List.filter_eq_nil_iff]
      intro frame hframe
      exact hplain frame (by rw [hfirst]; exact hframe)
    rw [hfirst, kindOf, List.filter_cons_of_pos hstarts, hnone] at hkind
    refine ⟨first, more, hused.trans hfirst, hstarts, ?_, hcontinues⟩
    simpa using hkind
  · exact ⟨withoutPings used, last, hused, hopen.fin, hends.fin⟩

theorem pongsOf_append_singleton (frames : List WebSocketFrame) {frame : WebSocketFrame}
    (h : frame.opcode ≠ .ping) : pongsOf (frames ++ [frame]) = pongsOf frames := by
  simp [pongsOf, h]

theorem finishMessage_cases (kind : Option WebSocketOpcode) (payload : Bytes) :
    (∃ error, finishMessage kind payload = .error error) ∨
      (kind = some .text ∧ ∃ text, Utf8.decode payload = some text ∧
        finishMessage kind payload = .ok (.text text)) ∨
      kind = some .binary ∧ finishMessage kind payload = .ok (.binary payload) := by
  unfold finishMessage
  split
  · cases hdecode : Utf8.decode payload with
    | none => exact .inl ⟨_, rfl⟩
    | some text => exact .inr (.inl ⟨rfl, text, rfl, rfl⟩)
  · exact .inr (.inr ⟨rfl, rfl⟩)
  · exact .inl ⟨_, rfl⟩

/-- Every call reads some frames, answers their pings, and ends with a message, a
close frame or an error. -/
theorem readMessage_cases (ending : ReadError) (frames : List WebSocketFrame) :
    ∃ used, frames = used ++ (readMessage ending frames).rest ∧
      (readMessage ending frames).written = pongsOf used ∧
      ((∃ init last, used = init ++ [last] ∧ Open (withoutPings init) ∧
          Ends (withoutPings init) last ∧
          (readMessage ending frames).result = finishMessage (kindOf (withoutPings init ++ [last]))
            (payloadOf (withoutPings init ++ [last]))) ∨
        (∃ init frame, used = init ++ [frame] ∧ frame.opcode = .close ∧
          (readMessage ending frames).result = .ok (closeMessage frame)) ∨
        ∃ error, (readMessage ending frames).result = .error error) := by
  obtain ⟨used, hopen, hend⟩ := loop_cases frames [] .nil
  rw [List.nil_append] at hopen
  cases hend with
  | ends last rest hframes hends =>
    rw [List.nil_append] at hends
    have hping : last.opcode ≠ .ping := by
      have hdata := isPingOrPong_of_open (hends.opcode.imp_right And.left)
      rintro hping
      rw [isPingOrPong, hping] at hdata
      cases hdata
    subst hframes
    rw [readMessage_ends ending rest hopen hends]
    exact ⟨used ++ [last], by simp, (pongsOf_append_singleton used hping).symm,
      .inl ⟨used, last, rfl, hopen, hends, rfl⟩⟩
  | close frame rest hframes hclose =>
    subst hframes
    rw [readMessage_close ending rest hopen hclose]
    exact ⟨used ++ [frame], by simp,
      (pongsOf_append_singleton used (by rw [hclose]; decide)).symm,
      .inr (.inl ⟨used, frame, rfl, hclose, rfl⟩)⟩
  | unexpected frame rest hframes hopcode hnone =>
    subst hframes
    rw [readMessage_unexpected ending rest hnone hopcode]
    exact ⟨used ++ [frame], by simp,
      (pongsOf_append_singleton used (by rw [hopcode]; decide)).symm, .inr (.inr ⟨_, rfl⟩)⟩
  | exhausted hframes =>
    subst hframes
    rw [readMessage_exhausted ending hopen]
    exact ⟨frames, by simp, rfl, .inr (.inr ⟨_, rfl⟩)⟩

/-- A message tells its kind and its payload. -/
theorem finishMessage_inj {kind kind' : Option WebSocketOpcode} {payload payload' : Bytes}
    {message : WebSocketMessage} (h : finishMessage kind payload = .ok message)
    (h' : finishMessage kind' payload' = .ok message) : kind = kind' ∧ payload = payload' := by
  rcases finishMessage_cases kind payload with ⟨error, hf⟩ | ⟨rfl, text, hdecode, hf⟩ | ⟨rfl, hf⟩
  · rw [h] at hf
    cases hf
  · rw [h] at hf
    cases hf
    rcases finishMessage_cases kind' payload' with ⟨error, hf⟩ | ⟨rfl, other, hother, hf⟩ | ⟨rfl, hf⟩
    · rw [h'] at hf
      cases hf
    · rw [h'] at hf
      cases hf
      rw [Utf8.decode_eq_some.mp hdecode, Utf8.decode_eq_some.mp hother]
      exact ⟨rfl, rfl⟩
    · rw [h'] at hf
      cases hf
  · rw [h] at hf
    cases hf
    rcases finishMessage_cases kind' payload' with ⟨error, hf⟩ | ⟨rfl, other, hother, hf⟩ | ⟨rfl, hf⟩
    · rw [h'] at hf
      cases hf
    · rw [h'] at hf
      cases hf
    · rw [h'] at hf
      cases hf
      exact ⟨rfl, rfl⟩

/-- A text message has a payload in UTF-8. -/
theorem decode_ne_none_of_finish {kind : Option WebSocketOpcode} {payload : Bytes}
    {message : WebSocketMessage} (h : finishMessage kind payload = .ok message)
    (hkind : kind = some .text) : Utf8.decode payload ≠ none := by
  rintro hnone
  rw [hkind, finishMessage, hnone] at h
  cases h

/-- What is returned for frames that are not merged begins the frames. -/
theorem beginsWith_of_result {frames : List WebSocketFrame} (h : ¬ Merges frames)
    (ending : ReadError) {kind : WebSocketOpcode} {payload : Bytes} {message : WebSocketMessage}
    (hmessage : finishMessage (some kind) payload = .ok message)
    (hopcode : ∀ frame, message ≠ closeMessage frame)
    (hresult : (readMessage ending frames).result = .ok message) :
    ∃ used rest, BeginsWith frames used rest kind payload := by
  obtain ⟨used, hframes, -, hcase⟩ := readMessage_cases ending frames
  rcases hcase with ⟨init, last, rfl, hopen, hends, hfinish⟩ | ⟨init, frame, rfl, -, hclose⟩ |
    ⟨error, herror⟩
  · rw [hresult] at hfinish
    have hframes' : frames = init ++ last :: (readMessage ending frames).rest :=
      hframes.trans (by simp)
    generalize (readMessage ending frames).rest = rest at hframes'
    obtain ⟨hkind, hpayload⟩ := finishMessage_inj hmessage hfinish.symm
    have hplain : ∀ frame ∈ (withoutPings init ++ [last]).tail, ¬ startsMessage frame :=
      fun frame hframe hs => h ⟨init, last, rest, hframes', hopen, hends, ⟨frame, hframe, hs⟩,
        decode_ne_none_of_finish hfinish.symm⟩
    rw [hpayload, hframes']
    exact ⟨_, rest, beginsWith_of_ends rest hopen hends hplain hkind.symm⟩
  · rw [hresult] at hclose
    exact absurd (Except.ok.inj hclose) (hopcode frame)
  · rw [hresult] at herror
    cases herror

theorem text_ne_closeMessage (text : Text) (frame : WebSocketFrame) :
    WebSocketMessage.text text ≠ closeMessage frame := by
  unfold closeMessage
  split <;> exact fun h => by cases h

theorem binary_ne_closeMessage (payload : Bytes) (frame : WebSocketFrame) :
    WebSocketMessage.binary payload ≠ closeMessage frame := by
  unfold closeMessage
  split <;> exact fun h => by cases h

theorem finishMessage_encode (text : Text) :
    finishMessage (some .text) (Utf8.encode text) = .ok (.text text) := by
  simp [finishMessage]

/-- Merged frames are returned as one message, which does not begin the frames. -/
theorem Merges.result {frames : List WebSocketFrame} (h : Merges frames) (ending : ReadError) :
    ∃ kind payload message, finishMessage (some kind) payload = .ok message ∧
      (readMessage ending frames).result = .ok message ∧ (kind = .text ∨ kind = .binary) ∧
      ∀ used rest, ¬ BeginsWith frames used rest kind payload := by
  obtain ⟨init, last, rest, rfl, hopen, hends, ⟨frame, hframe, hstarts⟩, hutf⟩ := h
  have hread := readMessage_ends ending rest hopen hends
  -- the frames have a kind, and the message is not rejected
  obtain ⟨kind, hkind⟩ : ∃ kind, kindOf (withoutPings init ++ [last]) = some kind := by
    have hmem : frame.opcode ∈
        ((withoutPings init ++ [last]).filter startsMessage).map WebSocketFrame.opcode :=
      List.mem_map_of_mem (List.mem_filter.mpr ⟨List.mem_of_mem_tail hframe, hstarts⟩)
    exact ⟨_, List.getLast?_eq_some_getLast (List.ne_nil_of_mem hmem)⟩
  have hkinds := kindOf_eq_text_or_binary hkind
  obtain ⟨message, hmessage⟩ : ∃ message,
      finishMessage (some kind) (payloadOf (withoutPings init ++ [last])) = .ok message := by
    rcases hkinds with rfl | rfl
    · obtain ⟨text, htext⟩ := Option.ne_none_iff_exists'.mp (hutf hkind)
      exact ⟨.text text, by rw [finishMessage, htext]⟩
    · exact ⟨_, rfl⟩
  refine ⟨kind, _, message, hmessage, by rw [hread, hkind, hmessage], hkinds, ?_⟩
  intro used rest' hbegins
  -- both are read up to the same place, so the same frames were read
  have hrest : rest = rest' := by
    have hsame := (hbegins.readMessage ending).2
    rw [hread] at hsame
    exact hsame
  subst hrest
  have hused : used = init ++ [last] := by
    have hframes : used ++ rest = init ++ [last] ++ rest := by
      rw [← hbegins.frames, List.append_assoc, List.singleton_append]
    exact List.append_cancel_right hframes
  obtain ⟨_, _, -, -, -, -, hcontinues, -⟩ := hbegins.split
  have hdata := isPingOrPong_of_open (hends.opcode.imp_right And.left)
  have hwithout : withoutPings used = withoutPings init ++ [last] := by
    rw [hused]
    simp [withoutPings, hdata]
  rw [hwithout] at hcontinues
  rw [startsMessage, hcontinues frame hframe] at hstarts
  cases hstarts

/-- Merged frames do not follow the rules. -/
theorem FollowsFragmentation.not_merges {frames : List WebSocketFrame}
    (h : FollowsFragmentation frames) : ¬ Merges frames := by
  intro hmerges
  obtain ⟨kind, payload, message, hmessage, hresult, hkinds, hnot⟩ :=
    hmerges.result (.realtime .connectionClosed)
  rcases hkinds with rfl | rfl
  · rcases finishMessage_cases (some .text) payload with ⟨error, hf⟩ | ⟨-, text, hdecode, hf⟩ |
      ⟨hkind, -⟩
    · rw [hmessage] at hf
      cases hf
    · rw [hmessage] at hf
      cases hf
      obtain ⟨used, rest, hbegins⟩ := (h.text _ text).mp hresult
      rw [← Utf8.decode_eq_some.mp hdecode] at hbegins
      exact hnot used rest hbegins
    · cases hkind
  · cases hmessage
    obtain ⟨used, rest, hbegins⟩ := (h.binary _ payload).mp hresult
    exact hnot used rest hbegins

/-- `read_message` follows the rules of fragmentation on all frames but those
where a message that begins inside another one is merged with it. -/
theorem messages_fragmented_iff (frames : List WebSocketFrame) :
    FollowsFragmentation frames ↔ ¬ Merges frames := by
  constructor
  · exact FollowsFragmentation.not_merges
  · intro h
    refine ⟨fun ending text => ⟨fun hresult => ?_, ?_⟩, fun ending payload => ⟨fun hresult => ?_, ?_⟩,
      ?_, ?_, fun ending => ?_, fun ending => ?_⟩
    · exact beginsWith_of_result h ending (finishMessage_encode text)
        (text_ne_closeMessage text) hresult
    · rintro ⟨used, rest, hbegins⟩
      rw [(hbegins.readMessage ending).1, finishMessage_encode]
    · exact beginsWith_of_result h ending rfl (binary_ne_closeMessage payload) hresult
    · rintro ⟨used, rest, hbegins⟩
      rw [(hbegins.readMessage ending).1]
      rfl
    · intro ending used rest payload hbegins hnone
      rw [(hbegins.readMessage ending).1, finishMessage, hnone]
    · exact fun ending used rest kind payload hbegins => (hbegins.readMessage ending).2
    · obtain ⟨used, hframes, hwritten, -⟩ := readMessage_cases ending frames
      exact ⟨used, hframes, hwritten⟩
    · obtain ⟨used, hframes, -, hcase⟩ := readMessage_cases ending frames
      rcases hcase with ⟨init, last, rfl, -, -, hfinish⟩ | ⟨init, frame, rfl, hclose, hresult⟩ |
        ⟨error, herror⟩
      · rcases finishMessage_cases (kindOf (withoutPings init ++ [last]))
          (payloadOf (withoutPings init ++ [last])) with ⟨error, hf⟩ | ⟨-, text, -, hf⟩ | ⟨-, hf⟩
        · exact .inl ⟨error, hfinish.trans hf⟩
        · exact .inr (.inl ⟨text, hfinish.trans hf⟩)
        · exact .inr (.inr (.inl ⟨_, hfinish.trans hf⟩))
      · exact .inr (.inr (.inr ⟨init, frame, hframes.trans (by simp), hclose, hresult⟩))
      · exact .inl ⟨error, herror⟩

/-- A text frame without the FIN bit, and a whole text frame. -/
def interruptedFrames : List WebSocketFrame :=
  [{ fin := false, opcode := .text, payload := [0x61] },
    { fin := true, opcode := .text, payload := [0x62] }]

/-- A text message inside another one is merged with it. -/
theorem messages_merged : ¬ ∀ frames, FollowsFragmentation frames := by
  intro h
  refine (h interruptedFrames).not_merges ⟨[_], _, [], rfl, ?_, ⟨rfl, .inl rfl⟩,
    ⟨_, List.mem_singleton_self _, rfl⟩, fun _ => ?_⟩
  · exact ⟨by decide, by decide, fun first rest heq => by cases heq; rfl⟩
  · have hutf : Utf8.decode [0x61, 0x62] = some "ab".toList := Utf8.decode_eq_some.mpr (by decide)
    show Utf8.decode [0x61, 0x62] ≠ none
    rw [hutf]
    exact Option.some_ne_none _

/-! ## Messages over a stream -/

open WebSocketFrame

/-- A frame that a server may send. -/
structure ServerFrame (frame : WebSocketFrame) : Prop where
  limit : frame.payload.length ≤ maxWebsocketPayload
  control : 8 ≤ frame.opcode.asU8 → frame.fin = true ∧ frame.payload.length ≤ 125

theorem scannedLength_of_decodeLength {bytes : Bytes} {code : UInt8} {length cursor : Nat}
    (h : decodeLength bytes code = .ok (length, cursor)) :
    scannedLength bytes code = some (length, cursor) := by
  cases hscan : scannedLength bytes code with
  | none =>
    unfold scannedLength at hscan
    unfold decodeLength at h
    split at hscan
    · cases hscan
    next hshort =>
      rw [if_neg hshort] at h
      split at hscan
      next hmedium =>
        rw [if_pos hmedium, Option.map_eq_none_iff.mp hscan] at h
        cases h
      next hmedium =>
        rw [if_neg hmedium, Option.map_eq_none_iff.mp hscan] at h
        cases h
  | some p =>
    rw [decodeLength_of_scannedLength hscan] at h
    split at h
    · cases h
      rfl
    · cases h

namespace ServerFrame

variable {frame : WebSocketFrame}

/-- The scanner finds the length of the frame, whatever follows. -/
theorem serverFrameLength (h : ServerFrame frame) (rest : Bytes) :
    Realtime.serverFrameLength (frameBytes none frame ++ rest) =
      .ok (some (frameBytes none frame).length) := by
  obtain ⟨second, extended, hlength, hmask, hdecode⟩ :=
    lengthBytes_decode none frame.firstByte h.limit (frame.payload ++ rest)
  have hscan := scannedLength_of_decodeLength hdecode
  have hcursor := (scannedLength_cursor hscan).2
  have hbytes : frameBytes none frame ++ rest =
      frame.firstByte :: second :: (extended ++ (frame.payload ++ rest)) := by
    simp [frameBytes, hlength, body]
  have hlen : (frameBytes none frame).length = 2 + extended.length + frame.payload.length := by
    simp [frameBytes, hlength, body]
    omega
  have hopcode : frame.firstByte &&& 0x0f = frame.opcode.asU8 := by
    have hall : ∀ (fin : Bool) (opcode : WebSocketOpcode),
        ((if fin then 0x80 else 0) ||| opcode.asU8) &&& 0x0f = opcode.asU8 := by
      rintro (_ | _) (_ | _ | _ | _ | _ | _) <;> decide
    exact hall frame.fin frame.opcode
  have hrsv : ∀ (fin : Bool) (opcode : WebSocketOpcode),
      ((if fin then 0x80 else 0) ||| opcode.asU8) &&& 0x70 = 0 := by
    rintro (_ | _) (_ | _ | _ | _ | _ | _) <;> decide
  have hknown : ∀ opcode : WebSocketOpcode, isServerOpcode opcode.asU8 = true := by
    rintro (_ | _ | _ | _ | _ | _) <;> decide
  have hcontrol : isInvalidControl frame.firstByte frame.payload.length = false := by
    have hfin := fin_firstByte frame
    rw [bne, Bool.not_eq_eq_eq_not] at hfin
    rw [isInvalidControl, hopcode, hfin, Bool.and_eq_false_iff]
    refine Classical.or_iff_not_imp_left.mpr fun hle => ?_
    obtain ⟨hset, hshort⟩ := h.control (by simpa using hle)
    simpa [hset] using hshort
  have hscanned : Scanned (frameBytes none frame ++ rest) frame.payload.length
      (2 + extended.length) :=
    ⟨frame.firstByte, second, _, hbytes, hrsv frame.fin frame.opcode, by rw [hopcode, hknown],
      by simpa using hmask, by rw [hbytes, hscan], hcontrol⟩
  have hlimit := h.limit
  unfold maxWebsocketPayload at hlimit
  rw [hscanned.serverFrameLength, if_neg (by omega), hlen]

/-- The frame is read first from a stream that begins with it, however it is cut. -/
theorem readFrame (h : ServerFrame frame) {buffer rest : Bytes} {chunks : List Bytes}
    (hbytes : streamBytes buffer chunks = frame.encode false ++ rest) :
    ∃ buffer' chunks', Realtime.readFrame buffer chunks = .ok (frame, buffer', chunks') ∧
      streamBytes buffer' chunks' = rest := by
  have hall : (Realtime.readFrame (streamBytes buffer chunks) []).map remaining =
      .ok (frame, rest) := by
    rw [hbytes, encode_eq, readFrame.eq_def]
    simp [h.serverFrameLength, decode_frameBytes none frame h.limit, Except.map, remaining,
      streamBytes]
  rw [← readFrame_streamBytes] at hall
  cases hread : Realtime.readFrame buffer chunks with
  | error error =>
    rw [hread] at hall
    cases hall
  | ok p =>
    rw [hread] at hall
    cases hall
    exact ⟨p.2.1, p.2.2, rfl, rfl⟩

end ServerFrame

/-- The frames that `read_frame` gives one after another, up to an error. -/
inductive Gives : Bytes → List Bytes → List WebSocketFrame → ReadError → Prop where
  | stop {buffer : Bytes} {chunks : List Bytes} {error : ReadError}
      (h : readFrame buffer chunks = .error error) : Gives buffer chunks [] error
  | frame {buffer buffer' : Bytes} {chunks chunks' : List Bytes} {frame : WebSocketFrame}
      {frames : List WebSocketFrame} {error : ReadError}
      (h : readFrame buffer chunks = .ok (frame, buffer', chunks'))
      (more : Gives buffer' chunks' frames error) : Gives buffer chunks (frame :: frames) error

/-- The frames of a stream are given in order, and nothing else. -/
theorem gives_encode : ∀ {frames : List WebSocketFrame} {buffer : Bytes} {chunks : List Bytes},
    (∀ frame ∈ frames, ServerFrame frame) →
    streamBytes buffer chunks = frames.flatMap (·.encode false) →
      Gives buffer chunks frames (.realtime .connectionClosed)
  | [], buffer, chunks, _, h => by
    have hread := readFrame_streamBytes buffer chunks
    rw [h, List.flatMap_nil, show readFrame [] [] = .error (.realtime .connectionClosed) from rfl]
      at hread
    cases hbuffer : readFrame buffer chunks with
    | error error =>
      rw [hbuffer] at hread
      cases hread
      exact .stop hbuffer
    | ok p =>
      rw [hbuffer] at hread
      cases hread
  | frame :: frames, _, _, hserver, h => by
    obtain ⟨hframe, hframes⟩ := List.forall_mem_cons.mp hserver
    obtain ⟨_, _, hread, hrest⟩ := hframe.readFrame h
    exact .frame hread (gives_encode hframes hrest)

/-- What calls of `read_message` return one after another, and the frames they write. -/
def readMessages (ending : ReadError) : Nat → List WebSocketFrame →
    List (Except ReadError WebSocketMessage) × List WebSocketFrame
  | 0, _ => ([], [])
  | calls + 1, frames =>
    let reading := readMessage ending frames
    let more := readMessages ending calls reading.rest
    (reading.result :: more.1, reading.written ++ more.2)

/-- A message as a server sends it, with pings and pongs between its frames. -/
structure Sent where
  frames : List WebSocketFrame
  kind : WebSocketOpcode
  payload : Bytes
  message : WebSocketMessage
  begins : BeginsWith frames frames [] kind payload
  finished : finishMessage (some kind) payload = .ok message
  server : ∀ frame ∈ frames, ServerFrame frame

theorem Sent.readMessage (sent : Sent) (ending : ReadError) (rest : List WebSocketFrame) :
    Realtime.readMessage ending (sent.frames ++ rest) =
      { result := .ok sent.message, written := pongsOf sent.frames, rest } := by
  obtain ⟨init, last, hframes, hwithout, hopen, hends, -, hkind⟩ := sent.begins.split
  have hread := readMessage_ends ending rest hopen hends
  rw [← hwithout, hkind, ← sent.begins.payload, sent.finished] at hread
  have hping : last.opcode ≠ .ping := by
    have hdata := isPingOrPong_of_open (hends.opcode.imp_right And.left)
    intro hping
    rw [isPingOrPong, hping] at hdata
    cases hdata
  rw [hframes, List.append_assoc, List.singleton_append, hread, pongsOf_append_singleton _ hping]

theorem readMessages_sent (ending : ReadError) : ∀ messages : List Sent,
    readMessages ending messages.length (messages.flatMap Sent.frames) =
      (messages.map fun sent => .ok sent.message, pongsOf (messages.flatMap Sent.frames))
  | [] => rfl
  | sent :: messages => by
    have hpongs : ∀ frames more, pongsOf (frames ++ more) = pongsOf frames ++ pongsOf more := by
      intro frames more
      rw [pongsOf, List.filter_append, List.map_append]
      rfl
    rw [List.length_cons, List.flatMap_cons, readMessages, sent.readMessage]
    dsimp only
    rw [readMessages_sent ending messages, hpongs]
    rfl

/-- However the bytes of some messages are cut into reads, their frames are given once and in
order, and each call returns the next message; all pings among them are answered in order. -/
theorem messages_delivered (messages : List Sent) {chunks : List Bytes}
    (h : streamBytes [] chunks = (messages.flatMap Sent.frames).flatMap (·.encode false)) :
    Gives [] chunks (messages.flatMap Sent.frames) (.realtime .connectionClosed) ∧
      readMessages (.realtime .connectionClosed) messages.length (messages.flatMap Sent.frames) =
        (messages.map fun sent => .ok sent.message, pongsOf (messages.flatMap Sent.frames)) := by
  refine ⟨gives_encode (fun frame hframe => ?_) h, readMessages_sent _ messages⟩
  obtain ⟨sent, -, hframe⟩ := List.mem_flatMap.mp hframe
  exact sent.server frame hframe

/-- A ping and a binary message. -/
def pinged : Sent where
  frames := [{ fin := true, opcode := .ping, payload := [7] },
    { fin := true, opcode := .binary, payload := [1] }]
  kind := .binary
  payload := [1]
  message := .binary [1]
  begins := ⟨rfl, ⟨[_], _, rfl, rfl⟩,
    ⟨⟨_, [], rfl, rfl, rfl, by simp⟩, ⟨[], _, rfl, by simp, rfl⟩⟩, rfl⟩
  finished := rfl
  server := by
    simp only [List.forall_mem_cons, List.not_mem_nil, false_imp_iff, implies_true, and_true]
    exact ⟨⟨by decide, by decide⟩, by decide, by decide⟩

/-- The two frames, cut inside each of them. -/
theorem messages_delivered_pinged :
    Gives [] [[0x89, 1], [7, 0x82], [1, 1]] pinged.frames (.realtime .connectionClosed) :=
  (messages_delivered [pinged] (by decide)).1

end Omoikane.Realtime
