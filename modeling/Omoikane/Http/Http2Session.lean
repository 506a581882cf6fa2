import Omoikane.Base.Run
import Omoikane.Http.Http2Windows

/-!
# HTTP/2 sessions

A `Session` is a connection with the frames it has exchanged.  It takes requests
and frames one at a time, and `Http2Connection.sendRequest` is a run of it
(`Session.sendRequest_run`).

In every run the window the client records is the default window, less the data
it has sent, with the increments it has received (`Session.Sound`).
-/

namespace Omoikane.Http

open Base

/-! ## The session -/

/-- What a session is doing. -/
inductive Phase where
  | idle
  /-- It reads the response on a stream, with the frames exchanged since it was opened. -/
  | reading (streamId : Nat) (state : StreamState) (exchange : Exchange)
  | closed

/-- A connection with the frames it has received. -/
structure Session where
  connection : Http2Connection
  received : List Frame
  phase : Phase

/-- What a session is given. -/
inductive Action where
  | request (request : HttpRequest)
  | frame (frame : Frame)

namespace Session

/-- A new connection. -/
def new : Session := { connection := .new, received := [], phase := .idle }

/-- All frames of the connection. -/
def exchange (session : Session) : Exchange :=
  { sent := session.connection.written, received := session.received }

/-- The phase after a response has come further. -/
def nextPhase (streamId : Nat) (state : StreamState) (exchange : Exchange) : Phase :=
  if state.ended && state.headers ≠ [] then
    match buildResponse state.headers state.body with
    | .error _ => .closed
    | .ok _ => .idle
  else .reading streamId state exchange

/-- One request or one frame; what does not fit the phase is left out. -/
def step (maxBodyBytes : Nat) (session : Session) (action : Action) : Session :=
  match session.phase, action with
  | .idle, .request request =>
    match session.connection.startRequest request with
    | .error _ => { session with phase := .closed }
    | .ok (connection, streamId) =>
      let news := connection.written.drop session.connection.written.length
      { session with
        connection
        phase := .reading streamId .default { sent := news, received := [] } }
  | .reading streamId state exchange, .frame frame =>
    match session.connection.processFrame maxBodyBytes streamId state frame with
    | .error _ => { session with phase := .closed }
    | .ok (connection, state) =>
      let news := connection.written.drop session.connection.written.length
      { connection
        received := session.received ++ [frame]
        phase := nextPhase streamId state {
          sent := exchange.sent ++ news
          received := exchange.received ++ [frame] } }
  | _, _ => session

/-- The frames of the connection after one more frame. -/
def exchangeAfter (session : Session) (connection : Http2Connection) (frame : Frame) : Exchange :=
  { sent := connection.written, received := session.received ++ [frame] }

/-- The frames since a stream was opened, after one more frame. -/
def streamExchangeAfter (session : Session) (connection : Http2Connection) (exchange : Exchange)
    (frame : Frame) : Exchange where
  sent := exchange.sent ++ connection.written.drop session.connection.written.length
  received := exchange.received ++ [frame]

theorem step_request (maxBodyBytes : Nat) {streamId : Nat} {session : Session}
    {request : HttpRequest} {connection : Http2Connection} (hphase : session.phase = .idle)
    (hstart : session.connection.startRequest request = .ok (connection, streamId)) :
    session.step maxBodyBytes (.request request) = {
      connection
      received := session.received
      phase := .reading streamId .default {
        sent := connection.written.drop session.connection.written.length
        received := [] } } := by
  unfold step
  rw [hphase]
  dsimp only
  rw [hstart]

theorem step_frame {maxBodyBytes streamId : Nat} {session : Session} {state state' : StreamState}
    {exchange : Exchange} {frame : Frame} {connection : Http2Connection}
    (hphase : session.phase = .reading streamId state exchange)
    (hprocess : session.connection.processFrame maxBodyBytes streamId state frame =
      .ok (connection, state')) :
    session.step maxBodyBytes (.frame frame) = {
      connection
      received := session.received ++ [frame]
      phase := nextPhase streamId state'
        (session.streamExchangeAfter connection exchange frame) } := by
  unfold step
  rw [hphase]
  dsimp only
  rw [hprocess]
  rfl

/-- The server sends data only within the credit it holds. -/
def WithinWindows (session : Session) (action : Action) : Prop :=
  match session.phase, action with
  | .reading streamId _ exchange, .frame frame =>
    (dataBytes 0 [frame] : Int) ≤ session.exchange.credit 0 ∧
      (dataBytes streamId [frame] : Int) ≤ exchange.credit streamId
  | _, _ => True

end Session

/-! ## Runs -/

namespace Session

/-- What is recorded and what was exchanged on a window fit together. -/
def Recorded (window : Nat) (exchange : Exchange) (recorded : Int) : Prop :=
  recorded = defaultWindowSize - dataBytes window exchange.sent +
    increments window exchange.received

/-- The client grants nothing. -/
def GrantsNothing (exchange : Exchange) : Prop :=
  ∀ frame ∈ exchange.sent, frame.frameType ≠ .windowUpdate

/-- The invariant of a session. -/
structure Sound (session : Session) : Prop where
  connectionWindow : Recorded 0 session.exchange session.connection.connectionWindow
  grantsNothing : GrantsNothing session.exchange
  nextStreamId : session.connection.nextStreamId ≠ 0
  reading : ∀ streamId state exchange, session.phase = .reading streamId state exchange →
    streamId ≠ 0 ∧ GrantsNothing exchange ∧
    state.body.length = dataBytes streamId exchange.received ∧
    ∃ window, session.connection.streamWindows.get streamId = some window ∧
      Recorded streamId exchange window

theorem new_sound : Sound new where
  connectionWindow := rfl
  grantsNothing := fun _ h => absurd h List.not_mem_nil
  nextStreamId := Nat.one_ne_zero
  reading := fun _ _ _ h => by cases h

theorem Recorded.append {window : Nat} {exchange : Exchange} {recorded : Int}
    (h : Recorded window exchange recorded) (news more : List Frame) :
    Recorded window { sent := exchange.sent ++ news, received := exchange.received ++ more }
      (recorded - dataBytes window news + increments window more) := by
  unfold Recorded at h ⊢
  simp only [dataBytes_append, increments_append, h]
  push_cast
  omega

theorem GrantsNothing.append {exchange : Exchange} (h : GrantsNothing exchange)
    {news : List Frame} (hnews : ∀ frame ∈ news, frame.frameType ≠ .windowUpdate)
    (received : List Frame) : GrantsNothing { sent := exchange.sent ++ news, received } := by
  intro frame hframe
  rcases List.mem_append.mp hframe with hm | hm
  · exact h frame hm
  · exact hnews frame hm

theorem Sound.withPhase {session : Session} (h : session.Sound) (phase : Phase)
    (hphase : ∀ streamId state exchange, phase ≠ .reading streamId state exchange) :
    Sound { session with phase } :=
  ⟨h.connectionWindow, h.grantsNothing, h.nextStreamId,
    fun streamId state exchange heq => absurd heq (hphase streamId state exchange)⟩

/-- Frames the client writes while it reads are no data. -/
theorem dataBytes_settings {window : Nat} {frames : List Frame}
    (h : ∀ frame ∈ frames, frame.frameType = .settings) : dataBytes window frames = 0 := by
  induction frames with
  | nil => rfl
  | cons frame frames ih =>
    have hcounts : frame.counts window = false := by
      simp [Frame.counts, h frame (List.mem_cons_self ..)]
    rw [← List.singleton_append, dataBytes_append, dataBytes_singleton, hcounts,
      ih fun other ho => h other (List.mem_cons_of_mem _ ho)]
    rfl

/-- What is recorded agrees with the credit of the server when the data received
and the increments received amount to the data sent. -/
theorem Recorded.eq_credit_iff {window : Nat} {exchange : Exchange} {recorded : Int}
    (h : Recorded window exchange recorded) (hgrants : GrantsNothing exchange) :
    recorded = exchange.credit window ↔
      dataBytes window exchange.received + increments window exchange.received =
        dataBytes window exchange.sent := by
  unfold Recorded at h
  rw [h, Exchange.credit, increments_eq_zero hgrants]
  omega

/-- What a processed frame leaves in a session. -/
structure After (session : Session) (streamId : Nat) (exchange : Exchange)
    (connection : Http2Connection) (state : StreamState) (frame : Frame) : Prop where
  connectionWindow : Recorded 0 (session.exchangeAfter connection frame)
    connection.connectionWindow
  grantsNothing : GrantsNothing (session.exchangeAfter connection frame)
  streamGrantsNothing : GrantsNothing (session.streamExchangeAfter connection exchange frame)
  body : state.body.length =
    dataBytes streamId (session.streamExchangeAfter connection exchange frame).received
  streamWindow : ∃ window, connection.streamWindows.get streamId = some window ∧
    Recorded streamId (session.streamExchangeAfter connection exchange frame) window
  nextStreamId : connection.nextStreamId = session.connection.nextStreamId

theorem Sound.after {session : Session} (h : session.Sound) {maxBodyBytes streamId : Nat}
    {state state' : StreamState} {exchange : Exchange} {connection' : Http2Connection}
    {frame : Frame} (hphase : session.phase = .reading streamId state exchange)
    (hprocess : session.connection.processFrame maxBodyBytes streamId state frame =
      .ok (connection', state')) :
    After session streamId exchange connection' state' frame := by
  obtain ⟨hid, hgrants, hbody, window, hget, hrecorded⟩ :=
    h.reading streamId state exchange hphase
  have hprocessed := Http2Connection.processFrame_processed hprocess hid
    (Option.isSome_iff_exists.mpr ⟨window, hget⟩)
  obtain ⟨news, hwritten, hnews⟩ := hprocessed.written
  have hdrop : connection'.written.drop session.connection.written.length = news := by
    rw [hwritten, List.drop_left]
  have hupdates : ∀ frame ∈ news, frame.frameType ≠ .windowUpdate := by
    intro frame hframe
    rw [hnews frame hframe]
    decide
  refine ⟨?_, ?_, ?_, ?_, ⟨_, hprocessed.streamWindow window hget, ?_⟩, hprocessed.nextStreamId⟩
  · have hconnection := h.connectionWindow.append news [frame]
    rw [dataBytes_settings hnews] at hconnection
    rw [exchangeAfter, hwritten, hprocessed.connectionWindow]
    simpa [Session.exchange] using hconnection
  · rw [exchangeAfter, hwritten]
    exact h.grantsNothing.append hupdates _
  · rw [streamExchangeAfter, hdrop]
    exact hgrants.append hupdates _
  · rw [hprocessed.body, hbody, streamExchangeAfter, dataBytes_append]
  · have hstream := hrecorded.append news [frame]
    rw [dataBytes_settings hnews] at hstream
    rw [streamExchangeAfter, hdrop]
    simpa using hstream

theorem nextPhase_reading {streamId id : Nat} {state later : StreamState}
    {exchange exchange' : Exchange}
    (h : nextPhase streamId state exchange = .reading id later exchange') :
    id = streamId ∧ later = state ∧ exchange' = exchange := by
  unfold nextPhase at h
  split at h
  · split at h <;> cases h
  · cases h
    exact ⟨rfl, rfl, rfl⟩

theorem step_sound (maxBodyBytes : Nat) (session : Session) (action : Action)
    (h : session.Sound) : (session.step maxBodyBytes action).Sound := by
  obtain ⟨connection, received, phase⟩ := session
  cases phase with
  | idle =>
    cases action with
    | frame frame => exact h
    | request request =>
      unfold step
      dsimp only
      cases hstart : connection.startRequest request with
      | error error => exact h.withPhase .closed (by simp)
      | ok p =>
        obtain ⟨connection', streamId⟩ := p
        obtain ⟨hid, hnext, -, -, news, hwritten, hnews, hwindow, hstream⟩ :=
          Http2Connection.startRequest_started hstart
        have hdrop : connection'.written.drop connection.written.length = news := by
          rw [hwritten, List.drop_left]
        dsimp only
        rw [hdrop]
        refine ⟨?_, ?_, ?_, ?_⟩
        · have hrecorded := h.connectionWindow.append news []
          show Recorded 0 { sent := connection'.written, received } _
          rw [hwritten, hwindow]
          simpa [exchange] using hrecorded
        · show GrantsNothing { sent := connection'.written, received }
          rw [hwritten]
          exact h.grantsNothing.append hnews received
        · show connection'.nextStreamId ≠ 0
          rw [hnext]
          exact Nat.succ_ne_zero _
        · intro id state exchange heq
          cases heq
          refine ⟨hid ▸ h.nextStreamId, hnews, rfl, _, hstream, ?_⟩
          simp [Recorded]
  | closed => exact h
  | reading streamId state exchange =>
    cases action with
    | request request => exact h
    | frame frame =>
      unfold step
      dsimp only
      cases hprocess : connection.processFrame maxBodyBytes streamId state frame with
      | error error => exact h.withPhase .closed (by simp)
      | ok p =>
        obtain ⟨connection', state'⟩ := p
        have hafter := h.after rfl hprocess
        refine ⟨hafter.connectionWindow, hafter.grantsNothing, ?_, ?_⟩
        · show connection'.nextStreamId ≠ 0
          rw [hafter.nextStreamId]
          exact h.nextStreamId
        · intro id later exchange' heq
          obtain ⟨rfl, rfl, rfl⟩ := nextPhase_reading heq
          exact ⟨(h.reading _ _ _ rfl).1, hafter.streamGrantsNothing, hafter.body,
            hafter.streamWindow⟩

/-- Both windows of the response that is read are ready for data. -/
structure Ready (session : Session) : Prop where
  bounded : session.connection.Bounded
  connectionWindow : 0 ≤ session.connection.connectionWindow
  reading : ∀ streamId state exchange, session.phase = .reading streamId state exchange →
    ∀ window, session.connection.streamWindows.get streamId = some window → 0 ≤ window

theorem new_ready : Ready new where
  bounded := Http2Connection.new_bounded
  connectionWindow := by decide
  reading := fun _ _ _ h => by cases h

theorem step_ready (maxBodyBytes : Nat) (session : Session) (action : Action)
    (hsound : session.Sound) (h : session.Ready) :
    (session.step maxBodyBytes action).Ready := by
  obtain ⟨connection, received, phase⟩ := session
  cases phase with
  | idle =>
    cases action with
    | frame frame => exact h
    | request request =>
      cases hstart : connection.startRequest request with
      | error error =>
        unfold step
        dsimp only
        rw [hstart]
        exact ⟨h.bounded, h.connectionWindow, fun _ _ _ heq => by cases heq⟩
      | ok p =>
        obtain ⟨connection', streamId⟩ := p
        have hstarted := Http2Connection.startRequest_started hstart
        rw [step_request maxBodyBytes rfl hstart]
        refine ⟨Http2Connection.startRequest_bounded h.bounded hstart,
          hstarted.connectionWindow_nonneg h.connectionWindow, ?_⟩
        intro id state exchange heq
        cases heq
        exact hstarted.streamWindow_nonneg
  | closed => exact h
  | reading streamId state exchange =>
    cases action with
    | request request => exact h
    | frame frame =>
      obtain ⟨hid, -, -, window, hget, -⟩ := hsound.reading streamId state exchange rfl
      cases hprocess : connection.processFrame maxBodyBytes streamId state frame with
      | error error =>
        unfold step
        dsimp only
        rw [hprocess]
        exact ⟨h.bounded, h.connectionWindow, fun _ _ _ heq => by cases heq⟩
      | ok p =>
        obtain ⟨connection', state'⟩ := p
        have hprocessed := Http2Connection.processFrame_processed hprocess hid
          (Option.isSome_iff_exists.mpr ⟨window, hget⟩)
        rw [step_frame rfl hprocess]
        refine ⟨Http2Connection.processFrame_bounded h.bounded hprocess, ?_, ?_⟩
        · show 0 ≤ connection'.connectionWindow
          have hnonneg : 0 ≤ connection.connectionWindow := h.connectionWindow
          rw [hprocessed.connectionWindow]
          omega
        · intro id later exchange' heq other hother
          obtain ⟨rfl, -, -⟩ := nextPhase_reading heq
          have hnonneg : 0 ≤ window := h.reading _ state exchange rfl window hget
          have hnext := hprocessed.streamWindow window hget
          rw [show connection'.streamWindows.get _ = some other from hother] at hnext
          cases hnext
          omega

theorem run_sound (maxBodyBytes : Nat) (actions : List Action) :
    (Run.run (step maxBodyBytes) new actions).Sound :=
  Run.invariant (step_sound maxBodyBytes) actions new_sound

theorem run_ready (maxBodyBytes : Nat) (actions : List Action) :
    (Run.run (step maxBodyBytes) new actions).Ready :=
  (Run.invariant (I := fun session => session.Sound ∧ session.Ready)
    (fun session action h => ⟨step_sound maxBodyBytes session action h.1,
      step_ready maxBodyBytes session action h.1 h.2⟩) actions ⟨new_sound, new_ready⟩).2

end Session

/-! ## Requests as runs -/

/-- The frames read one after another from a stream, up to its rest. -/
inductive FramesRead : Bytes → List Frame → Bytes → Prop where
  | nil (rest : Bytes) : FramesRead rest [] rest
  | cons {input middle rest : Bytes} {frame : Frame} {frames : List Frame}
      (h : Frame.read input = .ok (frame, middle)) (more : FramesRead middle frames rest) :
      FramesRead input (frame :: frames) rest

namespace Session

/-- A response that is read is a run of the session over the frames of the stream. -/
theorem readResponse_run {maxBodyBytes streamId : Nat} (session : Session) (state : StreamState)
    (exchange : Exchange) (input : Bytes) {response : HttpResponse}
    {connection' : Http2Connection} {rest : Bytes}
    (hphase : session.phase = .reading streamId state exchange)
    (h : session.connection.readResponse maxBodyBytes streamId state input =
      .ok (response, connection', rest)) :
    ∃ frames, FramesRead input frames rest ∧
      Run.run (step maxBodyBytes) session (frames.map Action.frame) =
        { connection := connection', received := session.received ++ frames, phase := .idle } := by
  cases hread : Frame.read input with
  | error error =>
    rw [Http2Connection.readResponse_error hread] at h
    cases h
  | ok p =>
    obtain ⟨frame, middle⟩ := p
    rw [Http2Connection.readResponse_frame hread] at h
    obtain ⟨⟨connection, state'⟩, hprocess, h⟩ := bind_eq_ok.mp h
    dsimp only at h
    have hstep := step_frame hphase hprocess
    unfold nextPhase at hstep
    split at h
    next hended =>
      rw [if_pos hended] at hstep
      cases hbuild : buildResponse state'.headers state'.body with
      | error error =>
        rw [hbuild] at h
        cases h
      | ok built =>
        rw [hbuild] at h hstep
        cases h
        exact ⟨[frame], .cons hread (.nil rest), hstep⟩
    next hended =>
      rw [if_neg hended] at hstep
      have hlt : middle.length < input.length := Frame.read_length_lt hread
      obtain ⟨frames, hframes, hrun⟩ := readResponse_run (session.step maxBodyBytes (.frame frame))
        state' (session.streamExchangeAfter connection exchange frame) middle (by rw [hstep])
        (by rw [hstep]; exact h)
      refine ⟨frame :: frames, .cons hread hframes, ?_⟩
      rw [List.map_cons, Run.run_cons, hrun, hstep, List.append_assoc]
      rfl
termination_by input.length

/-- A request that is answered is a run of the session: the request, and the
frames of the response. -/
theorem sendRequest_run {maxBodyBytes : Nat} {session : Session} (hidle : session.phase = .idle)
    {request : HttpRequest} {input rest : Bytes} {response : HttpResponse}
    {connection' : Http2Connection}
    (h : session.connection.sendRequest maxBodyBytes request input =
      .ok (response, connection', rest)) :
    ∃ frames, FramesRead input frames rest ∧
      Run.run (step maxBodyBytes) session (.request request :: frames.map Action.frame) =
        { connection := connection', received := session.received ++ frames, phase := .idle } := by
  obtain ⟨⟨connection, streamId⟩, hstart, h⟩ := bind_eq_ok.mp h
  have hstep := step_request maxBodyBytes hidle hstart
  obtain ⟨frames, hframes, hrun⟩ := readResponse_run
    (session.step maxBodyBytes (.request request)) .default
    { sent := connection.written.drop session.connection.written.length, received := [] } input
    (by rw [hstep]) (by rw [hstep]; exact h)
  refine ⟨frames, hframes, ?_⟩
  rw [Run.run_cons, hrun, hstep]

end Session

end Omoikane.Http
