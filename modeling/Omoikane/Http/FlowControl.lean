import Omoikane.Http.Http2Session

/-!
# Flow control

The windows of a connection merge two things.  They start from what the server
grants the client, and the client takes what it sends from them and adds what the
server grants.  It also takes the data it receives, but puts it back at once,
without a word to the server.  So after a data frame they agree with the credit
the server holds exactly when the numbers happen to match
(`receive_windows_agree_iff`), and a server that keeps to its credit can send no
more than the default window on a connection.
-/

namespace Omoikane.Http

open Base

namespace Session

/-! ## Credit -/

/-- Within its credit a server can send no more than the default window. -/
theorem body_le_of_credit {streamId : Nat} {exchange : Exchange}
    (hgrants : GrantsNothing exchange) {frame : Frame}
    (h : (dataBytes streamId [frame] : Int) ≤ exchange.credit streamId) :
    (dataBytes streamId (exchange.received ++ [frame]) : Int) ≤ defaultWindowSize := by
  unfold Exchange.credit at h
  rw [increments_eq_zero hgrants] at h
  rw [dataBytes_append]
  push_cast
  omega

end Session

/-! ## Agreement -/

/-- After every frame a session has processed, the windows the client records for
the connection and for the stream agree with the credit the server holds if and
only if the data received and the increments received on that window amount to
the data sent on it.  The client never grants credit, so on a connection whose
server keeps to the windows there is no more data than the default window, and no
longer response body. -/
theorem receive_windows_agree_iff (maxBodyBytes : Nat) (actions : List Action)
    (session : Session) (hrun : session = Run.run (Session.step maxBodyBytes) Session.new actions)
    (streamId : Nat) (state : StreamState) (exchange : Exchange)
    (hphase : session.phase = .reading streamId state exchange)
    (frame : Frame) (connection' : Http2Connection) (state' : StreamState)
    (hprocess : session.connection.processFrame maxBodyBytes streamId state frame =
      .ok (connection', state')) :
    let whole := session.exchangeAfter connection' frame
    let stream := session.streamExchangeAfter connection' exchange frame
    (connection'.connectionWindow = whole.credit 0 ↔
      dataBytes 0 whole.received + increments 0 whole.received = dataBytes 0 whole.sent) ∧
    (connection'.streamWindows.get streamId = some (stream.credit streamId) ↔
      dataBytes streamId stream.received + increments streamId stream.received =
        dataBytes streamId stream.sent) ∧
    (Run.Along (Session.step maxBodyBytes) Session.WithinWindows Session.new
        (actions ++ [.frame frame]) →
      (dataBytes 0 whole.received : Int) ≤ defaultWindowSize ∧
        (state'.body.length : Int) ≤ defaultWindowSize) := by
  intro whole stream
  subst hrun
  have hsound := Session.run_sound maxBodyBytes actions
  have hafter := hsound.after hphase hprocess
  refine ⟨hafter.connectionWindow.eq_credit_iff hafter.grantsNothing, ?_, ?_⟩
  · obtain ⟨window, hget, hrecorded⟩ := hafter.streamWindow
    rw [← hrecorded.eq_credit_iff hafter.streamGrantsNothing, hget, Option.some_inj]
  · intro hwithin
    obtain ⟨-, hgrants, -, -⟩ := hsound.reading streamId state exchange hphase
    obtain ⟨hconnection, hstream⟩ : _ ∧ _ := by
      have hlast := (Run.along_append.mp hwithin).2.1
      unfold Session.WithinWindows at hlast
      rw [hphase] at hlast
      exact hlast
    refine ⟨Session.body_le_of_credit hsound.grantsNothing hconnection, ?_⟩
    rw [hafter.body]
    exact Session.body_le_of_credit hgrants hstream

/-! ## One byte of data -/

/-- A request without a body. -/
def plainRequest : HttpRequest := HttpRequest.new ⟨"omoikane".toList, "en".toList⟩ .get exampleRoot

/-- A header block with the status 200. -/
def statusFrame : Frame :=
  { frameType := .headers, flags := flagEndHeaders, streamId := 1, payload := [0x88] }

/-- The last data frame of a response, with one byte. -/
def byteFrame : Frame :=
  { frameType := .data, flags := flagEndStream, streamId := 1, payload := [0x61] }

/-- The fields of `statusFrame`. -/
def statusFields : List (Text × Text) := [(":status".toList, "200".toList)]

theorem decodeHeaderBlock_status : decodeHeaderBlock [0x88] = .ok statusFields := by
  have hfield : decodeField [0x88] 0 0x88 = .ok ((":status".toList, "200".toList), 1) := rfl
  rw [decodeHeaderBlock, decodeFields_field rfl hfield, decodeFields_end (Nat.le_refl 1)]
  rfl

/-- The connection after `plainRequest`. -/
def plainConnection : Http2Connection := Http2Connection.new.writePreface.openStream plainRequest

/-- The session after `plainRequest` and `statusFrame`. -/
def answered : Session where
  connection := plainConnection
  received := [statusFrame]
  phase := .reading 1 { headers := statusFields, body := [], ended := false } {
    sent := plainConnection.written
    received := [statusFrame] }

theorem startRequest_plainRequest :
    Http2Connection.new.startRequest plainRequest = .ok (plainConnection, 1) := rfl

theorem run_answered :
    Run.run (Session.step 16) Session.new [.request plainRequest, .frame statusFrame] =
      answered := by
  have hprocess : plainConnection.processFrame 16 1 .default statusFrame =
      .ok (plainConnection, { headers := statusFields, body := [], ended := false }) := by
    show (decodeHeaderBlock [0x88] >>= _) = _
    rw [decodeHeaderBlock_status]
    rfl
  rw [Run.run_cons, Session.step_request 16 rfl startRequest_plainRequest,
    Run.run_cons, Session.step_frame rfl hprocess]
  rfl

/-- The last byte is processed and leaves the windows as they were. -/
theorem processFrame_byteFrame :
    plainConnection.processFrame 16 1 { headers := statusFields, body := [], ended := false }
        byteFrame =
      .ok ({ plainConnection with streamWindows := [(1, 65535)] },
        { headers := statusFields, body := [0x61], ended := true }) := rfl

/-- A response of one byte. -/
theorem receive_windows_agree_iff_answered :
    let connection := { plainConnection with streamWindows := [(1, 65535)] }
    let whole := answered.exchangeAfter connection byteFrame
    connection.connectionWindow = whole.credit 0 ↔
      dataBytes 0 whole.received + increments 0 whole.received = dataBytes 0 whole.sent :=
  (receive_windows_agree_iff 16 [.request plainRequest, .frame statusFrame] answered
    run_answered.symm 1 _ _ rfl byteFrame _ _ processFrame_byteFrame).1

/-- A server that keeps to the windows has sent one byte, and its credit is one
byte less than the client has recorded, for the connection and for the stream. -/
theorem refreshed_window_unannounced :
    ∃ (actions : List Action) (session : Session) (streamId : Nat) (state state' : StreamState)
      (exchange : Exchange) (frame : Frame) (connection' : Http2Connection),
      session = Run.run (Session.step 16) Session.new actions ∧
      Run.Along (Session.step 16) Session.WithinWindows Session.new
        (actions ++ [.frame frame]) ∧
      session.phase = .reading streamId state exchange ∧
      session.connection.processFrame 16 streamId state frame = .ok (connection', state') ∧
      frame.frameType = .data ∧
      connection'.connectionWindow = 65535 ∧
      (session.exchangeAfter connection' frame).credit 0 = 65534 ∧
      connection'.streamWindows.get streamId = some 65535 ∧
      (session.streamExchangeAfter connection' exchange frame).credit streamId = 65534 := by
  refine ⟨[.request plainRequest, .frame statusFrame], answered, 1, _, _, _, byteFrame, _,
    run_answered.symm, ?_, rfl, processFrame_byteFrame, rfl, rfl, ?_, rfl, ?_⟩
  · refine Run.along_append.mpr ⟨⟨trivial, ?_, trivial⟩, ?_, trivial⟩
    · rw [Session.step_request 16 rfl startRequest_plainRequest]
      constructor <;> decide
    · rw [run_answered]
      constructor <;> decide
  · decide
  · decide

/-! ## Answered requests -/

/-- Requests answered one after another on a connection, and what is left of its stream. -/
inductive Answered (maxBodyBytes : Nat) :
    Http2Connection → Bytes → List HttpRequest → Http2Connection → Bytes → Prop where
  | nil (connection : Http2Connection) (input : Bytes) :
      Answered maxBodyBytes connection input [] connection input
  | cons {connection connection' connection'' : Http2Connection} {input middle rest : Bytes}
      {request : HttpRequest} {response : HttpResponse} {requests : List HttpRequest}
      (h : connection.sendRequest maxBodyBytes request input = .ok (response, connection', middle))
      (more : Answered maxBodyBytes connection' middle requests connection'' rest) :
      Answered maxBodyBytes connection input (request :: requests) connection'' rest

theorem FramesRead.append {input middle rest : Bytes} {frames more : List Frame}
    (h : FramesRead input frames middle) (hmore : FramesRead middle more rest) :
    FramesRead input (frames ++ more) rest := by
  induction h with
  | nil => exact hmore
  | cons h _ ih => exact .cons h (ih hmore)

namespace Session

/-- Frames that are read open no stream. -/
theorem run_frames_nextStreamId (maxBodyBytes : Nat) (frames : List Frame) {session : Session}
    (h : session.Sound) :
    (Run.run (step maxBodyBytes) session (frames.map Action.frame)).connection.nextStreamId =
      session.connection.nextStreamId := by
  induction frames generalizing session with
  | nil => rfl
  | cons frame frames ih =>
    rw [List.map_cons, Run.run_cons, ih (step_sound maxBodyBytes session (.frame frame) h)]
    cases hphase : session.phase with
    | idle | closed =>
      unfold step
      rw [hphase]
    | reading streamId state exchange =>
      cases hprocess : session.connection.processFrame maxBodyBytes streamId state frame with
      | error error =>
        unfold step
        rw [hphase]
        dsimp only
        rw [hprocess]
      | ok p =>
        rw [step_frame hphase hprocess]
        exact (h.after hphase hprocess).nextStreamId

/-- Each request opens the next stream of the client. -/
theorem step_request_nextStreamId (maxBodyBytes : Nat) {session : Session} {request : HttpRequest}
    {connection : Http2Connection} {streamId : Nat} (hidle : session.phase = .idle)
    (h : session.connection.startRequest request = .ok (connection, streamId)) :
    (session.step maxBodyBytes (.request request)).connection.nextStreamId =
      session.connection.nextStreamId + 2 := by
  rw [step_request maxBodyBytes hidle h]
  exact (Http2Connection.startRequest_started h).nextStreamId

end Session

/-- Requests that are answered are a run of the session, over the frames of the stream. -/
theorem Answered.run {maxBodyBytes : Nat} {session : Session} {requests : List HttpRequest}
    {connection : Http2Connection} {input rest : Bytes} (hidle : session.phase = .idle)
    (hsound : session.Sound)
    (h : Answered maxBodyBytes session.connection input requests connection rest) :
    ∃ frames actions, FramesRead input frames rest ∧
      Run.run (Session.step maxBodyBytes) session actions =
        { connection, received := session.received ++ frames, phase := .idle } ∧
      connection.nextStreamId = session.connection.nextStreamId + 2 * requests.length := by
  generalize hbegin : session.connection = begun at h
  induction h generalizing session with
  | nil =>
    refine ⟨[], [], .nil _, ?_, rfl⟩
    rw [← hbegin, List.append_nil, ← hidle]
    rfl
  | @cons _ connection' _ _ _ _ request _ requests h more ih =>
    rw [← hbegin] at h ⊢
    obtain ⟨frames, hframes, hrun⟩ := Session.sendRequest_run hidle h
    obtain ⟨⟨started, streamId⟩, hstart, -⟩ := bind_eq_ok.mp h
    have hnow := Session.step_sound maxBodyBytes session (.request request) hsound
    have hnext := Session.run_frames_nextStreamId maxBodyBytes frames hnow
    have hsound' := Run.invariant (Session.step_sound maxBodyBytes)
      (.request request :: frames.map Action.frame) hsound
    rw [Session.step_request_nextStreamId maxBodyBytes hidle hstart, ← Run.run_cons, hrun] at hnext
    rw [hrun] at hsound'
    have hnext : connection'.nextStreamId = session.connection.nextStreamId + 2 := hnext
    obtain ⟨later, actions, hlater, hruns, hids⟩ := ih rfl hsound' rfl
    refine ⟨frames ++ later, .request request :: frames.map Action.frame ++ actions,
      hframes.append hlater, ?_, ?_⟩
    · rw [Run.run_append, hrun, hruns, List.append_assoc]
    · rw [hids, hnext, List.length_cons]
      omega

end Omoikane.Http
