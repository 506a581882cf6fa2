import Omoikane.Http.FlowControl

/-!
# Window arithmetic

The windows are `i32` values that the client changes without a check.  Data never
takes them out of the type: what is sent is within both windows, and what is
received is taken from windows that are not negative and put back.  An increment
of the server does, when it brings a window to `2 ^ 31`.

A body is sent within what the server has granted on the connection.  The client
acknowledges the settings of the server without reading them, so it sends a body
within the window of the stream unless the settings made that window smaller.

`windows_in_range_iff` puts both together for every run.
-/

namespace Omoikane.Http

open Base

/-! ## What the server grants -/

/-- The settings of a payload, identifiers with values. -/
def settingsOf : Bytes → List (Nat × Nat)
  | a :: b :: c :: d :: e :: f :: more =>
    (Bytes.toNatBe [a, b], Bytes.toNatBe [c, d, e, f]) :: settingsOf more
  | _ => []

/-- The initial windows of streams that a frame sets (setting 4), in order. -/
def Frame.initialWindows (frame : Frame) : List Nat :=
  if frame.frameType = .settings ∧ frame.streamId = 0 ∧ frame.flags &&& 0x1 = 0 then
    ((settingsOf frame.payload).filter fun setting => setting.1 = 4).map Prod.snd
  else []

/-- The window the server grants to a new stream after some frames. -/
def initialWindow (received : List Frame) : Int :=
  match (received.flatMap Frame.initialWindows).getLast? with
  | some window => window
  | none => defaultWindowSize

/-- What the server has granted on the connection, less the data it was sent. -/
def Exchange.granted (exchange : Exchange) : Int :=
  defaultWindowSize - dataBytes 0 exchange.sent + increments 0 exchange.received

/-! ## The functions of the connection -/

namespace Http2Connection

/-- The window that an increment is for. -/
def windowOf (connection : Http2Connection) (streamId : Nat) : Int :=
  if streamId = 0 then connection.connectionWindow
  else (connection.streamWindows.get streamId).getD 0

section

variable {connection : Http2Connection} {streamId length : Nat} {window : Int}

theorem addToConnectionWindow_ok {amount : Int}
    (h : -2 ^ 31 ≤ connection.connectionWindow + amount ∧
      connection.connectionWindow + amount < 2 ^ 31) :
    connection.addToConnectionWindow amount =
      .ok { connection with connectionWindow := connection.connectionWindow + amount } := by
  unfold addToConnectionWindow
  rw [checkedI32_of_range h]
  rfl

theorem addToStreamWindow_ok {amount : Int}
    (h : -2 ^ 31 ≤ (connection.streamWindows.get streamId).getD 0 + amount ∧
      (connection.streamWindows.get streamId).getD 0 + amount < 2 ^ 31) :
    connection.addToStreamWindow streamId amount =
      .ok { connection with
        streamWindows := connection.streamWindows.insert streamId
          ((connection.streamWindows.get streamId).getD 0 + amount) } := by
  unfold addToStreamWindow
  rw [checkedI32_of_range h]
  rfl

/-- An increment leaves the type exactly when it brings the window to its end. -/
theorem addToWindow_overflow_iff (increment : Nat)
    (hlow : -2 ^ 31 ≤ connection.windowOf streamId) :
    connection.addToWindow streamId increment = .error .overflow ↔
      ¬ connection.windowOf streamId + increment < 2 ^ 31 := by
  unfold windowOf at hlow ⊢
  unfold addToWindow
  by_cases hzero : streamId = 0
  · simp only [if_pos hzero] at hlow ⊢
    by_cases hfits : connection.connectionWindow + increment < 2 ^ 31
    · rw [addToConnectionWindow_ok ⟨by omega, hfits⟩]
      exact ⟨fun h => (by cases h), fun h => absurd hfits h⟩
    · unfold addToConnectionWindow checkedI32
      rw [if_neg fun h => hfits h.2]
      exact ⟨fun _ => hfits, fun _ => rfl⟩
  · simp only [if_neg hzero] at hlow ⊢
    by_cases hfits : (connection.streamWindows.get streamId).getD 0 + increment < 2 ^ 31
    · rw [addToStreamWindow_ok ⟨by omega, hfits⟩]
      exact ⟨fun h => (by cases h), fun h => absurd hfits h⟩
    · unfold addToStreamWindow checkedI32
      rw [if_neg fun h => hfits h.2]
      exact ⟨fun _ => hfits, fun _ => rfl⟩

/-- Data within the type is taken from two windows that are not negative. -/
theorem takeFromWindows_ok (hlength : length < 2 ^ 31)
    (hconnection : 0 ≤ connection.connectionWindow ∧ connection.connectionWindow < 2 ^ 31)
    (hget : connection.streamWindows.get streamId = some window)
    (hwindow : 0 ≤ window ∧ window < 2 ^ 31) :
    connection.takeFromWindows streamId length = .ok { connection with
      connectionWindow := connection.connectionWindow - length
      streamWindows := connection.streamWindows.insert streamId (window - length) } := by
  unfold takeFromWindows
  rw [asI32_of_lt hlength, addToConnectionWindow_ok (by omega), ok_bind]
  dsimp only
  rw [hget, if_pos Option.isSome_some,
    addToStreamWindow_ok (by simp only [hget, Option.getD_some]; omega)]
  simp only [hget, Option.getD_some]
  rfl

/-- What was taken from the windows can be put back. -/
theorem refreshFlowControl_ok (connection : Http2Connection) (hlength : length < 2 ^ 31)
    (hconnection : -2 ^ 31 ≤ connection.connectionWindow ∧
      connection.connectionWindow + length < 2 ^ 31)
    (hget : connection.streamWindows.get streamId = some window)
    (hwindow : -2 ^ 31 ≤ window ∧ window + length < 2 ^ 31) :
    ∃ connection', connection.refreshFlowControl streamId length = .ok connection' := by
  unfold refreshFlowControl
  rw [asI32_of_lt hlength, addToConnectionWindow_ok (by omega), ok_bind,
    addToStreamWindow_ok (by simp only [hget, Option.getD_some]; omega)]
  exact ⟨_, rfl⟩

/-- Data on a fresh stream is written when both windows have room for it. -/
theorem writeData_fresh (connection : Http2Connection)
    (hconnection : 0 ≤ connection.connectionWindow ∧ connection.connectionWindow < 2 ^ 31)
    (hget : connection.streamWindows.get streamId = some defaultWindowSize) (data : Bytes)
    (endStream : Bool) :
    if (data.length : Int) ≤ min connection.connectionWindow defaultWindowSize then
      ∃ connection' frame, connection.writeData streamId data endStream = .ok connection' ∧
        connection'.written = connection.written ++ [frame] ∧ frame.frameType = .data ∧
        frame.payload = data
    else connection.writeData streamId data endStream = .error (.http (.io .other)) := by
  unfold writeData
  dsimp only
  rw [hget, Option.getD_some]
  by_cases hroom : (data.length : Int) ≤ min connection.connectionWindow defaultWindowSize
  · rw [if_pos hroom, if_neg (by omega), takeFromWindows_ok (by unfold defaultWindowSize at hroom; omega)
      hconnection hget (by decide), ok_bind]
    exact ⟨_, _, rfl, rfl, rfl, rfl⟩
  · rw [if_neg hroom, if_pos (by unfold defaultWindowSize at hroom ⊢; omega)]
    rfl

end

/-- The body of a request, which is empty where there is none. -/
abbrev bodyOf (request : HttpRequest) : Bytes := request.body.getD []

/-- A request is sent when stream ids are left and its body has room in both
windows; it is rejected without an overflow when there is no room. -/
theorem startRequest_cases {connection : Http2Connection} (request : HttpRequest)
    (hconnection : 0 ≤ connection.connectionWindow ∧ connection.connectionWindow < 2 ^ 31)
    (hid : ¬ 2 ^ 32 ≤ connection.nextStreamId + 2) :
    if ((bodyOf request).length : Int) ≤ min connection.connectionWindow defaultWindowSize then
      ∃ connection' news, connection.startRequest request =
          .ok (connection', connection.nextStreamId) ∧
        connection'.written = connection.written ++ news ∧
        dataBytes 0 news = (bodyOf request).length
    else connection.startRequest request = .error (.http (.io .other)) := by
  have hpreface : ∃ news, connection.writePreface.written = connection.written ++ news ∧
      dataBytes 0 news = 0 ∧ connection.writePreface.nextStreamId = connection.nextStreamId ∧
      connection.writePreface.connectionWindow = connection.connectionWindow := by
    unfold writePreface
    split
    · exact ⟨[], (List.append_nil _).symm, rfl, rfl, rfl⟩
    · exact ⟨[settingsFrame 0], rfl, by decide, rfl, rfl⟩
  obtain ⟨news, hwritten, hnews, hnext, hwindow⟩ := hpreface
  rw [← hwindow] at hconnection
  rw [← hnext] at hid
  rw [← hnext, ← hwindow]
  unfold startRequest
  dsimp only
  rw [if_neg hid]
  generalize connection.writePreface = begun at *
  have hget : (begun.openStream request).streamWindows.get begun.nextStreamId =
      some defaultWindowSize := Table.get_insert_self ..
  obtain ⟨headers, hopened, hheaders⟩ : ∃ headers : Frame,
      (begun.openStream request).written = begun.written ++ [headers] ∧
        dataBytes 0 [headers] = 0 := ⟨_, rfl, rfl⟩
  cases hbody : request.body with
  | none =>
    have hroom : (([] : Bytes).length : Int) ≤ min begun.connectionWindow defaultWindowSize := by
      have hpos : 0 ≤ defaultWindowSize := by decide
      simp only [List.length_nil]
      omega
    simp only [bodyOf, hbody, Option.getD_none, if_pos hroom]
    refine ⟨_, news ++ [headers], rfl, ?_, ?_⟩
    · rw [hopened, hwritten, List.append_assoc]
    · rw [dataBytes_append, hnews, hheaders]
      rfl
  | some body =>
    have hdata := writeData_fresh (begun.openStream request) hconnection hget body true
    simp only [bodyOf, hbody, Option.getD_some]
    by_cases hroom : (body.length : Int) ≤ min begun.connectionWindow defaultWindowSize
    · rw [if_pos (show (body.length : Int) ≤ min (begun.openStream request).connectionWindow
        defaultWindowSize from hroom)] at hdata
      obtain ⟨connection', frame, hdata, hframe, htype, hpayload⟩ := hdata
      rw [if_pos hroom, hdata]
      refine ⟨connection', news ++ [headers] ++ [frame], rfl, ?_, ?_⟩
      · rw [hframe, hopened, hwritten]
        simp only [List.append_assoc]
      · rw [dataBytes_append, dataBytes_append, hnews, hheaders, dataBytes_singleton]
        simp [Frame.counts, htype, hpayload]
    · rw [if_neg (show ¬ (body.length : Int) ≤ min (begun.openStream request).connectionWindow
        defaultWindowSize from hroom)] at hdata
      rw [if_neg hroom, hdata]
      rfl

end Http2Connection

/-! ## Sessions -/

theorem Frame.read_payload_lt {s rest : Bytes} {frame : Frame}
    (h : Frame.read s = .ok (frame, rest)) : frame.payload.length < 2 ^ 24 := by
  obtain ⟨⟨header, middle⟩, -, h⟩ := bind_eq_ok.mp h
  obtain ⟨frameType, -, h⟩ := bind_eq_ok.mp h
  obtain ⟨⟨payload, rest'⟩, hpayload, h⟩ := bind_eq_ok.mp h
  cases h
  have hlength := (Bytes.readExact_eq_some (readExact_eq_ok.mp hpayload)).2
  have hlt := Bytes.toNatBe_lt (header.take 3)
  have hpow : 256 ^ (header.take 3).length ≤ 256 ^ 3 :=
    Nat.pow_le_pow_right (by decide) (List.length_take_le ..)
  show payload.length < 2 ^ 24
  omega

/-- A frame that is read from the connection. -/
def Action.FromServer : Action → Prop
  | .request _ => True
  | .frame read => ∃ s rest, Frame.read s = .ok (read, rest)

namespace Session

/-- No addition or subtraction takes a window out of its type; header blocks are
decoded without any. -/
def InRange (maxBodyBytes : Nat) (session : Session) (action : Action) : Prop :=
  match session.phase, action with
  | .idle, .request request =>
    session.connection.nextStreamId + 2 < 2 ^ 32 →
      session.connection.startRequest request ≠ .error .overflow
  | .reading streamId state _, .frame frame =>
    frame.frameType ≠ .headers →
      session.connection.processFrame maxBodyBytes streamId state frame ≠ .error .overflow
  | _, _ => True

/-- A request sends no more data than the server has granted on the connection
and on the new stream. -/
def SendsGranted (session : Session) (action : Action) : Prop :=
  match session.phase, action with
  | .idle, .request request =>
    ∀ connection' streamId,
      session.connection.startRequest request = .ok (connection', streamId) →
      (dataBytes 0 (connection'.written.drop session.connection.written.length) : Int) ≤
        min session.exchange.granted (initialWindow session.received)
  | _, _ => True

/-- An increment leaves its window below the end of the type. -/
def KeepsBelow (session : Session) (action : Action) : Prop :=
  match session.phase, action with
  | .reading .., .frame frame =>
    frame.frameType = .windowUpdate →
      ∀ increment, parseWindowIncrement frame.payload = .ok increment →
        session.connection.windowOf frame.streamId + increment < 2 ^ 31
  | _, _ => True

/-- A body that has room in the windows of the client is within the initial
window of the server's settings. -/
def WithinSettings (session : Session) (action : Action) : Prop :=
  match session.phase, action with
  | .idle, .request request =>
    session.connection.nextStreamId + 2 < 2 ^ 32 →
      let length : Int := (Http2Connection.bodyOf request).length
      length ≤ min session.connection.connectionWindow defaultWindowSize →
        length ≤ initialWindow session.received
  | _, _ => True

/-- What the arithmetic relies on. -/
structure Sized (session : Session) : Prop where
  sound : session.Sound
  ready : session.Ready
  windows : session.connection.Windows fun window => -2 ^ 31 ≤ window

theorem new_sized : Sized new :=
  ⟨new_sound, new_ready, Http2Connection.new_windows (by decide)⟩

/-- A step records only values of the type. -/
theorem step_windows {P : Int → Prop} (hP : ∀ n : Int, -2 ^ 31 ≤ n ∧ n < 2 ^ 31 → P n)
    (maxBodyBytes : Nat) (session : Session) (action : Action)
    (h : session.connection.Windows P) : (session.step maxBodyBytes action).connection.Windows P := by
  obtain ⟨connection, received, phase⟩ := session
  cases phase with
  | closed => exact h
  | idle =>
    cases action with
    | frame frame => exact h
    | request request =>
      cases hstart : connection.startRequest request with
      | error error =>
        unfold step
        dsimp only
        rw [hstart]
        exact h
      | ok p =>
        rw [step_request maxBodyBytes rfl hstart]
        exact Http2Connection.startRequest_windows hP h hstart
  | reading streamId state exchange =>
    cases action with
    | request request => exact h
    | frame frame =>
      cases hprocess : connection.processFrame maxBodyBytes streamId state frame with
      | error error =>
        unfold step
        dsimp only
        rw [hprocess]
        exact h
      | ok p =>
        rw [step_frame rfl hprocess]
        exact Http2Connection.processFrame_windows hP h hprocess

theorem step_sized (maxBodyBytes : Nat) (session : Session) (action : Action)
    (h : session.Sized) : (session.step maxBodyBytes action).Sized :=
  ⟨step_sound maxBodyBytes session action h.sound,
    step_ready maxBodyBytes session action h.sound h.ready,
    step_windows (fun _ h => h.1) maxBodyBytes session action h.windows⟩

/-- A frame does not overflow the windows exactly when it is no increment that
brings a window to the end of its type. -/
theorem processFrame_overflow_iff (maxBodyBytes : Nat) {streamId : Nat}
    {connection : Http2Connection} {received : List Frame} {state : StreamState} {exchange : Exchange} {frame : Frame}
    (h : Sized ⟨connection, received, .reading streamId state exchange⟩)
    (hframe : Action.FromServer (.frame frame)) :
    (frame.frameType ≠ .headers →
        connection.processFrame maxBodyBytes streamId state frame ≠ .error .overflow) ↔
      (frame.frameType = .windowUpdate →
        ∀ increment, parseWindowIncrement frame.payload = .ok increment →
          connection.windowOf frame.streamId + increment < 2 ^ 31) := by
  obtain ⟨s, rest, hread⟩ := hframe
  have hpayload := Frame.read_payload_lt hread
  obtain ⟨frameType, flags, id, payload⟩ := frame
  dsimp only at hpayload ⊢
  unfold Http2Connection.processFrame
  cases frameType with
  | settings =>
    refine ⟨fun _ h => (by cases h), fun _ _ => ?_⟩
    dsimp only
    split <;> exact fun h => by cases h
  | headers => exact ⟨fun _ h => (by cases h), fun _ h => absurd rfl h⟩
  | data =>
    refine ⟨fun _ h => (by cases h), fun _ _ => ?_⟩
    obtain ⟨-, -, -, window, hget, -⟩ := h.sound.reading streamId state exchange rfl
    have hlow : 0 ≤ window := h.ready.reading streamId state exchange rfl window hget
    have hhigh : window < 2 ^ 31 := h.ready.bounded.streamWindow streamId window hget
    have hconnection : 0 ≤ connection.connectionWindow ∧ connection.connectionWindow < 2 ^ 31 :=
      ⟨h.ready.connectionWindow, h.ready.bounded.connectionWindow⟩
    dsimp only at hget ⊢
    split
    · split
      · exact fun h => by cases h
      · rw [Http2Connection.takeFromWindows_ok (by omega) hconnection hget ⟨hlow, hhigh⟩, ok_bind]
        -- what was taken is put back
        obtain ⟨connection', hrefresh⟩ := Http2Connection.refreshFlowControl_ok
          { connection with
            connectionWindow := connection.connectionWindow - payload.length
            streamWindows := connection.streamWindows.insert streamId (window - payload.length) }
          (show payload.length < 2 ^ 31 by omega)
          (show -2 ^ 31 ≤ connection.connectionWindow - (payload.length : Int) ∧
            connection.connectionWindow - (payload.length : Int) + payload.length < 2 ^ 31 by omega)
          (Table.get_insert_self connection.streamWindows streamId (window - payload.length))
          (by omega)
        rw [hrefresh]
        exact fun h => by cases h
    · exact fun h => by cases h
  | windowUpdate =>
    have hlow : -2 ^ 31 ≤ connection.windowOf id := by
      unfold Http2Connection.windowOf
      split
      · exact h.windows.connectionWindow
      · cases hget : connection.streamWindows.get id with
        | none => decide
        | some window => exact h.windows.streamWindow id window hget
    dsimp only
    cases hparse : parseWindowIncrement payload with
    | error error =>
      exact ⟨fun _ _ _ h => (by cases h), fun _ _ h => (by cases h)⟩
    | ok increment =>
      have hoverflow := Http2Connection.addToWindow_overflow_iff increment hlow
      dsimp only
      rw [asI32_of_lt (Http2Connection.parseWindowIncrement_lt hparse)]
      constructor
      · intro hfits _ other hother
        cases hother
        refine Classical.byContradiction fun hover => hfits (by decide) ?_
        rw [hoverflow.mpr hover]
        rfl
      · intro hfits _ hadd
        cases hresult : connection.addToWindow id increment with
        | ok connection' =>
          rw [hresult] at hadd
          cases hadd
        | error error =>
          rw [hresult] at hadd
          cases hadd
          exact hoverflow.mp hresult (hfits rfl increment rfl)

/-- A request does not overflow the windows, and it sends no more than is granted
exactly when the settings of the server leave its body enough room. -/
theorem startRequest_granted_iff {connection : Http2Connection} {received : List Frame}
    (h : Sized ⟨connection, received, .idle⟩) (request : HttpRequest) :
    (connection.nextStreamId + 2 < 2 ^ 32 → connection.startRequest request ≠ .error .overflow) ∧
      (SendsGranted ⟨connection, received, .idle⟩ (.request request) ↔
        WithinSettings ⟨connection, received, .idle⟩ (.request request)) := by
  have hconnection : 0 ≤ connection.connectionWindow ∧ connection.connectionWindow < 2 ^ 31 :=
    ⟨h.ready.connectionWindow, h.ready.bounded.connectionWindow⟩
  have hgranted : connection.connectionWindow =
      Exchange.granted { sent := connection.written, received } := h.sound.connectionWindow
  have hcases := Http2Connection.startRequest_cases request hconnection
  constructor
  · intro hid hoverflow
    have hcase := hcases (Nat.not_le_of_lt hid)
    split at hcase
    · obtain ⟨connection', news, hstart, -⟩ := hcase
      rw [hstart] at hoverflow
      cases hoverflow
    · rw [hcase] at hoverflow
      cases hoverflow
  · constructor
    · intro hsends hid
      dsimp only
      intro hroom
      have hcase := hcases (Nat.not_le_of_lt hid)
      rw [if_pos hroom] at hcase
      obtain ⟨connection', news, hstart, hwritten, hnews⟩ := hcase
      have hsent : (dataBytes 0 (connection'.written.drop connection.written.length) : Int) ≤
          min _ (initialWindow received) := hsends connection' _ hstart
      rw [hwritten, List.drop_left, hnews] at hsent
      exact Int.le_trans hsent (Int.min_le_right _ _)
    · intro hsettings connection' streamId hstart
      show (dataBytes 0 (connection'.written.drop connection.written.length) : Int) ≤
        min (Exchange.granted { sent := connection.written, received }) (initialWindow received)
      have hid : ¬ 2 ^ 32 ≤ connection.nextStreamId + 2 := by
        intro hle
        have hnext : connection.writePreface.nextStreamId = connection.nextStreamId := by
          unfold Http2Connection.writePreface
          split <;> rfl
        unfold Http2Connection.startRequest at hstart
        dsimp only at hstart
        rw [hnext, if_pos hle] at hstart
        cases hstart
      have hcase := hcases hid
      split at hcase
      next hroom =>
        obtain ⟨last, news, hlast, hwritten, hnews⟩ := hcase
        rw [hlast] at hstart
        cases hstart
        rw [hwritten, List.drop_left, hnews, ← hgranted]
        exact Int.le_min.mpr ⟨Int.le_trans hroom (Int.min_le_left _ _),
          hsettings (Nat.lt_of_not_le hid) hroom⟩
      next =>
        rw [hcase] at hstart
        cases hstart

end Session

/-- In every run over frames a server can send, no window leaves its type and no
request sends more than the server has granted, exactly when at every step an
increment stays below the end of the type, and a body that has room in the
client's windows has room in the initial window of the server's settings. -/
theorem windows_in_range_iff (maxBodyBytes : Nat) (actions : List Action)
    (h : ∀ action ∈ actions, action.FromServer) :
    Run.Along (Session.step maxBodyBytes)
        (fun session action => session.InRange maxBodyBytes action ∧ session.SendsGranted action)
        Session.new actions ↔
      Run.Along (Session.step maxBodyBytes)
        (fun session action => session.KeepsBelow action ∧ session.WithinSettings action)
        Session.new actions := by
  refine Run.along_congr (Session.step_sized maxBodyBytes) ?_ Session.new_sized h
  rintro ⟨connection, received, phase⟩ action hsized hserver
  cases phase with
  | idle =>
    cases action with
    | request request =>
      obtain ⟨hrange, hsends⟩ := Session.startRequest_granted_iff hsized request
      exact ⟨fun h => ⟨trivial, hsends.mp h.2⟩, fun h => ⟨hrange, hsends.mpr h.2⟩⟩
    | frame frame => exact Iff.rfl
  | reading streamId state exchange =>
    cases action with
    | request request => exact Iff.rfl
    | frame frame =>
      have hoverflow := Session.processFrame_overflow_iff maxBodyBytes hsized hserver
      exact ⟨fun h => ⟨hoverflow.mp h.1, trivial⟩, fun h => ⟨hoverflow.mpr h.1, trivial⟩⟩
  | closed => exact Iff.rfl

/-- A request without a body changes no window. -/
theorem windows_in_range_iff_plainRequest :
    Run.Along (Session.step 16)
      (fun session action => session.InRange 16 action ∧ session.SendsGranted action)
      Session.new [.request plainRequest] :=
  (windows_in_range_iff 16 [.request plainRequest] (by simp [Action.FromServer])).mpr
    ⟨⟨trivial, fun _ _ => by decide⟩, trivial⟩

/-- The largest increment, for the connection. -/
def largestUpdate : Frame :=
  { frameType := .windowUpdate, flags := 0, streamId := 0, payload := [0x7f, 0xff, 0xff, 0xff] }

/-- The largest increment takes the window of a new connection out of its type. -/
theorem windows_out_of_range :
    ¬ ∀ (maxBodyBytes : Nat) (actions : List Action), (∀ action ∈ actions, action.FromServer) →
      Run.Along (Session.step maxBodyBytes)
        (fun session action => session.InRange maxBodyBytes action ∧ session.SendsGranted action)
        Session.new actions := by
  intro h
  have hread : Action.FromServer (.frame largestUpdate) :=
    ⟨_, _, Frame.reads_encode ⟨by decide, by decide⟩ []⟩
  have halong := h 16 [.request plainRequest, .frame largestUpdate] (by
    intro action haction
    rcases List.mem_cons.mp haction with rfl | hlater
    · trivial
    · rw [List.mem_singleton.mp hlater]
      exact hread)
  have hlast := halong.2.1.1
  rw [Session.step_request 16 rfl startRequest_plainRequest] at hlast
  exact hlast (by decide) rfl

end Omoikane.Http
