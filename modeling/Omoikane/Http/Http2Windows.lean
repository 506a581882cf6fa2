import Omoikane.Http.Http2

/-!
# The windows of an HTTP/2 connection

What each function of a connection does to its windows, in terms of the frames
that are exchanged: the bytes of data and the increments that count for a window.
Data that is received is taken from the windows and put back at once, so it
leaves no trace in them (`Http2Connection.processFrame_processed`).
-/

namespace Omoikane.Http

open Base

/-! ## Accounts -/

/-- The frames two peers have exchanged, as the client sees it. -/
structure Exchange where
  sent : List Frame
  received : List Frame

/-- The frame is a data frame that counts for a window; the window of the
connection has id 0 and all data counts for it. -/
def Frame.counts (window : Nat) (frame : Frame) : Bool :=
  frame.frameType = .data && (window = 0 || frame.streamId = window)

/-- The bytes of data frames that count for a window. -/
def dataBytes (window : Nat) (frames : List Frame) : Nat :=
  ((frames.filter (Frame.counts window)).map fun frame => frame.payload.length).sum

/-- What a frame adds to a window. -/
def Frame.increment (window : Nat) (frame : Frame) : Nat :=
  if frame.frameType = .windowUpdate ∧ frame.streamId = window then
    (parseWindowIncrement frame.payload).toOption.getD 0
  else 0

/-- The increments of a window. -/
def increments (window : Nat) (frames : List Frame) : Nat :=
  (frames.map (Frame.increment window)).sum

/-- The credit the server holds for a window. -/
def Exchange.credit (window : Nat) (exchange : Exchange) : Int :=
  defaultWindowSize - dataBytes window exchange.received + increments window exchange.sent

@[simp] theorem dataBytes_append (window : Nat) (frames more : List Frame) :
    dataBytes window (frames ++ more) = dataBytes window frames + dataBytes window more := by
  simp [dataBytes]

@[simp] theorem increments_append (window : Nat) (frames more : List Frame) :
    increments window (frames ++ more) = increments window frames + increments window more := by
  simp [increments]

@[simp] theorem dataBytes_nil (window : Nat) : dataBytes window [] = 0 := rfl

@[simp] theorem increments_nil (window : Nat) : increments window [] = 0 := rfl

theorem dataBytes_singleton (window : Nat) (frame : Frame) :
    dataBytes window [frame] = if frame.counts window then frame.payload.length else 0 := by
  unfold dataBytes
  cases h : frame.counts window <;> simp [h]

theorem increments_singleton (window : Nat) (frame : Frame) :
    increments window [frame] = frame.increment window := by
  simp [increments]

/-- Frames without window updates grant nothing. -/
theorem increments_eq_zero {window : Nat} {frames : List Frame}
    (h : ∀ frame ∈ frames, frame.frameType ≠ .windowUpdate) : increments window frames = 0 := by
  induction frames with
  | nil => rfl
  | cons frame frames ih =>
    have hrest := ih fun other ho => h other (List.mem_cons_of_mem _ ho)
    have hframe : frame.increment window = 0 :=
      if_neg fun hu => h frame (List.mem_cons_self ..) hu.1
    show frame.increment window + increments window frames = 0
    omega

/-! ## What the functions of the connection do -/

namespace Http2Connection

theorem addToConnectionWindow_eq_ok {connection connection' : Http2Connection} {amount : Int}
    (h : connection.addToConnectionWindow amount = .ok connection') :
    connection' = { connection with
      connectionWindow := connection.connectionWindow + amount } := by
  obtain ⟨window, hwindow, h⟩ := bind_eq_ok.mp h
  cases h
  rw [checkedI32_eq_ok hwindow]

theorem addToStreamWindow_eq_ok {connection connection' : Http2Connection} {streamId : Nat}
    {amount : Int} (h : connection.addToStreamWindow streamId amount = .ok connection') :
    connection' = { connection with
      streamWindows := connection.streamWindows.insert streamId
        ((connection.streamWindows.get streamId).getD 0 + amount) } := by
  obtain ⟨window, hwindow, h⟩ := bind_eq_ok.mp h
  cases h
  rw [checkedI32_eq_ok hwindow]

/-- A change of the windows of the connection and of a stream, and of nothing else. -/
structure Changed (connection connection' : Http2Connection) (streamId : Nat)
    (amount streamAmount : Int) : Prop where
  connectionWindow : connection'.connectionWindow = connection.connectionWindow + amount
  streamWindow : ∀ window, connection.streamWindows.get streamId = some window →
    connection'.streamWindows.get streamId = some (window + streamAmount)
  nextStreamId : connection'.nextStreamId = connection.nextStreamId
  written : connection'.written = connection.written

theorem Changed.refl (connection : Http2Connection) (streamId : Nat) :
    Changed connection connection streamId 0 0 := by
  refine ⟨(Int.add_zero _).symm, fun window hwindow => ?_, rfl, rfl⟩
  rw [Int.add_zero]
  exact hwindow

theorem Changed.trans {connection middle connection' : Http2Connection} {streamId : Nat}
    {a b c d : Int} (h : Changed connection middle streamId a b)
    (h' : Changed middle connection' streamId c d) :
    Changed connection connection' streamId (a + c) (b + d) := by
  refine ⟨?_, ?_, h'.nextStreamId.trans h.nextStreamId, h'.written.trans h.written⟩
  · rw [h'.connectionWindow, h.connectionWindow, Int.add_assoc]
  · intro window hwindow
    rw [h'.streamWindow _ (h.streamWindow window hwindow), Int.add_assoc]

theorem addToConnectionWindow_changed {connection connection' : Http2Connection} {amount : Int}
    (h : connection.addToConnectionWindow amount = .ok connection') (streamId : Nat) :
    Changed connection connection' streamId amount 0 := by
  rw [addToConnectionWindow_eq_ok h]
  exact ⟨rfl, fun window hwindow => by rw [Int.add_zero]; exact hwindow, rfl, rfl⟩

theorem addToStreamWindow_changed {connection connection' : Http2Connection} {streamId : Nat}
    {amount : Int} (h : connection.addToStreamWindow streamId amount = .ok connection') :
    Changed connection connection' streamId 0 amount := by
  rw [addToStreamWindow_eq_ok h]
  refine ⟨(Int.add_zero _).symm, fun window hwindow => ?_, rfl, rfl⟩
  rw [Table.get_insert_self, hwindow]
  rfl

theorem takeFromWindows_changed {connection connection' : Http2Connection}
    {streamId length : Nat} (h : connection.takeFromWindows streamId length = .ok connection')
    (hstream : (connection.streamWindows.get streamId).isSome) :
    Changed connection connection' streamId (-asI32 length) (-asI32 length) := by
  obtain ⟨middle, hmiddle, h⟩ := bind_eq_ok.mp h
  have hfirst := addToConnectionWindow_changed hmiddle streamId
  have hsome : (middle.streamWindows.get streamId).isSome := by
    obtain ⟨window, hwindow⟩ := Option.isSome_iff_exists.mp hstream
    rw [hfirst.streamWindow window hwindow]
    rfl
  rw [if_pos hsome] at h
  have hboth := hfirst.trans (addToStreamWindow_changed h)
  rwa [Int.add_zero, Int.zero_add] at hboth

theorem refreshFlowControl_changed {connection connection' : Http2Connection}
    {streamId length : Nat}
    (h : connection.refreshFlowControl streamId length = .ok connection') :
    Changed connection connection' streamId (asI32 length) (asI32 length) := by
  obtain ⟨middle, hmiddle, h⟩ := bind_eq_ok.mp h
  have hboth := (addToConnectionWindow_changed hmiddle streamId).trans (addToStreamWindow_changed h)
  rwa [Int.add_zero, Int.zero_add] at hboth

/-- What a frame does to the connection and to the response on a stream. -/
structure Processed (targetStreamId : Nat) (connection connection' : Http2Connection)
    (state state' : StreamState) (frame : Frame) : Prop where
  connectionWindow : connection'.connectionWindow =
    connection.connectionWindow + (increments 0 [frame] : Int)
  streamWindow : ∀ window, connection.streamWindows.get targetStreamId = some window →
    connection'.streamWindows.get targetStreamId =
      some (window + (increments targetStreamId [frame] : Int))
  nextStreamId : connection'.nextStreamId = connection.nextStreamId
  body : state'.body.length = state.body.length + dataBytes targetStreamId [frame]
  written : ∃ news, connection'.written = connection.written ++ news ∧
    ∀ frame ∈ news, frame.frameType = .settings

theorem parseWindowIncrement_lt {payload : Bytes} {increment : Nat}
    (h : parseWindowIncrement payload = .ok increment) : increment < 2 ^ 31 := by
  unfold parseWindowIncrement at h
  split at h
  · cases h
  · cases h
    exact Nat.mod_lt _ (by decide)

theorem addToWindow_changed {connection connection' : Http2Connection} {streamId : Nat}
    {amount : Int} (h : connection.addToWindow streamId amount = .ok connection')
    {targetStreamId : Nat} (htarget : targetStreamId ≠ 0) :
    Changed connection connection' targetStreamId (if streamId = 0 then amount else 0)
      (if streamId = targetStreamId then amount else 0) := by
  unfold addToWindow at h
  split at h
  next hzero =>
    subst hzero
    rw [if_pos rfl, if_neg (Ne.symm htarget)]
    exact addToConnectionWindow_changed h targetStreamId
  next hzero =>
    rw [if_neg hzero]
    split
    next heq =>
      subst heq
      exact addToStreamWindow_changed h
    next hne =>
      rw [addToStreamWindow_eq_ok h]
      refine ⟨(Int.add_zero _).symm, fun window hwindow => ?_, rfl, rfl⟩
      rw [Table.get_insert_of_ne _ (Ne.symm hne), Int.add_zero]
      exact hwindow

theorem Changed.processed {connection connection' : Http2Connection} {targetStreamId : Nat}
    {state state' : StreamState} {frame : Frame}
    (h : Changed connection connection' targetStreamId (increments 0 [frame] : Int)
      (increments targetStreamId [frame] : Int))
    (hbody : state'.body.length = state.body.length + dataBytes targetStreamId [frame]) :
    Processed targetStreamId connection connection' state state' frame :=
  ⟨h.connectionWindow, h.streamWindow, h.nextStreamId, hbody, [],
    by rw [h.written, List.append_nil], by simp⟩

/-- A frame that carries neither data for the stream nor an increment. -/
theorem processed_refl {connection : Http2Connection} {targetStreamId : Nat}
    {state state' : StreamState} {frame : Frame} (hbody : state'.body = state.body)
    (hdata : frame.counts targetStreamId = false) (hupdate : frame.frameType ≠ .windowUpdate) :
    Processed targetStreamId connection connection state state' frame := by
  have hzero : ∀ window, increments window [frame] = 0 := fun window =>
    increments_eq_zero fun other ho => by rw [List.mem_singleton.mp ho]; exact hupdate
  refine Changed.processed ?_ ?_
  · rw [hzero, hzero]
    exact Changed.refl connection targetStreamId
  · rw [hbody, dataBytes_singleton, hdata]
    rfl

theorem processFrame_processed {maxBodyBytes targetStreamId : Nat}
    {connection connection' : Http2Connection} {state state' : StreamState} {frame : Frame}
    (h : connection.processFrame maxBodyBytes targetStreamId state frame =
      .ok (connection', state'))
    (htarget : targetStreamId ≠ 0)
    (hstream : (connection.streamWindows.get targetStreamId).isSome) :
    Processed targetStreamId connection connection' state state' frame := by
  obtain ⟨frameType, flags, streamId, payload⟩ := frame
  cases frameType with
  | settings =>
    unfold processFrame at h
    dsimp only at h
    have hkeep : Processed targetStreamId connection connection state state
        ⟨.settings, flags, streamId, payload⟩ := processed_refl rfl rfl (by simp)
    split at h
    · cases h
      exact ⟨hkeep.connectionWindow, hkeep.streamWindow, rfl, hkeep.body,
        [settingsFrame 0x1], rfl, by simp [settingsFrame]⟩
    · cases h
      exact hkeep
  | headers =>
    unfold processFrame at h
    dsimp only at h
    split at h
    · obtain ⟨fields, -, h⟩ := bind_eq_ok.mp h
      cases h
      exact processed_refl rfl rfl (by simp)
    · cases h
      exact processed_refl rfl rfl (by simp)
  | data =>
    unfold processFrame at h
    dsimp only at h
    split at h
    next heq =>
      subst heq
      split at h
      · cases h
      · obtain ⟨middle, htake, h⟩ := bind_eq_ok.mp h
        obtain ⟨last, hrefresh, h⟩ := bind_eq_ok.mp h
        cases h
        have hboth := (takeFromWindows_changed htake hstream).trans
          (refreshFlowControl_changed hrefresh)
        -- what was taken is put back
        rw [Int.add_left_neg] at hboth
        exact hboth.processed (by simp [dataBytes_singleton, Frame.counts])
    next hne =>
      cases h
      exact processed_refl rfl (by simp [Frame.counts, htarget, hne]) (by simp)
  | windowUpdate =>
    unfold processFrame at h
    dsimp only at h
    cases hparse : parseWindowIncrement payload with
    | error error =>
      rw [hparse] at h
      cases h
    | ok increment =>
      rw [hparse] at h
      obtain ⟨last, hadd, h⟩ := bind_eq_ok.mp h
      cases h
      have hchanged := addToWindow_changed hadd htarget
      rw [asI32_of_lt (parseWindowIncrement_lt hparse)] at hchanged
      have hincrement : ∀ window, (increments window
          [⟨.windowUpdate, flags, streamId, payload⟩] : Int) =
          if streamId = window then (increment : Int) else 0 := by
        intro window
        rw [increments_singleton, Frame.increment, hparse]
        by_cases heq : streamId = window
        · rw [if_pos ⟨rfl, heq⟩, if_pos heq]
          rfl
        · rw [if_neg fun hu => heq hu.2, if_neg heq]
          rfl
      refine Changed.processed ?_ rfl
      rw [hincrement, hincrement]
      exact hchanged

/-- What opening a stream for a request does. -/
structure Started (connection connection' : Http2Connection) (streamId : Nat) : Prop where
  streamId_eq : streamId = connection.nextStreamId
  nextStreamId : connection'.nextStreamId = connection.nextStreamId + 2
  connectionWindow_nonneg : 0 ≤ connection.connectionWindow → 0 ≤ connection'.connectionWindow
  streamWindow_nonneg : ∀ window, connection'.streamWindows.get streamId = some window →
    0 ≤ window
  written : ∃ news, connection'.written = connection.written ++ news ∧
    (∀ frame ∈ news, frame.frameType ≠ .windowUpdate) ∧
    connection'.connectionWindow = connection.connectionWindow - dataBytes 0 news ∧
    connection'.streamWindows.get streamId = some (defaultWindowSize - dataBytes streamId news)

theorem writeData_started {connection connection' : Http2Connection} {streamId : Nat}
    {data : Bytes} {endStream : Bool}
    (h : connection.writeData streamId data endStream = .ok connection')
    (hwindow : connection.streamWindows.get streamId = some defaultWindowSize) :
    ∃ frame, connection'.written = connection.written ++ [frame] ∧
      frame.frameType ≠ .windowUpdate ∧
      connection'.nextStreamId = connection.nextStreamId ∧
      (0 ≤ connection.connectionWindow → 0 ≤ connection'.connectionWindow) ∧
      (dataBytes streamId [frame] : Int) ≤ defaultWindowSize ∧
      connection'.connectionWindow = connection.connectionWindow - dataBytes 0 [frame] ∧
      connection'.streamWindows.get streamId =
        some (defaultWindowSize - dataBytes streamId [frame]) := by
  unfold writeData at h
  dsimp only at h
  rw [hwindow] at h
  split at h
  · cases h
  next hle =>
    obtain ⟨middle, htake, h⟩ := bind_eq_ok.mp h
    cases h
    have hchanged := takeFromWindows_changed htake (by rw [hwindow]; rfl)
    have hlength : data.length < 2 ^ 31 := by
      simp only [Option.getD_some, defaultWindowSize] at hle
      omega
    rw [asI32_of_lt hlength] at hchanged
    refine ⟨_, congrArg (· ++ _) hchanged.written, by simp, hchanged.nextStreamId, ?_, ?_, ?_, ?_⟩
    · intro hnonneg
      show 0 ≤ middle.connectionWindow
      rw [hchanged.connectionWindow]
      simp only [Option.getD_some, defaultWindowSize] at hle
      omega
    · rw [dataBytes_singleton]
      simp only [Option.getD_some, defaultWindowSize] at hle ⊢
      simp only [Frame.counts]
      split <;> omega
    · rw [dataBytes_singleton]
      show middle.connectionWindow = _
      rw [hchanged.connectionWindow]
      simp [Frame.counts]
      omega
    · rw [dataBytes_singleton]
      show middle.streamWindows.get streamId = _
      rw [hchanged.streamWindow _ hwindow]
      simp [Frame.counts]
      omega

theorem startRequest_started {connection connection' : Http2Connection} {request : HttpRequest}
    {streamId : Nat} (h : connection.startRequest request = .ok (connection', streamId)) :
    Started connection connection' streamId := by
  have hpreface : ∃ news, connection.writePreface.written = connection.written ++ news ∧
      (∀ frame ∈ news, frame.frameType = .settings) ∧
      connection.writePreface.nextStreamId = connection.nextStreamId ∧
      connection.writePreface.connectionWindow = connection.connectionWindow := by
    unfold writePreface
    split
    · exact ⟨[], (List.append_nil _).symm, by simp, rfl, rfl⟩
    · exact ⟨[settingsFrame 0], rfl, by simp [settingsFrame], rfl, rfl⟩
  obtain ⟨news, hwritten, hnews, hnext, hwindow⟩ := hpreface
  have hzero : ∀ window, dataBytes window news = 0 := by
    intro window
    have hnone : news.filter (Frame.counts window) = [] := by
      rw [List.filter_eq_nil_iff]
      intro frame hframe
      simp [Frame.counts, hnews frame hframe]
    rw [dataBytes, hnone]
    rfl
  unfold startRequest at h
  dsimp only at h
  generalize connection.writePreface = begun at *
  have hopen : (begun.openStream request).streamWindows.get begun.nextStreamId =
      some defaultWindowSize := Table.get_insert_self ..
  obtain ⟨headers, hopened, hheaders⟩ : ∃ headers : Frame,
      (begun.openStream request).written = begun.written ++ [headers] ∧
        headers.frameType = .headers := ⟨_, rfl, rfl⟩
  have hcounts : ∀ window, headers.counts window = false := by
    intro window
    simp [Frame.counts, hheaders]
  have hframes : ∀ frame ∈ news ++ [headers], frame.frameType ≠ .windowUpdate := by
    intro frame hframe
    rcases List.mem_append.mp hframe with hm | hm
    · rw [hnews frame hm]
      decide
    · rw [List.mem_singleton.mp hm, hheaders]
      decide
  split at h
  · cases h
  · split at h
    · cases h
      refine ⟨hnext, ?_, ?_, ?_, news ++ [headers], ?_, hframes, ?_, ?_⟩
      · exact congrArg (· + 2) hnext
      · intro hnonneg
        show 0 ≤ begun.connectionWindow
        rw [hwindow]
        exact hnonneg
      · intro window hget
        rw [hopen] at hget
        cases hget
        decide
      · rw [hopened, hwritten, List.append_assoc]
      · rw [dataBytes_append, hzero, dataBytes_singleton, hcounts]
        show begun.connectionWindow = _
        simp [hwindow]
      · rw [dataBytes_append, hzero, dataBytes_singleton, hcounts, hopen]
        simp
    · obtain ⟨last, hdata, h⟩ := bind_eq_ok.mp h
      cases h
      obtain ⟨data, hlast, hdataType, hlastId, hlastNonneg, hdataLength, hlastWindow,
        hlastStream⟩ := writeData_started hdata hopen
      refine ⟨hnext, ?_, ?_, ?_, news ++ [headers] ++ [data], ?_, ?_, ?_, ?_⟩
      · rw [hlastId]
        exact congrArg (· + 2) hnext
      · intro hnonneg
        refine hlastNonneg ?_
        show 0 ≤ begun.connectionWindow
        rw [hwindow]
        exact hnonneg
      · intro window hget
        rw [hlastStream] at hget
        cases hget
        omega
      · rw [hlast, hopened, hwritten]
        simp only [List.append_assoc]
      · intro frame hframe
        rcases List.mem_append.mp hframe with hm | hm
        · exact hframes frame hm
        · rw [List.mem_singleton.mp hm]
          exact hdataType
      · rw [dataBytes_append, dataBytes_append, hzero, dataBytes_singleton 0 headers, hcounts,
          hlastWindow]
        show begun.connectionWindow - _ = _
        simp [hwindow]
      · rw [dataBytes_append, dataBytes_append, hzero, dataBytes_singleton _ headers, hcounts,
          hlastStream]
        simp

/-! ## Bounds -/

/-- The windows are below the end of their type. -/
structure Bounded (connection : Http2Connection) : Prop where
  connectionWindow : connection.connectionWindow < 2 ^ 31
  streamWindow : ∀ streamId window, connection.streamWindows.get streamId = some window →
    window < 2 ^ 31

theorem new_bounded : new.Bounded where
  connectionWindow := by decide
  streamWindow := fun _ _ h => by cases h

/-- Every window that is recorded meets a property. -/
structure Windows (P : Int → Prop) (connection : Http2Connection) : Prop where
  connectionWindow : P connection.connectionWindow
  streamWindow : ∀ streamId window, connection.streamWindows.get streamId = some window → P window

theorem new_windows {P : Int → Prop} (h : P defaultWindowSize) : new.Windows P where
  connectionWindow := h
  streamWindow := fun _ _ h => by cases h

theorem checkedI32_range {n m : Int} (h : checkedI32 n = .ok m) : -2 ^ 31 ≤ m ∧ m < 2 ^ 31 := by
  unfold checkedI32 at h
  split at h
  next hrange =>
    cases h
    exact hrange
  next => cases h

section

variable {connection connection' : Http2Connection} {P : Int → Prop}
  (hP : ∀ n : Int, -2 ^ 31 ≤ n ∧ n < 2 ^ 31 → P n)

theorem Windows.insert (h : connection.Windows P) {window : Int} (hwindow : P window)
    (streamId : Nat) :
    Windows P { connection with
      streamWindows := connection.streamWindows.insert streamId window } := by
  refine ⟨h.connectionWindow, fun id other hget => ?_⟩
  by_cases heq : id = streamId
  · subst heq
    rw [Table.get_insert_self] at hget
    cases hget
    exact hwindow
  · rw [Table.get_insert_of_ne _ heq] at hget
    exact h.streamWindow id other hget

theorem Windows.writeFrame (h : connection.Windows P) (frame : Frame) :
    (connection.writeFrame frame).Windows P := ⟨h.connectionWindow, h.streamWindow⟩

include hP

theorem addToConnectionWindow_windows {amount : Int} (hw : connection.Windows P)
    (h : connection.addToConnectionWindow amount = .ok connection') : connection'.Windows P := by
  obtain ⟨window, hwindow, h⟩ := bind_eq_ok.mp h
  cases h
  exact ⟨hP _ (checkedI32_range hwindow), hw.streamWindow⟩

theorem addToStreamWindow_windows {streamId : Nat} {amount : Int} (hw : connection.Windows P)
    (h : connection.addToStreamWindow streamId amount = .ok connection') :
    connection'.Windows P := by
  obtain ⟨window, hwindow, h⟩ := bind_eq_ok.mp h
  cases h
  exact hw.insert (hP _ (checkedI32_range hwindow)) streamId

theorem addToWindow_windows {streamId : Nat} {amount : Int} (hw : connection.Windows P)
    (h : connection.addToWindow streamId amount = .ok connection') : connection'.Windows P := by
  unfold addToWindow at h
  split at h
  · exact addToConnectionWindow_windows hP hw h
  · exact addToStreamWindow_windows hP hw h

theorem takeFromWindows_windows {streamId length : Nat} (hw : connection.Windows P)
    (h : connection.takeFromWindows streamId length = .ok connection') :
    connection'.Windows P := by
  obtain ⟨middle, hmiddle, h⟩ := bind_eq_ok.mp h
  have hfirst := addToConnectionWindow_windows hP hw hmiddle
  split at h
  · exact addToStreamWindow_windows hP hfirst h
  · cases h
    exact hfirst

theorem refreshFlowControl_windows {streamId length : Nat} (hw : connection.Windows P)
    (h : connection.refreshFlowControl streamId length = .ok connection') :
    connection'.Windows P := by
  obtain ⟨middle, hmiddle, h⟩ := bind_eq_ok.mp h
  exact addToStreamWindow_windows hP (addToConnectionWindow_windows hP hw hmiddle) h

theorem writeData_windows {streamId : Nat} {data : Bytes} {endStream : Bool}
    (hw : connection.Windows P)
    (h : connection.writeData streamId data endStream = .ok connection') :
    connection'.Windows P := by
  unfold writeData at h
  dsimp only at h
  split at h
  · cases h
  · obtain ⟨middle, htake, h⟩ := bind_eq_ok.mp h
    cases h
    exact (takeFromWindows_windows hP hw htake).writeFrame _

omit hP in
theorem Windows.writePreface (h : connection.Windows P) : connection.writePreface.Windows P := by
  unfold Http2Connection.writePreface
  split
  · exact h
  · exact ⟨h.connectionWindow, h.streamWindow⟩

theorem Windows.openStream (h : connection.Windows P) (request : HttpRequest) :
    (connection.openStream request).Windows P := by
  have hinsert := h.insert (hP defaultWindowSize (by decide)) connection.nextStreamId
  exact ⟨hinsert.connectionWindow, hinsert.streamWindow⟩

/-- Opening a stream records only values of the type. -/
theorem startRequest_windows {request : HttpRequest} {streamId : Nat}
    (hw : connection.Windows P)
    (h : connection.startRequest request = .ok (connection', streamId)) :
    connection'.Windows P := by
  have hopen := hw.writePreface.openStream hP request
  unfold startRequest at h
  dsimp only at h
  split at h
  · cases h
  · split at h
    · cases h
      exact hopen
    · obtain ⟨last, hdata, h⟩ := bind_eq_ok.mp h
      cases h
      exact writeData_windows hP hopen hdata

/-- A frame makes the connection record only values of the type. -/
theorem processFrame_windows {maxBodyBytes targetStreamId : Nat} {state state' : StreamState}
    {frame : Frame} (hw : connection.Windows P)
    (h : connection.processFrame maxBodyBytes targetStreamId state frame =
      .ok (connection', state')) : connection'.Windows P := by
  obtain ⟨frameType, flags, streamId, payload⟩ := frame
  unfold processFrame at h
  cases frameType with
  | settings =>
    dsimp only at h
    split at h
    · cases h
      exact hw.writeFrame _
    · cases h
      exact hw
  | headers =>
    dsimp only at h
    split at h
    · obtain ⟨fields, -, h⟩ := bind_eq_ok.mp h
      cases h
      exact hw
    · cases h
      exact hw
  | data =>
    dsimp only at h
    split at h
    · split at h
      · cases h
      · obtain ⟨middle, htake, h⟩ := bind_eq_ok.mp h
        obtain ⟨last, hrefresh, h⟩ := bind_eq_ok.mp h
        cases h
        exact refreshFlowControl_windows hP (takeFromWindows_windows hP hw htake) hrefresh
    · cases h
      exact hw
  | windowUpdate =>
    dsimp only at h
    split at h
    · cases h
    · obtain ⟨last, hadd, h⟩ := bind_eq_ok.mp h
      cases h
      exact addToWindow_windows hP hw hadd

end

theorem bounded_iff {connection : Http2Connection} :
    connection.Bounded ↔ connection.Windows (· < 2 ^ 31) :=
  ⟨fun h => ⟨h.connectionWindow, h.streamWindow⟩, fun h => ⟨h.connectionWindow, h.streamWindow⟩⟩

theorem startRequest_bounded {connection connection' : Http2Connection} {request : HttpRequest}
    {streamId : Nat} (hb : connection.Bounded)
    (h : connection.startRequest request = .ok (connection', streamId)) :
    connection'.Bounded :=
  bounded_iff.mpr (startRequest_windows (fun _ h => h.2) (bounded_iff.mp hb) h)

theorem processFrame_bounded {connection connection' : Http2Connection}
    {maxBodyBytes targetStreamId : Nat} {state state' : StreamState} {frame : Frame}
    (hb : connection.Bounded)
    (h : connection.processFrame maxBodyBytes targetStreamId state frame =
      .ok (connection', state')) : connection'.Bounded :=
  bounded_iff.mpr (processFrame_windows (fun _ h => h.2) (bounded_iff.mp hb) h)

end Http2Connection

end Omoikane.Http
