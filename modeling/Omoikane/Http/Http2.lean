import Omoikane.Base.Table
import Omoikane.Http.Hpack

/-!
# The HTTP/2 connection

Requests run on a connection one after another.  A connection is dropped after
an error, so functions return the connection only when they succeed.  Written
frames are kept in the connection; the preface in front of them is left out.
Writes succeed.

The windows are `i32` values, and sums that leave the type are `overflow`.
-/

namespace Omoikane.Http

open Base

/-- `DEFAULT_WINDOW_SIZE`. -/
def defaultWindowSize : Int := 65535

/-- The value of an `i32` with the low bits of a number (`as i32`). -/
def asI32 (n : Nat) : Int :=
  if n % 2 ^ 32 < 2 ^ 31 then (n % 2 ^ 32 : Nat) else (n % 2 ^ 32 : Nat) - 2 ^ 32

theorem asI32_of_lt {n : Nat} (h : n < 2 ^ 31) : asI32 n = n := by
  have hmod : n % 2 ^ 32 = n := Nat.mod_eq_of_lt (by omega)
  rw [asI32, hmod, if_pos h]

/-- An `i32` result. -/
def checkedI32 (n : Int) : Except Http2Error Int :=
  if -2 ^ 31 ≤ n ∧ n < 2 ^ 31 then .ok n else .error .overflow

theorem checkedI32_eq_ok {n m : Int} (h : checkedI32 n = .ok m) : m = n := by
  unfold checkedI32 at h
  split at h
  · cases h
    rfl
  · cases h

theorem checkedI32_of_range {n : Int} (h : -2 ^ 31 ≤ n ∧ n < 2 ^ 31) : checkedI32 n = .ok n :=
  if_pos h

/-- The response read so far on a stream. -/
structure StreamState where
  headers : List (Text × Text)
  body : Bytes
  ended : Bool

/-- `StreamState::default`. -/
def StreamState.default : StreamState := { headers := [], body := [], ended := false }

/-- An HTTP/2 connection. -/
structure Http2Connection where
  nextStreamId : Nat
  connectionWindow : Int
  streamWindows : Table Nat Int
  initialized : Bool
  written : List Frame

/-- The pseudo-field of the status. -/
def isStatusField (header : Text × Text) : Bool := header.1 = ":status".toList

/-- The status of a header list: the last one counts, also when it is no number. -/
def statusOf (headers : List (Text × Text)) : Option Nat :=
  (headers.filter isStatusField).getLast?.bind fun header =>
    Text.parseUnsigned (2 ^ 16 - 1) header.2

/-- `build_response`. -/
def buildResponse (headers : List (Text × Text)) (body : Bytes) :
    Except HttpParseError HttpResponse :=
  match statusOf headers with
  | none => .error .invalidStatusCode
  | some statusCode =>
    .ok (.new statusCode [] (headers.filter fun header => !isStatusField header) body)

/-- `parse_window_increment`. -/
def parseWindowIncrement (payload : Bytes) : Except HttpParseError Nat :=
  if payload.length ≠ 4 then .error .invalidHeader
  else .ok (Bytes.toNatBe payload % 2 ^ 31)

namespace Http2Connection

/-- `new`. -/
def new : Http2Connection where
  nextStreamId := 1
  connectionWindow := defaultWindowSize
  streamWindows := []
  initialized := false
  written := []

/-- `write_frame`. -/
def writeFrame (connection : Http2Connection) (frame : Frame) : Http2Connection :=
  { connection with written := connection.written ++ [frame] }

/-- The window of a stream changed by an amount, from zero if there is none. -/
def addToStreamWindow (connection : Http2Connection) (streamId : Nat) (amount : Int) :
    Except Http2Error Http2Connection := do
  let window ← checkedI32 ((connection.streamWindows.get streamId).getD 0 + amount)
  return { connection with streamWindows := connection.streamWindows.insert streamId window }

/-- The window of the connection changed by an amount. -/
def addToConnectionWindow (connection : Http2Connection) (amount : Int) :
    Except Http2Error Http2Connection := do
  let window ← checkedI32 (connection.connectionWindow + amount)
  return { connection with connectionWindow := window }

/-- A window changed by an amount: that of the connection, which has id 0, or of a stream. -/
def addToWindow (connection : Http2Connection) (streamId : Nat) (amount : Int) :
    Except Http2Error Http2Connection :=
  if streamId = 0 then connection.addToConnectionWindow amount
  else connection.addToStreamWindow streamId amount

/-- Data taken from both windows; a stream without a window has none to take from. -/
def takeFromWindows (connection : Http2Connection) (streamId length : Nat) :
    Except Http2Error Http2Connection := do
  let connection ← connection.addToConnectionWindow (-asI32 length)
  if (connection.streamWindows.get streamId).isSome then
    connection.addToStreamWindow streamId (-asI32 length)
  else return connection

/-- `write_data`. -/
def writeData (connection : Http2Connection) (streamId : Nat) (data : Bytes) (endStream : Bool) :
    Except Http2Error Http2Connection := do
  let streamWindow := (connection.streamWindows.get streamId).getD defaultWindowSize
  let allowed := (max (min connection.connectionWindow streamWindow) 0).toNat
  if allowed < data.length then throw (.http (.io .other))
  else
    let connection ← connection.takeFromWindows streamId data.length
    return connection.writeFrame {
      frameType := .data
      flags := if endStream then flagEndStream else 0
      streamId
      payload := data }

/-- `refresh_flow_control`. -/
def refreshFlowControl (connection : Http2Connection) (streamId increment : Nat) :
    Except Http2Error Http2Connection := do
  let connection ← connection.addToConnectionWindow (asI32 increment)
  connection.addToStreamWindow streamId (asI32 increment)

/-- The frame with the empty settings, or the frame that acknowledges settings. -/
def settingsFrame (flags : UInt8) : Frame :=
  { frameType := .settings, flags, streamId := 0, payload := [] }

/-- The settings before the first request. -/
def writePreface (connection : Http2Connection) : Http2Connection :=
  if connection.initialized then connection
  else { connection.writeFrame (settingsFrame 0) with initialized := true }

/-- The next stream, opened with the header block of a request. -/
def openStream (connection : Http2Connection) (request : HttpRequest) : Http2Connection :=
  let streamId := connection.nextStreamId
  let opened := { connection with
    nextStreamId := streamId + 2
    streamWindows := connection.streamWindows.insert streamId defaultWindowSize }
  opened.writeFrame {
    frameType := .headers
    flags := flagEndHeaders ||| if request.body.isNone then flagEndStream else 0
    streamId
    payload := encodeRequest request }

/-- The first part of `send_request`: what is written, and the stream of the response. -/
def startRequest (connection : Http2Connection) (request : HttpRequest) :
    Except Http2Error (Http2Connection × Nat) := do
  let connection := connection.writePreface
  let streamId := connection.nextStreamId
  if 2 ^ 32 ≤ streamId + 2 then throw .overflow
  else match request.body with
    | none => return (connection.openStream request, streamId)
    | some body =>
      let connection ← (connection.openStream request).writeData streamId body true
      return (connection, streamId)

/-- The body of the loop of `read_response`. -/
def processFrame (maxBodyBytes targetStreamId : Nat) (connection : Http2Connection)
    (state : StreamState) (frame : Frame) :
    Except Http2Error (Http2Connection × StreamState) := do
  let ended := state.ended || frame.flags &&& flagEndStream ≠ 0
  match frame.frameType with
  | .settings =>
    if frame.flags &&& 0x1 = 0 then return (connection.writeFrame (settingsFrame 0x1), state)
    else return (connection, state)
  | .headers =>
    if frame.streamId = targetStreamId then
      let fields ← decodeHeaderBlock frame.payload
      return (connection, { state with headers := state.headers ++ fields, ended })
    else return (connection, state)
  | .data =>
    if frame.streamId = targetStreamId then
      if maxBodyBytes - state.body.length < frame.payload.length then
        throw (.http .bodyTooLarge)
      else
        let connection ← connection.takeFromWindows targetStreamId frame.payload.length
        let connection ← connection.refreshFlowControl targetStreamId frame.payload.length
        return (connection, { state with body := state.body ++ frame.payload, ended })
    else return (connection, state)
  | .windowUpdate =>
    match parseWindowIncrement frame.payload with
    | .error error => throw (.http error)
    | .ok increment =>
      let connection ← connection.addToWindow frame.streamId (asI32 increment)
      return (connection, state)

/-- `read_response`, on the bytes that are still to come. -/
def readResponse (maxBodyBytes targetStreamId : Nat) (connection : Http2Connection)
    (state : StreamState) (input : Bytes) :
    Except Http2Error (HttpResponse × Http2Connection × Bytes) :=
  match h : Frame.read input with
  | .error error => .error (.http error)
  | .ok (frame, rest) =>
    match connection.processFrame maxBodyBytes targetStreamId state frame with
    | .error error => .error error
    | .ok (connection, state) =>
      if state.ended && state.headers ≠ [] then
        match buildResponse state.headers state.body with
        | .error error => .error (.http error)
        | .ok response => .ok (response, connection, rest)
      else readResponse maxBodyBytes targetStreamId connection state rest
termination_by input.length
decreasing_by exact Frame.read_length_lt h

/-- `send_request`. -/
def sendRequest (maxBodyBytes : Nat) (connection : Http2Connection) (request : HttpRequest)
    (input : Bytes) : Except Http2Error (HttpResponse × Http2Connection × Bytes) := do
  let (connection, streamId) ← connection.startRequest request
  connection.readResponse maxBodyBytes streamId .default input

/-- One frame of a response. -/
theorem readResponse_frame {maxBodyBytes targetStreamId : Nat} {connection : Http2Connection}
    {state : StreamState} {input rest : Bytes} {frame : Frame}
    (h : Frame.read input = .ok (frame, rest)) :
    readResponse maxBodyBytes targetStreamId connection state input =
      connection.processFrame maxBodyBytes targetStreamId state frame >>= fun p =>
        if p.2.ended && p.2.headers ≠ [] then
          match buildResponse p.2.headers p.2.body with
          | .error error => .error (.http error)
          | .ok response => .ok (response, p.1, rest)
        else readResponse maxBodyBytes targetStreamId p.1 p.2 rest := by
  rw [readResponse]
  split
  next heq =>
    rw [h] at heq
    cases heq
  next heq =>
    rw [h] at heq
    cases heq
    cases connection.processFrame maxBodyBytes targetStreamId state frame with
    | error error => rfl
    | ok p => rfl

theorem readResponse_error {maxBodyBytes targetStreamId : Nat} {connection : Http2Connection}
    {state : StreamState} {input : Bytes} {error : HttpParseError}
    (h : Frame.read input = .error error) :
    readResponse maxBodyBytes targetStreamId connection state input = .error (.http error) := by
  rw [readResponse]
  split
  next heq =>
    rw [h] at heq
    cases heq
    rfl
  next heq =>
    rw [h] at heq
    cases heq

end Http2Connection

end Omoikane.Http
