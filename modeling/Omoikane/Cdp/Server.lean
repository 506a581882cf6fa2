import Omoikane.Base.Run
import Omoikane.Base.Table
import Omoikane.Base.Utf8
import Omoikane.Cdp.Transport

/-!
# The JSON-RPC server

The clients, handlers and pending responses of the CDP server, and its
operations.  What a handler returns is a part of the operation that calls it, so
a run stands for any handlers.  JSON text is parsed and printed by a crate.

An operation returns its result, the server and a report: of each frame that it
puts into the queue of a client, and of each request whose response it defers.
-/

/-!
## The upgrade handshake

The HTTP request with which a CDP client asks for a WebSocket, and the answer.
SHA-1 and Base64 are those of crates, so they are parameters.
-/

namespace Omoikane.Cdp

open Base

/-- A parsed HTTP upgrade request for the WebSocket handshake. -/
structure WebSocketUpgradeRequest where
  path : Text
  websocketKey : Text
deriving DecidableEq, Repr

/-- What the handshake uses of other crates. -/
structure Digests where
  /-- `Sha1::finalize` of the bytes. -/
  sha1 : Bytes → Bytes
  /-- `BASE64_STANDARD.encode`. -/
  base64 : Bytes → Text

/-- `WEBSOCKET_GUID`. -/
def websocketGuid : Text := "258EAFA5-E914-47DA-95CA-C5AB0DC85B11".toList

/-- `websocket_accept_key`. -/
def websocketAcceptKey (digests : Digests) (key : Text) : Text :=
  digests.base64 (digests.sha1 (Utf8.encode key ++ Utf8.encode websocketGuid))

/-- `split` at line ends. -/
def splitLines : Text → List Text
  | [] => [[]]
  | '\r' :: '\n' :: rest => [] :: splitLines rest
  | c :: rest =>
    match splitLines rest with
    | [] => [[c]]
    | line :: lines => (c :: line) :: lines

/-- The header fields of some lines; a later field of a name replaces an earlier one. -/
def headerFields (lines : List Text) : Except CdpError (Table Text Text) :=
  lines.foldlM (fun headers line =>
    match Text.splitOnce ':' line with
    | none => .error (.invalidHttpRequest "malformed header")
    | some (name, value) =>
      .ok (headers.insert (Text.toAsciiLowercase (Text.trim name)) (Text.trim value))) []

/-- `contains` of a text. -/
def containsText (s needle : Text) : Bool :=
  (List.range (s.length + 1)).any fun start => Text.startsWith (s.drop start) needle

/-- `parse_upgrade_request`. -/
def parseUpgradeRequest (request : Text) : Except CdpError WebSocketUpgradeRequest := do
  let lines := splitLines request
  let parts := Text.splitWhitespace (lines.headD [])
  let path := parts[1]?.getD []
  if parts[0]?.getD [] ≠ "GET".toList ∨ path = [] ∨ parts[2]?.getD [] ≠ "HTTP/1.1".toList then
    throw (.invalidHttpRequest "invalid request line")
  let headers ← headerFields (lines.tail.takeWhile (· ≠ []))
  let upgrade := (headers.get "upgrade".toList).any fun value =>
    Text.eqIgnoreAsciiCase value "websocket".toList
  let connection := (headers.get "connection".toList).any fun value =>
    containsText (Text.toAsciiLowercase value) "upgrade".toList
  match headers.get "sec-websocket-key".toList with
  | none => throw (.invalidHttpRequest "missing Sec-WebSocket-Key")
  | some websocketKey =>
    if !upgrade || !connection then
      throw (.invalidHttpRequest "missing websocket upgrade headers")
    if (headers.get "sec-websocket-version".toList).getD [] ≠ "13".toList then
      throw (.invalidHttpRequest "unsupported Sec-WebSocket-Version")
    return { path, websocketKey }

/-- The response that accepts an upgrade. -/
def upgradeResponse (digests : Digests) (request : WebSocketUpgradeRequest) : Text :=
  "HTTP/1.1 101 Switching Protocols\r\n".toList ++ "Upgrade: websocket\r\n".toList ++
    "Connection: Upgrade\r\n".toList ++ "Sec-WebSocket-Accept: ".toList ++
    websocketAcceptKey digests request.websocketKey ++ "\r\n\r\n".toList

end Omoikane.Cdp

namespace Omoikane.Cdp

open Base

/-! ## Messages -/

/-- An error of a handler. -/
structure JsonRpcError where
  code : Int
  message : Text
deriving DecidableEq, Repr

/-- A request; one without an id is a notification. -/
structure JsonRpcRequest where
  id : Option Json
  method : Text
  params : Json

/-- The response to a request. -/
structure JsonRpcResponse where
  id : Json
  result : Option Json
  error : Option JsonRpcError

namespace JsonRpcResponse

/-- `success`. -/
def success (id result : Json) : JsonRpcResponse := { id, result := some result, error := none }

/-- The response of a handler that failed. -/
def failure (id : Json) (error : JsonRpcError) : JsonRpcResponse :=
  { id, result := none, error := some error }

/-- `method_not_found`. -/
def methodNotFound (id : Json) (method : Text) : JsonRpcResponse :=
  failure id { code := -32601, message := "Method not found: ".toList ++ method }

/-- The response to what a handler returned. -/
def ofResult (id : Json) : Except JsonRpcError Json → JsonRpcResponse
  | .ok value => success id value
  | .error error => failure id error

/-- `to_json`. -/
def toJson (response : JsonRpcResponse) : Json :=
  match response.error with
  | some error => .object [
      ("jsonrpc".toList, .string "2.0".toList),
      ("id".toList, response.id),
      ("error".toList, .object [
        ("code".toList, .number (.integer error.code)),
        ("message".toList, .string error.message)])]
  | none => .object [
      ("jsonrpc".toList, .string "2.0".toList),
      ("id".toList, response.id),
      ("result".toList, response.result.getD .null)]

@[simp] theorem ofResult_id (id : Json) (result : Except JsonRpcError Json) :
    (ofResult id result).id = id := by
  cases result <;> rfl

end JsonRpcResponse

/-- What the server uses of other crates. -/
structure Crates where
  digests : Digests
  /-- `serde_json::from_slice`. -/
  parse : Bytes → Option Json
  /-- `serde_json::to_string`. -/
  print : Json → Option Bytes

/-- `parse_json_rpc_request`. -/
def parseJsonRpcRequest (crates : Crates) (payload : Bytes) : Except CdpError JsonRpcRequest :=
  match crates.parse payload with
  | none => .error (.invalidJsonRpc "message must be valid JSON")
  | some value =>
    match (value.get "method".toList).bind Json.asStr with
    | none => .error (.invalidJsonRpc "missing method")
    | some method =>
      .ok {
        id := value.get "id".toList
        method
        params := (value.get "params".toList).getD .null }

/-- `WebSocketFrame::text`, of a text that is bytes already. -/
def WebSocketFrame.text (payload : Bytes) : WebSocketFrame := { fin := true, opcode := .text, payload }

/-- `WebSocketFrame::pong`. -/
def WebSocketFrame.pong (payload : Bytes) : WebSocketFrame := { fin := true, opcode := .pong, payload }

/-! ## Handlers -/

/-- A registered closure. -/
abbrev Handler := Nat

/-- `CdpMethodResult`. -/
inductive CdpMethodResult where
  | complete (value : Json)
  | deferred

/-- What the handlers return when they are called. -/
structure Answers where
  plain : Handler → Json → Except JsonRpcError Json
  deferred : Handler → Nat → Json → Except JsonRpcError CdpMethodResult

/-! ## The server -/

/-- The client and the id of a request that waits for its response. -/
structure PendingResponse where
  clientId : Nat
  requestId : Json

/-- The state of the server.  A client is the queue of its outgoing frames. -/
structure CdpServer where
  nextClientId : Nat
  clients : Table Nat (List WebSocketFrame)
  handlers : Table Text Handler
  deferredHandlers : Table Text Handler
  nextDeferredToken : Nat
  pendingResponses : Table Nat PendingResponse

/-- What an operation reports. -/
inductive Event where
  /-- The response to a request, put into the queue of a client while it was received. -/
  | answered (client : Nat) (response : JsonRpcResponse) (frame : WebSocketFrame)
  /-- A request whose response will be completed later. -/
  | deferred (token client : Nat) (id : Json)
  /-- The response to a deferred request. -/
  | completed (token client : Nat) (response : JsonRpcResponse) (frame : WebSocketFrame)
  /-- Another frame. -/
  | pushed (client : Nat) (frame : WebSocketFrame)

/-- The result of an operation, what it leaves and what it reports. -/
structure Outcome (α : Type) where
  result : Except CdpError α
  server : CdpServer
  events : List Event

namespace CdpServer

/-- `new`. -/
def new : CdpServer where
  nextClientId := 0
  clients := []
  handlers := []
  deferredHandlers := []
  nextDeferredToken := 0
  pendingResponses := []

variable (crates : Crates) (server : CdpServer)

/-- An operation that fails and changes nothing. -/
def fail {α : Type} (error : CdpError) : Outcome α := { result := .error error, server, events := [] }

/-- `register_method`. -/
def registerMethod (method : Text) (handler : Handler) : CdpServer :=
  { server with
    deferredHandlers := server.deferredHandlers.remove method
    handlers := server.handlers.insert method handler }

/-- `register_deferred_method`. -/
def registerDeferredMethod (method : Text) (handler : Handler) : CdpServer :=
  { server with
    handlers := server.handlers.remove method
    deferredHandlers := server.deferredHandlers.insert method handler }

/-- `enqueue`. -/
def enqueue (client : Nat) (frame : WebSocketFrame) (event : Event) : Outcome Unit :=
  match server.clients.get client with
  | none => server.fail (.unknownClient client)
  | some outgoing =>
    { result := .ok ()
      server := { server with clients := server.clients.insert client (outgoing ++ [frame]) }
      events := [event] }

/-- `enqueue_response`. -/
def enqueueResponse (client : Nat) (response : JsonRpcResponse)
    (event : WebSocketFrame → Event) : Outcome Unit :=
  match crates.print response.toJson with
  | none => server.fail (.invalidJsonRpc "failed to serialize response")
  | some payload => server.enqueue client (.text payload) (event (.text payload))

/-- A response to the request that is being received. -/
def answer (client : Nat) (response : JsonRpcResponse) : Outcome Unit :=
  server.enqueueResponse crates client response (.answered client response)

/-- `complete_deferred_response`. -/
def completeDeferredResponse (token : Nat) (result : Except JsonRpcError Json) : Outcome Unit :=
  match server.pendingResponses.get token with
  | none => server.fail (.unknownDeferredRequest token)
  | some pending =>
    let response := JsonRpcResponse.ofResult pending.requestId result
    { server with pendingResponses := server.pendingResponses.remove token }.enqueueResponse
      crates pending.clientId response (.completed token pending.clientId response)

/-- `accept_upgrade`; a client id beyond `u64` panics. -/
def acceptUpgrade (request : Text) : Option (Outcome (Nat × Text)) :=
  match parseUpgradeRequest request with
  | .error error => some (server.fail error)
  | .ok request =>
    let clientId := server.nextClientId
    if clientId = 2 ^ 64 - 1 then none
    else some {
      result := .ok (clientId, upgradeResponse crates.digests request)
      server := { server with
        nextClientId := clientId + 1
        clients := server.clients.insert clientId [] }
      events := [] }

/-- A notification of a client. -/
def handleNotification (answers : Answers) (request : JsonRpcRequest) : Except CdpError Unit :=
  if (server.deferredHandlers.get request.method).isSome then
    .error (.invalidJsonRpc "deferred methods require a JSON-RPC id")
  else match server.handlers.get request.method with
    | none => .error (.methodNotFound request.method)
    | some handler =>
      match answers.plain handler request.params with
      | .ok _ => .ok ()
      | .error _ => .error (.invalidJsonRpc "notification handler failed")

/-- A request for a method that may defer its response. -/
def handleDeferred (answers : Answers) (client : Nat) (id : Json) (params : Json)
    (handler : Handler) : Outcome Unit :=
  let token := server.nextDeferredToken
  if token = 2 ^ 64 - 1 then server.fail .deferredTokenExhausted
  else
    let server := { server with nextDeferredToken := token + 1 }
    match answers.deferred handler token params with
    | .ok (.complete value) => server.answer crates client (.success id value)
    | .ok .deferred =>
      { result := .ok ()
        server := { server with
          pendingResponses := server.pendingResponses.insert token
            { clientId := client, requestId := id } }
        events := [.deferred token client id] }
    | .error error => server.answer crates client (.failure id error)

/-- A request with an id. -/
def handleRequest (answers : Answers) (client : Nat) (id : Json) (request : JsonRpcRequest) :
    Outcome Unit :=
  match server.deferredHandlers.get request.method with
  | some handler => server.handleDeferred crates answers client id request.params handler
  | none =>
    match server.handlers.get request.method with
    | some handler =>
      server.answer crates client (.ofResult id (answers.plain handler request.params))
    | none => server.answer crates client (.methodNotFound id request.method)

/-- `handle_text_frame`. -/
def handleTextFrame (answers : Answers) (client : Nat) (payload : Bytes) : Outcome Unit :=
  match parseJsonRpcRequest crates payload with
  | .error error => server.fail error
  | .ok request =>
    match request.id with
    | none => { result := server.handleNotification answers request, server, events := [] }
    | some id => server.handleRequest crates answers client id request

/-- The end of a client. -/
def closeClient (client : Nat) : CdpServer :=
  { server with
    clients := server.clients.remove client
    pendingResponses := server.pendingResponses.filter fun entry => entry.2.clientId ≠ client }

/-- `receive`. -/
def receive (answers : Answers) (client : Nat) (bytes : Bytes) : Outcome Unit :=
  if (server.clients.get client).isNone then server.fail (.unknownClient client)
  else match WebSocketFrame.decodeClient bytes with
    | .error error => server.fail error
    | .ok (frame, _) =>
      match frame.opcode with
      | .text => server.handleTextFrame crates answers client frame.payload
      | .ping =>
        server.enqueue client (.pong frame.payload) (.pushed client (.pong frame.payload))
      | .close => { result := .ok (), server := server.closeClient client, events := [] }
      | _ => server.fail (.invalidWebSocketFrame "only text, ping, and close are supported")

/-- `notify`. -/
def notify (method : Text) (params : Json) : Outcome Unit :=
  let message : Json := .object [
    ("jsonrpc".toList, .string "2.0".toList),
    ("method".toList, .string method),
    ("params".toList, params)]
  match crates.print message with
  | none => server.fail (.invalidJsonRpc "failed to serialize notification")
  | some payload =>
    { result := .ok ()
      server := { server with
        clients := server.clients.map fun client => (client.1, client.2 ++ [.text payload]) }
      events := server.clients.map fun client => .pushed client.1 (.text payload) }

/-- `drain_outgoing`. -/
def drainOutgoing (client : Nat) : Outcome (List WebSocketFrame) :=
  match server.clients.get client with
  | none => server.fail (.unknownClient client)
  | some outgoing =>
    { result := .ok outgoing
      server := { server with clients := server.clients.insert client [] }
      events := [] }

/-! ## Operations -/

/-- What can be asked of the server. -/
inductive Operation where
  | registerMethod (method : Text) (handler : Handler)
  | registerDeferredMethod (method : Text) (handler : Handler)
  | acceptUpgrade (request : Text)
  | receive (client : Nat) (bytes : Bytes) (answers : Answers)
  | completeDeferredResponse (token : Nat) (result : Except JsonRpcError Json)
  | notify (method : Text) (params : Json)
  | drainOutgoing (client : Nat)

/-- The server after an operation, and what the operation reports; one that panics
changes nothing. -/
def act : Operation → CdpServer × List Event
  | .registerMethod method handler => (server.registerMethod method handler, [])
  | .registerDeferredMethod method handler => (server.registerDeferredMethod method handler, [])
  | .acceptUpgrade request =>
    match server.acceptUpgrade crates request with
    | none => (server, [])
    | some outcome => (outcome.server, outcome.events)
  | .receive client bytes answers =>
    let outcome := server.receive crates answers client bytes
    (outcome.server, outcome.events)
  | .completeDeferredResponse token result =>
    let outcome := server.completeDeferredResponse crates token result
    (outcome.server, outcome.events)
  | .notify method params =>
    let outcome := server.notify crates method params
    (outcome.server, outcome.events)
  | .drainOutgoing client =>
    let outcome := server.drainOutgoing client
    (outcome.server, outcome.events)

/-- The server after an operation. -/
def step (operation : Operation) : CdpServer := (server.act crates operation).1

/-- What an operation reports. -/
def emits (operation : Operation) : List Event := (server.act crates operation).2

end CdpServer

end Omoikane.Cdp
