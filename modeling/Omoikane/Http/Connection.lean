import Omoikane.Base.Table
import Omoikane.Http.Request

/-!
# Connections

The pool keeps at most one HTTP/2 and one HTTP/1.1 session for each origin and
tries them before it opens a new connection.  What the network does in a call is
given by a `Network`: the outcome of every operation the call may perform.

The sessions themselves are parameters.  An attempt says whether the session
wrote the complete request, and what it returned.
-/

namespace Omoikane.Http

open Base

/-! ## Reuse of an HTTP/1.1 connection -/

/-- The last coding of a `Transfer-Encoding` value. -/
def lastTransferCoding (value : Text) : Option Text :=
  ((value.splitOn ',').getLast?).map Text.trim

/-- `can_reuse_http1_connection`. -/
def canReuseHttp1Connection (request : HttpRequest) (response : HttpResponse) : Bool :=
  let encodings := headersNamed response.headers "transfer-encoding".toList
  let lengths := headersNamed response.headers "content-length".toList
  if (headersNamed response.headers "connection".toList).any fun header =>
      (header.2.splitOn ',').any fun token =>
        Text.eqIgnoreAsciiCase (Text.trim token) "close".toList then false
  else if encodings ≠ [] && lengths ≠ [] then false
  else if response.statusCode = 101 then false
  else if request.method = .head || [204, 304].contains response.statusCode then true
  else match encodings.getLast? with
    | some header =>
      (lastTransferCoding header.2).any fun coding =>
        Text.eqIgnoreAsciiCase coding "chunked".toList
    | none => lengths ≠ []

/-! ## The pool -/

/-- One transmission of a request on one session. -/
structure Attempt where
  /-- The session has written the complete request. -/
  delivered : Bool
  result : Except HttpParseError HttpResponse

/-- The session a request is transmitted on. -/
inductive Carrier where
  | plain
  | pooledHttp2
  | pooledHttp1
  | newHttp2
  | newHttp1
deriving DecidableEq, Repr

/-- A transmission, as a trace of a call records it. -/
structure Transmission where
  carrier : Carrier
  attempt : Attempt

/-- The sessions kept for reuse, `S₂` over HTTP/2 and `S₁` over HTTP/1.1. -/
structure ConnectionPool (S₂ S₁ : Type) where
  http2 : Table Text S₂
  http1 : Table Text S₁

/-- What the network does in one call of `send_with_timeout`.  A session that
attempts a transmission changes its state. -/
structure Network (S₂ S₁ : Type) where
  /-- `connect_stream_with_timeout`, for each new connection in order. -/
  connect : Except HttpParseError Unit
  reconnect : Except HttpParseError Unit
  /-- `set_timeout` of a session. -/
  timeout₂ : S₂ → Except HttpParseError Unit
  timeout₁ : S₁ → Except HttpParseError Unit
  /-- `send_request` of a session. -/
  send₂ : S₂ → HttpRequest → Attempt × S₂
  send₁ : S₁ → HttpRequest → Attempt × S₁
  /-- `connect_session`: the protocol the server negotiated. -/
  connectSession : Except HttpParseError (S₂ ⊕ S₁)
  /-- `connect_http1_session`. -/
  connectHttp1Session : Except HttpParseError S₁
  /-- `send_over_tcp`. -/
  sendOverTcp : HttpRequest → Attempt

namespace ConnectionPool

variable {S₂ S₁ : Type}

/-- What a call returns, the pool it leaves, and its transmissions in order. -/
structure Outcome (S₂ S₁ : Type) where
  result : Except HttpParseError HttpResponse
  pool : ConnectionPool S₂ S₁
  trace : List Transmission

/-- The outcome with earlier transmissions in front. -/
def Outcome.after (outcome : Outcome S₂ S₁) (trace : List Transmission) : Outcome S₂ S₁ :=
  { outcome with trace := trace ++ outcome.trace }

/-- The key of a session. -/
def sessionKey (request : HttpRequest) (insecure : Bool) : Text :=
  request.url.authority ++ "|".toList ++ (toString insecure).toList ++ "|".toList ++
    (toString request.requirePublicIp).toList

/-- The first transmission on a new HTTP/1.1 session, which is kept if it can be reused. -/
def openHttp1 (pool : ConnectionPool S₂ S₁) (network : Network S₂ S₁) (session : S₁)
    (request : HttpRequest) (key : Text) : Outcome S₂ S₁ :=
  let (attempt, session) := network.send₁ session request
  let trace := [{ carrier := .newHttp1, attempt }]
  match attempt.result with
  | .error error => { result := .error error, pool, trace }
  | .ok response =>
    if canReuseHttp1Connection request response then
      { result := .ok response
        pool := { pool with http1 := pool.http1.insert key session }
        trace }
    else { result := .ok response, pool, trace }

/-- `send_new_http1`. -/
def sendNewHttp1 (pool : ConnectionPool S₂ S₁) (network : Network S₂ S₁) (request : HttpRequest)
    (key : Text) : Outcome S₂ S₁ :=
  match network.reconnect with
  | .error error => { result := .error error, pool, trace := [] }
  | .ok () =>
    match network.connectHttp1Session with
    | .error error => { result := .error error, pool, trace := [] }
    | .ok session => pool.openHttp1 network session request key

/-- The first transmission on a new HTTP/2 session, which is kept after a response. -/
def openHttp2 (pool : ConnectionPool S₂ S₁) (network : Network S₂ S₁) (session : S₂)
    (request : HttpRequest) (key : Text) : Outcome S₂ S₁ :=
  let (attempt, session) := network.send₂ session request
  let trace := [{ carrier := .newHttp2, attempt }]
  match attempt.result with
  | .ok response =>
    { result := .ok response
      pool := { pool with http2 := pool.http2.insert key session }
      trace }
  | .error .invalidHeader => (pool.sendNewHttp1 network request key).after trace
  | .error error => { result := .error error, pool, trace }

/-- The last part of `send_with_timeout`: a new connection. -/
def sendNew (pool : ConnectionPool S₂ S₁) (network : Network S₂ S₁) (request : HttpRequest)
    (key : Text) : Outcome S₂ S₁ :=
  match network.connect with
  | .error error => { result := .error error, pool, trace := [] }
  | .ok () =>
    match network.connectSession with
    | .error error => { result := .error error, pool, trace := [] }
    | .ok (.inl session) => pool.openHttp2 network session request key
    | .ok (.inr session) => pool.openHttp1 network session request key

/-- A transmission on a pooled HTTP/1.1 session, which is dropped after a failure. -/
def reuseHttp1 (pool : ConnectionPool S₂ S₁) (network : Network S₂ S₁) (session : S₁)
    (request : HttpRequest) (key : Text) : Outcome S₂ S₁ :=
  let (attempt, session) := network.send₁ session request
  let trace := [{ carrier := .pooledHttp1, attempt }]
  let without := { pool with http1 := pool.http1.remove key }
  match attempt.result with
  | .ok response =>
    if canReuseHttp1Connection request response then
      { result := .ok response
        pool := { pool with http1 := pool.http1.insert key session }
        trace }
    else { result := .ok response, pool := without, trace }
  | .error _ => (without.sendNew network request key).after trace

/-- The middle part of `send_with_timeout`: a pooled HTTP/1.1 session. -/
def sendPooledHttp1 (pool : ConnectionPool S₂ S₁) (network : Network S₂ S₁)
    (request : HttpRequest) (key : Text) : Outcome S₂ S₁ :=
  match pool.http1.get key with
  | none => pool.sendNew network request key
  | some session =>
    match network.timeout₁ session with
    | .error error => { result := .error error, pool, trace := [] }
    | .ok () => pool.reuseHttp1 network session request key

/-- A transmission on a pooled HTTP/2 session, which is dropped after a failure. -/
def reuseHttp2 (pool : ConnectionPool S₂ S₁) (network : Network S₂ S₁) (session : S₂)
    (request : HttpRequest) (key : Text) : Outcome S₂ S₁ :=
  let (attempt, session) := network.send₂ session request
  let trace := [{ carrier := .pooledHttp2, attempt }]
  let without := { pool with http2 := pool.http2.remove key }
  match attempt.result with
  | .ok response =>
    { result := .ok response
      pool := { pool with http2 := pool.http2.insert key session }
      trace }
  | .error _ => (without.sendPooledHttp1 network request key).after trace

/-- `send_with_timeout`. -/
def sendWithTimeout (pool : ConnectionPool S₂ S₁) (network : Network S₂ S₁)
    (request : HttpRequest) (insecure : Bool) : Outcome S₂ S₁ :=
  if request.url.scheme ≠ "https".toList then
    match network.connect with
    | .error error => { result := .error error, pool, trace := [] }
    | .ok () =>
      let attempt := network.sendOverTcp request
      { result := attempt.result, pool, trace := [{ carrier := .plain, attempt }] }
  else
    let key := sessionKey request insecure
    match pool.http2.get key with
    | none => pool.sendPooledHttp1 network request key
    | some session =>
      match network.timeout₂ session with
      | .error error => { result := .error error, pool, trace := [] }
      | .ok () => pool.reuseHttp2 network session request key

end ConnectionPool

end Omoikane.Http
