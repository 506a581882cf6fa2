import Omoikane.Http.Cors

/-!
# Fetching

`fetchWithPolicy` sends a request under a Fetch policy and follows its redirects.
Each turn of its loop is one `Hop`: the request, how it was cleared for sending,
and the exchange, unless the preflight was refused.
-/

namespace Omoikane.Http

open Base

/-- The hops of a fetch after the first, `MAX_REDIRECTS`. -/
def maxFetchRedirects : Nat := 10

/-- A COEP-induced CORP violation from one opaque response. -/
structure CorpViolation where
  blockedUrl : Text
  reportOnly : Bool
  enforced : Bool
deriving DecidableEq, Repr

/-- A fetched response. -/
structure FetchResponse where
  response : HttpResponse
  responseType : ResponseType
  redirected : Bool
deriving DecidableEq

/-- What a fetch is given beside its request. -/
structure FetchPolicy where
  origin : Origin
  mode : RequestMode
  credentials : CredentialsMode
  redirectMode : RedirectMode
  embedderPolicy : EmbedderPolicyValue
  reportOnlyEmbedderPolicy : EmbedderPolicyValue
  restrictRedirects : Bool
  /-- Checks a redirect target at a turn, with the number of redirects. -/
  checkRedirect : Option (Nat → Url → Nat → Bool)

/-- One turn of the loop. -/
structure Hop where
  request : HttpRequest
  clearance : Clearance
  dispatch : Option Dispatch

/-- What the fetch keeps up to date. -/
structure FetchState where
  request : HttpRequest
  redirected : Bool
  crossOriginSeen : Bool
  corsOrigin : Origin
  cache : PreflightCache
  violations : List CorpViolation
  world : World

/-- What a fetch returns, its hops, and what it leaves. -/
structure FetchRun where
  result : Except CorsError FetchResponse
  hops : List Hop
  cache : PreflightCache
  violations : List CorpViolation
  world : World

/-- What one turn of the loop comes to. -/
inductive HopOutcome where
  | done (run : FetchRun)
  /-- A redirect that is followed. -/
  | redirect (hop : Hop) (response : HttpResponse) (state : FetchState)

namespace FetchState

/-- The end of a fetch after some hops. -/
def finish (state : FetchState) (hops : List Hop) (result : Except CorsError FetchResponse) :
    FetchRun :=
  { result, hops, cache := state.cache, violations := state.violations, world := state.world }

end FetchState

/-- `redirected_request`. -/
def redirectedRequest (env : Environment) (request : HttpRequest) (status : Nat) (nextUrl : Url)
    (unrestrictedOrigin : Option Origin) : HttpRequest :=
  let previousOrigin := Origin.fromUrl request.url
  let nextOrigin := Origin.fromUrl nextUrl
  let method := redirectMethod status request.method
  let preserveBody := method == request.method
  let sameOrigin := previousOrigin == nextOrigin
  let requirePublicIp :=
    request.requirePublicIp || unrestrictedOrigin.any fun initial => initial ≠ nextOrigin
  let next := request.redirectedTo env method nextUrl requirePublicIp sameOrigin fun name =>
    copyHeaderOnRedirect name preserveBody sameOrigin
  next.copyBody request preserveBody

namespace FetchPolicy

variable (env : Environment) (policy : FetchPolicy)

/-- The request as this hop sends it. -/
def prepare (crossOriginSeen : Bool) (corsOrigin : Origin) (request : HttpRequest) : HttpRequest :=
  let request :=
    if !policy.origin.isSameOrigin request.url && policy.mode = .noCors then
      (corsUnsafeHeaderNames request).foldl HttpRequest.removeHeader request
    else request
  if policy.mode = .cors &&
      (crossOriginSeen || !(request.method = .get || request.method = .head)) then
    request.setHeader "Origin".toList corsOrigin.serialize
  else request

/-- Whether a hop sends and stores cookies. -/
def sendCredentials (crossOriginSeen : Bool) : Bool :=
  (match policy.credentials with
    | .omit => false
    | .sameOrigin => !crossOriginSeen
    | .include => true) &&
  !(policy.mode = .noCors && crossOriginSeen && policy.embedderPolicy = .credentialless)

/-- The preflight of a hop, where one may be needed. -/
def clear (state : FetchState) : Preflighted :=
  if state.crossOriginSeen && policy.mode = .cors then
    ensurePreflight env state.world state.request state.corsOrigin policy.credentials state.cache
  else { result := .ok (), clearance := .notNeeded, cache := state.cache, world := state.world }

/-- The CORP check of the response of a hop. -/
def checkCorp (state : FetchState) (response : HttpResponse) : PolicyCheck :=
  if policy.mode = .noCors && state.crossOriginSeen then
    checkResponse env.psl policy.origin state.request.url response.headers policy.embedderPolicy
      policy.reportOnlyEmbedderPolicy (policy.sendCredentials state.crossOriginSeen) false
  else { blocked := false, reportOnlyViolation := false, enforcedViolation := false }

/-- The violations a check adds. -/
def reported (initialUrl : Text) (check : PolicyCheck) : List CorpViolation :=
  if check.reportOnlyViolation || check.enforcedViolation then
    [{ blockedUrl := initialUrl
       reportOnly := check.reportOnlyViolation
       enforced := check.enforcedViolation }]
  else []

/-- The type of a response. -/
def responseType (crossOriginSeen : Bool) : ResponseType :=
  if crossOriginSeen && policy.mode = .noCors then .opaqueResponse
  else if crossOriginSeen && policy.mode = .cors then .cors
  else .basic

/-- The fetched response, with what is known of its request. -/
def fetched (state : FetchState) (response : HttpResponse) (redirectCount : Nat)
    (responseType : ResponseType) (redirected : Bool) : FetchResponse where
  response := { response with effectiveUrl := some state.request.url, redirectCount }
  responseType
  redirected

/-- What the response of a hop comes to. -/
def judge (redirectCount : Nat) (hop : Hop) (state : FetchState) (response : HttpResponse) :
    HopOutcome :=
  let checked :=
    if state.crossOriginSeen && policy.mode = .cors then
      corsCheck response state.corsOrigin policy.credentials
    else .ok ()
  match checked with
  | .error error => .done (state.finish [hop] (.error error))
  | .ok () =>
    if isRedirect response.statusCode then
      match policy.redirectMode with
      | .error => .done (state.finish [hop] (.error .redirect))
      | .manual =>
        .done (state.finish [hop] (.ok (fetched state response redirectCount .opaqueRedirect
          false)))
      | .follow => .redirect hop response state
    else
      .done (state.finish [hop] (.ok (fetched state response redirectCount
        (policy.responseType state.crossOriginSeen) state.redirected)))

/-- The part of a hop after its preflight. -/
def dispatch (initialUrl : Text) (redirectCount : Nat) (clearance : Clearance)
    (state : FetchState) : HopOutcome :=
  let (dispatch, world) :=
    state.world.sendOnce env state.request (policy.sendCredentials state.crossOriginSeen)
  let hop : Hop := { request := state.request, clearance, dispatch := some dispatch }
  let state := { state with world }
  match dispatch.reply with
  | .error error => .done (state.finish [hop] (.error (.ofExchange error)))
  | .ok response =>
    let check := policy.checkCorp env state response
    let state := { state with violations := state.violations ++ reported initialUrl check }
    if check.blocked then .done (state.finish [hop] (.error .corpCheck))
    else policy.judge redirectCount hop state response

/-- A redirect target that the caller refuses. -/
def refuses (redirectCount : Nat) (state : FetchState) : Bool :=
  redirectCount ≠ 0 && policy.checkRedirect.any fun check =>
    !check state.world.turn state.request.url redirectCount

/-- The state of a hop, with the cross-origin taint of its URL and its request prepared. -/
def enter (state : FetchState) : FetchState :=
  let crossOriginSeen := state.crossOriginSeen || !policy.origin.isSameOrigin state.request.url
  { state with
    crossOriginSeen
    request := policy.prepare crossOriginSeen state.corsOrigin state.request }

/-- One turn of the loop. -/
def hop (initialUrl : Text) (redirectCount : Nat) (state : FetchState) : HopOutcome :=
  if policy.refuses redirectCount state then .done (state.finish [] (.error .requestPolicy))
  else if !policy.origin.isSameOrigin state.request.url && policy.mode = .sameOrigin then
    .done (state.finish [] (.error .sameOriginMode))
  else
    let state := policy.enter state
    let preflighted := policy.clear env state
    let state := { state with cache := preflighted.cache, world := preflighted.world }
    match preflighted.result with
    | .error error =>
      .done (state.finish
        [{ request := state.request, clearance := preflighted.clearance, dispatch := none }]
        (.error error))
    | .ok () => policy.dispatch env initialUrl redirectCount preflighted.clearance state

/-- The state of the next hop: leaving an origin that is not the document's taints
the origin that is sent from then on. -/
def follow (unrestrictedOrigin : Option Origin) (state : FetchState) (response : HttpResponse)
    (nextUrl : Url) : FetchState :=
  { state with
    corsOrigin :=
      if !policy.origin.isSameOrigin state.request.url &&
          Origin.fromUrl state.request.url ≠ Origin.fromUrl nextUrl then .opaqueOrigin
      else state.corsOrigin
    request := redirectedRequest env state.request response.statusCode nextUrl unrestrictedOrigin
    redirected := true }

/-- The URL a redirect leads to. -/
def nextUrl (state : FetchState) (response : HttpResponse) : Except CorsError Url :=
  match response.header "location".toList with
  | none => .error .redirect
  | some location =>
    match resolveRedirectUrl env.crate state.request.url location with
    | .error error => .error (.network error)
    | .ok url => .ok url

/-- The loop of `fetch_with_policy`, with the redirects remaining. -/
def loop (unrestrictedOrigin : Option Origin) (initialUrl : Text) : Nat → FetchState → FetchRun
  | remaining, state =>
    match policy.hop env initialUrl (maxFetchRedirects - remaining) state with
    | .done run => run
    | .redirect hop response state =>
      match remaining with
      | 0 => state.finish [hop] (.error .tooManyRedirects)
      | remaining + 1 =>
        match nextUrl env state response with
        | .error error => state.finish [hop] (.error error)
        | .ok url =>
          let rest := loop unrestrictedOrigin initialUrl remaining
            (policy.follow env unrestrictedOrigin state response url)
          { rest with hops := hop :: rest.hops }

end FetchPolicy

/-- The origin whose redirects are not restricted, if redirects are. -/
def FetchPolicy.unrestrictedOrigin (policy : FetchPolicy) (request : HttpRequest) : Option Origin :=
  if policy.restrictRedirects then some (Origin.fromUrl request.url) else none

/-- `fetch_with_policy`. -/
def fetchWithPolicy (env : Environment) (policy : FetchPolicy) (world : World)
    (request : HttpRequest) (cache : PreflightCache) (violations : List CorpViolation) :
    FetchRun :=
  policy.loop env (policy.unrestrictedOrigin request) request.url.toText maxFetchRedirects {
    request
    redirected := false
    crossOriginSeen := false
    corsOrigin := policy.origin
    cache
    violations
    world }

end Omoikane.Http
