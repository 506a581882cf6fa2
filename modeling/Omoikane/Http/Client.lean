import Omoikane.Http.CookieRead
import Omoikane.Http.Origin

/-!
# The client

A client attaches cookies, sends requests, stores the cookies of the responses
and follows redirects.  What it does not control is an `Environment`: the outcome
of every exchange, the clocks, and what other clients do to a cookie store that
is shared.  Each is read at a turn, which is counted in the `World`, so that an
environment is any sequence of outcomes.

A run returns its hops beside its result.  A `Dispatch` is one hop: the request
as it was given to the client, the request as it was sent, and the outcome.
-/

namespace Omoikane.Http

open Base

/-- What a client runs in. -/
structure Environment where
  psl : Psl
  platform : Platform
  crate : UrlCrate
  /-- The outcome of the exchange at a turn. -/
  replies : Nat → Except HttpParseError HttpResponse
  /-- `SystemTime::now`. -/
  systemTimes : Nat → SystemTime
  /-- `Instant::now`, in nanoseconds. -/
  instants : Nat → Nat
  /-- What other clients do to a shared cookie store before it is locked. -/
  otherClients : Nat → CookieJar → CookieJar

/-- A client.  With a shared store its own jar is left alone. -/
structure Client where
  cookieJar : CookieJar
  sharedCookieStore : Option CookieJar
  maxRedirects : Nat
  userAgent : Text

/-- A client at a turn. -/
structure World where
  client : Client
  turn : Nat

/-- One exchange of a client. -/
structure Dispatch where
  /-- The request as the client was given it. -/
  given : HttpRequest
  /-- The `Cookie` value of the cookie store. -/
  cookieHeader : Option Text
  /-- The request as it was sent. -/
  sent : HttpRequest
  reply : Except HttpParseError HttpResponse

/-- `unpartitioned_cookie_access_allowed`. -/
def unpartitionedCookieAccessAllowed (psl : Psl) (request : HttpRequest) : Bool :=
  if request.topLevelNavigation then true
  else
    (!request.crossSiteAncestry &&
        request.siteForCookies.all fun site => sameSite psl site request.url) ||
      request.storageAccessEligible

/-- `is_redirect`. -/
def isRedirect (status : Nat) : Bool := [301, 302, 303, 307, 308].contains status

/-- `redirect_method`. -/
def redirectMethod (status : Nat) (original : Method) : Method :=
  if (status = 301 ∨ status = 302) ∧ original = .post then .get
  else if status = 303 ∧ original ≠ .get ∧ original ≠ .head then .get
  else original

/-- `resolve_redirect_url`. -/
def resolveRedirectUrl (crate : UrlCrate) (base : Url) (location : Text) :
    Except HttpParseError Url :=
  match base.resolveUrl crate location with
  | .error _ => .error (.io .invalidInput)
  | .ok url => .ok url

/-! ## The cookie store -/

namespace World

variable (env : Environment)

/-- A reading of the clock. -/
def now (world : World) : SystemTime × World :=
  (env.systemTimes world.turn, { world with turn := world.turn + 1 })

/-- The cookie store the client works on. -/
def cookies (world : World) : CookieJar :=
  world.client.sharedCookieStore.getD world.client.cookieJar

/-- Changes the cookie store the client works on. -/
def modifyCookies (f : CookieJar → CookieJar) (world : World) : World :=
  { world with
    client := match world.client.sharedCookieStore with
      | some store => { world.client with sharedCookieStore := some (f store) }
      | none => { world.client with cookieJar := f world.client.cookieJar } }

/-- Locks the shared store, if there is one. -/
def lock (world : World) : World :=
  { world with
    turn := world.turn + 1
    client := { world.client with
      sharedCookieStore := world.client.sharedCookieStore.map (env.otherClients world.turn) } }

/-- The `Cookie` value for a request. -/
def cookieHeader (world : World) (request : HttpRequest) (access : CookieAccessContext) :
    Option Text × World :=
  let world := world.lock env
  let (now, world) := world.now env
  (world.cookies.cookieHeaderForRequestWithAccess env.psl request.url
    (request.siteForCookies.getD request.url) request.topLevelNavigation request.method access now,
    world)

/-- Stores one `Set-Cookie` value. -/
def storeCookie (request : HttpRequest) (access : CookieAccessContext) (world : World)
    (value : Text) : World :=
  let (created, world) := world.now env
  let (received, world) := world.now env
  let (stored, world) := world.now env
  world.modifyCookies fun jar =>
    jar.addFromHeaderForRequestWithAccess env.psl value request.url
      (request.siteForCookies.getD request.url) request.topLevelNavigation access
      { created, received, stored }

/-- Stores the `Set-Cookie` values of a response. -/
def storeCookies (world : World) (request : HttpRequest) (access : CookieAccessContext)
    (response : HttpResponse) : World :=
  ((headersNamed response.headers "set-cookie".toList).map Prod.snd).foldl
    (storeCookie env request access) (world.lock env)

/-- The outcome of the next exchange. -/
def exchange (world : World) : Except HttpParseError HttpResponse × World :=
  (env.replies world.turn, { world with turn := world.turn + 1 })

end World

/-! ## One exchange -/

/-- The client's `User-Agent`, unless the caller has set one. -/
def HttpRequest.applyUserAgent (env : Environment) (client : Client) (request : HttpRequest) :
    HttpRequest :=
  if (request.header "user-agent".toList).all (· = env.platform.defaultUserAgent) then
    request.setHeader "User-Agent".toList client.userAgent
  else request

/-- A request with the value of the cookie store, if there is one. -/
def HttpRequest.addCookie (request : HttpRequest) (cookieHeader : Option Text) : HttpRequest :=
  match cookieHeader with
  | some value => request.addHeader "Cookie".toList value
  | none => request

namespace World

variable (env : Environment)

/-- `send_once_with_timeout`. -/
def sendOnce (world : World) (request : HttpRequest) (credentials : Bool) : Dispatch × World :=
  let prepared := (request.applyUserAgent env world.client).removeHeader "cookie".toList
  let cookieAccess := credentials && unpartitionedCookieAccessAllowed env.psl prepared
  let access := prepared.cookieAccessContext env.psl cookieAccess
  let (cookieHeader, world) :=
    if credentials then world.cookieHeader env prepared access else (none, world)
  let sent := prepared.addCookie cookieHeader
  let (reply, world) := world.exchange env
  let world := match reply with
    | .error _ => world
    | .ok response => if credentials then world.storeCookies env sent access response else world
  ({ given := request, cookieHeader, sent, reply }, world)

/-- The first part of the loop of `send_with_cookie_store`, until the cookies of
the response are stored. -/
def sendHop (world : World) (request : HttpRequest) : Dispatch × World :=
  let prepared := request.applyUserAgent env world.client
  let cookieAccess := unpartitionedCookieAccessAllowed env.psl prepared
  let access := prepared.cookieAccessContext env.psl cookieAccess
  let prepared := if cookieAccess then prepared else prepared.removeHeader "cookie".toList
  let (cookieHeader, world) := world.cookieHeader env prepared access
  let sent := prepared.addCookie cookieHeader
  let (reply, world) := world.exchange env
  let world := match reply with
    | .error _ => world
    | .ok response => world.storeCookies env sent access response
  ({ given := request, cookieHeader, sent, reply }, world)

end World

/-! ## Redirects of the client -/

/-- The headers of a request that a redirect copies, added to the next request. -/
def HttpRequest.copyHeaders (next : HttpRequest) (headers : List (Text × Text))
    (copies : Text → Bool) : HttpRequest :=
  (headers.filter fun header => copies header.1).foldl
    (fun next header => next.addHeader header.1 header.2) next

/-- The cookie context of a request, kept for the next one. -/
def HttpRequest.copyCookieContext (next : HttpRequest) (psl : Psl) (request : HttpRequest) :
    HttpRequest :=
  match request.siteForCookies with
  | some site =>
    { next.setCookieContext psl site request.topLevelNavigation with
      cookieTopLevelSite := request.cookieTopLevelSite }
  | none => next

/-- The body of a request, if the next one keeps it. -/
def HttpRequest.copyBody (next : HttpRequest) (request : HttpRequest) (preserveBody : Bool) :
    HttpRequest :=
  match request.body with
  | some body => if preserveBody then next.setBody body else next
  | none => next

/-- The request to another URL, before its body, as both redirect loops build it. -/
def HttpRequest.redirectedTo (env : Environment) (request : HttpRequest) (method : Method)
    (url : Url) (requirePublicIp sameOrigin : Bool) (copies : Text → Bool) : HttpRequest :=
  let next := HttpRequest.new env.platform method url
  let next := { next with requirePublicIp }
  let next := next.copyCookieContext env.psl request
  let next := { next with
    storageAccessEligible := sameOrigin && request.storageAccessEligible
    crossSiteAncestry := request.crossSiteAncestry }
  next.copyHeaders request.headers copies

/-- The source and policy for the `Referer` of the next request. -/
def redirectReferrerSource (request : HttpRequest) (response : HttpResponse) :
    Option (Option Text × ReferrerPolicy) :=
  request.referrerSource.map fun source =>
    (request.header "Referer".toList,
      (responseReferrerPolicy response.headers).getD source.2)

/-- The request with a referrer source, if there is one. -/
def HttpRequest.applyReferrerSource (crate : UrlCrate) (request : HttpRequest)
    (source : Option (Option Text × ReferrerPolicy)) : HttpRequest :=
  match source with
  | some (some referer, policy) => request.setReferrerSource crate referer policy
  | _ => request

/-- The request that follows a redirect in `send_with_cookie_store`. -/
def followRedirect (env : Environment) (request : HttpRequest) (response : HttpResponse)
    (newUrl : Url) : HttpRequest :=
  let newMethod := redirectMethod response.statusCode request.method
  let sameOrigin := request.url.scheme == newUrl.scheme &&
    Text.eqIgnoreAsciiCase request.url.host newUrl.host && request.url.port == newUrl.port
  let preserveBody := newMethod == request.method
  let source := redirectReferrerSource request response
  let next := request.redirectedTo env newMethod newUrl request.requirePublicIp sameOrigin
    fun name =>
      !(source.isSome && Text.eqIgnoreAsciiCase name "Referer".toList) &&
        copyHeaderOnRedirect name preserveBody sameOrigin
  (next.applyReferrerSource env.crate source).copyBody request preserveBody

/-! ## The loop -/

/-- What a call of `send_with_cookie_store` returns, and its hops. -/
structure SendRun where
  result : Except HttpParseError (Option HttpResponse)
  hops : List Dispatch
  world : World

/-- Watches a navigation; `false` stops it.  It is asked at a turn. -/
abbrev NavigationObserver := Nat → HttpRequest → HttpResponse → Bool

/-- The response with what is known of its request. -/
def finalResponse (request : HttpRequest) (response : HttpResponse) (redirectCount : Nat) :
    HttpResponse :=
  { response with
    effectiveUrl := some request.url
    redirectCount
    finalRequestReferrer := request.header "Referer".toList }

/-- The URL a redirect leads to. -/
def redirectTarget (crate : UrlCrate) (base : Url) (response : HttpResponse) :
    Except HttpParseError Url :=
  match response.header "location".toList with
  | none => .error .missingLocation
  | some location => resolveRedirectUrl crate base location

namespace World

variable (env : Environment) (observe : Option NavigationObserver)

/-- The loop of `send_with_cookie_store`, with the redirects remaining. -/
def sendLoop : Nat → World → HttpRequest → SendRun
  | redirectsRemaining, world, request =>
    let (hop, world) := world.sendHop env request
    match hop.reply with
    | .error error => { result := .error error, hops := [hop], world }
    | .ok response =>
      if observe.any fun observe => !observe world.turn hop.sent response then
        { result := .ok none, hops := [hop], world }
      else if !isRedirect response.statusCode then
        { result := .ok (some (finalResponse hop.sent response
            (world.client.maxRedirects - redirectsRemaining)))
          hops := [hop]
          world }
      else
        match redirectsRemaining with
        | 0 => { result := .error .tooManyRedirects, hops := [hop], world }
        | redirectsRemaining + 1 =>
          match redirectTarget env.crate hop.sent.url response with
          | .error error => { result := .error error, hops := [hop], world }
          | .ok newUrl =>
            let rest := sendLoop redirectsRemaining world
              (followRedirect env hop.sent response newUrl)
            { rest with hops := hop :: rest.hops }

/-- `send_with_cookie_store`. -/
def sendWithCookieStore (world : World) (request : HttpRequest) : SendRun :=
  let request := if request.siteForCookies.isNone then
      request.setCookieContext env.psl request.url request.topLevelNavigation
    else request
  world.sendLoop env observe world.client.maxRedirects request

/-- `send`: nothing observes the navigation. -/
def send (world : World) (request : HttpRequest) : SendRun := world.sendWithCookieStore env none request

end World

end Omoikane.Http
