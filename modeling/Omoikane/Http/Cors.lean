import Omoikane.Base.Table
import Omoikane.Http.Client

/-!
# CORS

The checks of the Fetch policy on requests and responses, the preflight cache,
and the preflight of a request.  An `Approval` is a successful preflight: it can
be built only from a response that passes `validatePreflightResponse`.
-/

namespace Omoikane.Http

open Base

/-! ## Modes -/

/-- The request mode. -/
inductive RequestMode where
  | sameOrigin
  | cors
  | noCors
deriving DecidableEq, Repr

/-- The credentials mode. -/
inductive CredentialsMode where
  | omit
  | sameOrigin
  | include
deriving DecidableEq, Repr

/-- The redirect mode. -/
inductive RedirectMode where
  | follow
  | error
  | manual
deriving DecidableEq, Repr

/-- The response type. -/
inductive ResponseType where
  | basic
  | cors
  | opaqueResponse
  | opaqueRedirect
deriving DecidableEq, Repr

/-- The errors of a fetch.  A network error keeps its cause instead of its text. -/
inductive CorsError where
  | network (error : HttpParseError)
  | timeout
  | sameOriginMode
  | corsCheck
  | corpCheck
  | requestPolicy
  | preflight
  | redirect
  | tooManyRedirects
deriving DecidableEq, Repr

/-- `is_timeout`. -/
def HttpParseError.isTimeout : HttpParseError → Bool
  | .io .timedOut | .io .wouldBlock => true
  | _ => false

/-- The error of a fetch whose exchange failed. -/
def CorsError.ofExchange (error : HttpParseError) : CorsError :=
  if error.isTimeout then .timeout else .network error

/-! ## Headers -/

/-- `is_cors_safelisted_method`. -/
def isCorsSafelistedMethod (method : Method) : Bool :=
  method == .get || method == .head || method == .post

/-- `is_automatic_header`. -/
def isAutomaticHeader (name : Text) : Bool :=
  isNamed name
    ["host", "user-agent", "accept-language", "accept-encoding", "content-length", "origin"]

/-- `is_cors_safelisted_header`. -/
def isCorsSafelistedHeader (name value : Text) : Bool :=
  if isNamed name ["accept", "accept-language", "content-language"] then
    Text.utf8Len value ≤ 128
  else if isNamed name ["content-type"] then
    isNamed (Text.trim (Text.splitFirst ';' value).1)
      ["application/x-www-form-urlencoded", "multipart/form-data", "text/plain"]
  else false

/-- A header that a cross-origin server has to allow. -/
def isCorsUnsafeHeader (header : Text × Text) : Bool :=
  !isAutomaticHeader header.1 && !isCorsSafelistedHeader header.1 header.2

/-- `cors_unsafe_header_names`: in lower case, sorted, without repetitions. -/
def corsUnsafeHeaderNames (request : HttpRequest) : List Text :=
  (((request.headers.filter isCorsUnsafeHeader).map fun header =>
    Text.toAsciiLowercase header.1).insertionSort (· ≤ ·)).destutter (· ≠ ·)

/-- `header_tokens`. -/
def headerTokens (response : HttpResponse) (name : Text) : List Text :=
  ((headersNamed response.headers name).flatMap fun header =>
    (header.2.splitOn ',').map Text.trim).filter (· ≠ [])

/-- A request that needs a preflight at another origin. -/
def NeedsPreflight (request : HttpRequest) : Prop :=
  isCorsSafelistedMethod request.method = false ∨
    ∃ header ∈ request.headers, isCorsUnsafeHeader header = true

theorem mem_destutter_ne {name : Text} {names : List Text} :
    name ∈ names.destutter (· ≠ ·) ↔ name ∈ names := by
  constructor
  · exact fun h => (List.destutter_sublist _ names).subset h
  · intro h
    cases names with
    | nil => cases h
    | cons first names =>
      rw [List.destutter_cons']
      induction names generalizing first with
      | nil => simpa using h
      | cons second names ih =>
        by_cases heq : first = second
        · subst heq
          rw [List.destutter'_cons_neg _ (by simp)]
          exact ih first (by simpa using h)
        · rw [List.destutter'_cons_pos _ heq]
          rcases List.mem_cons.mp h with rfl | h
          · exact List.mem_cons_self ..
          · exact List.mem_cons_of_mem _ (ih second h)

/-- The names of the unsafe headers, in lower case. -/
theorem mem_corsUnsafeHeaderNames {request : HttpRequest} {name : Text} :
    name ∈ corsUnsafeHeaderNames request ↔
      ∃ header ∈ request.headers, isCorsUnsafeHeader header = true ∧
        Text.toAsciiLowercase header.1 = name := by
  rw [corsUnsafeHeaderNames, mem_destutter_ne, List.mem_insertionSort, List.mem_map]
  simp only [List.mem_filter, and_assoc]

/-- A request that needs no preflight is let through without one. -/
theorem needsPreflight_iff {request : HttpRequest} :
    NeedsPreflight request ↔
      (isCorsSafelistedMethod request.method && corsUnsafeHeaderNames request = []) = false := by
  rw [Bool.and_eq_false_iff, decide_eq_false_iff_not, NeedsPreflight]
  constructor
  · rintro (h | ⟨header, hheader, hother⟩)
    · exact Or.inl h
    · have hmem := mem_corsUnsafeHeaderNames.mpr ⟨header, hheader, hother, rfl⟩
      exact Or.inr (List.ne_nil_of_mem hmem)
  · rintro (h | h)
    · exact Or.inl h
    · obtain ⟨name, hname⟩ := List.exists_mem_of_ne_nil _ h
      obtain ⟨header, hheader, hother, -⟩ := mem_corsUnsafeHeaderNames.mp hname
      exact Or.inr ⟨header, hheader, hother⟩

/-! ## Checks -/

/-- `cors_check`. -/
def corsCheck (response : HttpResponse) (origin : Origin) (credentials : CredentialsMode) :
    Except CorsError Unit :=
  match response.header "access-control-allow-origin".toList with
  | none => .error .corsCheck
  | some allowOrigin =>
    if allowOrigin ≠ origin.serialize &&
        !(allowOrigin = "*".toList && credentials ≠ .include) then .error .corsCheck
    else if credentials = .include &&
        !(response.header "access-control-allow-credentials".toList).any fun value =>
          Text.eqIgnoreAsciiCase value "true".toList then .error .corsCheck
    else .ok ()

/-- `allowed_token_matches`. -/
def allowedTokenMatches (allowed value : Text) (credentialed : Bool) : Bool :=
  (allowed = "*".toList && !credentialed) || Text.eqIgnoreAsciiCase allowed value

/-- Methods and headers listed by a preflight response. -/
structure PreflightAllowance where
  methods : List Text
  headers : List Text

namespace PreflightAllowance

/-- `from_response`. -/
def fromResponse (response : HttpResponse) : PreflightAllowance where
  methods := headerTokens response "access-control-allow-methods".toList
  headers := headerTokens response "access-control-allow-headers".toList

/-- `allows_method`. -/
def allowsMethod (allowance : PreflightAllowance) (method : Text) (credentialed : Bool) : Bool :=
  allowance.methods.any fun allowed => allowedTokenMatches allowed method credentialed

/-- `allows_headers`. -/
def allowsHeaders (allowance : PreflightAllowance) (unsafeHeaderNames : List Text)
    (credentialed : Bool) : Bool :=
  unsafeHeaderNames.all fun name =>
    allowance.headers.any fun allowed => allowedTokenMatches allowed name credentialed

end PreflightAllowance

/-- `validate_preflight_response`. -/
def validatePreflightResponse (response : HttpResponse) (origin : Origin)
    (credentials : CredentialsMode) (method : Text) (unsafeHeaderNames : List Text) :
    Except CorsError Unit :=
  if response.statusCode < 200 || 300 ≤ response.statusCode then .error .preflight
  else match corsCheck response origin credentials with
    | .error _ => .error .preflight
    | .ok () =>
      let allowance := PreflightAllowance.fromResponse response
      let credentialed := credentials == .include
      if !allowance.allowsMethod method credentialed ||
          !allowance.allowsHeaders unsafeHeaderNames credentialed then .error .preflight
      else .ok ()

/-- `preflight_max_age`, in nanoseconds. -/
def preflightMaxAge (response : HttpResponse) : Nat :=
  let seconds := ((response.header "access-control-max-age".toList).bind
    (Text.parseUnsigned u64Max)).getD 5
  min seconds 86400 * 10 ^ 9

/-! ## The preflight cache -/

/-- Identifies one approved preflight. -/
structure PreflightCacheKey where
  requestOrigin : Origin
  targetOrigin : Origin
  method : Text
  unsafeHeaderNames : List Text
  credentialed : Bool
deriving DecidableEq

/-- Successful preflights, with the instant until which each is valid. -/
structure PreflightCache where
  entries : Table PreflightCacheKey Nat

namespace PreflightCache

/-- `default`. -/
def default : PreflightCache := { entries := [] }

/-- Drops the entries that have expired. -/
def retainFresh (cache : PreflightCache) (now : Nat) : PreflightCache :=
  { entries := cache.entries.filter fun entry => now < entry.2 }

/-- `insert`. -/
def insert (cache : PreflightCache) (key : PreflightCacheKey) (expires : Nat) : PreflightCache :=
  { entries := cache.entries.insert key expires }

/-- The entry of another cache added, or the later of both kept. -/
def mergeEntry (now : Nat) (cache : PreflightCache) (entry : PreflightCacheKey × Nat) :
    PreflightCache :=
  if now < entry.2 then
    match cache.entries.get entry.1 with
    | some current => cache.insert entry.1 (max current entry.2)
    | none => cache.insert entry.1 entry.2
  else cache

/-- `merge`. -/
def merge (cache other : PreflightCache) (now : Nat) : PreflightCache :=
  other.entries.foldl (mergeEntry now) (cache.retainFresh now)

/-- `contains_fresh`: expired entries are dropped first. -/
def containsFresh (cache : PreflightCache) (key : PreflightCacheKey) (now : Nat) :
    Bool × PreflightCache :=
  let cache := cache.retainFresh now
  ((cache.entries.get key).isSome, cache)

end PreflightCache

/-! ## Preflights -/

/-- A successful preflight. -/
structure Approval where
  key : PreflightCacheKey
  credentials : CredentialsMode
  /-- When the preflight was begun. -/
  now : Nat
  response : HttpResponse
  credentialed_eq : key.credentialed = (credentials == .include)
  valid : validatePreflightResponse response key.requestOrigin credentials key.method
    key.unsafeHeaderNames = .ok ()

/-- Until when the approval is valid. -/
def Approval.expires (approval : Approval) : Nat := approval.now + preflightMaxAge approval.response

/-- What `ensure_preflight` found out about a request. -/
inductive Clearance where
  /-- The request needs no preflight. -/
  | notNeeded
  /-- An entry of the cache that is valid at an instant. -/
  | cached (key : PreflightCacheKey) (now : Nat)
  | approved (approval : Approval) (dispatch : Dispatch)
  | refused (dispatch : Dispatch)

/-- What a call of `ensure_preflight` returns. -/
structure Preflighted where
  result : Except CorsError Unit
  clearance : Clearance
  cache : PreflightCache
  world : World

/-- The key under which the preflight of a request is cached. -/
def preflightKey (request : HttpRequest) (origin : Origin) (credentials : CredentialsMode) :
    PreflightCacheKey where
  requestOrigin := origin
  targetOrigin := Origin.fromUrl request.url
  method := request.method.asStr
  unsafeHeaderNames := corsUnsafeHeaderNames request
  credentialed := credentials == .include

/-- The preflight request for a request. -/
def preflightRequest (env : Environment) (request : HttpRequest) (key : PreflightCacheKey) :
    HttpRequest :=
  let preflight := HttpRequest.new env.platform .options request.url
  let preflight := { preflight with requirePublicIp := request.requirePublicIp }
  let preflight := preflight.setHeader "Origin".toList key.requestOrigin.serialize
  let preflight := preflight.setHeader "Access-Control-Request-Method".toList key.method
  if key.unsafeHeaderNames = [] then preflight
  else preflight.setHeader "Access-Control-Request-Headers".toList
    (Text.join ", ".toList key.unsafeHeaderNames)

/-- What `ensure_preflight` makes of the outcome of the preflight. -/
def judgePreflight (key : PreflightCacheKey) (credentials : CredentialsMode)
    (hkey : key.credentialed = (credentials == .include)) (now : Nat) (dispatch : Dispatch)
    (cache : PreflightCache) (world : World) : Preflighted :=
  match dispatch.reply with
  | .error error =>
    { result := .error (.ofExchange error), clearance := .refused dispatch, cache, world }
  | .ok response =>
    match hvalid : validatePreflightResponse response key.requestOrigin credentials key.method
        key.unsafeHeaderNames with
    | .error error => { result := .error error, clearance := .refused dispatch, cache, world }
    | .ok () =>
      let approval : Approval :=
        { key, credentials, now, response, credentialed_eq := hkey, valid := hvalid }
      { result := .ok ()
        clearance := .approved approval dispatch
        cache := cache.insert key approval.expires
        world }

/-- `ensure_preflight`. -/
def ensurePreflight (env : Environment) (world : World) (request : HttpRequest) (origin : Origin)
    (credentials : CredentialsMode) (cache : PreflightCache) : Preflighted :=
  let key := preflightKey request origin credentials
  if isCorsSafelistedMethod request.method && key.unsafeHeaderNames = [] then
    { result := .ok (), clearance := .notNeeded, cache, world }
  else
    let now := env.instants world.turn
    let world := { world with turn := world.turn + 1 }
    let (fresh, cache) := cache.containsFresh key now
    if fresh then { result := .ok (), clearance := .cached key now, cache, world }
    else
      let (dispatch, world) := world.sendOnce env (preflightRequest env request key) false
      judgePreflight key credentials rfl now dispatch cache world

end Omoikane.Http
