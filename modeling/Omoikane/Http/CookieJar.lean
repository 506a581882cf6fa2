import Omoikane.Base.Run
import Omoikane.Http.Cookie

/-!
# The cookie jar

`CookieJar` holds the stored cookies in insertion order and the recent
script-visible changes.  `storeCookie` is the only way a cookie enters, and
every write, eviction and deletion goes through `JarOp.apply`, so a reachable
jar is a run of `JarOp.apply` from the empty jar.

A method that reads `SystemTime::now()` takes the readings as arguments.

The Service Worker subscriptions and the host wakeups of the jar are left out:
they never change a cookie or a recorded change.
-/

namespace Omoikane.Http

open Base

/-! ## The jar -/

/-- A change with its place in the history. -/
structure RecordedCookieChange where
  sequence : Nat
  cookie : Cookie
  deleted : Bool
  individualEvent : Bool
deriving DecidableEq, Repr

/-- One script-visible cookie change after URL and HttpOnly filtering. -/
structure CookieStoreChange where
  name : Text
  value : Option Text
  deleted : Bool
  individualEvent : Bool
deriving DecidableEq, Repr

/-- Values accepted by the Cookie Store API's set and delete operations. -/
structure CookieStoreWrite where
  name : Text
  value : Text
  domain : Option Text
  path : Text
  expires : Option SystemTime
  maxAge : Option Int
  sameSite : SameSite
  partitioned : Bool
deriving DecidableEq, Repr

/-- A jar that stores cookies and selects matching ones for outgoing requests. -/
structure CookieJar where
  /-- Each cookie with the domain of the origin that set it. -/
  cookies : List (Cookie × Text)
  changes : List RecordedCookieChange
  changeSequence : Nat
deriving DecidableEq, Repr

/-- The largest `u64`. -/
def u64Max : Nat := 2 ^ 64 - 1

/-- The recorded changes a jar keeps. -/
def maxRecordedChanges : Nat := 4096

namespace CookieJar

/-- `new`. -/
def new : CookieJar := { cookies := [], changes := [], changeSequence := 0 }

/-- `record_change`. -/
def recordChange (jar : CookieJar) (cookie : Cookie) (deleted individualEvent : Bool) :
    CookieJar :=
  if cookie.httpOnly then jar
  else
    let sequence := min (jar.changeSequence + 1) u64Max
    let changes := jar.changes ++ [{
      sequence := sequence
      cookie := cookie
      deleted := deleted
      individualEvent := individualEvent }]
    { jar with
      changeSequence := sequence
      changes := if changes.length > maxRecordedChanges then changes.drop 1 else changes }

/-- Records the deletion of each cookie of a list, in order. -/
def recordDeletions (jar : CookieJar) (cookies : List Cookie) : CookieJar :=
  cookies.foldl (fun jar cookie => jar.recordChange cookie true false) jar

/-- `evict_expired_at`, without the count it returns. -/
def evictExpiredAt (jar : CookieJar) (now : SystemTime) : CookieJar :=
  let expired := (jar.cookies.map Prod.fst).filter (·.isExpired now)
  { jar with cookies := jar.cookies.filter fun entry => !entry.1.isExpired now }.recordDeletions
    expired

/-- `delete_associated_cookies`: the WebDriver deletion for a document address. -/
def deleteAssociatedCookies (psl : Psl) (jar : CookieJar) (url : Url) (now : SystemTime) :
    CookieJar :=
  let access := CookieAccessContext.firstParty psl url
  let associated (cookie : Cookie) : Bool :=
    access.permits cookie && !cookie.isExpired now && cookie.matchesUrl url
  let deleted := (jar.cookies.map Prod.fst).filter associated
  { jar with cookies := jar.cookies.filter fun entry => !associated entry.1 }.recordDeletions
    deleted

/-- `next_expiry_delay_at`, in nanoseconds. -/
def nextExpiryDelayAt (jar : CookieJar) (now : SystemTime) : Option Int :=
  (jar.cookies.filterMap (·.1.expirationTime)).map (fun expires => max 0 (expires - now)) |>.min?

/-! ## Storing a cookie -/

end CookieJar

/-- The context a cookie is stored in: who set it, how, and for which site. -/
structure StoreContext where
  originUrl : Url
  siteForCookies : Url
  topLevelNavigation : Bool
  fromHttp : Bool
  explicitRootPath : Bool
  individualEvent : Bool
  access : CookieAccessContext

/-- The partition a cookie is filed under; `none` when it may not be stored. -/
def Cookie.withPartition (cookie : Cookie) (access : CookieAccessContext) : Option Cookie :=
  if cookie.partitioned then
    if !cookie.secure || access.topLevelSite.isNone then none
    else some { cookie with partitionKey := access.topLevelSite }
  else if !access.unpartitioned then none
  else some cookie

/-- The `Domain` attribute against the origin, and the host-only flag it gives.
A public suffix is accepted from that very host only. -/
def Cookie.withDomain (psl : Psl) (cookie : Cookie) (originDomain : Text) : Option Cookie :=
  match cookie.domain with
  | some domain =>
    if domain = [] || !domainMatches originDomain domain then none
    else if isPublicSuffix psl domain then
      if domain ≠ originDomain then none
      else some { cookie with hostOnly := true, domain := some originDomain }
    else some { cookie with hostOnly := false }
  | none => some { cookie with hostOnly := true, domain := some originDomain }

/-- A missing or relative path becomes the directory of the origin URL. -/
def Cookie.withPath (cookie : Cookie) (originUrl : Url) : Cookie :=
  if cookie.path.all (fun path => !Text.startsWith path "/".toList) then
    { cookie with path := some (defaultPath originUrl.path) }
  else cookie

/-- The creation policy on the normalized cookie. -/
def Cookie.mayBeCreated (psl : Psl) (cookie : Cookie) (context : StoreContext) : Bool :=
  let secureOrigin := secureCookieTransport context.originUrl
  let lowerName := Text.toAsciiLowercase cookie.name
  if cookie.secure && !secureOrigin then false
  else if !context.fromHttp && cookie.httpOnly then false
  else if cookie.sameSite == .none && !cookie.secure then false
  else if !Http.sameSite psl context.originUrl context.siteForCookies && cookie.sameSite != .none &&
      (!context.fromHttp || !context.topLevelNavigation) then false
  else if Text.startsWith lowerName "__secure-".toList && !cookie.secure then false
  else if Text.startsWith lowerName "__host-".toList &&
      (!cookie.secure || !cookie.hostOnly || cookie.path != some "/".toList ||
        !context.explicitRootPath) then false
  else true

/-- `prepare_cookie_for_storage`: the cookie with its normalized scope, or
`none` where the source returns false. -/
def prepareCookieForStorage (psl : Psl) (cookie : Cookie) (context : StoreContext) :
    Option Cookie := do
  let cookie ← cookie.withPartition context.access
  let cookie ← cookie.withDomain psl (Text.toAsciiLowercase context.originUrl.host)
  let cookie := cookie.withPath context.originUrl
  if cookie.mayBeCreated psl context then some cookie else none

/-- A stored secure cookie a cookie from an insecure origin must not overlay. -/
def overlaysSecure (cookie old : Cookie) : Bool :=
  old.partitionKey == cookie.partitionKey && old.secure && old.name == cookie.name &&
    (match old.domain, cookie.domain with
      | some a, some b => domainMatches a b || domainMatches b a
      | _, _ => false) &&
    (match old.path, cookie.path with
      | some old, some new => pathMatches new old
      | _, _ => false)

/-- A stored cookie of one partition, name, domain and path with another. -/
def sameCookie (cookie old : Cookie) : Bool :=
  old.partitionKey == cookie.partitionKey && old.name == cookie.name &&
    old.domain == cookie.domain && old.path == cookie.path

/-- The cookie a new one replaces: `sameCookie`, and alike host-only. -/
def replaces (cookie old : Cookie) : Bool := sameCookie cookie old && old.hostOnly == cookie.hostOnly

/-- A replacement that changes nothing a script could see. -/
def unchangedFrom (cookie old : Cookie) : Bool :=
  old.value == cookie.value && old.secure == cookie.secure && old.httpOnly == cookie.httpOnly &&
    old.sameSite == cookie.sameSite && old.expires == cookie.expires && old.maxAge == cookie.maxAge

namespace CookieJar

/-- The last part of `store_cookie`: the replaced cookie leaves, the new one
enters unless it has already expired, and the change is recorded. -/
def replaceCookie (jar : CookieJar) (cookie : Cookie) (originDomain : Text)
    (replaced : Option Cookie) (individualEvent : Bool) (now : SystemTime) : CookieJar :=
  let jar := { jar with cookies := jar.cookies.filter fun entry => !replaces cookie entry.1 }
  if cookie.isExpired now then
    -- an expired new cookie is an observable deletion even with nothing to replace
    jar.recordChange cookie true individualEvent
  else
    let unchanged := replaced.any fun old => !old.isExpired now && unchangedFrom cookie old
    let jar := match replaced.filter (fun old => !old.isExpired now) with
      | some old => if cookie.httpOnly then jar.recordChange old true individualEvent else jar
      | none => jar
    let jar := if unchanged then jar else jar.recordChange cookie false individualEvent
    { jar with cookies := jar.cookies ++ [(cookie, originDomain)] }

/-- `store_cookie`. -/
def storeCookie (psl : Psl) (jar : CookieJar) (cookie : Cookie) (context : StoreContext)
    (now : SystemTime) : CookieJar :=
  match prepareCookieForStorage psl cookie context with
  | none => jar
  | some cookie =>
    let originDomain := Text.toAsciiLowercase context.originUrl.host
    let secureOrigin := secureCookieTransport context.originUrl
    let jar := jar.evictExpiredAt now
    if !secureOrigin && !cookie.secure && jar.cookies.any (fun entry => overlaysSecure cookie entry.1)
    then jar
    else if !context.fromHttp &&
        jar.cookies.any (fun entry => entry.1.httpOnly && sameCookie cookie entry.1) then jar
    else
      let replaced := (jar.cookies.find? fun entry => replaces cookie entry.1).map Prod.fst
      match replaced with
      | some old =>
        if !context.fromHttp && old.httpOnly then jar
        else jar.replaceCookie { cookie with createdAt := old.createdAt } originDomain
          replaced context.individualEvent now
      | none => jar.replaceCookie cookie originDomain none context.individualEvent now

end CookieJar

/-! ## The writing operations -/

/-- The readings of the clock one write takes, in order: two while the cookie is
made, one while it is stored. -/
structure WriteClock where
  created : SystemTime
  received : SystemTime
  stored : SystemTime
deriving DecidableEq, Repr

/-- A header that names the root path in so many words. -/
def hasExplicitRootPath (headerValue : Text) : Bool :=
  ((headerValue.splitOn ';').drop 1).any fun attr =>
    (Text.splitOnce '=' (Text.trim attr)).any fun (name, value) =>
      Text.eqIgnoreAsciiCase (Text.trim name) "path".toList && Text.trim value == "/".toList

/-- The errors of `set_from_cookie_store_with_access`. -/
def bothExpiriesError : Text := "expires and maxAge cannot both be set".toList
def nameOrValueError : Text := "Invalid cookie name or value".toList
def httpOnlyNameError : Text := "Cookie name requires HTTP-only privileges".toList
def domainError : Text := "Invalid cookie domain".toList
def pathError : Text := "Invalid cookie path".toList

/-- A space or a tab, which the Cookie Store trims. -/
def isBlank (c : Char) : Bool := c == ' ' || c == '\t'

/-- A control character other than the tab. -/
def isForbiddenControl (c : Char) : Bool :=
  (c.toNat ≤ 0x1f && c != '\t') || c.toNat == 0x7f

/-- The names that need HTTP privileges, also hidden in the value of a nameless cookie. -/
def needsHttpPrivileges (name value : Text) : Bool :=
  let lowerName := Text.toAsciiLowercase name
  let lowerValue := Text.toAsciiLowercase value
  Text.startsWith lowerName "__http-".toList || Text.startsWith lowerName "__host-http-".toList ||
    (name == [] &&
      ["__host-", "__host-http-", "__http-", "__secure-"].any fun reserved =>
        Text.startsWith lowerValue reserved.toList)

/-- The checks of `set_from_cookie_store_with_access`, and the cookie it stores. -/
def cookieOfStoreWrite (psl : Psl) (options : CookieStoreWrite) (url : Url) (now : SystemTime) :
    Except Text Cookie :=
  let name := Text.trimMatches isBlank options.name
  let value := Text.trimMatches isBlank options.value
  let domain := options.domain.map Text.toAsciiLowercase
  let lowerName := Text.toAsciiLowercase name
  let path := if options.path = [] then defaultPath url.path else options.path
  if options.expires.isSome && options.maxAge.isSome then .error bothExpiriesError
  else if name.contains '=' || Text.utf8Len name + Text.utf8Len value > 4096 ||
      [name, value].any (fun text => text.any fun c => c == ';' || isForbiddenControl c) ||
      (name == [] && (value == [] || value.contains '=')) then .error nameOrValueError
  else if needsHttpPrivileges name value then .error httpOnlyNameError
  else if domain.any (fun domain =>
      Text.startsWith domain ".".toList || domain == [] || Text.utf8Len domain > 1024 ||
        !domainMatches url.host domain ||
        (isPublicSuffix psl domain && !Text.eqIgnoreAsciiCase domain url.host) ||
        Text.startsWith lowerName "__host-".toList) then .error domainError
  else if !Text.startsWith path "/".toList || Text.utf8Len path > 1024 ||
      (Text.startsWith lowerName "__host-".toList && path != "/".toList) || path.contains ';' ||
      path.any isForbiddenControl then .error pathError
  else .ok {
    name := name
    value := value
    domain := domain
    hostOnly := true
    path := some path
    createdAt := now
    receivedAt := now
    expires := options.expires
    maxAge := options.maxAge
    secure := true
    httpOnly := false
    sameSite := options.sameSite
    partitioned := options.partitioned
    partitionKey := none }

/-- A Cookie Store cookie has no partition key yet, its name holds neither `=`
nor `;`, and its value no `;`. -/
theorem cookieOfStoreWrite_ok {psl : Psl} {options : CookieStoreWrite} {url : Url}
    {now : SystemTime} {cookie : Cookie} (h : cookieOfStoreWrite psl options url now = .ok cookie) :
    cookie.partitionKey = none ∧ '=' ∉ cookie.name ∧ ';' ∉ cookie.name ∧ ';' ∉ cookie.value := by
  unfold cookieOfStoreWrite at h
  simp only at h
  generalize (if options.path = [] then defaultPath url.path else options.path) = path at h
  split at h
  · cases h
  split at h
  · cases h
  next htext =>
    split at h
    · cases h
    split at h
    · cases h
    split at h
    · cases h
    cases h
    simp only [Bool.or_eq_true, List.any_cons, List.any_nil, Bool.or_false, not_or,
      List.any_eq_true, not_exists, not_and, beq_iff_eq] at htext
    obtain ⟨⟨⟨heq, -⟩, hname, hvalue⟩, -⟩ := htext
    refine ⟨rfl, by simpa using heq, fun hm => ?_, fun hm => ?_⟩
    · exact absurd rfl (hname ';' hm).1
    · exact absurd rfl (hvalue ';' hm).1

namespace CookieJar

/-- `add_with_context`. -/
def addWithContext (psl : Psl) (jar : CookieJar) (headerValue : Text)
    (originUrl siteForCookies : Url) (topLevelNavigation fromHttp : Bool)
    (access : CookieAccessContext) (clock : WriteClock) : CookieJar :=
  match Cookie.parse clock.created clock.received headerValue with
  | none => jar
  | some cookie =>
    jar.storeCookie psl cookie {
      originUrl, siteForCookies, topLevelNavigation, fromHttp, access
      explicitRootPath := hasExplicitRootPath headerValue
      individualEvent := !fromHttp } clock.stored

/-- `add_from_header_for_request_with_access`. -/
def addFromHeaderForRequestWithAccess (psl : Psl) (jar : CookieJar) (headerValue : Text)
    (originUrl siteForCookies : Url) (topLevelNavigation : Bool) (access : CookieAccessContext)
    (clock : WriteClock) : CookieJar :=
  jar.addWithContext psl headerValue originUrl siteForCookies topLevelNavigation true access clock

/-- `add_from_header_for_request`. -/
def addFromHeaderForRequest (psl : Psl) (jar : CookieJar) (headerValue : Text)
    (originUrl siteForCookies : Url) (topLevelNavigation : Bool) (clock : WriteClock) : CookieJar :=
  jar.addFromHeaderForRequestWithAccess psl headerValue originUrl siteForCookies topLevelNavigation
    (.firstParty psl (if topLevelNavigation then originUrl else siteForCookies)) clock

/-- `add_from_document_with_access`. -/
def addFromDocumentWithAccess (psl : Psl) (jar : CookieJar) (value : Text)
    (documentUrl siteForCookies : Url) (access : CookieAccessContext) (clock : WriteClock) :
    CookieJar :=
  jar.addWithContext psl value documentUrl siteForCookies false false access clock

/-- `add_from_document`. -/
def addFromDocument (psl : Psl) (jar : CookieJar) (value : Text) (documentUrl siteForCookies : Url)
    (clock : WriteClock) : CookieJar :=
  jar.addFromDocumentWithAccess psl value documentUrl siteForCookies
    (.firstParty psl siteForCookies) clock

/-- `set_from_cookie_store_with_access`: the result and the jar it leaves. -/
def setFromCookieStoreWithAccess (psl : Psl) (jar : CookieJar) (options : CookieStoreWrite)
    (url siteForCookies : Url) (access : CookieAccessContext) (clock : WriteClock) :
    Except Text Unit × CookieJar :=
  match cookieOfStoreWrite psl options url clock.created with
  | .error error => (.error error, jar)
  | .ok cookie =>
    (.ok (), jar.storeCookie psl cookie {
      originUrl := url
      siteForCookies, access
      topLevelNavigation := false
      fromHttp := false
      explicitRootPath := cookie.path == some "/".toList
      individualEvent := true } clock.stored)

end CookieJar

end Omoikane.Http
