import Omoikane.Http.CookieJar
import Omoikane.Http.Response

/-!
# Reading the jar

Every read selects cookies with `matchingCookies` and orders them by path
length and creation time.  The HTTP header and `document.cookie` join them with
`"; "`; the Cookie Store gets the pairs.  The change feed filters the recorded
changes with the same questions.
-/

namespace Omoikane.Http

open Base

/-- What a read asks with: the URL, the initiating site and navigation, whether
a script asks, and the environment.  `now` is its reading of the clock. -/
structure CookieQuery where
  url : Url
  siteForCookies : Url
  topLevelNavigation : Bool
  method : Method
  nonHttp : Bool
  access : CookieAccessContext
  now : SystemTime

/-- A script's read for a document. -/
def CookieQuery.script (url siteForCookies : Url) (access : CookieAccessContext)
    (now : SystemTime) : CookieQuery :=
  { url, siteForCookies, topLevelNavigation := false, method := .get, nonHttp := true, access, now }

/-- The filter of `matching_cookies`. -/
def CookieQuery.selects (psl : Psl) (query : CookieQuery) (cookie : Cookie) : Bool :=
  let sameSite := Http.sameSite psl query.url query.siteForCookies
  let safeNavigation := query.topLevelNavigation &&
    (query.method == .get || query.method == .head || query.method == .options)
  query.access.permits cookie && !cookie.isExpired query.now && cookie.matchesUrl query.url &&
    (!query.nonHttp || !cookie.httpOnly) &&
    (sameSite || cookie.sameSite == .none ||
      (!query.nonHttp && cookie.sameSite == .lax && safeNavigation))

/-- The length of a cookie's path. -/
def Cookie.pathLength (cookie : Cookie) : Nat := Text.utf8Len (cookie.path.getD "/".toList)

/-- Longer paths first, then older cookies. -/
def Cookie.sentBefore (a b : Cookie) : Prop :=
  b.pathLength < a.pathLength ∨ (b.pathLength = a.pathLength ∧ a.createdAt ≤ b.createdAt)

instance (a b : Cookie) : Decidable (Cookie.sentBefore a b) :=
  inferInstanceAs (Decidable (_ ∨ _))

/-- A recorded change as a script sees it. -/
def RecordedCookieChange.visible (change : RecordedCookieChange) :
    CookieStoreChange :=
  { name := change.cookie.name
    value := if change.deleted then none else some change.cookie.value
    deleted := change.deleted
    individualEvent := change.individualEvent }

namespace CookieJar

/-- `matching_cookies`. -/
def matchingCookies (psl : Psl) (jar : CookieJar) (query : CookieQuery) : List Cookie :=
  ((jar.cookies.map Prod.fst).filter (query.selects psl)).insertionSort Cookie.sentBefore

/-- `name=value`. -/
def pairText (pair : Text × Text) : Text := pair.1 ++ "=".toList ++ pair.2

/-- The name and the value of each selected cookie, in order. -/
def matchingPairs (psl : Psl) (jar : CookieJar) (query : CookieQuery) : List (Text × Text) :=
  (jar.matchingCookies psl query).map fun cookie => (cookie.name, cookie.value)

/-- `cookie_string`. -/
def cookieString (psl : Psl) (jar : CookieJar) (query : CookieQuery) : Option Text :=
  let pairs := (jar.matchingPairs psl query).map pairText
  if pairs = [] then none else some (Text.join "; ".toList pairs)

/-- `cookie_header_for_request_with_access`. -/
def cookieHeaderForRequestWithAccess (psl : Psl) (jar : CookieJar) (url siteForCookies : Url)
    (topLevelNavigation : Bool) (method : Method) (access : CookieAccessContext)
    (now : SystemTime) : Option Text :=
  jar.cookieString psl
    { url, siteForCookies, topLevelNavigation, method, nonHttp := false, access, now }

/-- `document_cookie_with_access`. -/
def documentCookieWithAccess (psl : Psl) (jar : CookieJar) (url siteForCookies : Url)
    (access : CookieAccessContext) (now : SystemTime) : Text :=
  (jar.cookieString psl (.script url siteForCookies access now)).getD []

/-- `script_visible_cookie_pairs_with_access`. -/
def scriptVisibleCookiePairsWithAccess (psl : Psl) (jar : CookieJar) (url siteForCookies : Url)
    (access : CookieAccessContext) (now : SystemTime) : List (Text × Text) :=
  jar.matchingPairs psl (.script url siteForCookies access now)

/-- The filter of the change feed on the cookie of a change. -/
def seesChangeOf (psl : Psl) (url siteForCookies : Url) (access : CookieAccessContext)
    (cookie : Cookie) : Bool :=
  access.permits cookie && !cookie.httpOnly && cookie.matchesUrl url &&
    (sameSite psl url siteForCookies || cookie.sameSite == .none)

/-- `script_visible_changes_since_with_access`. -/
def scriptVisibleChangesSinceWithAccess (psl : Psl) (jar : CookieJar) (sequence : Nat)
    (url siteForCookies : Url) (access : CookieAccessContext) : Nat × List CookieStoreChange :=
  (jar.changeSequence,
    ((jar.changes.filter fun change => sequence < change.sequence).filter fun change =>
      seesChangeOf psl url siteForCookies access change.cookie).map RecordedCookieChange.visible)

theorem mem_matchingCookies {psl : Psl} {jar : CookieJar} {query : CookieQuery} {cookie : Cookie} :
    cookie ∈ jar.matchingCookies psl query ↔
      cookie ∈ jar.cookies.map Prod.fst ∧ query.selects psl cookie = true := by
  unfold matchingCookies
  rw [List.mem_insertionSort, List.mem_filter]

end CookieJar

/-! ## The operations as actions of a system -/

/-- An operation on the jar. -/
inductive JarOp where
  /-- A `Set-Cookie` header of a response. -/
  | header (value : Text) (originUrl siteForCookies : Url) (topLevelNavigation : Bool)
      (access : CookieAccessContext) (clock : WriteClock)
  /-- An assignment to `document.cookie`. -/
  | document (value : Text) (documentUrl siteForCookies : Url) (access : CookieAccessContext)
      (clock : WriteClock)
  /-- A Cookie Store set or delete. -/
  | cookieStore (options : CookieStoreWrite) (url siteForCookies : Url)
      (access : CookieAccessContext) (clock : WriteClock)
  /-- An eviction at an event-loop checkpoint. -/
  | evict (now : SystemTime)
  /-- A WebDriver deletion. -/
  | delete (url : Url) (now : SystemTime)

namespace JarOp

/-- The jar after an operation. -/
def apply (psl : Psl) (jar : CookieJar) : JarOp → CookieJar
  | .header value originUrl siteForCookies topLevelNavigation access clock =>
    jar.addFromHeaderForRequestWithAccess psl value originUrl siteForCookies topLevelNavigation
      access clock
  | .document value documentUrl siteForCookies access clock =>
    jar.addFromDocumentWithAccess psl value documentUrl siteForCookies access clock
  | .cookieStore options url siteForCookies access clock =>
    (jar.setFromCookieStoreWithAccess psl options url siteForCookies access clock).2
  | .evict now => jar.evictExpiredAt now
  | .delete url now => jar.deleteAssociatedCookies psl url now

end JarOp

/-- The jar a list of operations leaves, from the empty jar. -/
def reachableJar (psl : Psl) (ops : List JarOp) : CookieJar :=
  Run.run (JarOp.apply psl) CookieJar.new ops

end Omoikane.Http
