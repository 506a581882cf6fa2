import Omoikane.Http.CookieDate
import Omoikane.Http.Site

/-!
# Cookies

A cookie as it is parsed from a `Set-Cookie` header, and the questions asked of
one cookie alone: whether it has expired, whether it belongs to a request URL,
and whether an environment may see it.
-/

namespace Omoikane.Http

open Base

/-- The `SameSite` attribute of a cookie. -/
inductive SameSite where
  /-- Sent with same-site and cross-site requests. -/
  | none
  /-- Sent with same-site requests and top-level navigations. -/
  | lax
  /-- Sent with same-site requests only. -/
  | strict
deriving DecidableEq, Repr

/-- A parsed HTTP cookie. -/
structure Cookie where
  name : Text
  value : Text
  domain : Option Text
  hostOnly : Bool
  path : Option Text
  createdAt : SystemTime
  receivedAt : SystemTime
  expires : Option SystemTime
  maxAge : Option Int
  secure : Bool
  httpOnly : Bool
  sameSite : SameSite
  partitioned : Bool
  partitionKey : Option SchemefulSite
deriving DecidableEq, Repr

/-- Cookie namespace and unpartitioned-storage permission of an environment. -/
structure CookieAccessContext where
  topLevelSite : Option SchemefulSite
  unpartitioned : Bool
deriving DecidableEq, Repr

namespace CookieAccessContext

/-- `first_party`. -/
def firstParty (psl : Psl) (url : Url) : CookieAccessContext :=
  { topLevelSite := some (SchemefulSite.fromUrl psl url), unpartitioned := true }

/-- `permits`. -/
def permits (access : CookieAccessContext) (cookie : Cookie) : Bool :=
  if cookie.partitioned then
    access.topLevelSite.isSome && cookie.partitionKey == access.topLevelSite
  else access.unpartitioned

end CookieAccessContext

namespace Cookie

/-! ## Parsing -/

/-- One attribute of a `Set-Cookie` header.  Unknown attributes are skipped. -/
def parseAttribute (cookie : Cookie) (attr : Text) : Cookie :=
  let attr := Text.trim attr
  if attr = [] then cookie
  else match Text.splitOnce '=' attr with
    | some (attrName, attrValue) =>
      let attrName := Text.toAsciiLowercase (Text.trim attrName)
      let attrValue := Text.trim attrValue
      if attrName = "partitioned".toList then { cookie with partitioned := true }
      else if attrName = "domain".toList then
        let d := if attrValue.head? = some '.' then attrValue.tail else attrValue
        { cookie with domain := some (Text.toAsciiLowercase d), hostOnly := false }
      else if attrName = "path".toList then { cookie with path := some attrValue }
      else if attrName = "expires".toList then { cookie with expires := parseHttpDate attrValue }
      else if attrName = "max-age".toList then { cookie with maxAge := Text.parseI64 attrValue }
      else if attrName = "samesite".toList then
        let lower := Text.toAsciiLowercase attrValue
        { cookie with
          sameSite := if lower = "strict".toList then .strict
            else if lower = "none".toList then .none
            else .lax }
      else cookie
    | none =>
      let attr := Text.toAsciiLowercase attr
      if attr = "secure".toList then { cookie with secure := true }
      else if attr = "httponly".toList then { cookie with httpOnly := true }
      else if attr = "partitioned".toList then { cookie with partitioned := true }
      else cookie

/-- `Cookie::parse`.  The two instants are the readings of the clock it takes. -/
def parse (createdAt receivedAt : SystemTime) (headerValue : Text) : Option Cookie :=
  let (nameValue, attrs) := Text.splitFirst ';' headerValue
  match Text.splitOnce '=' (Text.trim nameValue) with
  | none => none
  | some (name, value) =>
    let name := Text.trim name
    if name = [] then none
    else
      let cookie : Cookie := {
        name := name
        value := Text.trim value
        domain := none
        hostOnly := true
        path := none
        createdAt := createdAt
        receivedAt := receivedAt
        expires := none
        maxAge := none
        secure := false
        httpOnly := false
        sameSite := .lax
        partitioned := false
        partitionKey := none }
      match attrs with
      | some attrs => some ((attrs.splitOn ';').foldl parseAttribute cookie)
      | none => some cookie

/-! ## Expiry -/

/-- `expiration_time`. -/
def expirationTime (cookie : Cookie) : Option SystemTime :=
  match cookie.maxAge with
  | some maxAge =>
    if maxAge ≤ 0 then some cookie.receivedAt
    else SystemTime.checkedAddSecs cookie.receivedAt maxAge
  | none => cookie.expires

/-- `is_expired`. -/
def isExpired (cookie : Cookie) (now : SystemTime) : Bool :=
  if cookie.maxAge.any (· ≤ 0) then true
  else cookie.expirationTime.any (· ≤ now)

/-! ## Matching a request -/

/-- `matches_url`: the cookie should be sent with a request to `url`. -/
def matchesUrl (cookie : Cookie) (url : Url) : Bool :=
  (match cookie.domain with
    | some domain =>
      if cookie.hostOnly then Text.eqIgnoreAsciiCase url.host domain
      else domainMatches url.host domain
    | none => true) &&
  (match cookie.path with
    | some cookiePath => pathMatches url.path cookiePath
    | none => true) &&
  (!cookie.secure || secureCookieTransport url)

/-! ## What parsing fixes -/

/-- Attributes do not touch the name, the value and the partition key. -/
theorem parseAttribute_fixed (cookie : Cookie) (attr : Text) :
    (parseAttribute cookie attr).name = cookie.name ∧
      (parseAttribute cookie attr).value = cookie.value ∧
      (parseAttribute cookie attr).partitionKey = cookie.partitionKey := by
  unfold parseAttribute
  simp only
  repeat' split
  all_goals exact ⟨rfl, rfl, rfl⟩

theorem foldl_parseAttribute_fixed : ∀ (attrs : List Text) (cookie : Cookie),
    (attrs.foldl parseAttribute cookie).name = cookie.name ∧
      (attrs.foldl parseAttribute cookie).value = cookie.value ∧
      (attrs.foldl parseAttribute cookie).partitionKey = cookie.partitionKey
  | [], _ => ⟨rfl, rfl, rfl⟩
  | attr :: attrs, cookie => by
    obtain ⟨h₁, h₂, h₃⟩ := foldl_parseAttribute_fixed attrs (parseAttribute cookie attr)
    obtain ⟨g₁, g₂, g₃⟩ := parseAttribute_fixed cookie attr
    exact ⟨h₁.trans g₁, h₂.trans g₂, h₃.trans g₃⟩

/-- A parsed cookie has no partition key yet, its name holds neither `=` nor
`;`, and its value no `;`. -/
theorem parse_some {createdAt receivedAt : SystemTime} {headerValue : Text} {cookie : Cookie}
    (h : parse createdAt receivedAt headerValue = some cookie) :
    cookie.partitionKey = none ∧ '=' ∉ cookie.name ∧ ';' ∉ cookie.name ∧ ';' ∉ cookie.value := by
  unfold parse at h
  simp only at h
  split at h
  · cases h
  next name value hsplit =>
    split at h
    · cases h
    · obtain ⟨hpieces, heq⟩ := Text.splitOnce_eq_some.mp hsplit
      -- the name and the value are cut from the text before the first `;`
      have hsemi : ∀ c ∈ name ++ '=' :: value, c ≠ ';' := by
        intro c hc hcs
        rw [← hpieces] at hc
        exact Text.splitFirst_fst (hcs ▸ Text.trim_subset hc)
      have hname : ∀ c ∈ Text.trim name, c ≠ ';' := fun c hc =>
        hsemi c (List.mem_append_left _ (Text.trim_subset hc))
      have hvalue : ∀ c ∈ Text.trim value, c ≠ ';' := fun c hc =>
        hsemi c (List.mem_append_right _ (List.mem_cons_of_mem _ (Text.trim_subset hc)))
      have hfixed : cookie.name = Text.trim name ∧ cookie.value = Text.trim value ∧
          cookie.partitionKey = none := by
        split at h
        · cases h
          exact foldl_parseAttribute_fixed _ _
        · cases h
          exact ⟨rfl, rfl, rfl⟩
      obtain ⟨hn, hv, hk⟩ := hfixed
      rw [hn, hv, hk]
      exact ⟨rfl, fun hm => heq (Text.trim_subset hm), fun hm => hname _ hm rfl,
        fun hm => hvalue _ hm rfl⟩

end Cookie

end Omoikane.Http
