import Omoikane.Http.Url

/-!
# Schemeful sites

A site is a URL's scheme and registrable domain, or its complete host when it
has no registrable domain.  The public suffix list is a parameter.
-/

namespace Omoikane.Http

open Base

/-- The public suffix list, as the `psl` crate answers about a domain. -/
structure Psl where
  /-- `psl::domain_str`: the registrable domain. -/
  domainStr : Text → Option Text
  /-- `psl::suffix_str`: the public suffix. -/
  suffixStr : Text → Option Text

/-- A URL's scheme and registrable domain, without port. -/
structure SchemefulSite where
  scheme : Text
  domain : Text
deriving DecidableEq, Repr

/-- A suffix list on which every host of the examples is a registrable domain. -/
def examplePsl : Psl where
  domainStr := some
  suffixStr host := some (host.reverse.takeWhile (· ≠ '.')).reverse

/-- A square bracket, which surrounds an IPv6 host. -/
def isBracket (c : Char) : Bool := c == '[' || c == ']'

namespace SchemefulSite

/-- `from_parts`. -/
def fromParts (psl : Psl) (scheme host : Text) : SchemefulSite :=
  let host := Text.trimMatches isBracket host
  let domain := if (IpAddr.parse host).isSome then host else (psl.domainStr host).getD host
  { scheme := Text.toAsciiLowercase scheme, domain := Text.toAsciiLowercase domain }

/-- `from_url`. -/
def fromUrl (psl : Psl) (url : Url) : SchemefulSite := fromParts psl url.scheme url.host

/-- `is_schemelessly_same_site`. -/
def isSchemelesslySameSite (site other : SchemefulSite) : Bool := site.domain == other.domain

end SchemefulSite

/-- `same_site`: two URLs of one schemeful site. -/
def sameSite (psl : Psl) (a b : Url) : Bool :=
  SchemefulSite.fromUrl psl a == SchemefulSite.fromUrl psl b

/-- `is_public_suffix`: the domain is itself a public suffix, such as `com`. -/
def isPublicSuffix (psl : Psl) (domain : Text) : Bool :=
  (IpAddr.parse domain).isNone && psl.suffixStr domain == some domain

/-- `secure_cookie_transport`: HTTPS, or HTTP to a loopback host. -/
def secureCookieTransport (url : Url) : Bool :=
  if url.scheme = "https".toList then true
  else url.scheme = "http".toList &&
    (Text.eqIgnoreAsciiCase url.host "localhost".toList ||
      (IpAddr.parse (Text.trimMatches isBracket url.host)).any IpAddr.isLoopback)

/-- A transport that secure cookies may travel: HTTPS, or HTTP to a loopback host. -/
def SecureTransport (url : Url) : Prop :=
  url.scheme = "https".toList ∨
    (url.scheme = "http".toList ∧
      (Text.eqIgnoreAsciiCase url.host "localhost".toList = true ∨
        ∃ address, IpAddr.parse (Text.trimMatches isBracket url.host) = some address ∧
          address.isLoopback = true))

theorem secureCookieTransport_iff {url : Url} :
    secureCookieTransport url = true ↔ SecureTransport url := by
  unfold secureCookieTransport SecureTransport
  by_cases h : url.scheme = "https".toList
  · simp only [h, if_true, true_or]
  · rw [if_neg h, Bool.and_eq_true, decide_eq_true_eq, Bool.or_eq_true, Option.any_eq_true]
    exact ⟨Or.inr, fun h' => h'.resolve_left h⟩

/-! ## Domain matching and path matching -/

/-- `host` domain-matches `domain`: they are equal, or `host` is a name (no IP
address) that ends in a dot and `domain`.  ASCII case does not count. -/
def DomainMatch (host domain : Text) : Prop :=
  Text.toAsciiLowercase host = Text.toAsciiLowercase domain ∨
    (IpAddr.parse (Text.trimMatches isBracket (Text.toAsciiLowercase host)) = none ∧
      ∃ labels, Text.toAsciiLowercase host = labels ++ '.' :: Text.toAsciiLowercase domain)

/-- `domain_matches`. -/
def domainMatches (host domain : Text) : Bool :=
  let host := Text.toAsciiLowercase host
  let domain := Text.toAsciiLowercase domain
  if host = domain then true
  else if (IpAddr.parse (Text.trimMatches isBracket host)).isSome then false
  else Text.endsWith host ('.' :: domain)

theorem domainMatches_iff {host domain : Text} :
    domainMatches host domain = true ↔ DomainMatch host domain := by
  unfold domainMatches DomainMatch
  by_cases heq : Text.toAsciiLowercase host = Text.toAsciiLowercase domain
  · simp [heq]
  · cases hip : IpAddr.parse (Text.trimMatches isBracket (Text.toAsciiLowercase host)) with
    | some address => simp [heq, hip]
    | none =>
      simp only [heq, if_false, hip, Option.isSome_none, Bool.false_eq_true, Text.endsWith,
        List.isSuffixOf_iff_suffix, false_or, true_and]
      constructor
      · rintro ⟨labels, h⟩
        exact ⟨labels, h.symm⟩
      · rintro ⟨labels, h⟩
        exact ⟨labels, h.symm⟩

@[simp] theorem domainMatches_lower_left (host domain : Text) :
    domainMatches (Text.toAsciiLowercase host) domain = domainMatches host domain := by
  simp [domainMatches]

/-- `requestPath` path-matches `cookiePath`: they are equal, or `cookiePath` is
a prefix that ends at a segment boundary. -/
def PathMatch (requestPath cookiePath : Text) : Prop :=
  requestPath = cookiePath ∨
    ∃ rest, requestPath = cookiePath ++ rest ∧
      (cookiePath.getLast? = some '/' ∨ rest.head? = some '/')

/-- `path_matches`. -/
def pathMatches (requestPath cookiePath : Text) : Bool :=
  if requestPath = cookiePath then true
  else if Text.startsWith requestPath cookiePath then
    cookiePath.getLast? == some '/' || (requestPath.drop cookiePath.length).head? == some '/'
  else false

theorem pathMatches_iff {requestPath cookiePath : Text} :
    pathMatches requestPath cookiePath = true ↔ PathMatch requestPath cookiePath := by
  unfold pathMatches PathMatch
  by_cases heq : requestPath = cookiePath
  · simp [heq]
  · by_cases hp : Text.startsWith requestPath cookiePath = true
    · obtain ⟨rest, rfl⟩ := List.isPrefixOf_iff_prefix.mp hp
      simp [heq, hp]
    · have hn : ¬ ∃ rest, requestPath = cookiePath ++ rest ∧
          (cookiePath.getLast? = some '/' ∨ rest.head? = some '/') := by
        rintro ⟨rest, rfl, -⟩
        exact hp (List.isPrefixOf_iff_prefix.mpr ⟨rest, rfl⟩)
      simp [heq, hp, hn]

/-- `default_path`: the directory of the request path. -/
def defaultPath (requestPath : Text) : Text :=
  if requestPath.head? ≠ some '/' then "/".toList
  else
    -- `rfind('/')`: what precedes the last slash
    let directory := ((requestPath.reverse.dropWhile (· ≠ '/')).drop 1).reverse
    if directory = [] then "/".toList else directory

example : defaultPath "/docs/page.html".toList = "/docs".toList := by decide
example : defaultPath "/".toList = "/".toList := by decide

end Omoikane.Http
