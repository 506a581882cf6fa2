import Omoikane.Http.Cookie
import Omoikane.Http.Response
import Omoikane.Http.Url

/-!
# HTTP requests

Construction, header editing and serialization of requests, and the rule for the
headers that survive a redirect.

Header names are compared without ASCII case everywhere.  `headersNamed` of a
request after each edit is what later proofs use of an edit.
-/

/-!
## Referrer policies

The policies of the `Referrer-Policy` header and the `Referer` value each gives
for a source and a destination.  URLs are those of the `url` crate here.
-/

namespace Omoikane.Http

open Base

/-- A referrer policy. -/
inductive ReferrerPolicy where
  | noReferrer
  | noReferrerWhenDowngrade
  | sameOrigin
  | origin
  | strictOrigin
  | originWhenCrossOrigin
  | strictOriginWhenCrossOrigin
  | unsafeUrl
deriving DecidableEq, Repr

/-- `ReferrerPolicy::parse`. -/
def ReferrerPolicy.parse (value : Text) : Option ReferrerPolicy :=
  let value := Text.toAsciiLowercase (Text.trim value)
  if value = "no-referrer".toList then some .noReferrer
  else if value = "no-referrer-when-downgrade".toList then some .noReferrerWhenDowngrade
  else if value = "same-origin".toList then some .sameOrigin
  else if value = "origin".toList then some .origin
  else if value = "strict-origin".toList then some .strictOrigin
  else if value = "origin-when-cross-origin".toList then some .originWhenCrossOrigin
  else if value = "strict-origin-when-cross-origin".toList then some .strictOriginWhenCrossOrigin
  else if value = "unsafe-url".toList then some .unsafeUrl
  else none

/-- `response_referrer_policy`: the last policy of all the fields. -/
def responseReferrerPolicy (headers : List (Text × Text)) : Option ReferrerPolicy :=
  (((headers.filter fun header =>
    Text.eqIgnoreAsciiCase header.1 "referrer-policy".toList).flatMap fun header =>
      header.2.splitOn ',').filterMap ReferrerPolicy.parse).getLast?

/-- `is_potentially_trustworthy`. -/
def isPotentiallyTrustworthy (crate : UrlCrate) (url : crate.StandardUrl) : Bool :=
  if crate.scheme url = "https".toList then true
  else if crate.scheme url ≠ "http".toList then false
  else match crate.host url with
    | some (.domain host) =>
      host == "localhost".toList || host == "localhost.".toList ||
        Text.endsWith host ".localhost".toList || Text.endsWith host ".localhost.".toList
    | some (.ip (.v4 a _ _ _) _) => a == 127
    | some (.ip address _) => address.isLoopback
    | none => false

/-- A scheme of the HTTP family. -/
def isHttpScheme (scheme : Text) : Bool := scheme == "http".toList || scheme == "https".toList

/-- `navigation_referrer_with_policy`; empty for no referrer. -/
def navigationReferrerWithPolicy (crate : UrlCrate) (source destination : Text)
    (policy : ReferrerPolicy) : Text :=
  match crate.parse source, crate.parse destination with
  | .ok source, .ok destination =>
    if !isHttpScheme (crate.scheme source) then []
    else
      let source := crate.withoutCredentials source
      if !isHttpScheme (crate.scheme destination) then []
      else
        let sameOrigin := crate.sameOrigin source destination
        let downgrade := isPotentiallyTrustworthy crate source &&
          !isPotentiallyTrustworthy crate destination
        let origin := crate.originAscii source ++ "/".toList
        let full := if Text.utf8Len (crate.asStr source) > 4096 then origin else crate.asStr source
        match policy with
        | .noReferrer => []
        | .noReferrerWhenDowngrade => if downgrade then [] else full
        | .sameOrigin => if sameOrigin then full else []
        | .origin => origin
        | .strictOrigin => if downgrade then [] else origin
        | .originWhenCrossOrigin => if sameOrigin then full else origin
        | .strictOriginWhenCrossOrigin =>
          if sameOrigin then full else if downgrade then [] else origin
        | .unsafeUrl => full
  | _, _ => []

end Omoikane.Http

namespace Omoikane.Http

open Base

/-- What the process contributes to every request. -/
structure Platform where
  /-- `default_user_agent`. -/
  defaultUserAgent : Text
  /-- `language::preferences().accept_language()`. -/
  acceptLanguage : Text

/-- An HTTP request. -/
structure HttpRequest where
  method : Method
  url : Url
  headers : List (Text × Text)
  body : Option Bytes
  requirePublicIp : Bool
  siteForCookies : Option Url
  cookieTopLevelSite : Option SchemefulSite
  topLevelNavigation : Bool
  referrerSource : Option (Text × ReferrerPolicy)
  storageAccessEligible : Bool
  crossSiteAncestry : Bool
deriving DecidableEq

/-! ## Header syntax -/

/-- `is_http_token`. -/
def isHttpToken (value : Text) : Bool :=
  value != [] && value.all fun c => c.isAlphanum || "!#$%&'*+-.^_`|~".toList.contains c

/-- A character a header value may hold. -/
def isHeaderValueChar (c : Char) : Bool := c == '\t' || (' ' ≤ c && c.toNat != 0x7f)

/-- `is_valid_header`. -/
def isValidHeader (name value : Text) : Bool := isHttpToken name && value.all isHeaderValueChar

/-- A field without the fields of a name. -/
def withoutHeader (headers : List (Text × Text)) (name : Text) : List (Text × Text) :=
  headers.filter fun header => !Text.eqIgnoreAsciiCase header.1 name

namespace HttpRequest

/-! ## Construction -/

/-- `new`. -/
def new (platform : Platform) (method : Method) (url : Url) : HttpRequest where
  method
  url
  headers := [
    ("Host".toList, url.authority),
    ("User-Agent".toList, platform.defaultUserAgent),
    ("Accept-Language".toList, platform.acceptLanguage),
    ("Accept-Encoding".toList, "gzip".toList)]
  body := none
  requirePublicIp := false
  siteForCookies := none
  cookieTopLevelSite := none
  topLevelNavigation := true
  referrerSource := none
  storageAccessEligible := false
  crossSiteAncestry := false

/-- `header`. -/
def header (request : HttpRequest) (name : Text) : Option Text := headerValue request.headers name

/-- `set_cookie_context`. -/
def setCookieContext (psl : Psl) (request : HttpRequest) (siteForCookies : Url)
    (topLevelNavigation : Bool) : HttpRequest :=
  { request with
    cookieTopLevelSite := some (SchemefulSite.fromUrl psl siteForCookies)
    siteForCookies := some siteForCookies
    topLevelNavigation }

/-- `cookie_access_context`. -/
def cookieAccessContext (psl : Psl) (request : HttpRequest) (unpartitioned : Bool) :
    CookieAccessContext where
  topLevelSite :=
    if request.topLevelNavigation then some (SchemefulSite.fromUrl psl request.url)
    else request.cookieTopLevelSite
  unpartitioned

/-! ## Editing -/

/-- `add_header`; an invalid header is ignored. -/
def addHeader (request : HttpRequest) (name value : Text) : HttpRequest :=
  if isValidHeader name value then { request with headers := request.headers ++ [(name, value)] }
  else request

/-- `set_header`; an invalid header is ignored. -/
def setHeader (request : HttpRequest) (name value : Text) : HttpRequest :=
  if isValidHeader name value then
    { request with headers := withoutHeader request.headers name ++ [(name, value)] }
  else request

/-- `remove_header`. -/
def removeHeader (request : HttpRequest) (name : Text) : HttpRequest :=
  { request with headers := withoutHeader request.headers name }

/-- `set_referrer_source`. -/
def setReferrerSource (crate : UrlCrate) (request : HttpRequest) (source : Text)
    (policy : ReferrerPolicy) : HttpRequest :=
  let value := navigationReferrerWithPolicy crate source request.url.toText policy
  let request := { request with referrerSource := some (source, policy) }
  let request := request.removeHeader "Referer".toList
  if value = [] then request else request.setHeader "Referer".toList value

/-- `set_body`. -/
def setBody (request : HttpRequest) (body : Bytes) : HttpRequest :=
  { request with
    headers := withoutHeader request.headers "content-length".toList ++
      [("Content-Length".toList, Text.ofNat body.length)]
    body := some body }

/-- `serialize`: the bytes on an HTTP/1.1 connection. -/
def serialize (request : HttpRequest) : Bytes :=
  Utf8.encode (request.method.asStr ++ " ".toList ++ request.url.requestTarget ++
      " HTTP/1.1\r\n".toList) ++
    Utf8.encode (request.headers.flatMap fun header =>
      header.1 ++ ": ".toList ++ header.2 ++ "\r\n".toList) ++
    Utf8.encode "\r\n".toList ++ request.body.getD []

end HttpRequest

/-! ## Redirects -/

/-- A name among some names, ASCII case ignored. -/
def isNamed (name : Text) (names : List String) : Bool :=
  names.any fun other => Text.eqIgnoreAsciiCase name other.toList

/-- `copy_header_on_redirect`. -/
def copyHeaderOnRedirect (name : Text) (preserveBody sameOrigin : Bool) : Bool :=
  if isNamed name ["host", "cookie", "content-length", "origin"] then false
  else if isNamed name ["referer"] then sameOrigin
  else if !sameOrigin && isNamed name ["authorization", "proxy-authorization"] then false
  else preserveBody ||
    !isNamed name ["content-encoding", "content-language", "content-location", "content-type"]

end Omoikane.Http
