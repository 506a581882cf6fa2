import Omoikane.Base.IpAddr

/-!
# URLs

`Url` is the parsed HTTP(S) URL every part of the HTTP layer works on.  It is
built only from a URL of the `url` crate by `Url.fromStandard`, which keeps
`http` and `https` and copies the components.

The crate is a parameter, `UrlCrate`: its URLs, the operations the code calls,
and the one documented fact the code relies on, that a host is printed in
visible ASCII.  The checked scheme and that fact are fields of `Url`, so every
`Url` has them.
-/

namespace Omoikane.Http

open Base

/-- A printable ASCII character other than the space. -/
def isVisibleAscii (c : Char) : Bool := '!' ≤ c && c ≤ '~'

/-- A parsed HTTP or HTTPS URL. -/
structure Url where
  scheme : Text
  host : Text
  port : UInt16
  path : Text
  query : Option Text
  /-- Only the two HTTP schemes are accepted. -/
  scheme_http : scheme = "http".toList ∨ scheme = "https".toList
  /-- Hosts are ASCII names, IPv4 addresses or bracketed IPv6 addresses. -/
  host_visible : host.all isVisibleAscii = true
deriving DecidableEq

/-- Errors that can occur when parsing a URL string. -/
inductive UrlParseError where
  | unsupportedScheme
  | missingSchemeSeparator
  | emptyHost
  | invalidPort
  | invalidUrl
deriving DecidableEq, Repr

/-! ## The `url` crate -/

/-- The errors of the crate the code tells apart. -/
inductive StandardParseError where
  | emptyHost
  | invalidPort
  | other
deriving DecidableEq, Repr

/-- The host of a crate URL.  An address carries its `to_string`. -/
inductive StandardHost where
  | domain (name : Text)
  | ip (address : IpAddr) (display : Text)
deriving DecidableEq, Repr

/-- The host as `Url` stores it: an IPv6 address in brackets. -/
def StandardHost.text : StandardHost → Text
  | .domain name => name
  | .ip (.v4 _ _ _ _) display => display
  | .ip (.v6 _) display => '[' :: display ++ [']']

/-- What the code uses of the `url` crate. -/
structure UrlCrate where
  /-- A URL of the crate. -/
  StandardUrl : Type
  parse : Text → Except StandardParseError StandardUrl
  join : StandardUrl → Text → Except StandardParseError StandardUrl
  scheme : StandardUrl → Text
  host : StandardUrl → Option StandardHost
  portOrKnownDefault : StandardUrl → Option UInt16
  path : StandardUrl → Text
  query : StandardUrl → Option Text
  /-- `set_fragment(None)`, `set_username("")` and `set_password(None)`. -/
  withoutCredentials : StandardUrl → StandardUrl
  /-- `origin().ascii_serialization()`. -/
  originAscii : StandardUrl → Text
  /-- `origin() == origin()`. -/
  sameOrigin : StandardUrl → StandardUrl → Bool
  /-- `as_str`. -/
  asStr : StandardUrl → Text
  /-- A host is printed in visible ASCII. -/
  host_visible : ∀ url h, host url = some h → h.text.all isVisibleAscii = true

/-- `map_parse_error`. -/
def mapParseError : StandardParseError → UrlParseError
  | .emptyHost => .emptyHost
  | .invalidPort => .invalidPort
  | .other => .invalidUrl

namespace Url

/-- `default_port_for`. -/
def defaultPortFor (scheme : Text) : UInt16 := if scheme = "https".toList then 443 else 80

/-- The `host:port` pair of the `Host` header, without a default port. -/
def authority (url : Url) : Text :=
  if url.port = defaultPortFor url.scheme then url.host
  else url.host ++ ":".toList ++ Text.ofNat url.port.toNat

/-- Path and query, for the request line. -/
def requestTarget (url : Url) : Text :=
  match url.query with
  | some query => url.path ++ "?".toList ++ query
  | none => url.path

/-- `Display`. -/
def toText (url : Url) : Text :=
  url.scheme ++ "://".toList ++ url.authority ++ url.requestTarget

/-- `from_standard`. -/
def fromStandard (crate : UrlCrate) (parsed : crate.StandardUrl) : Except UrlParseError Url :=
  if hscheme : crate.scheme parsed = "http".toList ∨ crate.scheme parsed = "https".toList then
    match hhost : crate.host parsed with
    | none => .error .emptyHost
    | some host =>
      match crate.portOrKnownDefault parsed with
      | none => .error .invalidPort
      | some port =>
        .ok {
          scheme := crate.scheme parsed
          host := host.text
          port := port
          path := crate.path parsed
          query := (crate.query parsed).filter (· ≠ [])
          scheme_http := hscheme
          host_visible := crate.host_visible parsed host hhost }
  else .error .unsupportedScheme

/-- `from_str`. -/
def fromStr (crate : UrlCrate) (s : Text) : Except UrlParseError Url :=
  let input := (Text.trimMatches (· ≤ ' ') s).filter fun c => !(c == '\t' || c == '\r' || c == '\n')
  match schemeSeparator input with
  | none => .error .missingSchemeSeparator
  | some (scheme, authorityAndPath) =>
    let lower := Text.toAsciiLowercase scheme
    if lower ≠ "http".toList ∧ lower ≠ "https".toList then .error .unsupportedScheme
    else if authorityAndPath = [] ∨ authorityAndPath.head? = some '/' then .error .emptyHost
    else match crate.parse input with
      | .error error => .error (mapParseError error)
      | .ok parsed => fromStandard crate parsed
where
  /-- `split_once("://")`. -/
  schemeSeparator : Text → Option (Text × Text)
    | ':' :: '/' :: '/' :: rest => some ([], rest)
    | c :: rest => (schemeSeparator rest).map fun p => (c :: p.1, p.2)
    | [] => none

/-- `resolve_url`: a reference against a base URL. -/
def resolveUrl (crate : UrlCrate) (base : Url) (reference : Text) : Except UrlParseError Url :=
  match crate.parse base.toText with
  | .error error => .error (mapParseError error)
  | .ok parsedBase =>
    match crate.join parsedBase reference with
    | .error error => .error (mapParseError error)
    | .ok parsed => fromStandard crate parsed

end Url

/-! ## Addresses for examples -/

/-- The root of an HTTPS host. -/
def httpsRoot (host : Text) (host_visible : host.all isVisibleAscii = true) : Url where
  scheme := "https".toList
  host
  port := 443
  path := "/".toList
  query := none
  scheme_http := by decide
  host_visible

/-- The root of `example.com`. -/
def exampleRoot : Url := httpsRoot "example.com".toList (by decide)

end Omoikane.Http
