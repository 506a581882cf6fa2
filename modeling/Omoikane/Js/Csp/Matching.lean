import Omoikane.Base.Utf8
import Omoikane.Js.Csp.Policy

/-!
# What a policy allows

A request is checked against the source list of the directive that governs it: the
first of a chain of directives that the policy has.  A policy without one allows it.
A document allows what all its enforced policies allow.
-/

namespace Omoikane.Js.Csp

open Base Http

inductive ResourceType where
  | script
  | worker
  | style
  | connect
  | font
  | image
deriving DecidableEq, Repr

inductive InlineType where
  | script
  | dynamicScript
  | scriptAttribute
  | style
  | styleAttribute
  | navigation
deriving DecidableEq, Repr

namespace InlineType

def resourceType : InlineType → ResourceType
  | script | dynamicScript | scriptAttribute | navigation => .script
  | style | styleAttribute => .style

def isAttribute : InlineType → Bool
  | scriptAttribute | styleAttribute => true
  | _ => false

def permitsNonce : InlineType → Bool
  | script | dynamicScript | style => true
  | _ => false

def requiresUnsafeHashes : InlineType → Bool
  | scriptAttribute | styleAttribute | navigation => true
  | _ => false

def isScript : InlineType → Bool
  | script | dynamicScript | scriptAttribute | navigation => true
  | _ => false

end InlineType

structure ScriptRequest where
  nonce : Option Text
  parserInserted : Bool
deriving DecidableEq, Repr

structure PolicyViolation where
  serialized : Text
  reportSample : Bool
deriving DecidableEq, Repr

/-- The crates `sha2` and `base64`. -/
structure HashCrates where
  digest : HashAlgorithm → Bytes → Bytes
  encode : Bytes → Text

structure ResourceUrl where
  scheme : Text
  host : Text
  port : Nat
  path : Text
deriving DecidableEq, Repr

/-! ## URLs -/

def hexValue (byte : UInt8) : Option UInt8 :=
  if 48 ≤ byte ∧ byte ≤ 57 then some (byte - 48)
  else if 97 ≤ byte ∧ byte ≤ 102 then some (byte - 97 + 10)
  else if 65 ≤ byte ∧ byte ≤ 70 then some (byte - 65 + 10)
  else none

def percentDecodeBytes : Bytes → Bytes
  | [] => []
  | [byte] => [byte]
  | [byte, next] => [byte, next]
  | byte :: high :: low :: rest =>
    match if byte = 37 then hexValue high else none, hexValue low with
    | some high, some low => ((high <<< 4) ||| low) :: percentDecodeBytes rest
    | _, _ => byte :: percentDecodeBytes (high :: low :: rest)

def pathPartMatches (source target : Text) : Bool :=
  if source.isEmpty || (source == ['/'] && target.isEmpty) then true
  else
    let exact := !Text.endsWith source ['/']
    let sourceParts := Text.split '/' source
    let targetParts := Text.split '/' target
    if decide (sourceParts.length > targetParts.length) ||
        (exact && sourceParts.length != targetParts.length) then false
    else
      let sourceParts := if exact then sourceParts else sourceParts.dropLast
      (sourceParts.zip targetParts).all fun (left, right) =>
        percentDecodeBytes (Utf8.encode left) == percentDecodeBytes (Utf8.encode right)

def schemeMatches (expected actual : Text) : Bool :=
  Text.eqIgnoreAsciiCase expected actual ||
    (Text.eqIgnoreAsciiCase expected "http".toList && Text.eqIgnoreAsciiCase actual "ws".toList) ||
      (Text.eqIgnoreAsciiCase expected "https".toList &&
        Text.eqIgnoreAsciiCase actual "wss".toList)

def originSchemeMatches (left right : Text) : Bool :=
  schemeMatches left right || schemeMatches right left

def hostMatches (expected actual : Text) : Bool :=
  let expected := Text.toAsciiLowercase expected
  let actual := Text.toAsciiLowercase actual
  match Text.stripPrefix expected ['*', '.'] with
  | some suffix => actual != suffix && Text.endsWith actual ('.' :: suffix)
  | none => expected == actual

namespace ResourceUrl

def ofUrl (url : Url) : ResourceUrl where
  scheme := Text.toAsciiLowercase url.scheme
  host := Text.toAsciiLowercase url.host
  port := url.port.toNat
  path := url.path

/-- A URL without authority, of which only the scheme counts. -/
def ofScheme (scheme : Text) : ResourceUrl where
  scheme
  host := []
  port := 0
  path := []

def parse (crate : UrlCrate) (reference : Text) (baseUrl : Option Url) : Option ResourceUrl :=
  let reference := Text.trim reference
  if Text.eqIgnoreAsciiCase (reference.take 5) "data:".toList then some (ofScheme "data".toList)
  else if Text.eqIgnoreAsciiCase (reference.take 5) "blob:".toList then
    some (ofScheme "blob".toList)
  else
    let lowerReference := Text.toAsciiLowercase reference
    let originalScheme :=
      if Text.startsWith lowerReference "ws://".toList then some "ws".toList
      else if Text.startsWith lowerReference "wss://".toList then some "wss".toList
      else none
    let normalized :=
      if originalScheme = some "ws".toList then "http".toList ++ reference.drop 2
      else if originalScheme = some "wss".toList then "https".toList ++ reference.drop 3
      else reference
    let normalizedLower := Text.toAsciiLowercase normalized
    let url :=
      if Text.startsWith normalizedLower "http://".toList ||
          Text.startsWith normalizedLower "https://".toList then
        (Url.fromStr crate normalized).toOption
      else baseUrl.bind fun base => (base.resolveUrl crate normalized).toOption
    url.map fun url =>
      let resource := ofUrl url
      match originalScheme with
      | some scheme => { resource with scheme }
      | none => resource

def sameOrigin (self other : ResourceUrl) : Bool :=
  originSchemeMatches self.scheme other.scheme && Text.eqIgnoreAsciiCase self.host other.host &&
    self.port == other.port

end ResourceUrl

/-! ## One policy -/

/-- The directives that may govern a request, the most specific first. -/
def fallbacks : ResourceType → Bool → List Text
  | .script, false => ["script-src-elem".toList, "script-src".toList, "default-src".toList]
  | .script, true => ["script-src-attr".toList, "script-src".toList, "default-src".toList]
  | .worker, _ =>
    ["worker-src".toList, "child-src".toList, "script-src".toList, "default-src".toList]
  | .style, false => ["style-src-elem".toList, "style-src".toList, "default-src".toList]
  | .style, true => ["style-src-attr".toList, "style-src".toList, "default-src".toList]
  | .connect, _ => ["connect-src".toList, "default-src".toList]
  | .font, _ => ["font-src".toList, "default-src".toList]
  | .image, _ => ["img-src".toList, "default-src".toList]

def SourceExpression.isNonceOrHash : SourceExpression → Bool
  | .nonce _ | .hash _ _ => true
  | _ => false

/-- Whether a source expression matches a URL. -/
def SourceExpression.matchesUrl (baseUrl : Option Url) (url : ResourceUrl) (redirects : Nat) :
    SourceExpression → Bool
  | .any => ["http".toList, "https".toList, "ws".toList, "wss".toList].contains url.scheme
  | .selfKeyword => (baseUrl.map ResourceUrl.ofUrl).any fun base => base.sameOrigin url
  | .scheme expected => schemeMatches expected url.scheme
  | .host expectedScheme expectedHost port path =>
    let expectedScheme := expectedScheme.or ((baseUrl.map ResourceUrl.ofUrl).map ResourceUrl.scheme)
    if expectedScheme.any fun expected => !schemeMatches expected url.scheme then false
    else if !hostMatches expectedHost url.host then false
    else if port.any fun expected => expected != url.port then false
    else decide (redirects > 0) || path.all fun source => pathPartMatches source url.path
  | _ => false

namespace ParsedPolicy

def sourcesFor (policy : ParsedPolicy) (resourceType : ResourceType) (isAttribute : Bool) :
    Option (List SourceExpression) :=
  (fallbacks resourceType isAttribute).findSome? policy.directives.get

section

-- `hashes` are the crates `sha2` and `base64`
variable (hashes : HashCrates)

def allowsInlineSource (policy : ParsedPolicy) (kind : InlineType) (source nonce : Option Text) :
    Bool :=
  match policy.sourcesFor kind.resourceType kind.isAttribute with
  | none => true
  | some sources =>
    let overridesUnsafeInline := sources.any fun expression =>
      expression.isNonceOrHash || (kind.isScript && expression == .strictDynamic)
    if !overridesUnsafeInline && sources.contains .unsafeInline then true
    else if kind.permitsNonce && nonce.any fun nonce => sources.contains (.nonce nonce) then true
    else if kind == .dynamicScript && sources.contains .strictDynamic then true
    else
      match source with
      | none => false
      | some source =>
        if kind.requiresUnsafeHashes && !sources.contains .unsafeHashes then false
        else sources.any fun expression =>
          match expression with
          | .hash algorithm expected =>
            hashes.encode (hashes.digest algorithm (Utf8.encode source)) == expected
          | _ => false

def allowsInline (policy : ParsedPolicy) (resourceType : ResourceType) (isAttribute : Bool) : Bool :=
  match resourceType, isAttribute with
  | .script, false => policy.allowsInlineSource hashes .script none none
  | .script, true => policy.allowsInlineSource hashes .scriptAttribute none none
  | .style, false => policy.allowsInlineSource hashes .style none none
  | .style, true => policy.allowsInlineSource hashes .styleAttribute none none
  | _, _ => false

end

def allowsScriptNonce (policy : ParsedPolicy) (nonce : Option Text) : Bool :=
  match nonce.filter fun nonce => !nonce.isEmpty with
  | none => false
  | some nonce =>
    (policy.sourcesFor .script false).any fun sources => sources.contains (.nonce nonce)

def allowsUrl (policy : ParsedPolicy) (resourceType : ResourceType) (baseUrl : Option Url)
    (url : ResourceUrl) (redirects : Nat) : Bool :=
  match policy.sourcesFor resourceType false with
  | none => true
  | some sources =>
    if !sources.any fun source => source != .none then false
    else sources.any (SourceExpression.matchesUrl baseUrl url redirects)

def allowsScriptRequest (policy : ParsedPolicy) (baseUrl : Option Url) (url : Option ResourceUrl)
    (redirects : Nat) (request : ScriptRequest) : Bool :=
  match policy.sourcesFor .script false with
  | none => true
  | some sources =>
    if policy.allowsScriptNonce request.nonce then true
    else if sources.contains .strictDynamic then !request.parserInserted
    else url.any fun url => policy.allowsUrl .script baseUrl url redirects

end ParsedPolicy

/-! ## All policies -/

def isInlineReference (reference : Text) : Bool :=
  reference == "inline".toList || Text.startsWith reference "style-element:".toList ||
    Text.startsWith reference "style-attribute:".toList

namespace CspPolicy

section

variable (crate : UrlCrate) (hashes : HashCrates)

def allowsInline (policy : CspPolicy) (resourceType : ResourceType) : Bool :=
  policy.policies.all fun parsed => parsed.allowsInline hashes resourceType false

def allowsInlineSourceWithNonce (policy : CspPolicy) (kind : InlineType) (source : Text)
    (nonce : Option Text) : Bool :=
  policy.policies.all fun parsed => parsed.allowsInlineSource hashes kind (some source) nonce

def allowsInlineAttribute (policy : CspPolicy) (resourceType : ResourceType) : Bool :=
  policy.policies.all fun parsed => parsed.allowsInline hashes resourceType true

def allowsUrlAfterRedirects (policy : CspPolicy) (resourceType : ResourceType) (url : Url)
    (redirects : Nat) : Bool :=
  policy.policies.all fun parsed =>
    parsed.allowsUrl resourceType policy.baseUrl (ResourceUrl.ofUrl url) redirects

def allowsReferenceAfterRedirects (policy : CspPolicy) (resourceType : ResourceType)
    (reference : Text) (redirects : Nat) : Bool :=
  match ResourceUrl.parse crate reference policy.baseUrl with
  | none => policy.policies.isEmpty
  | some resourceUrl => policy.policies.all fun parsed =>
    parsed.allowsUrl resourceType policy.baseUrl resourceUrl redirects

/-- Whether a policy is violated, in `violating_policy_texts`. -/
def violates (baseUrl : Option Url) (resourceType : ResourceType) (reference : Text)
    (redirects : Nat) (scriptRequest : Option ScriptRequest) (parsed : ParsedPolicy) : Bool :=
  let inline := scriptRequest.isNone && isInlineReference reference
  let isAttribute :=
    resourceType == .style && Text.startsWith reference "style-attribute:".toList
  let url := ResourceUrl.parse crate reference baseUrl
  if (parsed.sourcesFor resourceType isAttribute).isNone then false
  else if inline then !parsed.allowsInline hashes resourceType isAttribute
  else
    match scriptRequest with
    | some request => !parsed.allowsScriptRequest baseUrl url redirects request
    | none => url.all fun url => !parsed.allowsUrl resourceType baseUrl url redirects

def violatingPolicyTexts (policy : CspPolicy) (policies : List ParsedPolicy)
    (resourceType : ResourceType) (reference : Text) (redirects : Nat)
    (scriptRequest : Option ScriptRequest) : List PolicyViolation :=
  let inline := scriptRequest.isNone && isInlineReference reference
  let isAttribute :=
    resourceType == .style && Text.startsWith reference "style-attribute:".toList
  policies.filterMap fun parsed =>
    if violates crate hashes policy.baseUrl resourceType reference redirects scriptRequest parsed then some {
      serialized := parsed.serialized
      reportSample := inline && (parsed.sourcesFor resourceType isAttribute).any
        fun sources => sources.contains .reportSample }
    else none

def blockingPolicyTextsAfterRedirects (policy : CspPolicy) (resourceType : ResourceType)
    (reference : Text) (redirects : Nat) : List PolicyViolation :=
  policy.violatingPolicyTexts crate hashes policy.policies resourceType reference redirects none

def scriptPolicyViolations (policy : CspPolicy) (reference : Text) (redirects : Nat)
    (request : ScriptRequest) (reportOnly : Bool) : List PolicyViolation :=
  policy.violatingPolicyTexts crate hashes
    (if reportOnly then policy.reportOnly else policy.policies) .script reference redirects
    (some request)

end

end CspPolicy

end Omoikane.Js.Csp
