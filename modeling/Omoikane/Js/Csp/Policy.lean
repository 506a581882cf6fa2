import Omoikane.Base.Text
import Omoikane.Base.Table
import Omoikane.Http.Url

/-!
# Content Security Policy

Policies as texts are parsed from: those of response headers, those a document
inherits, and those of its `meta` elements.  They are kept apart, in this order.
A parser-inserted script is checked against the ones that come before it.
-/

namespace Omoikane.Js.Csp

open Base Http

inductive HashAlgorithm where
  | sha256
  | sha384
  | sha512
deriving DecidableEq, Repr

inductive SourceExpression where
  | none
  | selfKeyword
  | unsafeInline
  | unsafeHashes
  | strictDynamic
  | nonce (value : Text)
  | hash (algorithm : HashAlgorithm) (value : Text)
  | unsafeEval
  | wasmUnsafeEval
  | trustedTypesEval
  | reportSample
  | any
  | scheme (scheme : Text)
  | host (scheme : Option Text) (host : Text) (port : Option Nat) (path : Option Text)
deriving DecidableEq, Repr

structure TrustedTypesDirective where
  names : List Text
  wildcard : Bool
  allowDuplicates : Bool
deriving DecidableEq, Repr

structure ParsedPolicy where
  directives : Table Text (List SourceExpression)
  trustedTypes : Option TrustedTypesDirective
  requireTrustedTypesForScript : Bool
  serialized : Text
deriving DecidableEq, Repr

/-- The policies of one document. -/
structure CspPolicy where
  policies : List ParsedPolicy
  reportOnly : List ParsedPolicy
  baseUrl : Option Url

/-! ## Parsing -/

/-- A character of the Base64 alphabets. -/
def isBase64 (c : Char) : Bool :=
  c.isAlphanum || c == '+' || c == '/' || c == '-' || c == '_'

/-- A Base64 text with at most two padding characters at its end. -/
def isBase64Value (value : Text) : Bool :=
  let core := Text.trimEndMatches (· == '=') value
  !core.isEmpty && decide (value.length - core.length ≤ 2) && core.all isBase64

def parseNonceSource (token : Text) : Option SourceExpression :=
  match Text.stripPrefix token "'nonce-".toList with
  | some rest =>
    match Text.stripSuffix rest ['\''] with
    | some nonce => if isBase64Value nonce then some (.nonce nonce) else none
    | none => none
  | none => none

def parseHashSource (token : Text) : Option SourceExpression := do
  let unquoted ← Text.stripPrefix token ['\'']
  let unquoted ← Text.stripSuffix unquoted ['\'']
  let (algorithm, value) ← Text.splitOnce '-' unquoted
  let lower := Text.toAsciiLowercase algorithm
  let algorithm ←
    if lower = "sha256".toList then some HashAlgorithm.sha256
    else if lower = "sha384".toList then some HashAlgorithm.sha384
    else if lower = "sha512".toList then some HashAlgorithm.sha512
    else none
  if isBase64Value value then
    some (.hash algorithm (value.map fun c => if c = '-' then '+' else if c = '_' then '/' else c))
  else none

/-- The expressions that are a single word. -/
def parseKeyword (token lower : Text) : Option (Option SourceExpression) :=
  if lower = "'none'".toList then some (some .none)
  else if lower = "'self'".toList then some (some .selfKeyword)
  else if lower = "'unsafe-inline'".toList then some (some .unsafeInline)
  else if lower = "'unsafe-hashes'".toList then some (some .unsafeHashes)
  else if lower = "'strict-dynamic'".toList then some (some .strictDynamic)
  else if lower = "'unsafe-eval'".toList then some (some .unsafeEval)
  else if lower = "'wasm-unsafe-eval'".toList then some (some .wasmUnsafeEval)
  else if lower = "'trusted-types-eval'".toList then some (some .trustedTypesEval)
  else if lower = "'report-sample'".toList then
    -- the opt-in is matched with its case
    some (if token = "'report-sample'".toList then some .reportSample else none)
  else if lower = "*".toList then some (some .any)
  else none

/-- A scheme and its colon; a dotted token with a colon is a malformed host and port. -/
def parseSchemeSource (lower : Text) : Option SourceExpression :=
  match Text.stripSuffix lower [':'] with
  | some scheme =>
    if !scheme.isEmpty && !scheme.contains '/' && !scheme.contains '.' then
      some (.scheme scheme)
    else none
  | none => none

/-- The host and port of a lowercase authority. -/
def parseAuthority (authority : Text) : Option (Text × Option Nat) :=
  match Text.stripPrefix authority ['['] with
  | some bracketed => do
    let (host, rest) ← Text.splitOnce ']' bracketed
    match rest with
    | [] => some (host, none)
    | ':' :: port => (Text.parseUnsigned 65535 port).map fun port => (host, some port)
    | _ => none
  | none =>
    match Text.rsplitOnce ':' authority with
    | some (host, port) =>
      if host.isEmpty || port.isEmpty then none
      else (Text.parseUnsigned 65535 port).map fun port => (host, some port)
    | none => some (authority, none)

def parseHostSource (token lower : Text) : Option SourceExpression :=
  let (scheme, authorityAndPath) :=
    match Text.splitOnceText "://".toList token with
    | some (scheme, rest) => (some (Text.toAsciiLowercase scheme), rest)
    | none => if Text.startsWith lower "//".toList then (none, token.drop 2) else (none, token)
  let (authority, path) :=
    match Text.splitOnce '/' authorityAndPath with
    | some (authority, path) => (authority, some ('/' :: path))
    | none => (authorityAndPath, none)
  if authority.isEmpty then none
  else (parseAuthority (Text.toAsciiLowercase authority)).map fun (host, port) =>
    .host scheme host port path

def parseSourceExpression (token : Text) : Option SourceExpression :=
  match parseNonceSource token with
  | some nonce => some nonce
  | none =>
    match parseHashSource token with
    | some hash => some hash
    | none =>
      let lower := Text.toAsciiLowercase token
      match parseKeyword token lower with
      | some keyword => keyword
      | none =>
        match parseSchemeSource lower with
        | some scheme => some scheme
        | none => parseHostSource token lower

def parseTrustedTypesDirective (values : List Text) : TrustedTypesDirective :=
  values.foldl (fun directive value =>
    if value = ['*'] then { directive with wildcard := true }
    else if value = "'allow-duplicates'".toList then { directive with allowDuplicates := true }
    else if value = "'none'".toList then directive
    else if !value.isEmpty && value.all fun c =>
        c.isAlphanum || ['-', '#', '=', '_', '/', '@', '.', '%'].contains c then
      { directive with names := directive.names ++ [value] }
    else directive)
    { names := [], wildcard := false, allowDuplicates := false }

/-- One round of the loop of `parse_policy`. -/
def parseDirective (policy : ParsedPolicy) (directive : Text) : ParsedPolicy :=
  match Text.splitAsciiWhitespace directive with
  | [] => policy
  | name :: values =>
    let name := Text.toAsciiLowercase name
    -- of directives with one name the first counts
    if (policy.directives.get name).isSome then policy
    else { policy with
      trustedTypes :=
        if name = "trusted-types".toList then some (parseTrustedTypesDirective values)
        else policy.trustedTypes
      requireTrustedTypesForScript :=
        if name = "require-trusted-types-for".toList then values.contains "'script'".toList
        else policy.requireTrustedTypesForScript
      directives := policy.directives.insert name (values.filterMap parseSourceExpression) }

/-- A policy without directives. -/
def emptyPolicy (input : Text) : ParsedPolicy where
  directives := []
  trustedTypes := none
  requireTrustedTypesForScript := false
  serialized := Text.trim input

def parsePolicy (input : Text) : Option ParsedPolicy :=
  let policy := (Text.split ';' input).foldl parseDirective (emptyPolicy input)
  if policy.directives.isEmpty then none else some policy

/-! ## Documents -/

/-- A node of a document: an element has a tag name. -/
inductive Node where
  | node (identity : Nat) (tagName : Option Text) (attributes : Table Text Text)
      (children : List Node)

/-- `is_descendant_of_head`, over the tag names of the ancestors, nearest first. -/
def isDescendantOfHead (ancestors : List (Option Text)) : Bool :=
  ancestors.any fun tagName => tagName.any (Text.eqIgnoreAsciiCase · "head".toList)

def cspMetaContent (ancestors : List (Option Text)) (tagName : Option Text)
    (attributes : Table Text Text) : Option Text :=
  if tagName.any (Text.eqIgnoreAsciiCase · "meta".toList) && isDescendantOfHead ancestors &&
      (attributes.get "http-equiv".toList).any fun value =>
        Text.eqIgnoreAsciiCase (Text.trim value) "content-security-policy".toList then
    attributes.get "content".toList
  else none

mutual

def collectCspMetaContents (ancestors : List (Option Text)) : Node → List Text
  | .node _ tagName attributes children =>
    (cspMetaContent ancestors tagName attributes).toList ++
      collectFromChildren (tagName :: ancestors) children

/-- The loop over the children. -/
def collectFromChildren (ancestors : List (Option Text)) : List Node → List Text
  | [] => []
  | child :: children =>
    collectCspMetaContents ancestors child ++ collectFromChildren ancestors children

end

structure ParserMetaCounts where
  total : Nat
  beforeScript : Nat
  foundScript : Bool
deriving DecidableEq, Repr

/-- One node of the count. -/
def ParserMetaCounts.visit (counts : ParserMetaCounts) (isScript : Bool) (content : Option Text) :
    ParserMetaCounts :=
  let counts := if isScript then { counts with foundScript := true } else counts
  if content.any fun content => (parsePolicy content).isSome then { counts with
    total := counts.total + 1
    beforeScript := if counts.foundScript then counts.beforeScript else counts.beforeScript + 1 }
  else counts

mutual

def countParserMetaPolicies (scriptId : Nat) (ancestors : List (Option Text)) :
    Node → ParserMetaCounts → ParserMetaCounts
  | .node identity tagName attributes children, counts =>
    countInChildren scriptId (tagName :: ancestors) children
      (counts.visit (identity == scriptId) (cspMetaContent ancestors tagName attributes))

/-- The loop over the children. -/
def countInChildren (scriptId : Nat) (ancestors : List (Option Text)) :
    List Node → ParserMetaCounts → ParserMetaCounts
  | [], counts => counts
  | child :: children, counts =>
    countInChildren scriptId ancestors children
      (countParserMetaPolicies scriptId ancestors child counts)

end

namespace CspPolicy

-- `crate` is the `url` crate
variable (crate : UrlCrate)

def fromHeadersAndDocument (headers : List Text) (document : Node) (baseUrl : Text) : CspPolicy where
  policies := headers.filterMap parsePolicy ++
    (collectCspMetaContents [] document).filterMap parsePolicy
  reportOnly := []
  baseUrl := (Url.fromStr crate baseUrl).toOption

def withReportOnlyHeaders (policy : CspPolicy) (headers : List Text) : CspPolicy :=
  { policy with reportOnly := policy.reportOnly ++ headers.filterMap parsePolicy }

def withDocumentMeta (policy : CspPolicy) (document : Node) (baseUrl : Text) : CspPolicy :=
  let own := fromHeadersAndDocument crate [] document baseUrl
  { policy with
    policies := policy.policies ++ own.policies
    baseUrl := policy.baseUrl.or own.baseUrl }

def forParserScript (policy : CspPolicy) (document : Node) (scriptId : Nat) : CspPolicy :=
  let counts := countParserMetaPolicies scriptId [] document
    { total := 0, beforeScript := 0, foundScript := false }
  if counts.foundScript && decide (counts.total ≤ policy.policies.length) then { policy with
    policies := policy.policies.take (policy.policies.length - counts.total + counts.beforeScript) }
  else policy

end CspPolicy

/-! ## For examples -/

/-- A crate that parses nothing. -/
def noUrls : UrlCrate where
  StandardUrl := Empty
  parse := fun _ => .error .other
  join := nofun
  scheme := nofun
  host := nofun
  portOrKnownDefault := nofun
  path := nofun
  query := nofun
  withoutCredentials := nofun
  originAscii := nofun
  sameOrigin := nofun
  asStr := nofun
  host_visible := nofun

end Omoikane.Js.Csp
