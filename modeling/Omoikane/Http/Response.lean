import Omoikane.Base.Reader
import Omoikane.Base.Text
import Omoikane.Http.Url

/-!
# HTTP/1.1 responses

The parser of HTTP/1.1 responses on a byte stream that ends: interim responses,
header fields, the three body framings and the content coding.  The parser
returns the bytes it has left beside the response, which the source drops with
its buffer.

The gzip decoder is a parameter.  A read of it yields bytes and may then fail.
`usize` has 64 bits.
-/

/-!
## Request methods
-/

namespace Omoikane.Http

open Base

/-- HTTP request methods. -/
inductive Method where
  | get
  | post
  | head
  | put
  | delete
  | options
  | patch
deriving DecidableEq, Repr

/-- The method name as an uppercase ASCII text. -/
def Method.asStr : Method → Text
  | .get => "GET".toList
  | .post => "POST".toList
  | .head => "HEAD".toList
  | .put => "PUT".toList
  | .delete => "DELETE".toList
  | .options => "OPTIONS".toList
  | .patch => "PATCH".toList

end Omoikane.Http

namespace Omoikane.Http

open Base

/-- The kinds of I/O errors that are told apart. -/
inductive IoErrorKind where
  | unexpectedEof
  | invalidData
  | invalidInput
  | permissionDenied
  | timedOut
  | wouldBlock
  | other
deriving DecidableEq, Repr

/-- Errors that can occur when parsing an HTTP response. -/
inductive HttpParseError where
  /-- An I/O error occurred while reading the stream. -/
  | io (kind : IoErrorKind)
  /-- The status line is malformed. -/
  | invalidStatusLine
  /-- The status code is not a valid number. -/
  | invalidStatusCode
  /-- A header line is malformed (missing `:`). -/
  | invalidHeader
  /-- A chunk size in chunked transfer encoding is malformed. -/
  | invalidChunkSize
  /-- The response body exceeds the configured buffer limit. -/
  | bodyTooLarge
  /-- Too many redirects were followed without reaching a final response. -/
  | tooManyRedirects
  /-- A redirect response is missing the `Location` header. -/
  | missingLocation
deriving DecidableEq, Repr

/-- A parsed HTTP/1.1 response. -/
structure HttpResponse where
  statusCode : Nat
  reason : Text
  headers : List (Text × Text)
  body : Bytes
  effectiveUrl : Option Url
  redirectCount : Nat
  finalRequestReferrer : Option Text
deriving DecidableEq

/-- The value of the first field of a name, ASCII case ignored. -/
def headerValue (headers : List (Text × Text)) (name : Text) : Option Text :=
  (headers.find? fun header => Text.eqIgnoreAsciiCase header.1 name).map Prod.snd

/-- The fields of a name, ASCII case ignored. -/
def headersNamed (headers : List (Text × Text)) (name : Text) : List (Text × Text) :=
  headers.filter fun header => Text.eqIgnoreAsciiCase header.1 name

namespace HttpResponse

/-- `new`. -/
def new (statusCode : Nat) (reason : Text) (headers : List (Text × Text)) (body : Bytes) :
    HttpResponse where
  statusCode
  reason
  headers
  body
  effectiveUrl := none
  redirectCount := 0
  finalRequestReferrer := none

/-- `header`. -/
def header (response : HttpResponse) (name : Text) : Option Text :=
  headerValue response.headers name

end HttpResponse

/-! ## Lines and fields -/

/-- Whether lines without a colon are errors or skipped. -/
inductive HeaderLineHandling where
  | strict
  | skipNonFieldLines
deriving DecidableEq, Repr

/-- A carriage return or a line feed. -/
def isLineEnd (c : Char) : Bool := c == '\r' || c == '\n'

/-- `read_line` into a string. -/
def readLine (s : Bytes) : Except HttpParseError (Text × Bytes) :=
  match s.readLine with
  | some p => .ok p
  | none => .error (.io .invalidData)

theorem readLine_eq_ok {s : Bytes} {p : Text × Bytes} :
    readLine s = .ok p ↔ s.readLine = some p := by
  unfold readLine
  cases s.readLine with
  | none => exact ⟨fun h => (by cases h), fun h => (by cases h)⟩
  | some q => exact ⟨fun h => (by cases h; rfl), fun h => (by cases h; rfl)⟩

/-- The largest `usize`. -/
def usizeMax : Nat := 2 ^ 64 - 1

/-- `parse_status_line`. -/
def parseStatusLine (line : Text) : Except HttpParseError (Nat × Text) :=
  match Text.splitFirst ' ' line with
  | (_, none) => .error .invalidStatusLine
  | (_, some rest) =>
    let (code, reason) := Text.splitFirst ' ' rest
    match Text.parseUnsigned (2 ^ 16 - 1) code with
    | none => .error .invalidStatusCode
    | some statusCode => .ok (statusCode, reason.getD [])

/-- `parse_header_line`. -/
def parseHeaderLine (line : Text) : Except HttpParseError (Text × Text) :=
  match Text.splitOnce ':' line with
  | none => .error .invalidHeader
  | some (name, value) => .ok (Text.trim name, Text.trim value)

/-- The field lines through the empty line. -/
def readFields (handling : HeaderLineHandling) (s : Bytes) :
    Except HttpParseError (List (Text × Text) × Bytes) :=
  match h : readLine s with
  | .error error => .error error
  | .ok (line, rest) =>
    if hline : line = [] then .error .invalidHeader
    else
      let trimmed := Text.trimEndMatches isLineEnd line
      if trimmed = [] then .ok ([], rest)
      else if handling = .skipNonFieldLines && !trimmed.contains ':' then
        readFields handling rest
      else
        match parseHeaderLine trimmed with
        | .error error => .error error
        | .ok field =>
          match readFields handling rest with
          | .error error => .error error
          | .ok (fields, rest) => .ok (field :: fields, rest)
termination_by s.length
decreasing_by all_goals exact Bytes.readLine_length_lt (readLine_eq_ok.mp h) hline

/-- A status line with the fields after it. -/
structure Head where
  statusCode : Nat
  reason : Text
  headers : List (Text × Text)
deriving DecidableEq, Repr

/-- One status line and its field lines. -/
def readHead (handling : HeaderLineHandling) (s : Bytes) :
    Except HttpParseError (Head × Bytes) := do
  let (statusLine, s) ← readLine s
  let (statusCode, reason) ← parseStatusLine (Text.trimEndMatches isLineEnd statusLine)
  let (headers, s) ← readFields handling s
  return ({ statusCode, reason, headers }, s)

/-! ## Decoding gzip -/

/-- What the gzip decoder yields for a body: bytes, and the error it then fails
with, if it does. -/
structure GzipStream where
  output : Bytes
  error : Option IoErrorKind

/-- The gzip decoder of the `flate2` crate. -/
abbrev GzDecoder := Bytes → GzipStream

/-- `read_bounded_to_end`: at most one byte more than the limit is read. -/
def readBoundedToEnd (output : Bytes) (error : Option IoErrorKind) (maxBodyBytes : Nat) :
    Except HttpParseError Bytes :=
  if maxBodyBytes < output.length then .error .bodyTooLarge
  else match error with
    | some kind => .error (.io kind)
    | none => .ok output

/-- `decode_gzip`. -/
def decodeGzip (gzDecoder : GzDecoder) (body : Bytes) (maxBodyBytes : Nat) :
    Except HttpParseError Bytes :=
  readBoundedToEnd (gzDecoder body).output (gzDecoder body).error maxBodyBytes

/-- `decode_content_encoding`. -/
def decodeContentEncoding (gzDecoder : GzDecoder) (headers : List (Text × Text)) (body : Bytes)
    (maxBodyBytes : Nat) : Except HttpParseError Bytes :=
  match headerValue headers "content-encoding".toList with
  | none => .ok body
  | some encoding =>
    if (encoding.splitOn ',').any fun value =>
        Text.eqIgnoreAsciiCase (Text.trim value) "gzip".toList then
      decodeGzip gzDecoder body maxBodyBytes
    else .ok body

/-! ## Body framing -/

/-- The trailer lines through the empty line. -/
def readTrailers (s : Bytes) : Except HttpParseError (Unit × Bytes) :=
  match h : readLine s with
  | .error error => .error error
  | .ok (trailing, rest) =>
    if hline : trailing = [] then .error .invalidHeader
    else if trailing = "\r\n".toList then .ok ((), rest)
    else
      match Text.stripSuffix trailing "\r\n".toList with
      | none => .error .invalidHeader
      | some line =>
        match parseHeaderLine line with
        | .error error => .error error
        | .ok _ => readTrailers rest
termination_by s.length
decreasing_by exact Bytes.readLine_length_lt (readLine_eq_ok.mp h) hline

/-- The size on a chunk's size line. -/
def parseChunkSize (sizeLine : Text) : Except HttpParseError Nat :=
  match Text.stripSuffix sizeLine "\r\n".toList with
  | none => .error .invalidChunkSize
  | some line =>
    let size := Text.trim (Text.splitFirst ';' line).1
    if size = [] || !size.all Text.isHexDigit then .error .invalidChunkSize
    else if usizeMax < Text.ofDigits 16 size then .error .invalidChunkSize
    else .ok (Text.ofDigits 16 size)

/-- `read_exact` from the stream. -/
def readExact (n : Nat) (s : Bytes) : Except HttpParseError (Bytes × Bytes) :=
  match s.readExact n with
  | some p => .ok p
  | none => .error (.io .unexpectedEof)

theorem readExact_eq_ok {n : Nat} {s : Bytes} {p : Bytes × Bytes} :
    readExact n s = .ok p ↔ s.readExact n = some p := by
  unfold readExact
  cases s.readExact n with
  | none => exact ⟨fun h => (by cases h), fun h => (by cases h)⟩
  | some q => exact ⟨fun h => (by cases h; rfl), fun h => (by cases h; rfl)⟩

/-- The chunk data and the line end after it. -/
def readChunkData (size : Nat) (s : Bytes) : Except HttpParseError (Bytes × Bytes) := do
  let (data, s) ← readExact size s
  let (crlf, s) ← readExact 2 s
  if crlf = [0x0D, 0x0A] then return (data, s) else throw .invalidChunkSize

/-- A size line that gives a size is not empty. -/
theorem parseChunkSize_nil : parseChunkSize [] = .error .invalidChunkSize := rfl

theorem readChunkData_eq_ok {size : Nat} {s data rest : Bytes} :
    readChunkData size s = .ok (data, rest) ↔
      s = data ++ 0x0D :: 0x0A :: rest ∧ data.length = size := by
  unfold readChunkData
  simp only [bind_eq_ok, readExact_eq_ok]
  constructor
  · rintro ⟨⟨data', s'⟩, hdata, ⟨crlf, rest'⟩, hcrlf, h⟩
    split at h
    next heq =>
      cases h
      simp only at hcrlf heq
      obtain ⟨rfl, hlen⟩ := Bytes.readExact_eq_some hdata
      obtain ⟨rfl, -⟩ := Bytes.readExact_eq_some hcrlf
      exact ⟨by rw [heq]; rfl, hlen⟩
    next => cases h
  · rintro ⟨rfl, rfl⟩
    refine ⟨_, Bytes.readExact_append data (0x0D :: 0x0A :: rest), ([0x0D, 0x0A], rest),
      Bytes.readExact_append [0x0D, 0x0A] rest, rfl⟩

/-- The loop of `read_chunked_body`, with the body read so far. -/
def readChunks (maxBodyBytes : Nat) (body : Bytes) (s : Bytes) :
    Except HttpParseError (Bytes × Bytes) :=
  match h : readLine s with
  | .error error => .error error
  | .ok (sizeLine, rest) =>
    match hsize : parseChunkSize sizeLine with
    | .error error => .error error
    | .ok size =>
      if size = 0 then
        match readTrailers rest with
        | .error error => .error error
        | .ok (_, rest) => .ok (body, rest)
      else if maxBodyBytes - body.length < size then .error .bodyTooLarge
      else
        match hdata : readChunkData size rest with
        | .error error => .error error
        | .ok (data, rest) => readChunks maxBodyBytes (body ++ data) rest
termination_by s.length
decreasing_by
  have hline : sizeLine ≠ [] := by
    rintro rfl
    rw [parseChunkSize_nil] at hsize
    cases hsize
  have hlt := Bytes.readLine_length_lt (readLine_eq_ok.mp h) hline
  rw [(readChunkData_eq_ok.mp hdata).1, List.length_append, List.length_cons] at hlt
  simp only [List.length_cons] at hlt
  omega

/-- `read_chunked_body`. -/
def readChunkedBody (s : Bytes) (maxBodyBytes : Nat) : Except HttpParseError (Bytes × Bytes) :=
  readChunks maxBodyBytes [] s

/-- The transfer codings of all fields, in order. -/
def transferCodings (headers : List (Text × Text)) : Except HttpParseError (List Text) :=
  let codings := (headersNamed headers "transfer-encoding".toList).flatMap fun header =>
    (header.2.splitOn ',').map Text.trim
  if codings.contains [] then .error .invalidHeader else .ok codings

/-- Undoes the codings applied before the chunked coding, the last one first. -/
def decodeTransferCodings (gzDecoder : GzDecoder) (maxBodyBytes : Nat) :
    List Text → Bytes → Except HttpParseError Bytes
  | [], body => .ok body
  | coding :: codings, body =>
    if Text.eqIgnoreAsciiCase coding "gzip".toList then
      match decodeGzip gzDecoder body maxBodyBytes with
      | .error error => .error error
      | .ok body => decodeTransferCodings gzDecoder maxBodyBytes codings body
    else .error .invalidHeader

/-- One length of the `Content-Length` fields against the lengths before it. -/
def combineLength (previous : Option Nat) (length : Text) : Except HttpParseError (Option Nat) :=
  if length = [] || !length.all Char.isDigit then .error .invalidHeader
  else match Text.parseUnsigned usizeMax length with
    | none => .error .invalidHeader
    | some length =>
      if previous.any (· ≠ length) then .error .invalidHeader else .ok (some length)

/-- The length all `Content-Length` fields agree on. -/
def contentLength (headers : List (Text × Text)) : Except HttpParseError (Option Nat) :=
  ((headersNamed headers "content-length".toList).flatMap fun header =>
    (header.2.splitOn ',').map Text.trim).foldlM combineLength none

/-- `read_body`. -/
def readBody (gzDecoder : GzDecoder) (headers : List (Text × Text)) (s : Bytes)
    (maxBodyBytes : Nat) : Except HttpParseError (Bytes × Bytes) := do
  let codings ← transferCodings headers
  match codings.getLast? with
  | some last =>
    if Text.eqIgnoreAsciiCase last "chunked".toList then
      let (body, s) ← readChunkedBody s maxBodyBytes
      let body ← decodeTransferCodings gzDecoder maxBodyBytes codings.dropLast.reverse body
      return (body, s)
    else throw .invalidHeader
  | none =>
    match ← contentLength headers with
    | some length =>
      if maxBodyBytes < length then throw .bodyTooLarge else readExact length s
    | none =>
      let body ← readBoundedToEnd s none maxBodyBytes
      return (body, [])

/-! ## The parser -/

/-- A status that is followed by another head on the same connection. -/
def isInterim (statusCode : Nat) : Bool := 100 ≤ statusCode && statusCode < 200 && statusCode != 101

/-- A response that has no body whatever its fields say. -/
def isBodyless (method : Method) (statusCode : Nat) : Bool :=
  method == .head || [101, 204, 304].contains statusCode

/-- The body after a head. -/
def readMessageBody (gzDecoder : GzDecoder) (method : Method) (maxBodyBytes : Nat) (head : Head)
    (s : Bytes) : Except HttpParseError (Bytes × Bytes) :=
  if isBodyless method head.statusCode then .ok ([], s)
  else do
    let (body, s) ← readBody gzDecoder head.headers s maxBodyBytes
    let body ← decodeContentEncoding gzDecoder head.headers body maxBodyBytes
    return (body, s)

/-- The heads through the final one, of which at most `n`, and its body. -/
def readResponse (gzDecoder : GzDecoder) (method : Method) (maxBodyBytes : Nat)
    (handling : HeaderLineHandling) : Nat → Bytes → Except HttpParseError (HttpResponse × Bytes)
  | 0, _ => .error .invalidStatusLine
  | n + 1, s => do
    let (head, s) ← readHead handling s
    if isInterim head.statusCode then
      readResponse gzDecoder method maxBodyBytes handling n s
    else
      let (body, s) ← readMessageBody gzDecoder method maxBodyBytes head s
      return (.new head.statusCode head.reason head.headers body, s)

/-- The heads a response may have. -/
def maxHeads : Nat := 16

namespace HttpResponse

/-- `parse_for_method_with_limit`. -/
def parseForMethodWithLimit (gzDecoder : GzDecoder) (s : Bytes) (method : Method)
    (maxBodyBytes : Nat) (headerLines : HeaderLineHandling) : Except HttpParseError HttpResponse :=
  (readResponse gzDecoder method maxBodyBytes headerLines maxHeads s).map Prod.fst

/-- `parse_for_method`, under the configured limit. -/
def parseForMethod (gzDecoder : GzDecoder) (responseBodyLimit : Nat) (s : Bytes)
    (method : Method) : Except HttpParseError HttpResponse :=
  parseForMethodWithLimit gzDecoder s method responseBodyLimit .skipNonFieldLines

end HttpResponse

end Omoikane.Http
