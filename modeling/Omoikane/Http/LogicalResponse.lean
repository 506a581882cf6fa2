import Omoikane.Base.Numerals
import Omoikane.Http.ResponseFraming

/-!
# Logical responses

A `LogicalResponse` is a response as a server means it.  Over HTTP/1.1 it is
delivered in one of three framings, and `parseForMethod` returns its status and
its body, with the content coding undone (`LogicalResponse.parse_http1`).
-/

namespace Omoikane.Http

open Base

/-! ## The response and its framings -/

/-- A field that frames a message. -/
def isFramingField (header : Text × Text) : Bool :=
  Text.eqIgnoreAsciiCase header.1 "transfer-encoding".toList ||
    Text.eqIgnoreAsciiCase header.1 "content-length".toList

/-- A field that its line stands for. -/
structure WellFormedField (header : Text × Text) : Prop where
  colon_not_mem : ':' ∉ header.1
  trim_name : Text.trim header.1 = header.1
  trim_value : Text.trim header.2 = header.2
  name_oneLine : ∀ c ∈ header.1, isLineEnd c = false
  value_oneLine : ∀ c ∈ header.2, isLineEnd c = false

/-- A response as a server means it. -/
structure LogicalResponse where
  code : Text
  reason : Text
  headers : List (Text × Text)
  body : Bytes
  code_length : code.length = 3
  code_isDigit : ∀ c ∈ code, c.isDigit = true
  status_range : 200 ≤ Text.ofDigits 10 code ∧ Text.ofDigits 10 code ≤ 599
  status_body : Text.ofDigits 10 code ≠ 204 ∧ Text.ofDigits 10 code ≠ 304
  reason_oneLine : ∀ c ∈ reason, isLineEnd c = false
  headers_wellFormed : ∀ header ∈ headers, WellFormedField header
  headers_content : ∀ header ∈ headers, isFramingField header = false

/-- How HTTP/1.1 delimits a body, with what follows it on the connection. -/
inductive Framing (body : Bytes) where
  | contentLength (digits : Text) (digits_ne_nil : digits ≠ [])
      (isDigit : ∀ c ∈ digits, c.isDigit = true)
      (ofDigits_digits : Text.ofDigits 10 digits = body.length) (after : Bytes)
  | chunked (message : ChunkedMessage) (body_eq : message.body = body)
      (isText : message.IsText) (after : Bytes)
  | untilEnd

namespace Framing

variable {body : Bytes}

/-- The field that announces the framing. -/
def fields : Framing body → List (Text × Text)
  | .contentLength digits _ _ _ _ => [("Content-Length".toList, digits)]
  | .chunked _ _ _ _ => [("Transfer-Encoding".toList, "chunked".toList)]
  | .untilEnd => []

/-- The body on the connection. -/
def encode : Framing body → Bytes
  | .contentLength _ _ _ _ after => body ++ after
  | .chunked message _ _ after => message.encode ++ after
  | .untilEnd => body

end Framing

/-! ## Over HTTP/1.1 -/

/-- A field line. -/
def fieldText (header : Text × Text) : Text := header.1 ++ ':' :: ' ' :: header.2

/-- The bytes of a field line. -/
def encodeField (header : Text × Text) : Bytes :=
  Utf8.encode (fieldText header ++ "\r\n".toList)

namespace LogicalResponse

/-- The status as a number. -/
def statusCode (response : LogicalResponse) : Nat := Text.ofDigits 10 response.code

/-- The status line. -/
def statusText (response : LogicalResponse) : Text :=
  "HTTP/1.1".toList ++ ' ' :: (response.code ++ ' ' :: response.reason)

/-- The fields of the message, with the framing field at some place among them. -/
def http1Fields (response : LogicalResponse) (framing : Framing response.body)
    (position : Nat) : List (Text × Text) :=
  response.headers.take position ++ (framing.fields ++ response.headers.drop position)

/-- The message over HTTP/1.1. -/
def http1 (response : LogicalResponse) (framing : Framing response.body) (position : Nat) :
    Bytes :=
  Utf8.encode (response.statusText ++ "\r\n".toList) ++
    ((response.http1Fields framing position).flatMap encodeField ++ (crlf ++ framing.encode))

end LogicalResponse

/-- A line of text is read with its end. -/
theorem readLine_text {line : Text} (h : ∀ c ∈ line, isLineEnd c = false) (rest : Bytes) :
    readLine (Utf8.encode (line ++ "\r\n".toList) ++ rest) = .ok (line ++ "\r\n".toList, rest) := by
  have hfeed : '\n' ∉ line ++ ['\r'] := by
    intro hm
    rcases List.mem_append.mp hm with hm | hm
    · exact absurd (h _ hm) (by decide)
    · exact absurd hm (by decide)
  have hread := Bytes.readLine_encode hfeed rest
  rw [List.append_assoc] at hread
  exact readLine_eq_ok.mpr hread

theorem trimEndMatches_crlf {line : Text} (h : ∀ c ∈ line, isLineEnd c = false) :
    Text.trimEndMatches isLineEnd (line ++ "\r\n".toList) = line := by
  rw [Text.trimEndMatches_append (Text.forall_mem_of_all (by decide)), Text.trimEndMatches_of_forall h]

namespace WellFormedField

variable {header : Text × Text}

theorem fieldText_oneLine (h : WellFormedField header) :
    ∀ c ∈ fieldText header, isLineEnd c = false := by
  intro c hc
  simp only [fieldText, List.mem_append, List.mem_cons] at hc
  rcases hc with hc | rfl | rfl | hc
  · exact h.name_oneLine c hc
  · rfl
  · rfl
  · exact h.value_oneLine c hc

theorem parseHeaderLine_fieldText (h : WellFormedField header) :
    parseHeaderLine (fieldText header) = .ok header := by
  rw [parseHeaderLine, fieldText, Text.splitOnce_eq_some.mpr ⟨rfl, h.colon_not_mem⟩]
  dsimp only
  rw [Text.trim_cons_space, h.trim_name, h.trim_value]

theorem fieldLine_fieldText (h : WellFormedField header) (handling : HeaderLineHandling) :
    fieldLine handling (fieldText header) = .ok [header] := by
  have hcolon : (fieldText header).contains ':' = true := by simp [fieldText]
  rw [fieldLine, hcolon, Bool.not_true, Bool.and_false, if_neg (by decide),
    h.parseHeaderLine_fieldText]
  rfl

end WellFormedField

/-- Fields are read back from their lines. -/
theorem readFields_encode (handling : HeaderLineHandling) {fields : List (Text × Text)}
    (h : ∀ header ∈ fields, WellFormedField header) (rest : Bytes) :
    readFields handling (fields.flatMap encodeField ++ (crlf ++ rest)) = .ok (fields, rest) := by
  induction fields with
  | nil =>
    have hblank : readLine (crlf ++ rest) = .ok ("\r\n".toList, rest) :=
      readLine_text (show ∀ c ∈ ([] : Text), isLineEnd c = false by simp) rest
    exact readFields_blank hblank (by decide) (by decide)
  | cons header fields ih =>
    have hheader : WellFormedField header := h header (List.mem_cons_self ..)
    have hrest := ih fun other ho => h other (List.mem_cons_of_mem _ ho)
    have htrim := trimEndMatches_crlf hheader.fieldText_oneLine
    have hread := readLine_text hheader.fieldText_oneLine
      (fields.flatMap encodeField ++ (crlf ++ rest))
    have hne : fieldText header ≠ [] := by simp [fieldText]
    rw [List.flatMap_cons, List.append_assoc, encodeField,
      readFields_line hread (by rw [htrim]; exact hne), htrim,
      hheader.fieldLine_fieldText handling, ok_bind, hrest]
    rfl

theorem isDigit_facts {c : Char} (h : c.isDigit = true) :
    Text.isWhitespace c = false ∧ isLineEnd c = false ∧ c ≠ ' ' ∧ c ≠ ',' ∧ c ≠ '+' := by
  have hhex : Text.isHexDigit c = true := by simp [Text.isHexDigit, h]
  refine ⟨Text.isWhitespace_of_isHexDigit hhex, ?_, ?_, ?_, ?_⟩
  · rw [Bool.eq_false_iff]
    intro hend
    simp only [isLineEnd, Bool.or_eq_true, beq_iff_eq] at hend
    rcases hend with rfl | rfl <;> exact absurd h (by decide)
  all_goals
    rintro rfl
    exact absurd h (by decide)

/-- A text of digits is trimmed already. -/
theorem trim_digits {digits : Text} (h : ∀ c ∈ digits, c.isDigit = true) :
    Text.trim digits = digits :=
  Text.trim_eq_self (fun c hc => (isDigit_facts (h c (List.mem_of_mem_head? hc))).1)
    fun c hc => (isDigit_facts (h c (List.mem_of_mem_getLast? hc))).1

namespace LogicalResponse

variable (response : LogicalResponse)

theorem code_ne_nil : response.code ≠ [] := by
  intro h
  have hlength := response.code_length
  rw [h] at hlength
  cases hlength

theorem parseUnsigned_code :
    Text.parseUnsigned (2 ^ 16 - 1) response.code = some response.statusCode := by
  have hrange := response.status_range
  have hcode : Text.IsNumeral response.code response.statusCode :=
    ⟨response.code_ne_nil, response.code_isDigit, rfl⟩
  exact hcode.parseUnsigned (by rw [statusCode]; omega)

theorem parseStatusLine_statusText :
    parseStatusLine response.statusText = .ok (response.statusCode, response.reason) := by
  have hversion : Text.splitOnce ' ' response.statusText =
      some ("HTTP/1.1".toList, response.code ++ ' ' :: response.reason) :=
    Text.splitOnce_eq_some.mpr ⟨rfl, by decide⟩
  have hspace : ' ' ∉ response.code := fun hm =>
    (isDigit_facts (response.code_isDigit _ hm)).2.2.1 rfl
  have hcode : Text.splitOnce ' ' (response.code ++ ' ' :: response.reason) =
      some (response.code, response.reason) := Text.splitOnce_eq_some.mpr ⟨rfl, hspace⟩
  rw [parseStatusLine, Text.splitFirst, hversion]
  dsimp only
  rw [Text.splitFirst, hcode]
  dsimp only
  rw [response.parseUnsigned_code]
  rfl

theorem statusText_oneLine : ∀ c ∈ response.statusText, isLineEnd c = false := by
  intro c hc
  rcases List.mem_append.mp hc with hc | hc
  · exact Text.forall_mem_of_all (s := "HTTP/1.1".toList) (by decide) c hc
  · rcases List.mem_cons.mp hc with rfl | hc
    · rfl
    · rcases List.mem_append.mp hc with hc | hc
      · exact (isDigit_facts (response.code_isDigit c hc)).2.1
      · rcases List.mem_cons.mp hc with rfl | hc
        · rfl
        · exact response.reason_oneLine c hc

end LogicalResponse

theorem Framing.fields_wellFormed {body : Bytes} (framing : Framing body) :
    ∀ header ∈ framing.fields, WellFormedField header := by
  intro header hheader
  cases framing with
  | contentLength digits hne hdigits hvalue after =>
    rw [Framing.fields, List.mem_singleton] at hheader
    subst hheader
    exact ⟨show ':' ∉ "Content-Length".toList by decide,
      show Text.trim "Content-Length".toList = "Content-Length".toList by decide,
      trim_digits hdigits,
      Text.forall_mem_of_all (s := "Content-Length".toList) (by decide),
      fun c hc => (isDigit_facts (hdigits c hc)).2.1⟩
  | chunked message hbody htext after =>
    rw [Framing.fields, List.mem_singleton] at hheader
    subst hheader
    exact ⟨by decide, by decide, by decide, Text.forall_mem_of_all (by decide),
      Text.forall_mem_of_all (by decide)⟩
  | untilEnd => cases hheader

namespace LogicalResponse

variable (response : LogicalResponse) (framing : Framing response.body) (position : Nat)

theorem http1Fields_wellFormed :
    ∀ header ∈ response.http1Fields framing position, WellFormedField header := by
  intro header hheader
  simp only [http1Fields, List.mem_append] at hheader
  rcases hheader with hm | hm | hm
  · exact response.headers_wellFormed header (List.mem_of_mem_take hm)
  · exact framing.fields_wellFormed header hm
  · exact response.headers_wellFormed header (List.mem_of_mem_drop hm)

/-- The head is read back, up to the body. -/
theorem readHead_http1 (handling : HeaderLineHandling) :
    readHead handling (response.http1 framing position) =
      .ok ({ statusCode := response.statusCode, reason := response.reason,
             headers := response.http1Fields framing position }, framing.encode) := by
  have hline := readLine_text response.statusText_oneLine
    ((response.http1Fields framing position).flatMap encodeField ++ (crlf ++ framing.encode))
  have hstatus : parseStatusLine
      (Text.trimEndMatches isLineEnd (response.statusText ++ "\r\n".toList)) =
        .ok (response.statusCode, response.reason) := by
    rw [trimEndMatches_crlf response.statusText_oneLine, response.parseStatusLine_statusText]
  rw [http1, readHead_line hline hstatus,
    readFields_encode handling (response.http1Fields_wellFormed framing position), ok_bind]

/-- The fields of a framing name are those of the framing. -/
theorem headersNamed_http1Fields {name : Text}
    (hname : name = "transfer-encoding".toList ∨ name = "content-length".toList) :
    headersNamed (response.http1Fields framing position) name =
      headersNamed framing.fields name := by
  have hnone : ∀ header ∈ response.headers, ¬ Text.eqIgnoreAsciiCase header.1 name = true := by
    intro header hheader heq
    obtain ⟨hencoding, hlength⟩ :=
      Bool.or_eq_false_iff.mp (response.headers_content header hheader)
    rcases hname with rfl | rfl
    · rw [heq] at hencoding
      cases hencoding
    · rw [heq] at hlength
      cases hlength
  unfold headersNamed http1Fields
  rw [List.filter_append, List.filter_append,
    List.filter_eq_nil_iff.mpr fun header hm => hnone header (List.mem_of_mem_take hm),
    List.filter_eq_nil_iff.mpr fun header hm => hnone header (List.mem_of_mem_drop hm),
    List.nil_append, List.append_nil]

/-- The content coding is not announced by a framing field. -/
theorem headerValue_http1Fields :
    headerValue (response.http1Fields framing position) "content-encoding".toList =
      headerValue response.headers "content-encoding".toList := by
  have hnone : framing.fields.find? (fun header =>
      Text.eqIgnoreAsciiCase header.1 "content-encoding".toList) = none := by
    cases framing with
    | contentLength digits _ _ _ _ => rfl
    | chunked message _ _ _ => rfl
    | untilEnd => rfl
  unfold headerValue http1Fields
  rw [List.find?_append, List.find?_append, hnone, Option.none_or, ← List.find?_append,
    List.take_append_drop]

theorem combineLength_digits {digits : Text} (hne : digits ≠ [])
    (h : ∀ c ∈ digits, c.isDigit = true) (hmax : Text.ofDigits 10 digits ≤ usizeMax) :
    combineLength none digits = .ok (some (Text.ofDigits 10 digits)) := by
  have hall : digits.all Char.isDigit = true := List.all_eq_true.mpr h
  unfold combineLength
  rw [if_neg (by simp [hne, hall]), Text.IsNumeral.parseUnsigned ⟨hne, h, rfl⟩ hmax]
  rfl

/-- The body is read back as it was framed. -/
theorem readBody_http1 (gzDecoder : GzDecoder) {maxBodyBytes : Nat}
    (hmax : maxBodyBytes ≤ usizeMax) (hbody : response.body.length ≤ maxBodyBytes) :
    ∃ rest, readBody gzDecoder (response.http1Fields framing position) framing.encode
      maxBodyBytes = .ok (response.body, rest) := by
  have hencodings := response.headersNamed_http1Fields framing position (Or.inl rfl)
  have hlengths := response.headersNamed_http1Fields framing position (Or.inr rfl)
  cases framing with
  | contentLength digits hne hdigits hvalue after =>
    have hsplit : digits.splitOn ',' = [digits] :=
      List.splitOn_eq_singleton fun hm => (isDigit_facts (hdigits _ hm)).2.2.2.1 rfl
    have hcodings : transferCodings (response.http1Fields
        (.contentLength digits hne hdigits hvalue after) position) = .ok [] := by
      rw [transferCodings, hencodings]
      rfl
    have hlength : contentLength (response.http1Fields
        (.contentLength digits hne hdigits hvalue after) position) =
          .ok (some response.body.length) := by
      have hnamed : headersNamed [("Content-Length".toList, digits)] "content-length".toList =
          [("Content-Length".toList, digits)] := rfl
      rw [contentLength, hlengths, Framing.fields, hnamed, List.flatMap_singleton, hsplit,
        List.map_singleton, trim_digits hdigits, List.foldlM_cons,
        combineLength_digits hne hdigits (by omega), ok_bind, hvalue]
      rfl
    refine ⟨after, ?_⟩
    rw [readBody, hcodings, ok_bind]
    dsimp only [List.getLast?_nil]
    rw [hlength, ok_bind]
    dsimp only
    rw [if_neg (by omega)]
    exact readExact_eq_ok.mpr (Bytes.readExact_append response.body after)
  | chunked message hmessage htext after =>
    have hcodings : transferCodings (response.http1Fields
        (.chunked message hmessage htext after) position) = .ok ["chunked".toList] := by
      rw [transferCodings, hencodings]
      rfl
    have hread : readChunkedBody (message.encode ++ after) maxBodyBytes =
        .ok (message.body, after) :=
      (readChunkedBody_encode message hmax (by rw [hmessage]; exact hbody) after).mpr htext
    refine ⟨after, ?_⟩
    rw [readBody, hcodings, ok_bind]
    dsimp only [List.getLast?_singleton]
    rw [if_pos (by decide), Framing.encode, hread, ok_bind, hmessage]
    rfl
  | untilEnd =>
    have hcodings : transferCodings (response.http1Fields .untilEnd position) = .ok [] := by
      rw [transferCodings, hencodings]
      rfl
    have hlength : contentLength (response.http1Fields .untilEnd position) = .ok none := by
      rw [contentLength, hlengths]
      rfl
    refine ⟨[], ?_⟩
    rw [readBody, hcodings, ok_bind]
    dsimp only [List.getLast?_nil]
    rw [hlength, ok_bind]
    dsimp only
    rw [readBoundedToEnd, Framing.encode, if_neg (by omega)]
    rfl

/-- The message is parsed to the status and the decoded body. -/
theorem parse_http1 (gzDecoder : GzDecoder) {maxBodyBytes : Nat} (method : Method)
    (hmax : maxBodyBytes ≤ usizeMax) (hbody : response.body.length ≤ maxBodyBytes) :
    HttpResponse.parseForMethod gzDecoder maxBodyBytes (response.http1 framing position) method =
      (if method = .head then .ok []
        else decodeContentEncoding gzDecoder response.headers response.body maxBodyBytes).map
        fun body => .new response.statusCode response.reason
          (response.http1Fields framing position) body := by
  have hrange := response.status_range
  have hstatus := response.status_body
  have hcode : response.statusCode = Text.ofDigits 10 response.code := rfl
  have hinterim : isInterim response.statusCode = false := by
    rw [Bool.eq_false_iff]
    intro h
    simp only [isInterim, Bool.and_eq_true, decide_eq_true_eq] at h
    omega
  have hbodyless : isBodyless method response.statusCode = decide (method = .head) := by
    have hnot : [101, 204, 304].contains response.statusCode = false := by
      rw [Bool.eq_false_iff]
      intro h
      simp only [List.contains_cons, List.contains_nil, Bool.or_false, Bool.or_eq_true,
        beq_iff_eq] at h
      omega
    rw [isBodyless, hnot, Bool.or_false]
    rfl
  rw [HttpResponse.parseForMethod, HttpResponse.parseForMethodWithLimit, maxHeads,
    readResponse_head (response.readHead_http1 framing position _)]
  dsimp only
  rw [if_neg (by rw [hinterim]; decide), readMessageBody]
  dsimp only
  rw [hbodyless]
  by_cases hhead : method = .head
  · rw [if_pos (decide_eq_true hhead), if_pos hhead]
    rfl
  · obtain ⟨rest, hread⟩ := response.readBody_http1 framing position gzDecoder hmax hbody
    rw [if_neg (by simpa using hhead), if_neg hhead, hread, ok_bind]
    dsimp only
    have hcoding : decodeContentEncoding gzDecoder (response.http1Fields framing position)
        response.body maxBodyBytes =
          decodeContentEncoding gzDecoder response.headers response.body maxBodyBytes := by
      unfold decodeContentEncoding
      rw [response.headerValue_http1Fields framing position]
    rw [hcoding]
    cases decodeContentEncoding gzDecoder response.headers response.body maxBodyBytes with
    | error error => rfl
    | ok body => rfl

end LogicalResponse

end Omoikane.Http
