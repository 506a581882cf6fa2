import Omoikane.Base.Run
import Omoikane.Http.LogicalResponse
import Omoikane.Http.Origin

/-!
# Requests over HTTP/1.1

`serialize` writes the request line, the headers and the body one after another.
Every edit of a request keeps its headers valid (`HttpRequest.Sendable`), so none
breaks out of its line, and the bytes are read back as what the request holds
(`request_read_back`).
-/

namespace Omoikane.Http

open Base

/-! ## Edits -/

/-- An edit of a request. -/
inductive RequestEdit where
  | addHeader (name value : Text)
  | setHeader (name value : Text)
  | removeHeader (name : Text)
  | setBody (body : Bytes)

/-- The request after an edit. -/
def HttpRequest.edit (request : HttpRequest) : RequestEdit → HttpRequest
  | .addHeader name value => request.addHeader name value
  | .setHeader name value => request.setHeader name value
  | .removeHeader name => request.removeHeader name
  | .setBody body => request.setBody body

/-- The headers of a request are valid, and its target is printed in visible ASCII. -/
structure HttpRequest.Sendable (request : HttpRequest) : Prop where
  headers : ∀ header ∈ request.headers, isValidHeader header.1 header.2 = true
  target : ∀ c ∈ request.url.requestTarget, isVisibleAscii c = true

theorem ofNat_isHeaderValueChar (n : Nat) : (Text.ofNat n).all isHeaderValueChar = true :=
  List.all_eq_true.mpr fun _ hc => Origin.isHeaderValueChar_of_isDigit
    (Nat.isDigit_of_mem_toDigits (by decide) (by decide) hc)

theorem authority_isHeaderValueChar (url : Url) : url.authority.all isHeaderValueChar = true := by
  have hhost : url.host.all isHeaderValueChar = true :=
    List.all_eq_true.mpr fun c hc =>
      Origin.isHeaderValueChar_of_isVisibleAscii (List.all_eq_true.mp url.host_visible c hc)
  unfold Url.authority
  split
  · exact hhost
  · rw [List.all_append, List.all_append, hhost, ofNat_isHeaderValueChar]
    decide

theorem HttpRequest.sendable_new (platform : Platform)
    (hagent : platform.defaultUserAgent.all isHeaderValueChar = true)
    (hlanguage : platform.acceptLanguage.all isHeaderValueChar = true) (method : Method) (url : Url)
    (htarget : ∀ c ∈ url.requestTarget, isVisibleAscii c = true) :
    (HttpRequest.new platform method url).Sendable := by
  refine ⟨?_, htarget⟩
  simp only [HttpRequest.new, List.forall_mem_cons, isValidHeader, Bool.and_eq_true]
  exact ⟨⟨by decide, authority_isHeaderValueChar url⟩, ⟨by decide, hagent⟩, ⟨by decide, hlanguage⟩,
    ⟨by decide, by decide⟩, fun _ h => (by cases h)⟩

/-- Every edit keeps the headers valid. -/
theorem HttpRequest.Sendable.edit {request : HttpRequest} (h : request.Sendable)
    (edit : RequestEdit) : (request.edit edit).Sendable := by
  have hless : ∀ name, ∀ header ∈ withoutHeader request.headers name,
      isValidHeader header.1 header.2 = true :=
    fun _ header hm => h.headers header (List.mem_of_mem_filter hm)
  cases edit with
  | addHeader name value =>
    unfold HttpRequest.edit HttpRequest.addHeader
    dsimp only
    split
    next hvalid =>
      exact ⟨List.forall_mem_append.mpr ⟨h.headers, List.forall_mem_singleton.mpr hvalid⟩, h.target⟩
    next => exact h
  | setHeader name value =>
    unfold HttpRequest.edit HttpRequest.setHeader
    dsimp only
    split
    next hvalid =>
      exact ⟨List.forall_mem_append.mpr ⟨hless name, List.forall_mem_singleton.mpr hvalid⟩,
        h.target⟩
    next => exact h
  | removeHeader name => exact ⟨hless name, h.target⟩
  | setBody body =>
    have hlength : isValidHeader "Content-Length".toList (Text.ofNat body.length) = true := by
      rw [isValidHeader, ofNat_isHeaderValueChar]
      decide
    exact ⟨List.forall_mem_append.mpr ⟨hless _, List.forall_mem_singleton.mpr hlength⟩, h.target⟩

/-! ## Reading -/

theorem isVisibleAscii_facts {c : Char} (h : isVisibleAscii c = true) :
    Text.isWhitespace c = false ∧ isLineEnd c = false ∧ c ≠ ' ' := by
  have hrange : 0x21 ≤ c.toNat ∧ c.toNat ≤ 0x7e := by
    simpa [isVisibleAscii, Char.le_def, UInt32.le_iff_toNat_le] using h
  refine ⟨?_, ?_, ?_⟩
  · simp only [Text.isWhitespace, Bool.or_eq_false_iff, Bool.and_eq_false_iff,
      decide_eq_false_iff_not, beq_eq_false_iff_ne]
    omega
  · rw [Bool.eq_false_iff]
    intro hend
    rcases (Bool.or_eq_true ..).mp hend with hend | hend <;> rw [beq_iff_eq.mp hend] at hrange <;>
      exact absurd hrange (by decide)
  · rintro rfl
    exact absurd hrange (by decide)

theorem isHttpToken_visible {name : Text} (h : isHttpToken name = true) :
    ∀ c ∈ name, isVisibleAscii c = true ∧ c ≠ ':' := by
  intro c hc
  have hchar := List.all_eq_true.mp ((Bool.and_eq_true ..).mp h).2 c hc
  rcases (Bool.or_eq_true ..).mp hchar with hletter | hmark
  · refine ⟨?_, ?_⟩
    · simp only [Char.isAlphanum, Char.isAlpha, Char.isUpper, Char.isLower, Char.isDigit,
        isVisibleAscii, Bool.or_eq_true, Bool.and_eq_true, decide_eq_true_eq, Char.le_def,
        UInt32.le_iff_toNat_le, ge_iff_le] at hletter ⊢
      simp at hletter ⊢
      omega
    · rintro rfl
      exact absurd hletter (by decide)
  · have hmarks : ∀ mark ∈ "!#$%&'*+-.^_`|~".toList, (isVisibleAscii mark && mark != ':') = true :=
      Text.forall_mem_of_all (by decide)
    simpa using hmarks c (by simpa using hmark)

/-- A valid header is read from its line, without the blanks around its value. -/
theorem fieldLine_isValidHeader {header : Text × Text}
    (h : isValidHeader header.1 header.2 = true) (handling : HeaderLineHandling) :
    (∀ c ∈ fieldText header, isLineEnd c = false) ∧
      fieldLine handling (fieldText header) = .ok [(header.1, Text.trim header.2)] := by
  obtain ⟨htoken, hvalue⟩ := (Bool.and_eq_true ..).mp h
  have hname := isHttpToken_visible htoken
  refine ⟨fun c hc => ?_, ?_⟩
  · simp only [fieldText, List.mem_append, List.mem_cons] at hc
    rcases hc with hc | rfl | rfl | hc
    · exact (isVisibleAscii_facts (hname c hc).1).2.1
    · rfl
    · rfl
    · have hchar := List.all_eq_true.mp hvalue c hc
      rw [Bool.eq_false_iff]
      intro hend
      rcases (Bool.or_eq_true ..).mp hend with hend | hend <;> rw [beq_iff_eq.mp hend] at hchar <;>
        exact absurd hchar (by decide)
  · have hcolon : (fieldText header).contains ':' = true := by simp [fieldText]
    have htrim : Text.trim header.1 = header.1 :=
      Text.trim_eq_self
        (fun c hc => (isVisibleAscii_facts (hname c (List.mem_of_mem_head? hc)).1).1)
        fun c hc => (isVisibleAscii_facts (hname c (List.mem_of_mem_getLast? hc)).1).1
    rw [fieldLine, hcolon, Bool.not_true, Bool.and_false, if_neg (by decide), parseHeaderLine,
      fieldText, Text.splitOnce_eq_some.mpr ⟨rfl, fun hm => (hname ':' hm).2 rfl⟩]
    dsimp only
    rw [Text.trim_cons_space, htrim]
    rfl

theorem readFields_isValidHeader (handling : HeaderLineHandling) {fields : List (Text × Text)}
    (h : ∀ header ∈ fields, isValidHeader header.1 header.2 = true) (rest : Bytes) :
    readFields handling (fields.flatMap encodeField ++ (crlf ++ rest)) =
      .ok (fields.map fun header => (header.1, Text.trim header.2), rest) := by
  induction fields with
  | nil => exact readFields_encode handling (fun _ h => by cases h) rest
  | cons header fields ih =>
    obtain ⟨hheader, hfields⟩ := List.forall_mem_cons.mp h
    obtain ⟨hline, hfield⟩ := fieldLine_isValidHeader hheader handling
    have hread := readLine_text hline (fields.flatMap encodeField ++ (crlf ++ rest))
    have htrim := trimEndMatches_crlf hline
    have hne : fieldText header ≠ [] := by simp [fieldText]
    rw [List.flatMap_cons, List.append_assoc, encodeField,
      readFields_line hread (by rw [htrim]; exact hne), htrim, hfield, ok_bind, ih hfields]
    rfl

/-- The first line of a request. -/
def HttpRequest.requestLine (request : HttpRequest) : Text :=
  request.method.asStr ++ ' ' :: (request.url.requestTarget ++ " HTTP/1.1".toList)

theorem HttpRequest.serialize_eq (request : HttpRequest) :
    request.serialize = Utf8.encode (request.requestLine ++ "\r\n".toList) ++
      (request.headers.flatMap encodeField ++ (crlf ++ request.body.getD [])) := by
  have hfields : Utf8.encode (request.headers.flatMap fun header =>
      header.1 ++ ": ".toList ++ header.2 ++ "\r\n".toList) =
      request.headers.flatMap encodeField := by
    generalize request.headers = headers
    induction headers with
    | nil => rfl
    | cons header headers ih =>
      rw [List.flatMap_cons, Utf8.encode_append, ih, List.flatMap_cons, encodeField, fieldText]
      simp
  have hend : Utf8.encode "\r\n".toList = crlf := by decide
  have htext : request.method.asStr ++ " ".toList ++ request.url.requestTarget ++
      " HTTP/1.1\r\n".toList = request.requestLine ++ "\r\n".toList := by
    simp [requestLine]
  rw [serialize, htext, hfields, hend, List.append_assoc, List.append_assoc]

theorem asStr_chars (method : Method) :
    ' ' ∉ method.asStr ∧ ∀ c ∈ method.asStr, isLineEnd c = false := by
  cases method <;> exact ⟨by decide, Text.forall_mem_of_all (by decide)⟩

/-- The first line ends where it should, and has three parts. -/
theorem HttpRequest.Sendable.requestLine {request : HttpRequest} (h : request.Sendable) :
    (∀ c ∈ request.requestLine, isLineEnd c = false) ∧ Text.split ' ' request.requestLine =
      [request.method.asStr, request.url.requestTarget, "HTTP/1.1".toList] := by
  refine ⟨fun c hc => ?_, ?_⟩
  · simp only [HttpRequest.requestLine, List.mem_append, List.mem_cons] at hc
    rcases hc with hc | rfl | hc | hc
    · exact (asStr_chars request.method).2 c hc
    · rfl
    · exact (isVisibleAscii_facts (h.target c hc)).2.1
    · have hversion : ∀ c ∈ " HTTP/1.1".toList, isLineEnd c = false :=
        Text.forall_mem_of_all (by decide)
      exact hversion c hc
  · have htarget : ' ' ∉ request.url.requestTarget := fun hm =>
      (isVisibleAscii_facts (h.target _ hm)).2.2 rfl
    rw [HttpRequest.requestLine, Text.split_append,
      Text.split_eq_singleton (asStr_chars request.method).1]
    show _ ++ Text.split ' ' (request.url.requestTarget ++ ' ' :: "HTTP/1.1".toList) = _
    rw [Text.split_append, Text.split_eq_singleton htarget]
    rfl

/-- Whatever edits a request has been through, its bytes are read back as its request line, its
headers and its body: no header breaks out of its line. -/
theorem request_read_back (platform : Platform)
    (hagent : platform.defaultUserAgent.all isHeaderValueChar = true)
    (hlanguage : platform.acceptLanguage.all isHeaderValueChar = true) (method : Method) (url : Url)
    (htarget : ∀ c ∈ url.requestTarget, isVisibleAscii c = true) (edits : List RequestEdit)
    (handling : HeaderLineHandling) :
    let request := Run.run HttpRequest.edit (.new platform method url) edits
    ∃ line after, readLine request.serialize = .ok (line, after) ∧
      Text.split ' ' (Text.trimEndMatches isLineEnd line) =
        [request.method.asStr, request.url.requestTarget, "HTTP/1.1".toList] ∧
      readFields handling after = .ok
        (request.headers.map fun header => (header.1, Text.trim header.2), request.body.getD []) := by
  intro request
  have hsendable : request.Sendable :=
    Run.invariant (fun _ edit h => h.edit edit) edits
      (HttpRequest.sendable_new platform hagent hlanguage method url htarget)
  obtain ⟨hline, hparts⟩ := hsendable.requestLine
  refine ⟨_, _, request.serialize_eq ▸ readLine_text hline _, ?_, ?_⟩
  · rw [trimEndMatches_crlf hline, hparts]
  · exact readFields_isValidHeader handling hsendable.headers _

/-- A header whose value has a blank at its end, and a body. -/
theorem request_read_back_body :
    let request := Run.run HttpRequest.edit
      (.new ⟨"omoikane".toList, "en".toList⟩ .get exampleRoot)
      [.addHeader "X-Note".toList "a ".toList, .setBody [0x61]]
    ∃ line after, readLine request.serialize = .ok (line, after) ∧
      Text.split ' ' (Text.trimEndMatches isLineEnd line) =
        [request.method.asStr, request.url.requestTarget, "HTTP/1.1".toList] ∧
      readFields .strict after = .ok
        (request.headers.map fun header => (header.1, Text.trim header.2), request.body.getD []) :=
  request_read_back ⟨"omoikane".toList, "en".toList⟩ (by decide) (by decide) .get exampleRoot
    (Text.forall_mem_of_all (by decide)) [.addHeader "X-Note".toList "a ".toList, .setBody [0x61]] .strict

end Omoikane.Http
