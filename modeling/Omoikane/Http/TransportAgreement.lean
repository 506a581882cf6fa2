import Omoikane.Http.FlowControl
import Omoikane.Http.LogicalResponse

/-!
# Agreement of the transports

Over HTTP/2 a response is delivered as a header block and data frames that hold
the parts of its body.  Both transports return its status.  The body comes back
as it was sent over HTTP/2, while HTTP/1.1 undoes the content coding, so the
bodies agree when there is nothing to undo (`transports_agree_iff`).
-/

namespace Omoikane.Http

open Base

/-! ## Over HTTP/2 -/

/-- The data frames with the parts of a body, the last one of which ends the stream. -/
def dataFrames (streamId : Nat) : List Bytes → List Frame
  | [] => []
  | [part] => [{ frameType := .data, flags := flagEndStream, streamId, payload := part }]
  | part :: next :: parts =>
    { frameType := .data, flags := 0, streamId, payload := part } ::
      dataFrames streamId (next :: parts)

/-- The frame with the header block of a response. -/
def headersFrame (streamId : Nat) (block : Bytes) (parts : List Bytes) : Frame where
  frameType := .headers
  flags := flagEndHeaders ||| if parts = [] then flagEndStream else 0
  streamId
  payload := block

/-- The bytes of a response: its header block and the parts of its body. -/
def http2 (streamId : Nat) (block : Bytes) (parts : List Bytes) : Bytes :=
  (headersFrame streamId block parts).encode ++ (dataFrames streamId parts).flatMap Frame.encode

namespace Http2Connection

/-- The windows of the connection and of a stream have room for a frame. -/
structure CanReceive (connection : Http2Connection) (streamId : Nat) : Prop where
  connectionWindow : 0 ≤ connection.connectionWindow ∧ connection.connectionWindow < 2 ^ 31
  streamWindow : ∃ window, connection.streamWindows.get streamId = some window ∧
    0 ≤ window ∧ window < 2 ^ 31

theorem addToConnectionWindow_of_range (connection : Http2Connection) {amount : Int}
    (h : -2 ^ 31 ≤ connection.connectionWindow + amount ∧
      connection.connectionWindow + amount < 2 ^ 31) :
    connection.addToConnectionWindow amount = .ok { connection with
      connectionWindow := connection.connectionWindow + amount } := by
  rw [addToConnectionWindow, checkedI32_of_range h]
  rfl

theorem addToStreamWindow_of_range {connection : Http2Connection} {streamId : Nat}
    {window amount : Int} (hget : connection.streamWindows.get streamId = some window)
    (h : -2 ^ 31 ≤ window + amount ∧ window + amount < 2 ^ 31) :
    connection.addToStreamWindow streamId amount = .ok { connection with
      streamWindows := connection.streamWindows.insert streamId (window + amount) } := by
  rw [addToStreamWindow, hget, Option.getD_some, checkedI32_of_range h]
  rfl

/-- A data frame is taken from both windows and put back. -/
theorem processFrame_data {connection : Http2Connection} {streamId maxBodyBytes : Nat}
    (h : connection.CanReceive streamId) (state : StreamState) (flags : UInt8) {part : Bytes}
    (hpart : part.length < 2 ^ 24) (hlimit : state.body.length + part.length ≤ maxBodyBytes) :
    ∃ connection' : Http2Connection, connection'.CanReceive streamId ∧
      connection.processFrame maxBodyBytes streamId state
          { frameType := .data, flags, streamId, payload := part } =
        .ok (connection', { state with
          body := state.body ++ part
          ended := state.ended || flags &&& flagEndStream ≠ 0 }) := by
  obtain ⟨hlow, hhigh⟩ := h.connectionWindow
  obtain ⟨window, hget, hlow', hhigh'⟩ := h.streamWindow
  have hamount : asI32 part.length = part.length := asI32_of_lt (by omega)
  obtain ⟨middle, htake, hmiddle, hmiddleGet⟩ : ∃ middle,
      connection.takeFromWindows streamId part.length = .ok middle ∧
      middle.connectionWindow = connection.connectionWindow + -part.length ∧
      middle.streamWindows.get streamId = some (window + -part.length) := by
    have hsome : (connection.streamWindows.get streamId).isSome = true := by rw [hget]; rfl
    refine ⟨{ connection with
      connectionWindow := connection.connectionWindow + -part.length
      streamWindows := connection.streamWindows.insert streamId (window + -part.length) },
      ?_, rfl, Table.get_insert_self ..⟩
    rw [takeFromWindows, hamount, addToConnectionWindow_of_range connection (by omega), ok_bind,
      if_pos hsome]
    exact addToStreamWindow_of_range hget (by omega)
  obtain ⟨last, hrefresh, hlast, hlastGet⟩ : ∃ last,
      middle.refreshFlowControl streamId part.length = .ok last ∧
      last.connectionWindow = connection.connectionWindow ∧
      last.streamWindows.get streamId = some window := by
    refine ⟨{ middle with
      connectionWindow := middle.connectionWindow + part.length
      streamWindows := middle.streamWindows.insert streamId
        (window + -part.length + part.length) }, ?_, ?_, ?_⟩
    · rw [refreshFlowControl, hamount, addToConnectionWindow_of_range middle (by omega), ok_bind]
      exact addToStreamWindow_of_range hmiddleGet (by omega)
    · show middle.connectionWindow + part.length = _
      omega
    · show (middle.streamWindows.insert streamId _).get streamId = _
      rw [Table.get_insert_self, Int.neg_add_cancel_right]
  refine ⟨last, ⟨?_, window, hlastGet, hlow', hhigh'⟩, ?_⟩
  · rw [hlast]
    exact ⟨hlow, hhigh⟩
  · unfold processFrame
    dsimp only
    rw [if_pos rfl, if_neg (by omega), htake, ok_bind, hrefresh]
    rfl

/-- The response of a stream that has ended. -/
def endResponse (headers : List (Text × Text)) (body : Bytes) (connection : Http2Connection)
    (rest : Bytes) : Except Http2Error (HttpResponse × Http2Connection × Bytes) :=
  match buildResponse headers body with
  | .error error => .error (.http error)
  | .ok response => .ok (response, connection, rest)

/-- The body of a response is read back from its data frames. -/
theorem readResponse_dataFrames {streamId maxBodyBytes : Nat} (hid : streamId < 2 ^ 31)
    {headers : List (Text × Text)} (hheaders : headers ≠ []) (after : Bytes) {parts : List Bytes}
    (hne : parts ≠ []) (hparts : ∀ part ∈ parts, part.length < 2 ^ 24) :
    ∀ (body : Bytes) (connection : Http2Connection), connection.CanReceive streamId →
    body.length + parts.flatten.length ≤ maxBodyBytes →
    ∃ connection', connection.readResponse maxBodyBytes streamId
      { headers, body, ended := false }
      ((dataFrames streamId parts).flatMap Frame.encode ++ after) =
        endResponse headers (body ++ parts.flatten) connection' after := by
  induction parts with
  | nil => exact absurd rfl hne
  | cons part parts ih =>
    intro body connection hready hlimit
    have hpart : part.length < 2 ^ 24 := hparts part (List.mem_cons_self ..)
    rw [List.flatten_cons, List.length_append] at hlimit
    cases parts with
    | nil =>
      obtain ⟨connection', -, hprocess⟩ := processFrame_data hready
        { headers, body, ended := false } flagEndStream hpart
        (show body.length + part.length ≤ maxBodyBytes by omega)
      have hread : Frame.read (Frame.encode
          { frameType := .data, flags := flagEndStream, streamId, payload := part } ++ after) =
            .ok (_, after) := Frame.reads_encode ⟨hpart, hid⟩ after
      refine ⟨connection', ?_⟩
      rw [dataFrames, List.flatMap_singleton, readResponse_frame hread, hprocess, ok_bind,
        List.flatten_cons, List.flatten_nil, List.append_nil]
      dsimp only
      rw [if_pos (by simp [hheaders, flagEndStream])]
      rfl
    | cons next parts =>
      obtain ⟨connection', hready', hprocess⟩ := processFrame_data hready
        { headers, body, ended := false } 0 hpart
        (show body.length + part.length ≤ maxBodyBytes by omega)
      have hread : Frame.read (Frame.encode
          { frameType := .data, flags := 0, streamId, payload := part } ++
            ((dataFrames streamId (next :: parts)).flatMap Frame.encode ++ after)) =
            .ok (_, _) := Frame.reads_encode ⟨hpart, hid⟩ _
      obtain ⟨connection'', hrest⟩ := ih (List.cons_ne_nil _ _)
        (fun other ho => hparts other (List.mem_cons_of_mem _ ho)) (body ++ part) connection'
        hready' (by rw [List.length_append]; omega)
      refine ⟨connection'', ?_⟩
      rw [dataFrames, List.flatMap_cons, List.append_assoc, readResponse_frame hread, hprocess,
        ok_bind]
      dsimp only
      rw [if_neg (by simp [flagEndStream]), List.flatten_cons, ← List.append_assoc]
      exact hrest

/-- A frame with a header block adds its fields. -/
theorem processFrame_headers (connection : Http2Connection) {streamId maxBodyBytes : Nat}
    (state : StreamState) (flags : UInt8) (block : Bytes) :
    connection.processFrame maxBodyBytes streamId state
        { frameType := .headers, flags, streamId, payload := block } =
      decodeHeaderBlock block >>= fun fields => .ok (connection, { state with
        headers := state.headers ++ fields
        ended := state.ended || flags &&& flagEndStream ≠ 0 }) := by
  unfold processFrame
  dsimp only
  rw [if_pos rfl]
  rfl

/-- A response is read back from its frames, if its header block is decoded. -/
theorem CanReceive.readResponse_http2 {streamId maxBodyBytes : Nat}
    {connection : Http2Connection} (hready : connection.CanReceive streamId)
    (hid : streamId < 2 ^ 31) {block : Bytes}
    (hne : block ≠ []) (hblock : block.length < 2 ^ 24) {parts : List Bytes}
    (hparts : ∀ part ∈ parts, part.length < 2 ^ 24) (hlimit : parts.flatten.length ≤ maxBodyBytes)
    (after : Bytes) :
    ∃ connection', connection.readResponse maxBodyBytes streamId .default
      (http2 streamId block parts ++ after) =
        decodeHeaderBlock block >>= fun fields =>
          endResponse fields parts.flatten connection' after := by
  have hread : Frame.read (http2 streamId block parts ++ after) =
      .ok (headersFrame streamId block parts,
        (dataFrames streamId parts).flatMap Frame.encode ++ after) := by
    rw [http2, List.append_assoc]
    exact Frame.reads_encode ⟨hblock, hid⟩ _
  rw [readResponse_frame hread, headersFrame, processFrame_headers]
  cases hfields : decodeHeaderBlock block with
  | error error => exact ⟨connection, rfl⟩
  | ok fields =>
    have hfieldsNe : fields ≠ [] := decodeHeaderBlock_ne_nil hne hfields
    have hended : decide ((flagEndHeaders ||| if parts = [] then flagEndStream else 0) &&&
        flagEndStream ≠ 0) = decide (parts = []) := by
      by_cases hnil : parts = []
      · rw [if_pos hnil, decide_eq_true hnil]
        rfl
      · rw [if_neg hnil, decide_eq_false hnil]
        rfl
    simp only [ok_bind]
    cases parts with
    | nil =>
      refine ⟨connection, ?_⟩
      rw [if_pos (by rw [hended]; simp [StreamState.default, hfieldsNe])]
      rfl
    | cons part parts =>
      rw [if_neg (by rw [hended]; simp [StreamState.default]), hended]
      have hlimit' : ([] : Bytes).length + (part :: parts).flatten.length ≤ maxBodyBytes := by
        rw [List.length_nil]
        omega
      have hdata := readResponse_dataFrames hid hfieldsNe after (List.cons_ne_nil part parts)
        hparts [] connection hready hlimit'
      exact hdata

end Http2Connection

theorem Session.canReceive {maxBodyBytes : Nat} {actions : List Action} {streamId : Nat}
    {state : StreamState} {exchange : Exchange}
    (hphase : (Run.run (step maxBodyBytes) new actions).phase =
      .reading streamId state exchange) :
    (Run.run (step maxBodyBytes) new actions).connection.CanReceive streamId := by
  have hready := run_ready maxBodyBytes actions
  obtain ⟨-, -, -, window, hget, -⟩ :=
    (run_sound maxBodyBytes actions).reading streamId state exchange hphase
  exact ⟨⟨hready.connectionWindow, hready.bounded.connectionWindow⟩, window, hget,
    hready.reading streamId state exchange hphase window hget,
    hready.bounded.streamWindow streamId window hget⟩

/-! ## Agreement -/

/-- The content coding that `decode_content_encoding` undoes is listed. -/
def isGzipCoded (headers : List (Text × Text)) : Bool :=
  (headerValue headers "content-encoding".toList).any fun encoding =>
    (encoding.splitOn ',').any fun value =>
      Text.eqIgnoreAsciiCase (Text.trim value) "gzip".toList

theorem decodeContentEncoding_eq (gzDecoder : GzDecoder) (headers : List (Text × Text))
    (body : Bytes) (maxBodyBytes : Nat) :
    decodeContentEncoding gzDecoder headers body maxBodyBytes =
      if isGzipCoded headers then decodeGzip gzDecoder body maxBodyBytes else .ok body := by
  unfold decodeContentEncoding isGzipCoded
  cases headerValue headers "content-encoding".toList with
  | none => rfl
  | some encoding => rfl

/-- A body within the limit that gzip decoding leaves alone. -/
theorem decodeGzip_eq_self {gzDecoder : GzDecoder} {body : Bytes} {maxBodyBytes : Nat}
    (h : body.length ≤ maxBodyBytes) :
    decodeGzip gzDecoder body maxBodyBytes = .ok body ↔
      gzDecoder body = { output := body, error := none } := by
  unfold decodeGzip readBoundedToEnd
  obtain ⟨output, error⟩ := gzDecoder body
  constructor
  · intro hdecode
    dsimp only at hdecode
    split at hdecode
    · cases hdecode
    · cases error with
      | some kind => cases hdecode
      | none =>
        cases hdecode
        rfl
  · intro hself
    cases hself
    exact if_neg (show ¬ maxBodyBytes < body.length by omega)

/-- What HTTP/1.1 returns as the body is the body that was sent. -/
def LogicalResponse.KeepsBody (response : LogicalResponse) (gzDecoder : GzDecoder)
    (method : Method) : Prop :=
  if method = .head then response.body = []
  else isGzipCoded response.headers = true →
    gzDecoder response.body = { output := response.body, error := none }

/-- The header block is one that is decoded, and with the status of the response. -/
def LogicalResponse.CarriedBy (response : LogicalResponse) (block : Bytes) : Prop :=
  ∃ fields, decodeHeaderBlock block = .ok fields ∧ statusOf fields = some response.statusCode

/-- Both transports return a response, with the same status and the same body. -/
def TransportsAgree (first : Except HttpParseError HttpResponse)
    (second : Except Http2Error (HttpResponse × Http2Connection × Bytes)) : Prop :=
  ∃ one two, first = .ok one ∧ second = .ok two ∧
    one.statusCode = two.1.statusCode ∧ one.body = two.1.body

namespace LogicalResponse

/-- HTTP/1.1 returns the status, and the body as it was sent if it is kept. -/
theorem parse_http1_body (response : LogicalResponse) (framing : Framing response.body)
    (position : Nat) (gzDecoder : GzDecoder) {maxBodyBytes : Nat} (method : Method)
    (hmax : maxBodyBytes ≤ usizeMax) (hbody : response.body.length ≤ maxBodyBytes) :
    (∀ one, HttpResponse.parseForMethod gzDecoder maxBodyBytes
        (response.http1 framing position) method = .ok one →
      one.statusCode = response.statusCode) ∧
    ((∃ one, HttpResponse.parseForMethod gzDecoder maxBodyBytes
        (response.http1 framing position) method = .ok one ∧ one.body = response.body) ↔
      response.KeepsBody gzDecoder method) := by
  rw [response.parse_http1 framing position gzDecoder method hmax hbody, KeepsBody]
  have hmap : ∀ decoded : Except HttpParseError Bytes,
      (∀ one, decoded.map (fun body => HttpResponse.new response.statusCode response.reason
          (response.http1Fields framing position) body) = .ok one →
        one.statusCode = response.statusCode) ∧
      ((∃ one, decoded.map (fun body => HttpResponse.new response.statusCode response.reason
          (response.http1Fields framing position) body) = .ok one ∧ one.body = response.body) ↔
        decoded = .ok response.body) := by
    intro decoded
    cases decoded with
    | error error =>
      exact ⟨fun _ h => (by cases h), fun ⟨_, h, _⟩ => (by cases h), fun h => (by cases h)⟩
    | ok body =>
      refine ⟨fun _ h => (by cases h; rfl), fun ⟨_, h, hsame⟩ => ?_, fun h => ?_⟩
      · cases h
        exact congrArg Except.ok hsame
      · cases h
        exact ⟨_, rfl, rfl⟩
  refine ⟨(hmap _).1, (hmap _).2.trans ?_⟩
  by_cases hhead : method = .head
  · rw [if_pos hhead, if_pos hhead]
    constructor
    · intro h
      exact (Except.ok.inj h).symm
    · intro h
      rw [h]
  · rw [if_neg hhead, if_neg hhead, decodeContentEncoding_eq]
    cases hcoded : isGzipCoded response.headers with
    | false => simp
    | true => simpa using decodeGzip_eq_self hbody

end LogicalResponse

/-- Agreement on a connection that can receive. -/
theorem agree_iff_of_canReceive {gzDecoder : GzDecoder} {maxBodyBytes : Nat}
    (hmax : maxBodyBytes ≤ usizeMax) {response : LogicalResponse}
    (hbody : response.body.length ≤ maxBodyBytes) (method : Method)
    (framing : Framing response.body) (position : Nat) {connection : Http2Connection}
    {streamId : Nat} (hready : connection.CanReceive streamId) (hid : streamId < 2 ^ 31)
    {block : Bytes} (hne : block ≠ []) (hblock : block.length < 2 ^ 24) {parts : List Bytes}
    (hparts : ∀ part ∈ parts, part.length < 2 ^ 24) (hflatten : parts.flatten = response.body)
    (after : Bytes) :
    TransportsAgree
      (HttpResponse.parseForMethod gzDecoder maxBodyBytes (response.http1 framing position) method)
      (connection.readResponse maxBodyBytes streamId .default
        (http2 streamId block parts ++ after)) ↔
    response.CarriedBy block ∧ response.KeepsBody gzDecoder method := by
  obtain ⟨hstatus, hkeeps⟩ :=
    response.parse_http1_body framing position gzDecoder method hmax hbody
  have hlength : parts.flatten.length ≤ maxBodyBytes := hflatten ▸ hbody
  obtain ⟨connection', hread⟩ := hready.readResponse_http2 hid hne hblock hparts hlength after
  rw [hread, ← hkeeps, hflatten]
  constructor
  · rintro ⟨one, two, hone, htwo, hcode, hsame⟩
    obtain ⟨fields, hfields, htwo⟩ := bind_eq_ok.mp htwo
    unfold Http2Connection.endResponse buildResponse at htwo
    cases hlast : statusOf fields with
    | none =>
      rw [hlast] at htwo
      cases htwo
    | some code =>
      rw [hlast] at htwo
      cases htwo
      refine ⟨⟨fields, hfields, ?_⟩, one, hone, hsame⟩
      rw [hlast, ← hstatus one hone, hcode]
      rfl
  · rintro ⟨⟨fields, hfields, hlast⟩, one, hone, hsame⟩
    refine ⟨one, (.new response.statusCode [] (fields.filter fun header =>
      !isStatusField header) response.body, connection', after), hone, ?_, hstatus one hone, hsame⟩
    rw [hfields, ok_bind, Http2Connection.endResponse, buildResponse, hlast]

/-- The session that waits for the response to `plainRequest`. -/
def waiting : Session where
  connection := plainConnection
  received := []
  phase := .reading 1 .default { sent := plainConnection.written, received := [] }

theorem run_waiting :
    Run.run (Session.step 32) Session.new [.request plainRequest] = waiting := by
  rw [Run.run_cons, Session.step_request 32 rfl startRequest_plainRequest]
  rfl

/-- The gzip format of the single byte `a`. -/
def gzipped : Bytes :=
  [0x1F, 0x8B, 8, 0, 0, 0, 0, 0, 0, 0xFF, 1, 1, 0, 0xFE, 0xFF, 0x61, 0x43, 0xBE, 0xB7, 0xE8,
    1, 0, 0, 0]

/-- A decoder that knows `gzipped`. -/
def gzippedDecoder : GzDecoder := fun body =>
  if body = gzipped then { output := [0x61], error := none }
  else { output := [], error := some .invalidInput }

/-- A response with status 200. -/
def okResponse (headers : List (Text × Text)) (body : Bytes)
    (wellFormed : ∀ header ∈ headers, WellFormedField header)
    (content : ∀ header ∈ headers, isFramingField header = false) : LogicalResponse where
  code := "200".toList
  reason := "OK".toList
  headers
  body
  code_length := rfl
  code_isDigit := Text.forall_mem_of_all (by decide)
  status_range := by decide
  status_body := by decide
  reason_oneLine := Text.forall_mem_of_all (by decide)
  headers_wellFormed := wellFormed
  headers_content := content

/-- A response without a coding. -/
def plainResponse : LogicalResponse :=
  okResponse [] gzipped (fun _ h => absurd h List.not_mem_nil) (fun _ h => absurd h List.not_mem_nil)

/-- The field of the gzip coding. -/
def gzipField : Text × Text := ("content-encoding".toList, "gzip".toList)

/-- The same body under the gzip coding. -/
def gzipResponse : LogicalResponse :=
  okResponse [gzipField] gzipped
    (by
      intro header hheader
      rw [List.mem_singleton] at hheader
      subst hheader
      exact ⟨by decide, by decide, by decide, Text.forall_mem_of_all (by decide),
        Text.forall_mem_of_all (by decide)⟩)
    (by
      intro header hheader
      rw [List.mem_singleton] at hheader
      subst hheader
      decide)

/-- The header block of `gzipResponse`. -/
def gzipBlock : Bytes := 0x88 :: encodeLiteral gzipField.1 gzipField.2

theorem decodeHeaderBlock_gzip :
    decodeHeaderBlock gzipBlock = .ok [(":status".toList, "200".toList), gzipField] := by
  have hstatus : decodeField gzipBlock 0 0x88 = .ok ((":status".toList, "200".toList), 1) := rfl
  have hcoding : decodeField gzipBlock 1 0 = .ok (gzipField, 24) := rfl
  rw [decodeHeaderBlock, decodeFields_field rfl hstatus, decodeFields_field rfl hcoding,
    decodeFields_end (by decide)]
  rfl

end Omoikane.Http
