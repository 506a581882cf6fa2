import Omoikane.Http.ChunkedBody
import Omoikane.Http.Connection

/-!
# The framing of HTTP/1.1 responses

A connection is reused for the next response, so a response on it must end
before the end of the stream, and nothing after it may change it.  Two functions
decide this: the parser while it reads, and `canReuseHttp1Connection` afterwards.

Every line of a response that counts ends in a line feed, with one exception.
The empty line of the final head may lack it at the end of the stream, and then
one more byte changes the result.  With the line feed the parser cuts the
response off the stream (`readResponse_cases`).
-/

namespace Omoikane.Http

open Base

/-! ## The end of the final head -/

/-- The line feed of the first empty line, if it has one, and what follows the line. -/
def skipFields (s : Bytes) : Option (Bool × Bytes) :=
  match h : s.readLine with
  | none => none
  | some (line, rest) =>
    if hline : line = [] then none
    else if Text.trimEndMatches isLineEnd line = [] then
      some (decide (Bytes.Terminated line), rest)
    else skipFields rest
termination_by s.length
decreasing_by exact Bytes.readLine_length_lt h hline

/-- Whether the empty line of the final head ends in a line feed. -/
def finalHeadTerminated : Nat → Bytes → Bool
  | 0, _ => false
  | n + 1, s =>
    match s.readLine with
    | none => false
    | some (statusLine, s) =>
      match parseStatusLine (Text.trimEndMatches isLineEnd statusLine), skipFields s with
      | .ok (statusCode, _), some (terminated, s) =>
        if isInterim statusCode then finalHeadTerminated n s else terminated
      | _, _ => false

theorem skipFields_line {s rest : Bytes} {line : Text} (h : s.readLine = some (line, rest))
    (hline : line ≠ []) :
    skipFields s =
      if Text.trimEndMatches isLineEnd line = [] then
        some (decide (Bytes.Terminated line), rest)
      else skipFields rest := by
  rw [skipFields]
  split
  next heq =>
    rw [h] at heq
    cases heq
  next heq =>
    rw [h] at heq
    cases heq
    rw [dif_neg hline]

/-! ## Fields -/

/-- The field on a line that is not empty, if the line is not skipped. -/
def fieldLine (handling : HeaderLineHandling) (trimmed : Text) :
    Except HttpParseError (List (Text × Text)) :=
  if handling = .skipNonFieldLines && !trimmed.contains ':' then .ok []
  else (parseHeaderLine trimmed).map fun field => [field]

theorem readFields_error {handling : HeaderLineHandling} {s : Bytes} {error : HttpParseError}
    (h : readLine s = .error error) : readFields handling s = .error error := by
  rw [readFields]
  split
  next heq =>
    rw [h] at heq
    cases heq
    rfl
  next heq =>
    rw [h] at heq
    cases heq

theorem readFields_eof {handling : HeaderLineHandling} {s rest : Bytes}
    (h : readLine s = .ok ([], rest)) : readFields handling s = .error .invalidHeader := by
  rw [readFields]
  split
  next heq =>
    rw [h] at heq
    cases heq
  next heq =>
    rw [h] at heq
    cases heq
    rfl

theorem readFields_blank {handling : HeaderLineHandling} {s rest : Bytes} {line : Text}
    (h : readLine s = .ok (line, rest)) (hline : line ≠ [])
    (htrim : Text.trimEndMatches isLineEnd line = []) :
    readFields handling s = .ok ([], rest) := by
  rw [readFields]
  split
  next heq =>
    rw [h] at heq
    cases heq
  next heq =>
    rw [h] at heq
    cases heq
    rw [dif_neg hline]
    exact if_pos htrim

theorem readFields_line {handling : HeaderLineHandling} {s rest : Bytes} {line : Text}
    (h : readLine s = .ok (line, rest))
    (htrim : Text.trimEndMatches isLineEnd line ≠ []) :
    readFields handling s =
      fieldLine handling (Text.trimEndMatches isLineEnd line) >>= fun new =>
        readFields handling rest >>= fun p => .ok (new ++ p.1, p.2) := by
  have hline : line ≠ [] := fun hnil => htrim (by rw [hnil]; rfl)
  rw [readFields]
  split
  next heq =>
    rw [h] at heq
    cases heq
  next heq =>
    rw [h] at heq
    cases heq
    rw [dif_neg hline]
    unfold fieldLine
    dsimp only
    rw [if_neg htrim]
    split
    · rw [ok_bind]
      cases readFields handling rest with
      | error error => rfl
      | ok p => rfl
    · cases parseHeaderLine (Text.trimEndMatches isLineEnd line) with
      | error error => rfl
      | ok field =>
        cases readFields handling rest with
        | error error => rfl
        | ok p => rfl

/-- Fields are cut off the stream, or the empty line after them is the end of the
stream and lacks its line feed. -/
theorem readFields_cases (handling : HeaderLineHandling) (s : Bytes)
    (fields : List (Text × Text)) (rest : Bytes)
    (h : readFields handling s = .ok (fields, rest)) :
    (skipFields s = some (true, rest) ∧ Cuts (readFields handling) s fields rest) ∨
      (skipFields s = some (false, rest) ∧ rest = [] ∧
        ∃ error, readFields handling (s ++ [0xFF]) = .error error) := by
  cases hread : readLine s with
  | error error =>
    rw [readFields_error hread] at h
    cases h
  | ok p =>
    obtain ⟨line, middle⟩ := p
    by_cases hnil : line = []
    · subst hnil
      rw [readFields_eof hread] at h
      cases h
    have hskip := skipFields_line (readLine_eq_ok.mp hread) hnil
    by_cases htrim : Text.trimEndMatches isLineEnd line = []
    · rw [readFields_blank hread hnil htrim] at h
      cases h
      rw [if_pos htrim] at hskip
      by_cases hline : Bytes.Terminated line
      · obtain ⟨used, hs, hused⟩ := readLine_cuts hread hline
        rw [decide_eq_true hline] at hskip
        exact Or.inl ⟨hskip, used, hs, fun more => readFields_blank (hused more) hnil htrim⟩
      · rw [decide_eq_false hline] at hskip
        obtain ⟨hrest, herror⟩ := readLine_unterminated hread hline
        exact Or.inr ⟨hskip, hrest, _, readFields_error herror⟩
    · rw [readFields_line hread htrim] at h
      simp only [bind_eq_ok] at h
      obtain ⟨new, hnew, ⟨more, rest⟩, hmore, heq⟩ := h
      cases heq
      rw [if_neg htrim] at hskip
      by_cases hline : Bytes.Terminated line
      · obtain ⟨used, hs, hused⟩ := readLine_cuts hread hline
        have hlt : middle.length < s.length :=
          Bytes.readLine_length_lt (readLine_eq_ok.mp hread) hnil
        rcases readFields_cases handling middle more rest hmore with
          ⟨hend, used', rfl, hused'⟩ | ⟨hend, hrest, error, herror⟩
        · refine Or.inl ⟨hskip.trans hend, used ++ used', ?_, fun after => ?_⟩
          · rw [hs, List.append_assoc]
          · rw [List.append_assoc, readFields_line (hused _) htrim, hnew, ok_bind,
              hused' after, ok_bind]
        · refine Or.inr ⟨hskip.trans hend, hrest, error, ?_⟩
          rw [hs, List.append_assoc, readFields_line (hused _) htrim, hnew, ok_bind, herror]
          rfl
      · obtain ⟨rfl, -⟩ := readLine_unterminated hread hline
        rw [readFields_eof readLine_nil] at hmore
        cases hmore
termination_by s.length

/-! ## The body -/

/-- A length is found if there is a field for it. -/
theorem combineLength_isSome {previous length' : Option Nat} {lengths : List Text}
    (h : lengths.foldlM combineLength previous = .ok length')
    (hsome : previous.isSome ∨ lengths ≠ []) : length'.isSome := by
  induction lengths generalizing previous with
  | nil =>
    cases h
    exact hsome.resolve_right fun hne => hne rfl
  | cons length lengths ih =>
    rw [List.foldlM_cons] at h
    obtain ⟨next, hnext, hrest⟩ := bind_eq_ok.mp h
    refine ih hrest (Or.inl ?_)
    unfold combineLength at hnext
    split at hnext
    · cases hnext
    · split at hnext
      · cases hnext
      · split at hnext
        · cases hnext
        · cases hnext
          rfl

/-- The pieces of the fields of a name: none only if there is no field. -/
theorem fieldPieces_ne_nil {headers : List (Text × Text)} {name : Text}
    (h : headersNamed headers name ≠ []) :
    ((headersNamed headers name).flatMap fun header =>
      (header.2.splitOn ',').map Text.trim) ≠ [] := by
  intro hnil
  obtain ⟨header, hheader⟩ := List.exists_mem_of_ne_nil _ h
  have hpieces := List.flatMap_eq_nil_iff.mp hnil header hheader
  exact List.splitOn_ne_nil _ _ (List.map_eq_nil_iff.mp hpieces)

theorem readBody_cuts {gzDecoder : GzDecoder} {headers : List (Text × Text)} {maxBodyBytes : Nat}
    {s body rest : Bytes} (h : readBody gzDecoder headers s maxBodyBytes = .ok (body, rest))
    (hframed : headersNamed headers "transfer-encoding".toList ≠ [] ∨
      headersNamed headers "content-length".toList ≠ []) :
    Cuts (fun s => readBody gzDecoder headers s maxBodyBytes) s body rest := by
  unfold readBody at h ⊢
  obtain ⟨codings, hcodings, h⟩ := bind_eq_ok.mp h
  simp only [hcodings, ok_bind]
  cases hlast : codings.getLast? with
  | some last =>
    rw [hlast] at h
    dsimp only at h ⊢
    split at h
    next hchunked =>
      obtain ⟨⟨chunks, middle⟩, hchunks, h⟩ := bind_eq_ok.mp h
      obtain ⟨decoded, hdecoded, h⟩ := bind_eq_ok.mp h
      cases h
      simp only [hchunked, if_true]
      exact (readChunks_cuts maxBodyBytes [] s chunks middle hchunks).map hdecoded
    next => cases h
  | none =>
    rw [hlast] at h
    dsimp only at h ⊢
    have hlengths : headersNamed headers "content-length".toList ≠ [] := by
      refine hframed.resolve_left fun hencodings => fieldPieces_ne_nil hencodings ?_
      unfold transferCodings at hcodings
      dsimp only at hcodings
      split at hcodings
      · cases hcodings
      · cases hcodings
        exact List.getLast?_eq_none_iff.mp hlast
    obtain ⟨length', hlength, h⟩ := bind_eq_ok.mp h
    have hsome := combineLength_isSome hlength (Or.inr (fieldPieces_ne_nil hlengths))
    cases length' with
    | none => cases hsome
    | some length =>
      simp only [hlength, ok_bind]
      dsimp only at h
      split at h
      · cases h
      next hle =>
        simp only [hle, if_false]
        exact readExact_cuts h

/-- A response whose end the connection relies on has a body of a known end. -/
theorem canReuseHttp1Connection_framed {request : HttpRequest} {response : HttpResponse}
    (h : canReuseHttp1Connection request response = true) :
    isBodyless request.method response.statusCode = true ∨
      headersNamed response.headers "transfer-encoding".toList ≠ [] ∨
      headersNamed response.headers "content-length".toList ≠ [] := by
  unfold canReuseHttp1Connection at h
  dsimp only at h
  generalize headersNamed response.headers "transfer-encoding".toList = encodings at h ⊢
  generalize headersNamed response.headers "content-length".toList = lengths at h ⊢
  split at h
  · cases h
  split at h
  · cases h
  split at h
  · cases h
  split at h
  next hbodyless =>
    left
    unfold isBodyless
    simp only [Bool.or_eq_true, decide_eq_true_eq, List.contains_cons, List.contains_nil,
      beq_iff_eq, Bool.or_false] at hbodyless ⊢
    tauto
  next =>
    right
    split at h
    next hlast => exact Or.inl fun hnil => by simp [hnil] at hlast
    next => exact Or.inr (of_decide_eq_true h)

theorem readMessageBody_cuts {gzDecoder : GzDecoder} {method : Method} {maxBodyBytes : Nat}
    {head : Head} {s body rest : Bytes}
    (h : readMessageBody gzDecoder method maxBodyBytes head s = .ok (body, rest))
    (hframed : isBodyless method head.statusCode = true ∨
      headersNamed head.headers "transfer-encoding".toList ≠ [] ∨
      headersNamed head.headers "content-length".toList ≠ []) :
    Cuts (readMessageBody gzDecoder method maxBodyBytes head) s body rest := by
  unfold readMessageBody at h ⊢
  by_cases hbodyless : isBodyless method head.statusCode = true
  · simp only [hbodyless, if_true] at h ⊢
    cases h
    exact Cuts.nil [] s
  · rw [if_neg hbodyless] at h
    simp only [hbodyless]
    obtain ⟨⟨encoded, middle⟩, hencoded, h⟩ := bind_eq_ok.mp h
    obtain ⟨decoded, hdecoded, h⟩ := bind_eq_ok.mp h
    cases h
    exact (readBody_cuts hencoded (hframed.resolve_left hbodyless)).map
      (g := fun body => decodeContentEncoding gzDecoder head.headers body maxBodyBytes) hdecoded

/-! ## The whole response -/

theorem readHead_line {handling : HeaderLineHandling} {s rest : Bytes} {statusLine reason : Text}
    {statusCode : Nat} (hline : readLine s = .ok (statusLine, rest))
    (hstatus : parseStatusLine (Text.trimEndMatches isLineEnd statusLine) =
      .ok (statusCode, reason)) :
    readHead handling s = readFields handling rest >>= fun p =>
      .ok ({ statusCode, reason, headers := p.1 }, p.2) := by
  rw [readHead, hline, ok_bind]
  dsimp only
  rw [hstatus, ok_bind]
  rfl

/-- A head is cut off the stream, or its empty line is the end of the stream and
lacks its line feed. -/
theorem readHead_cases {handling : HeaderLineHandling} {s rest : Bytes} {head : Head}
    (h : readHead handling s = .ok (head, rest)) :
    ∃ statusLine middle, s.readLine = some (statusLine, middle) ∧
      parseStatusLine (Text.trimEndMatches isLineEnd statusLine) =
        .ok (head.statusCode, head.reason) ∧
      ((skipFields middle = some (true, rest) ∧ Cuts (readHead handling) s head rest) ∨
        (skipFields middle = some (false, rest) ∧ rest = [] ∧
          ∃ error, readHead handling (s ++ [0xFF]) = .error error)) := by
  unfold readHead at h
  obtain ⟨⟨statusLine, middle⟩, hline, h⟩ := bind_eq_ok.mp h
  obtain ⟨⟨statusCode, reason⟩, hstatus, h⟩ := bind_eq_ok.mp h
  obtain ⟨⟨fields, rest'⟩, hfields, h⟩ := bind_eq_ok.mp h
  cases h
  refine ⟨statusLine, middle, readLine_eq_ok.mp hline, hstatus, ?_⟩
  by_cases hterminated : Bytes.Terminated statusLine
  · obtain ⟨used, hs, hused⟩ := readLine_cuts hline hterminated
    rcases readFields_cases handling middle fields rest hfields with
      ⟨hend, used', rfl, hused'⟩ | ⟨hend, hrest, error, herror⟩
    · refine Or.inl ⟨hend, used ++ used', by rw [hs, List.append_assoc], fun more => ?_⟩
      rw [List.append_assoc, readHead_line (hused _) hstatus, hused' more, ok_bind]
    · refine Or.inr ⟨hend, hrest, error, ?_⟩
      rw [hs, List.append_assoc, readHead_line (hused _) hstatus, herror]
      rfl
  · obtain ⟨rfl, -⟩ := readLine_unterminated hline hterminated
    rw [readFields_eof readLine_nil] at hfields
    cases hfields

theorem readResponse_head {gzDecoder : GzDecoder} {method : Method} {maxBodyBytes n : Nat}
    {handling : HeaderLineHandling} {s rest : Bytes} {head : Head}
    (h : readHead handling s = .ok (head, rest)) :
    readResponse gzDecoder method maxBodyBytes handling (n + 1) s =
      if isInterim head.statusCode then
        readResponse gzDecoder method maxBodyBytes handling n rest
      else readMessageBody gzDecoder method maxBodyBytes head rest >>= fun p =>
        .ok (.new head.statusCode head.reason head.headers p.1, p.2) := by
  rw [readResponse, h, ok_bind]
  rfl

theorem readResponse_error {gzDecoder : GzDecoder} {method : Method} {maxBodyBytes n : Nat}
    {handling : HeaderLineHandling} {s : Bytes} {error : HttpParseError}
    (h : readHead handling s = .error error) :
    readResponse gzDecoder method maxBodyBytes handling (n + 1) s = .error error := by
  rw [readResponse, h]
  rfl

/-- A response is cut off the stream, or the empty line of its head is the end of
the stream and lacks its line feed. -/
theorem readResponse_cases {gzDecoder : GzDecoder} {request : HttpRequest} {maxBodyBytes : Nat}
    {handling : HeaderLineHandling} : ∀ {n : Nat} {s rest : Bytes} {response : HttpResponse},
    readResponse gzDecoder request.method maxBodyBytes handling n s = .ok (response, rest) →
    canReuseHttp1Connection request response = true →
    (finalHeadTerminated n s = true ∧
      Cuts (readResponse gzDecoder request.method maxBodyBytes handling n) s response rest) ∨
    (finalHeadTerminated n s = false ∧ ∃ error,
      readResponse gzDecoder request.method maxBodyBytes handling n (s ++ [0xFF]) = .error error)
  | 0, _, _, _, h, _ => by cases h
  | n + 1, s, rest, response, h, hreuse => by
    have hhead : ∃ head middle, readHead handling s = .ok (head, middle) := by
      obtain ⟨⟨head, middle⟩, hhead, -⟩ := bind_eq_ok.mp h
      exact ⟨head, middle, hhead⟩
    obtain ⟨head, middle, hhead⟩ := hhead
    rw [readResponse_head hhead] at h
    obtain ⟨statusLine, fields, hline, hstatus, hcases⟩ := readHead_cases hhead
    unfold finalHeadTerminated
    rw [hline]
    dsimp only
    rw [hstatus]
    rcases hcases with ⟨hskip, used, hs, hused⟩ | ⟨hskip, rfl, error, herror⟩
    · rw [hskip]
      dsimp only
      by_cases hinterim : isInterim head.statusCode = true
      · rw [if_pos hinterim] at h ⊢
        rcases readResponse_cases h hreuse with ⟨hend, used', rfl, hused'⟩ | ⟨hend, error, herror⟩
        · refine Or.inl ⟨hend, used ++ used', by rw [hs, List.append_assoc], fun more => ?_⟩
          rw [List.append_assoc, readResponse_head (hused _), if_pos hinterim, hused' more]
        · refine Or.inr ⟨hend, error, ?_⟩
          rw [hs, List.append_assoc, readResponse_head (hused _), if_pos hinterim, herror]
      · rw [if_neg hinterim] at h ⊢
        obtain ⟨⟨body, rest'⟩, hbody, h⟩ := bind_eq_ok.mp h
        cases h
        obtain ⟨used', rfl, hused'⟩ :=
          readMessageBody_cuts hbody (canReuseHttp1Connection_framed hreuse)
        refine Or.inl ⟨rfl, used ++ used', by rw [hs, List.append_assoc], fun more => ?_⟩
        rw [List.append_assoc, readResponse_head (hused _), if_neg hinterim, hused' more,
          ok_bind]
    · refine Or.inr ⟨?_, error, readResponse_error herror⟩
      rw [hskip]
      dsimp only
      by_cases hinterim : isInterim head.statusCode = true
      · -- another head would have to follow at the end of the stream
        rw [if_pos hinterim] at h
        cases n with
        | zero => cases h
        | succ n => cases h
      · rw [if_neg hinterim]

/-! ## The limit -/

theorem readBoundedToEnd_length_le {output body : Bytes} {error : Option IoErrorKind}
    {maxBodyBytes : Nat} (h : readBoundedToEnd output error maxBodyBytes = .ok body) :
    body.length ≤ maxBodyBytes := by
  unfold readBoundedToEnd at h
  split at h
  · cases h
  next hle =>
    cases error with
    | some kind => cases h
    | none =>
      cases h
      omega

theorem decodeTransferCodings_length_le {gzDecoder : GzDecoder} {maxBodyBytes : Nat} :
    ∀ {codings : List Text} {body decoded : Bytes},
    decodeTransferCodings gzDecoder maxBodyBytes codings body = .ok decoded →
    body.length ≤ maxBodyBytes → decoded.length ≤ maxBodyBytes
  | [], _, _, h, hbody => by
    cases h
    exact hbody
  | coding :: codings, body, decoded, h, _ => by
    unfold decodeTransferCodings at h
    split at h
    · cases hgzip : decodeGzip gzDecoder body maxBodyBytes with
      | error error =>
        rw [hgzip] at h
        cases h
      | ok inner =>
        rw [hgzip] at h
        exact decodeTransferCodings_length_le h (readBoundedToEnd_length_le hgzip)
    · cases h

theorem readBody_length_le {gzDecoder : GzDecoder} {headers : List (Text × Text)}
    {maxBodyBytes : Nat} {s body rest : Bytes}
    (h : readBody gzDecoder headers s maxBodyBytes = .ok (body, rest)) :
    body.length ≤ maxBodyBytes := by
  unfold readBody at h
  obtain ⟨codings, -, h⟩ := bind_eq_ok.mp h
  split at h
  · split at h
    · obtain ⟨⟨chunks, middle⟩, hchunks, h⟩ := bind_eq_ok.mp h
      obtain ⟨decoded, hdecoded, h⟩ := bind_eq_ok.mp h
      cases h
      exact decodeTransferCodings_length_le hdecoded
        (readChunks_length_le maxBodyBytes [] s chunks _ hchunks (Nat.zero_le _))
    · cases h
  · obtain ⟨length', -, h⟩ := bind_eq_ok.mp h
    split at h
    next length =>
      split at h
      · cases h
      next hle =>
        have hlength := (Bytes.readExact_eq_some (readExact_eq_ok.mp h)).2
        omega
    next =>
      obtain ⟨all, hall, h⟩ := bind_eq_ok.mp h
      cases h
      exact readBoundedToEnd_length_le hall

theorem readMessageBody_length_le {gzDecoder : GzDecoder} {method : Method} {maxBodyBytes : Nat}
    {head : Head} {s body rest : Bytes}
    (h : readMessageBody gzDecoder method maxBodyBytes head s = .ok (body, rest)) :
    body.length ≤ maxBodyBytes := by
  unfold readMessageBody at h
  split at h
  · cases h
    exact Nat.zero_le _
  · obtain ⟨⟨encoded, middle⟩, hencoded, h⟩ := bind_eq_ok.mp h
    obtain ⟨decoded, hdecoded, h⟩ := bind_eq_ok.mp h
    cases h
    have hlength := readBody_length_le hencoded
    unfold decodeContentEncoding at hdecoded
    split at hdecoded
    · cases hdecoded
      exact hlength
    · split at hdecoded
      · exact readBoundedToEnd_length_le hdecoded
      · cases hdecoded
        exact hlength

theorem readResponse_length_le {gzDecoder : GzDecoder} {method : Method} {maxBodyBytes : Nat}
    {handling : HeaderLineHandling} : ∀ {n : Nat} {s rest : Bytes} {response : HttpResponse},
    readResponse gzDecoder method maxBodyBytes handling n s = .ok (response, rest) →
    response.body.length ≤ maxBodyBytes
  | 0, _, _, _, h => by cases h
  | n + 1, s, rest, response, h => by
    unfold readResponse at h
    obtain ⟨⟨head, middle⟩, -, h⟩ := bind_eq_ok.mp h
    dsimp only at h
    split at h
    · exact readResponse_length_le h
    · obtain ⟨⟨body, rest'⟩, hbody, h⟩ := bind_eq_ok.mp h
      cases h
      exact readMessageBody_length_le hbody

/-! ## Delimitation -/

namespace HttpResponse

theorem parseForMethodWithLimit_eq_ok {gzDecoder : GzDecoder} {s : Bytes} {method : Method}
    {maxBodyBytes : Nat} {handling : HeaderLineHandling} {response : HttpResponse} :
    parseForMethodWithLimit gzDecoder s method maxBodyBytes handling = .ok response ↔
      ∃ rest, readResponse gzDecoder method maxBodyBytes handling maxHeads s =
        .ok (response, rest) := by
  unfold parseForMethodWithLimit
  cases readResponse gzDecoder method maxBodyBytes handling maxHeads s with
  | error error => exact ⟨fun h => (by cases h), fun ⟨_, h⟩ => (by cases h)⟩
  | ok p => exact ⟨fun h => (by cases h; exact ⟨_, rfl⟩), fun ⟨_, h⟩ => (by cases h; rfl)⟩

/-- A part of the stream that gives the response whatever follows exists if and
only if the final head is complete. -/
theorem parse_delimited_iff {gzDecoder : GzDecoder} {s : Bytes} {request : HttpRequest}
    {maxBodyBytes : Nat} {handling : HeaderLineHandling} {response : HttpResponse}
    (h : parseForMethodWithLimit gzDecoder s request.method maxBodyBytes handling = .ok response)
    (hreuse : canReuseHttp1Connection request response = true) :
    (∃ message rest, s = message ++ rest ∧ ∀ more,
      parseForMethodWithLimit gzDecoder (message ++ more) request.method maxBodyBytes handling =
        .ok response) ↔
      finalHeadTerminated maxHeads s = true := by
  obtain ⟨rest, hread⟩ := parseForMethodWithLimit_eq_ok.mp h
  rcases readResponse_cases hread hreuse with ⟨hend, used, hs, hused⟩ | ⟨hend, error, herror⟩
  · refine iff_of_true ⟨used, rest, hs, fun more => ?_⟩ hend
    exact parseForMethodWithLimit_eq_ok.mpr ⟨more, hused more⟩
  · refine iff_of_false ?_ (by rw [hend]; decide)
    rintro ⟨message, rest', hs, hmore⟩
    obtain ⟨rest'', hbad⟩ := parseForMethodWithLimit_eq_ok.mp (hmore (rest' ++ [0xFF]))
    rw [← List.append_assoc, ← hs, herror] at hbad
    cases hbad

end HttpResponse

/-- What the framing of a response guarantees.  A response after which the
connection is reused is delimited by a part of the stream, whatever follows, if
and only if the empty line of its head has its line feed.  A chunked body is read
back, whatever follows, if and only if its extensions and trailers are texts.
Every body keeps to the limit. -/
theorem framing_delimits (gzDecoder : GzDecoder) (maxBodyBytes : Nat)
    (hmax : maxBodyBytes ≤ usizeMax) :
    (∀ (s : Bytes) (request : HttpRequest) (handling : HeaderLineHandling)
      (response : HttpResponse),
      HttpResponse.parseForMethodWithLimit gzDecoder s request.method maxBodyBytes handling =
        .ok response →
      canReuseHttp1Connection request response = true →
      ((∃ message rest, s = message ++ rest ∧ ∀ more,
        HttpResponse.parseForMethodWithLimit gzDecoder (message ++ more) request.method
          maxBodyBytes handling = .ok response) ↔
        finalHeadTerminated maxHeads s = true)) ∧
    (∀ message : ChunkedMessage, message.body.length ≤ maxBodyBytes → ∀ rest,
      (readChunkedBody (message.encode ++ rest) maxBodyBytes = .ok (message.body, rest) ↔
        message.IsText)) ∧
    (∀ (s : Bytes) (method : Method) (handling : HeaderLineHandling) (response : HttpResponse),
      HttpResponse.parseForMethodWithLimit gzDecoder s method maxBodyBytes handling =
        .ok response →
      response.body.length ≤ maxBodyBytes) := by
  refine ⟨?_, ?_, ?_⟩
  · intro s request handling response h hreuse
    exact HttpResponse.parse_delimited_iff h hreuse
  · intro message hbody rest
    exact readChunkedBody_encode message hmax hbody rest
  · intro s method handling response h
    obtain ⟨rest, hread⟩ := HttpResponse.parseForMethodWithLimit_eq_ok.mp h
    exact readResponse_length_le hread

/-! ## A response without content -/

/-- The status line of a response without content. -/
def noContentLine : Bytes := Utf8.encode "HTTP/1.1 204 No Content\r\n".toList

/-- A response without content and fields. -/
def noContent : HttpResponse := .new 204 "No Content".toList [] []

/-- An empty line, terminated or not, ends the head of the response. -/
theorem noContent_parsed (gzDecoder : GzDecoder) (blank : Bytes) (line : Text)
    (hread : blank.readLine = some (line, [])) (hline : line ≠ [])
    (htrim : Text.trimEndMatches isLineEnd line = []) :
    HttpResponse.parseForMethodWithLimit gzDecoder (noContentLine ++ blank) .get 16 .strict =
        .ok noContent ∧
      finalHeadTerminated maxHeads (noContentLine ++ blank) =
        decide (Bytes.Terminated line) := by
  have hstatus : (noContentLine ++ blank).readLine =
      some ("HTTP/1.1 204 No Content\r\n".toList, blank) :=
    Bytes.readLine_encode
      (show '\n' ∉ "HTTP/1.1 204 No Content\r".toList by decide) blank
  have hparsed : parseStatusLine
      (Text.trimEndMatches isLineEnd "HTTP/1.1 204 No Content\r\n".toList) =
        .ok (204, "No Content".toList) := rfl
  constructor
  · have hhead : readHead .strict (noContentLine ++ blank) =
        .ok ({ statusCode := 204, reason := "No Content".toList, headers := [] }, []) := by
      rw [readHead_line (readLine_eq_ok.mpr hstatus) hparsed,
        readFields_blank (readLine_eq_ok.mpr hread) hline htrim, ok_bind]
    refine HttpResponse.parseForMethodWithLimit_eq_ok.mpr ⟨[], ?_⟩
    rw [maxHeads, readResponse_head hhead]
    rfl
  · rw [maxHeads, finalHeadTerminated, hstatus]
    dsimp only
    rw [hparsed, skipFields_line hread hline, if_pos htrim]
    rfl

/-- A complete response without content. -/
theorem framing_delimits_noContent :
    ∃ message rest, noContentLine ++ [0x0D, 0x0A] = message ++ rest ∧ ∀ more,
      HttpResponse.parseForMethodWithLimit (fun body => ⟨body, none⟩) (message ++ more) .get 16
        .strict = .ok noContent := by
  obtain ⟨hparsed, hend⟩ := noContent_parsed (fun body => ⟨body, none⟩)
    [0x0D, 0x0A] "\r\n".toList (by decide) (by decide) (by decide)
  exact ((framing_delimits (fun body => ⟨body, none⟩) 16 (by decide)).1 _
    (HttpRequest.new ⟨"omoikane".toList, "en".toList⟩ .get exampleRoot) .strict noContent hparsed
    (by decide)).mpr (hend.trans (by decide))

/-- A response that is cut off before its last line feed is accepted, and its
connection reused, although what follows can still change it. -/
theorem truncated_head_reused :
    ∃ (gzDecoder : GzDecoder) (s : Bytes) (request : HttpRequest) (response : HttpResponse),
      HttpResponse.parseForMethodWithLimit gzDecoder s request.method 16 .strict = .ok response ∧
      canReuseHttp1Connection request response = true ∧
      ¬ ∃ message rest, s = message ++ rest ∧ ∀ more,
        HttpResponse.parseForMethodWithLimit gzDecoder (message ++ more) request.method 16
          .strict = .ok response := by
  let request := HttpRequest.new ⟨"omoikane".toList, "en".toList⟩ .get exampleRoot
  obtain ⟨hget, hend⟩ := noContent_parsed (fun body => ⟨body, none⟩)
    [0x0D] "\r".toList (by decide) (by decide) (by decide)
  have hparsed : HttpResponse.parseForMethodWithLimit (fun body => ⟨body, none⟩)
      (noContentLine ++ [0x0D]) request.method 16 .strict = .ok noContent := hget
  have hreuse : canReuseHttp1Connection request noContent = true := by decide
  refine ⟨fun body => ⟨body, none⟩, noContentLine ++ [0x0D], request, noContent, hparsed, hreuse,
    fun hdelimited => ?_⟩
  have hterminated := (HttpResponse.parse_delimited_iff hparsed hreuse).mp hdelimited
  rw [hend] at hterminated
  exact absurd hterminated (by decide)

end Omoikane.Http
