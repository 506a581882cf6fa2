import Omoikane.Http.Response

/-!
# The chunked transfer coding

A `ChunkedMessage` is a body cut into chunks with everything the coding lets a
sender add: zeros and blanks around a size, extensions, trailer fields.  The
parser reads the body from its encoding and leaves what follows, if every
extension and trailer is valid UTF-8; it reads lines as texts, so others are
errors (`readChunkedBody_encode`).
-/

namespace Omoikane.Http

open Base

/-! ## Lines -/

theorem readLine_cuts {s rest : Bytes} {line : Text} (h : readLine s = .ok (line, rest))
    (hline : Bytes.Terminated line) : Cuts readLine s line rest := by
  obtain ⟨hs, hmore⟩ := Bytes.readLine_terminated (readLine_eq_ok.mp h) hline
  exact ⟨_, hs, fun more => readLine_eq_ok.mpr (hmore more)⟩

theorem readLine_unterminated {s rest : Bytes} {line : Text} (h : readLine s = .ok (line, rest))
    (hline : ¬ Bytes.Terminated line) :
    rest = [] ∧ readLine (s ++ [0xFF]) = .error (.io .invalidData) := by
  obtain ⟨-, hrest, hmore⟩ := Bytes.readLine_unterminated (readLine_eq_ok.mp h) hline
  exact ⟨hrest, by rw [readLine, hmore]⟩

theorem readLine_nil : readLine [] = .ok ([], []) := rfl

/-! ## Trailers -/

theorem terminated_crlf {line front : Text}
    (h : Text.stripSuffix line "\r\n".toList = some front) : Bytes.Terminated line := by
  rw [Text.stripSuffix_eq_some.mp h, Bytes.Terminated, List.getLast?_append]
  rfl

theorem readTrailers_error {s : Bytes} {error : HttpParseError}
    (h : readLine s = .error error) : readTrailers s = .error error := by
  rw [readTrailers]
  split
  next heq =>
    rw [h] at heq
    cases heq
    rfl
  next heq =>
    rw [h] at heq
    cases heq

theorem readTrailers_end {s rest : Bytes} (h : readLine s = .ok ("\r\n".toList, rest)) :
    readTrailers s = .ok ((), rest) := by
  rw [readTrailers]
  split
  next heq =>
    rw [h] at heq
    cases heq
  next heq =>
    rw [h] at heq
    cases heq
    rfl

theorem readTrailers_line {s rest : Bytes} {trailing : Text}
    (h : readLine s = .ok (trailing, rest)) (hend : trailing ≠ "\r\n".toList) :
    readTrailers s =
      match Text.stripSuffix trailing "\r\n".toList with
      | none => .error .invalidHeader
      | some line => parseHeaderLine line >>= fun _ => readTrailers rest := by
  rw [readTrailers]
  split
  next heq =>
    rw [h] at heq
    cases heq
  next heq =>
    rw [h] at heq
    cases heq
    split
    next hnil =>
      subst hnil
      rfl
    next =>
      cases Text.stripSuffix trailing "\r\n".toList with
      | none => rfl
      | some line =>
        dsimp only
        cases parseHeaderLine line with
        | error error => rfl
        | ok field => rfl

theorem readTrailers_cuts (s rest : Bytes) (h : readTrailers s = .ok ((), rest)) :
    Cuts readTrailers s () rest := by
  cases hread : readLine s with
  | error error =>
    rw [readTrailers_error hread] at h
    cases h
  | ok p =>
    obtain ⟨trailing, middle⟩ := p
    by_cases hend : trailing = "\r\n".toList
    · subst hend
      rw [readTrailers_end hread] at h
      cases h
      obtain ⟨used, hs, hused⟩ := readLine_cuts hread (by decide)
      exact ⟨used, hs, fun more => readTrailers_end (hused more)⟩
    · have heq := readTrailers_line hread hend
      cases hstrip : Text.stripSuffix trailing "\r\n".toList with
      | none =>
        rw [heq, hstrip] at h
        cases h
      | some line =>
        rw [heq, hstrip] at h
        obtain ⟨field, hfield, hrest⟩ := bind_eq_ok.mp h
        obtain ⟨used, hs, hused⟩ := readLine_cuts hread (terminated_crlf hstrip)
        have hlt : middle.length < s.length := by
          refine Bytes.readLine_length_lt (readLine_eq_ok.mp hread) ?_
          rintro rfl
          cases hstrip
        obtain ⟨used', rfl, hused'⟩ := readTrailers_cuts middle rest hrest
        refine ⟨used ++ used', by rw [hs, List.append_assoc], fun more => ?_⟩
        rw [List.append_assoc, readTrailers_line (hused _) hend, hstrip]
        dsimp only
        rw [hfield, ok_bind, hused' more]
termination_by s.length

/-! ## Chunks -/

theorem readExact_cuts {n : Nat} {s data rest : Bytes} (h : readExact n s = .ok (data, rest)) :
    Cuts (readExact n) s data rest := by
  obtain ⟨hs, hlength⟩ := Bytes.readExact_eq_some (readExact_eq_ok.mp h)
  refine ⟨data, hs, fun more => readExact_eq_ok.mpr ?_⟩
  rw [← hlength]
  exact Bytes.readExact_append data more

theorem readChunkData_cuts {size : Nat} {s data rest : Bytes}
    (h : readChunkData size s = .ok (data, rest)) : Cuts (readChunkData size) s data rest := by
  obtain ⟨rfl, hlength⟩ := readChunkData_eq_ok.mp h
  refine ⟨data ++ [0x0D, 0x0A], by rw [List.append_assoc]; rfl, fun more => ?_⟩
  exact readChunkData_eq_ok.mpr ⟨by rw [List.append_assoc]; rfl, hlength⟩

/-- A chunk that is read makes progress. -/
theorem readChunkData_length_lt {s middle rest data : Bytes} {sizeLine : Text} {size : Nat}
    (hread : readLine s = .ok (sizeLine, middle)) (hsize : parseChunkSize sizeLine = .ok size)
    (hdata : readChunkData size middle = .ok (data, rest)) : rest.length < s.length := by
  have hline : sizeLine ≠ [] := by
    rintro rfl
    rw [parseChunkSize_nil] at hsize
    cases hsize
  have hlt := Bytes.readLine_length_lt (readLine_eq_ok.mp hread) hline
  rw [(readChunkData_eq_ok.mp hdata).1] at hlt
  simp only [List.length_append, List.length_cons] at hlt
  omega

theorem readChunks_error {maxBodyBytes : Nat} {body s : Bytes} {error : HttpParseError}
    (h : readLine s = .error error) : readChunks maxBodyBytes body s = .error error := by
  rw [readChunks]
  split
  next heq =>
    rw [h] at heq
    cases heq
    rfl
  next heq =>
    rw [h] at heq
    cases heq

theorem readChunks_line {maxBodyBytes : Nat} {body s rest : Bytes} {sizeLine : Text}
    (h : readLine s = .ok (sizeLine, rest)) :
    readChunks maxBodyBytes body s =
      parseChunkSize sizeLine >>= fun size =>
        if size = 0 then readTrailers rest >>= fun p => .ok (body, p.2)
        else if maxBodyBytes - body.length < size then .error .bodyTooLarge
        else readChunkData size rest >>= fun p => readChunks maxBodyBytes (body ++ p.1) p.2 := by
  rw [readChunks]
  split
  next heq =>
    rw [h] at heq
    cases heq
  next heq =>
    rw [h] at heq
    cases heq
    split
    next herror =>
      rw [herror]
      rfl
    next hsize =>
      rw [hsize, ok_bind]
      split
      · cases readTrailers rest with
        | error error => rfl
        | ok p => rfl
      · split
        · rfl
        · split
          next herror =>
            rw [herror]
            rfl
          next hdata =>
            rw [hdata, ok_bind]

theorem readChunks_cuts (maxBodyBytes : Nat) (body s result rest : Bytes)
    (h : readChunks maxBodyBytes body s = .ok (result, rest)) :
    Cuts (readChunks maxBodyBytes body) s result rest := by
  cases hread : readLine s with
  | error error =>
    rw [readChunks_error hread] at h
    cases h
  | ok p =>
    obtain ⟨sizeLine, middle⟩ := p
    rw [readChunks_line hread] at h
    obtain ⟨size, hsize, h⟩ := bind_eq_ok.mp h
    have hcrlf : ∃ front, Text.stripSuffix sizeLine "\r\n".toList = some front := by
      cases hstrip : Text.stripSuffix sizeLine "\r\n".toList with
      | some front => exact ⟨front, rfl⟩
      | none =>
        rw [parseChunkSize, hstrip] at hsize
        cases hsize
    obtain ⟨front, hfront⟩ := hcrlf
    obtain ⟨used, hs, hused⟩ := readLine_cuts hread (terminated_crlf hfront)
    split at h
    next hzero =>
      obtain ⟨⟨_, rest'⟩, htrailers, heq⟩ := bind_eq_ok.mp h
      cases heq
      obtain ⟨used', rfl, hused'⟩ := readTrailers_cuts middle rest' htrailers
      refine ⟨used ++ used', by rw [hs, List.append_assoc], fun more => ?_⟩
      rw [List.append_assoc, readChunks_line (hused _), hsize, ok_bind, if_pos hzero,
        hused' more, ok_bind]
    next hzero =>
      split at h
      · cases h
      next hle =>
        obtain ⟨⟨data, rest'⟩, hdata, hmore⟩ := bind_eq_ok.mp h
        have hlt : rest'.length < s.length := readChunkData_length_lt hread hsize hdata
        obtain ⟨used', rfl, hused'⟩ := readChunkData_cuts hdata
        obtain ⟨used'', rfl, hused''⟩ :=
          readChunks_cuts maxBodyBytes (body ++ data) rest' result rest hmore
        refine ⟨used ++ (used' ++ used''), by simp only [hs, List.append_assoc], fun more => ?_⟩
        rw [List.append_assoc, readChunks_line (hused _), hsize, ok_bind, if_neg hzero,
          if_neg hle, List.append_assoc, hused', ok_bind]
        exact hused'' more
termination_by s.length

/-! ## Encoding -/

/-- What is free in the line of a chunk of the given size. -/
structure SizeLine (size : Nat) where
  digits : Text
  digits_ne_nil : digits ≠ []
  isHexDigit : ∀ c ∈ digits, Text.isHexDigit c = true
  ofDigits_digits : Text.ofDigits 16 digits = size
  blanks : Text
  isBlank : ∀ c ∈ blanks, c = ' ' ∨ c = '\t'
  /-- The extensions, from the first semicolon. -/
  extension : Bytes
  head_extension : ∀ b ∈ extension.head?, b = 0x3B
  extension_oneLine : 0x0A ∉ extension ∧ 0x0D ∉ extension

/-- A chunk with its line. -/
structure Chunk where
  data : Bytes
  data_ne_nil : data ≠ []
  line : SizeLine data.length

/-- A trailer field line. -/
structure Trailer where
  line : Bytes
  colon_mem : 0x3A ∈ line
  oneLine : 0x0A ∉ line ∧ 0x0D ∉ line

/-- A body in the chunked transfer coding. -/
structure ChunkedMessage where
  chunks : List Chunk
  last : SizeLine 0
  trailers : List Trailer

/-- The end of a line. -/
def crlf : Bytes := [0x0D, 0x0A]

def SizeLine.encode {size : Nat} (line : SizeLine size) : Bytes :=
  Utf8.encode (line.digits ++ line.blanks) ++ (line.extension ++ crlf)

def Chunk.encode (chunk : Chunk) : Bytes := chunk.line.encode ++ (chunk.data ++ crlf)

def Trailer.encode (trailer : Trailer) : Bytes := trailer.line ++ crlf

namespace ChunkedMessage

/-- The bytes of a message. -/
def encode (message : ChunkedMessage) : Bytes :=
  message.chunks.flatMap Chunk.encode ++
    (message.last.encode ++ (message.trailers.flatMap Trailer.encode ++ crlf))

/-- The body of a message. -/
def body (message : ChunkedMessage) : Bytes := message.chunks.flatMap Chunk.data

/-- Every extension and every trailer is valid UTF-8. -/
def IsText (message : ChunkedMessage) : Prop :=
  (∀ chunk ∈ message.chunks, (Utf8.decode chunk.line.extension).isSome) ∧
    (Utf8.decode message.last.extension).isSome ∧
    ∀ trailer ∈ message.trailers, (Utf8.decode trailer.line).isSome

end ChunkedMessage

/-! ## Reading an encoding -/

theorem readLine_crlf {line : Bytes} (h : 0x0A ∉ line) (rest : Bytes) :
    readLine (line ++ (crlf ++ rest)) =
      match Utf8.decode line with
      | some text => .ok (text ++ "\r\n".toList, rest)
      | none => .error (.io .invalidData) := by
  have hcut : Bytes.cutLine (line ++ (crlf ++ rest)) = (line ++ Utf8.encode "\r\n".toList, rest) := by
    have hline : 0x0A ∉ line ++ [0x0D] := by
      rw [List.mem_append, not_or]
      exact ⟨h, by decide⟩
    have hterminated := Bytes.cutLine_terminated rest hline
    rw [List.append_assoc, List.append_assoc] at hterminated
    exact hterminated
  rw [readLine, Bytes.readLine, hcut]
  dsimp only
  have hascii : ∀ c ∈ "\r\n".toList, Utf8.IsAscii c := fun c hc =>
    of_decide_eq_true (Text.forall_mem_of_all (p := fun c => decide (Utf8.IsAscii c))
      (by decide) c hc)
  rw [Utf8.decode_append_encode line hascii]
  cases Utf8.decode line with
  | none => rfl
  | some text => rfl

namespace SizeLine

variable {size : Nat} (line : SizeLine size)

/-- A size with blanks behind it has no delimiter. -/
theorem not_mem_size {c : Char} (hdigit : Text.isHexDigit c = false) (hblank : c ≠ ' ' ∧ c ≠ '\t') :
    c ∉ line.digits ++ line.blanks := by
  rw [List.mem_append, not_or]
  constructor
  · intro hm
    rw [line.isHexDigit c hm] at hdigit
    cases hdigit
  · intro hm
    exact (line.isBlank c hm).elim hblank.1 hblank.2

/-- The text of the size line, with extensions. -/
def text (extension : Text) : Text := line.digits ++ line.blanks ++ extension ++ "\r\n".toList

theorem readLine_encode (rest : Bytes) :
    readLine (line.encode ++ rest) =
      match Utf8.decode line.extension with
      | some extension => .ok (line.text extension, rest)
      | none => .error (.io .invalidData) := by
  have hfeed : '\n' ∉ line.digits ++ line.blanks := line.not_mem_size (by decide) (by decide)
  have hline : 0x0A ∉ Utf8.encode (line.digits ++ line.blanks) ++ line.extension := by
    rw [List.mem_append, not_or]
    exact ⟨Bytes.lineFeed_not_mem_encode hfeed, line.extension_oneLine.1⟩
  have hread := readLine_crlf hline rest
  rw [Utf8.decode_encode_append] at hread
  rw [encode, List.append_assoc, List.append_assoc, ← List.append_assoc, hread]
  cases Utf8.decode line.extension with
  | none => rfl
  | some extension => rfl

/-- The size on the line, whatever the extensions. -/
theorem parseChunkSize_text (hsize : size ≤ usizeMax) {extension : Text}
    (hext : Utf8.decode line.extension = some extension) :
    parseChunkSize (line.text extension) = .ok size := by
  have hhead : ∀ c ∈ extension.head?, c = ';' := by
    cases extension with
    | nil => simp
    | cons c rest =>
      intro d hd
      cases hd
      have henc := Utf8.decode_eq_some.mp hext
      cases hbytes : String.utf8EncodeChar c with
      | nil => exact absurd hbytes String.utf8EncodeChar_ne_nil
      | cons b bytes =>
        rw [Utf8.encode_cons, hbytes] at henc
        obtain rfl : b = 0x3B := line.head_extension b (by rw [henc]; rfl)
        have hmem : (0x3B : UInt8) ∈ String.utf8EncodeChar c := by
          rw [hbytes]
          exact List.mem_cons_self ..
        exact Char.toNat_inj.mp (Utf8.mem_utf8EncodeChar (by decide) hmem)
  have hsemicolon : ';' ∉ line.digits ++ line.blanks :=
    line.not_mem_size (by decide) (by decide)
  have hsplit : (Text.splitFirst ';' (line.digits ++ line.blanks ++ extension)).1 =
      line.digits ++ line.blanks := by
    cases extension with
    | nil => rw [List.append_nil, Text.splitFirst, Text.splitOnce_eq_none.mpr hsemicolon]
    | cons c rest =>
      obtain rfl := hhead c rfl
      rw [Text.splitFirst, Text.splitOnce_eq_some.mpr ⟨rfl, hsemicolon⟩]
  have htrim : Text.trim (line.digits ++ line.blanks) = line.digits := by
    refine Text.trim_append_of_isWhitespace ?_ line.digits_ne_nil ?_
    · exact fun c hc => Text.isWhitespace_of_isHexDigit (line.isHexDigit c hc)
    · intro c hc
      rcases line.isBlank c hc with rfl | rfl <;> rfl
  have hstrip : Text.stripSuffix (line.text extension) "\r\n".toList =
      some (line.digits ++ line.blanks ++ extension) := Text.stripSuffix_eq_some.mpr rfl
  rw [parseChunkSize, hstrip]
  dsimp only
  rw [hsplit, htrim, line.ofDigits_digits, if_neg, if_neg (by omega)]
  simp [line.digits_ne_nil]
  exact line.isHexDigit

end SizeLine

/-- Trailers are read through the empty line. -/
theorem readTrailers_encode : ∀ (trailers : List Trailer) (rest : Bytes),
    readTrailers (trailers.flatMap Trailer.encode ++ (crlf ++ rest)) = .ok ((), rest) ↔
      ∀ trailer ∈ trailers, (Utf8.decode trailer.line).isSome
  | [], rest => by
    have hread := readLine_crlf (show (0x0A : UInt8) ∉ [] by decide) rest
    exact iff_of_true (readTrailers_end hread) (by simp)
  | trailer :: trailers, rest => by
    have hread := readLine_crlf trailer.oneLine.1
      (trailers.flatMap Trailer.encode ++ (crlf ++ rest))
    rw [List.flatMap_cons, Trailer.encode, List.append_assoc, List.append_assoc,
      List.forall_mem_cons]
    cases hdecode : Utf8.decode trailer.line with
    | none =>
      rw [hdecode] at hread
      rw [readTrailers_error hread]
      simp
    | some text =>
      rw [hdecode] at hread
      have hcolon : ':' ∈ text := by
        have hmem := trailer.colon_mem
        rw [Utf8.decode_eq_some.mp hdecode] at hmem
        obtain ⟨c, hc, hnat⟩ := Utf8.mem_encode (by decide) hmem
        obtain rfl : c = ':' := Char.toNat_inj.mp hnat
        exact hc
      have hne : text ++ "\r\n".toList ≠ "\r\n".toList := by
        intro heq
        rw [List.append_left_eq_self.mp heq] at hcolon
        cases hcolon
      have hfield : ∃ field, parseHeaderLine text = .ok field := by
        unfold parseHeaderLine
        cases hsplit : Text.splitOnce ':' text with
        | none => exact absurd hcolon (Text.splitOnce_eq_none.mp hsplit)
        | some p => exact ⟨_, rfl⟩
      obtain ⟨field, hfield⟩ := hfield
      have hstrip : Text.stripSuffix (text ++ "\r\n".toList) "\r\n".toList = some text :=
        Text.stripSuffix_eq_some.mpr rfl
      rw [readTrailers_line hread hne, hstrip]
      dsimp only
      rw [hfield, ok_bind, readTrailers_encode trailers rest]
      simp

/-- Chunks are read behind the body read before them, if they are within the limit. -/
theorem readChunks_encode (message : ChunkedMessage) {maxBodyBytes : Nat}
    (hmax : maxBodyBytes ≤ usizeMax) (rest : Bytes) :
    ∀ (chunks : List Chunk) (body : Bytes),
    body.length + (chunks.flatMap Chunk.data).length ≤ maxBodyBytes →
    (readChunks maxBodyBytes body (chunks.flatMap Chunk.encode ++ (message.last.encode ++
        (message.trailers.flatMap Trailer.encode ++ (crlf ++ rest)))) =
      .ok (body ++ chunks.flatMap Chunk.data, rest) ↔
    (∀ chunk ∈ chunks, (Utf8.decode chunk.line.extension).isSome) ∧
      (Utf8.decode message.last.extension).isSome ∧
      ∀ trailer ∈ message.trailers, (Utf8.decode trailer.line).isSome)
  | [], body, _ => by
    have hread := message.last.readLine_encode
      (message.trailers.flatMap Trailer.encode ++ (crlf ++ rest))
    have htrailers := readTrailers_encode message.trailers rest
    rw [List.flatMap_nil, List.nil_append, List.flatMap_nil, List.append_nil]
    cases hdecode : Utf8.decode message.last.extension with
    | none =>
      rw [hdecode] at hread
      rw [readChunks_error hread]
      simp
    | some extension =>
      rw [hdecode] at hread
      have hsize := message.last.parseChunkSize_text (Nat.zero_le _) hdecode
      rw [readChunks_line hread, hsize, ok_bind, if_pos rfl, ← htrailers, bind_eq_ok]
      constructor
      · rintro ⟨⟨_, rest'⟩, h, heq⟩
        cases heq
        exact ⟨by simp, rfl, h⟩
      · rintro ⟨-, -, h⟩
        exact ⟨_, h, rfl⟩
  | chunk :: chunks, body, hlength => by
    rw [List.flatMap_cons, List.length_append] at hlength
    have hread := chunk.line.readLine_encode (chunk.data ++ (crlf ++
      (chunks.flatMap Chunk.encode ++ (message.last.encode ++
      (message.trailers.flatMap Trailer.encode ++ (crlf ++ rest))))))
    rw [List.flatMap_cons, Chunk.encode, List.append_assoc, List.append_assoc,
      List.append_assoc, List.flatMap_cons, List.forall_mem_cons]
    cases hdecode : Utf8.decode chunk.line.extension with
    | none =>
      rw [hdecode] at hread
      rw [readChunks_error hread]
      simp
    | some extension =>
      rw [hdecode] at hread
      have hsize := chunk.line.parseChunkSize_text (by omega) hdecode
      have hpos : chunk.data.length ≠ 0 :=
        fun h => chunk.data_ne_nil (List.length_eq_zero_iff.mp h)
      have hdata : readChunkData chunk.data.length (chunk.data ++ (crlf ++
          (chunks.flatMap Chunk.encode ++ (message.last.encode ++
          (message.trailers.flatMap Trailer.encode ++ (crlf ++ rest)))))) =
          .ok (chunk.data, chunks.flatMap Chunk.encode ++ (message.last.encode ++
          (message.trailers.flatMap Trailer.encode ++ (crlf ++ rest)))) :=
        readChunkData_eq_ok.mpr ⟨rfl, rfl⟩
      have ih := readChunks_encode message hmax rest chunks (body ++ chunk.data)
        (by rw [List.length_append]; omega)
      rw [readChunks_line hread, hsize, ok_bind, if_neg hpos, if_neg (by omega), hdata, ok_bind]
      rw [List.append_assoc] at ih
      rw [ih]
      simp

/-- The chunked coding is read back, whatever follows, if and only if its
extensions and trailers are texts. -/
theorem readChunkedBody_encode (message : ChunkedMessage) {maxBodyBytes : Nat}
    (hmax : maxBodyBytes ≤ usizeMax) (hbody : message.body.length ≤ maxBodyBytes) (rest : Bytes) :
    readChunkedBody (message.encode ++ rest) maxBodyBytes = .ok (message.body, rest) ↔
      message.IsText := by
  have h := readChunks_encode message hmax rest message.chunks []
    (by rw [List.length_nil, Nat.zero_add]; exact hbody)
  rw [readChunkedBody, ChunkedMessage.encode]
  simp only [List.append_assoc]
  exact h

/-! ## The limit -/

/-- The body of chunks that are read keeps to the limit. -/
theorem readChunks_length_le (maxBodyBytes : Nat) (body s result rest : Bytes)
    (h : readChunks maxBodyBytes body s = .ok (result, rest)) (hbody : body.length ≤ maxBodyBytes) :
    result.length ≤ maxBodyBytes := by
  cases hread : readLine s with
  | error error =>
    rw [readChunks_error hread] at h
    cases h
  | ok p =>
    obtain ⟨sizeLine, middle⟩ := p
    rw [readChunks_line hread] at h
    obtain ⟨size, hsize, h⟩ := bind_eq_ok.mp h
    split at h
    next =>
      obtain ⟨_, -, heq⟩ := bind_eq_ok.mp h
      cases heq
      exact hbody
    next =>
      split at h
      · cases h
      next hle =>
        obtain ⟨⟨data, rest'⟩, hdata, hmore⟩ := bind_eq_ok.mp h
        have hlt : rest'.length < s.length := readChunkData_length_lt hread hsize hdata
        obtain ⟨-, hdatalen⟩ := readChunkData_eq_ok.mp hdata
        refine readChunks_length_le maxBodyBytes (body ++ data) rest' result rest hmore ?_
        rw [List.length_append]
        omega
termination_by s.length

end Omoikane.Http
