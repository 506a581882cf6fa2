import Omoikane.Base.Numerals

/-!
# Event streams

`parseEventStream` reads a response of server-sent events line by line.  A line ends with LF, CR LF or
CR, and an event ends with an empty line.

A stream is written from blocks of fields.  The lines of a written stream are the lines that it was
written from, unless an empty line that ends with LF comes behind a line that ends with CR, which
together are one line end (`lines_write`).  A block of lines sets the fields of one event, whatever
stands between them (`foldl_take`), and so the events of a stream are those of its blocks
(`parseEventStream_write`).
-/

namespace Omoikane.Realtime

open Base

/-! ## The parser -/

/-- `replace("\r\n", "\n")`. -/
def replaceCrLf : Text → Text
  | [] => []
  | '\r' :: '\n' :: s => '\n' :: replaceCrLf s
  | c :: s => c :: replaceCrLf s

/-- The text with LF for every line end. -/
def normalizeLineEnds (s : Text) : Text :=
  (replaceCrLf s).map fun c => if c = '\r' then '\n' else c

/-- `lines`. -/
def lines (s : Text) : List Text :=
  let pieces := Text.split '\n' s
  pieces.dropLast.map (fun line => (Text.stripSuffix line ['\r']).getD line) ++
    (pieces.getLast?.filter (· ≠ [])).toList

/-- The type, the data, the last identifier and the retry time of an event. -/
abbrev StreamEvent := Text × Text × Text × Option Nat

/-- What `parse_event_stream` keeps from line to line. -/
structure EventStream where
  events : List StreamEvent := []
  data : List Text := []
  eventType : Text := []
  lastId : Text := []
  retry : Option Nat := none
deriving DecidableEq, Repr

namespace EventStream

variable (stream : EventStream)

/-- A line with a field. -/
def setField (field value : Text) : EventStream :=
  if field = "data".toList then { stream with data := stream.data ++ [value] }
  else if field = "event".toList then { stream with eventType := value }
  else if field = "id".toList ∧ '\x00' ∉ value then { stream with lastId := value }
  else if field = "retry".toList then
    { stream with retry := Text.parseUnsigned (2 ^ 64 - 1) value }
  else stream

/-- An empty line. -/
def dispatch : EventStream where
  events :=
    if stream.data = [] then stream.events
    else stream.events ++ [(if stream.eventType = [] then "message".toList else stream.eventType,
      Text.join ['\n'] stream.data, stream.lastId, stream.retry)]
  lastId := stream.lastId

/-- One line. -/
def feed (line : Text) : EventStream :=
  if line = [] then stream.dispatch
  else if line.head? = some ':' then stream
  else match Text.splitOnce ':' line with
    | some (field, value) => stream.setField field ((Text.stripPrefix value [' ']).getD value)
    | none => stream.setField line []

end EventStream

/-- `parse_event_stream`. -/
def parseEventStream (input : Text) : List StreamEvent :=
  ((lines (normalizeLineEnds input) ++ [[]]).foldl EventStream.feed {}).events

example : parseEventStream "id: 7\nevent: update\ndata: one\ndata: two\nretry: 25\n\n".toList =
    [("update".toList, "one\ntwo".toList, "7".toList, some 25)] := by decide +kernel

/-! ## Written streams -/

/-- A text on one line. -/
abbrev LineText := { s : Text // '\r' ∉ s ∧ '\n' ∉ s }

/-- An identifier has no NUL. -/
abbrev IdText := { s : LineText // '\x00' ∉ s.1 }

/-- An event, with what its block sets. -/
structure ServerEvent where
  data : List LineText
  eventType : Option LineText
  id : Option IdText
  retry : Option (Fin (2 ^ 64))

/-- The name in a line without a colon is the line. -/
def fieldName (line : Text) : Text := (Text.splitFirst ':' line).1

/-- The names that mean something. -/
def fieldNames : List Text := ["data", "event", "id", "retry"].map String.toList

/-- What a line of a block says. -/
inductive Field where
  | data (value : LineText)
  | event (value : LineText)
  | id (value : IdText)
  | retry (value : Fin (2 ^ 64))
  | comment (text : LineText)
  | unknown (line : LineText) (h : line.1 ≠ [] ∧ fieldName line.1 ∉ fieldNames)

/-- A line with a name and a value. -/
def namedLine (name value : Text) : Text := name ++ ':' :: ' ' :: value

namespace Field

def text : Field → Text
  | data value => namedLine "data".toList value.1
  | event value => namedLine "event".toList value.1
  | id value => namedLine "id".toList value.1.1
  | retry value => namedLine "retry".toList (Text.ofNat value)
  | comment text => ':' :: text.1
  | unknown line _ => line.1

def data? : Field → Option LineText
  | data value => some value
  | _ => none

def event? : Field → Option LineText
  | event value => some value
  | _ => none

def id? : Field → Option IdText
  | id value => some value
  | _ => none

def retry? : Field → Option (Fin (2 ^ 64))
  | retry value => some value
  | _ => none

end Field

inductive LineEnd where
  | lf | crlf | cr
deriving DecidableEq, Repr

def LineEnd.text : LineEnd → Text
  | lf => ['\n']
  | crlf => ['\r', '\n']
  | cr => ['\r']

/-- The lines of an event, and how the empty line behind them ends. -/
structure Block where
  fields : List (Field × LineEnd)
  blank : LineEnd

/-- The lines of a block with their ends. -/
def Block.lines (block : Block) : List (Text × LineEnd) :=
  block.fields.map (fun field => (field.1.text, field.2)) ++ [([], block.blank)]

/-- Lines as they are written. -/
def write (lines : List (Text × LineEnd)) : Text := lines.flatMap fun line => line.1 ++ line.2.text

/-- No CR at the end of a line is followed by the LF of an empty line. -/
def Separate (lines : List (Text × LineEnd)) : Prop :=
  lines.IsChain fun line next => line.2 = .cr → next ≠ ([], .lf)

/-- The fields of a block say what an event has, in any order, with comments and unknown fields anywhere
among them. -/
structure ServerEvent.WrittenIn (event : ServerEvent) (block : Block) : Prop where
  data : (block.fields.map Prod.fst).filterMap Field.data? = event.data
  eventType : (block.fields.map Prod.fst).filterMap Field.event? = event.eventType.toList
  id : (block.fields.map Prod.fst).filterMap Field.id? = event.id.toList
  retry : (block.fields.map Prod.fst).filterMap Field.retry? = event.retry.toList

/-- The fields of an event, in one order. -/
def ServerEvent.fields (event : ServerEvent) : List Field :=
  event.eventType.toList.map .event ++ event.id.toList.map .id ++ event.retry.toList.map .retry ++
    event.data.map .data

/-- Every event is written in lines with any ends. -/
theorem ServerEvent.writtenIn_fields (event : ServerEvent) (lineEnd blank : LineEnd) :
    event.WrittenIn ⟨event.fields.map (·, lineEnd), blank⟩ := by
  have hfields : (event.fields.map (·, lineEnd)).map Prod.fst = event.fields := by
    rw [List.map_map]
    exact List.map_id' _
  constructor <;> rw [hfields] <;>
    simp [fields, List.filterMap_map, Function.comp_def, Field.data?, Field.event?, Field.id?,
      Field.retry?]

/-- What an event is read as, if it has data. -/
def ServerEvent.read (event : ServerEvent) (lastId : Text) : List StreamEvent :=
  let eventType := (event.eventType.map Subtype.val).getD []
  if event.data = [] then []
  else [(if eventType = [] then "message".toList else eventType,
    Text.join ['\n'] (event.data.map Subtype.val), lastId, event.retry.map Fin.val)]

/-- The identifier behind an event. -/
def ServerEvent.nextId (event : ServerEvent) (lastId : Text) : Text :=
  (event.id.map fun id => id.1.1).getD lastId

/-- What events are read as.  The last identifier stays until there is another. -/
def readEvents (lastId : Text) : List ServerEvent → List StreamEvent
  | [] => []
  | event :: events => event.read (event.nextId lastId) ++ readEvents (event.nextId lastId) events

/-! ## Lines -/

theorem replaceCrLf_cons {c : Char} {s : Text} (h : c = '\r' → s.head? ≠ some '\n') :
    replaceCrLf (c :: s) = c :: replaceCrLf s := by
  rw [replaceCrLf]
  rintro rest rfl rfl
  exact h rfl rfl

theorem normalizeLineEnds_append {text : Text} (h : '\r' ∉ text) (s : Text) :
    normalizeLineEnds (text ++ s) = text ++ normalizeLineEnds s := by
  induction text with
  | nil => rfl
  | cons c text ih =>
    have hc : c ≠ '\r' := fun heq => h (heq ▸ List.mem_cons_self)
    have hrest := ih fun hmem => h (List.mem_cons_of_mem c hmem)
    rw [List.cons_append, normalizeLineEnds, replaceCrLf_cons fun heq => absurd heq hc, List.map_cons,
      if_neg hc]
    exact congrArg (c :: ·) hrest

theorem normalizeLineEnds_end {lineEnd : LineEnd} {s : Text}
    (h : lineEnd = .cr → s.head? ≠ some '\n') :
    normalizeLineEnds (lineEnd.text ++ s) = '\n' :: normalizeLineEnds s := by
  cases lineEnd with
  | lf => exact congrArg (List.map _) (replaceCrLf_cons fun heq => absurd heq (by decide))
  | crlf => rfl
  | cr => exact congrArg (List.map _) (replaceCrLf_cons fun _ => h rfl)

theorem lines_append {text : Text} (h : '\r' ∉ text ∧ '\n' ∉ text) (s : Text) :
    lines (text ++ '\n' :: s) = text :: lines s := by
  have hnone : ∀ c ∈ text, (c == '\n') = false := fun c hc =>
    beq_eq_false_iff_ne.mpr fun heq => h.2 (heq ▸ hc)
  have hsplit : Text.split '\n' (text ++ '\n' :: s) = text :: Text.split '\n' s :=
    List.splitOnP_append_cons_of_forall_mem hnone '\n' rfl s
  have hne : Text.split '\n' s ≠ [] := List.splitOnP_ne_nil _ s
  have hstrip : Text.stripSuffix text ['\r'] = none := by
    cases hsuffix : Text.stripSuffix text ['\r'] with
    | none => rfl
    | some front =>
      rw [Text.stripSuffix_eq_some.mp hsuffix] at h
      exact absurd (List.mem_append_right front List.mem_cons_self) h.1
  rw [lines, hsplit, List.dropLast_cons_of_ne_nil hne, List.map_cons, hstrip,
    List.getLast?_cons_of_ne_nil hne]
  rfl

theorem write_cons (line : Text × LineEnd) (written : List (Text × LineEnd)) :
    write (line :: written) = line.1 ++ (line.2.text ++ write written) := by
  rw [write, List.flatMap_cons, List.append_assoc]
  rfl

/-- The lines of what is written are the lines that are written. -/
theorem lines_write {written : List (Text × LineEnd)}
    (htext : ∀ line ∈ written, '\r' ∉ line.1 ∧ '\n' ∉ line.1) (h : Separate written) :
    lines (normalizeLineEnds (write written)) = written.map Prod.fst := by
  induction written with
  | nil => rfl
  | cons line written ih =>
    have hline := htext line List.mem_cons_self
    have hrest := fun other hother => htext other (List.mem_cons_of_mem line hother)
    have hend : line.2 = .cr → (write written).head? ≠ some '\n' := by
      intro hcr
      match written with
      | [] => exact fun heq => nomatch heq
      | (next, lineEnd) :: written =>
        have hnext := (List.isChain_cons_cons.mp h).1 hcr
        have hlf := (hrest (next, lineEnd) List.mem_cons_self).2
        cases next with
        | nil => cases lineEnd <;> first | exact absurd rfl hnext | exact fun heq => nomatch heq
        | cons c next =>
          intro heq
          exact hlf (Option.some.inj heq ▸ List.mem_cons_self)
    rw [write_cons, normalizeLineEnds_append hline.1, normalizeLineEnds_end hend,
      lines_append hline, ih hrest h.tail, List.map_cons]

/-! ## Fields -/

theorem oneLine_namedLine {name value : Text} (hname : '\r' ∉ name ∧ '\n' ∉ name)
    (hvalue : '\r' ∉ value ∧ '\n' ∉ value) :
    '\r' ∉ namedLine name value ∧ '\n' ∉ namedLine name value := by
  simp [namedLine, hname, hvalue]

theorem Field.oneLine_text (field : Field) : '\r' ∉ field.text ∧ '\n' ∉ field.text := by
  cases field with
  | data value => exact oneLine_namedLine (by decide) value.2
  | event value => exact oneLine_namedLine (by decide) value.2
  | id value => exact oneLine_namedLine (by decide) value.1.2
  | retry value =>
    have hdigits := (Text.isNumeral_ofNat value).isDigit
    exact oneLine_namedLine (by decide) ⟨fun hmem => absurd (hdigits _ hmem) (by decide),
      fun hmem => absurd (hdigits _ hmem) (by decide)⟩
  | comment text => simp [Field.text, text.2]
  | unknown line => exact line.2

namespace EventStream

variable (stream : EventStream)

/-- What a field sets. -/
def take : Field → EventStream
  | .data value => { stream with data := stream.data ++ [value.1] }
  | .event value => { stream with eventType := value.1 }
  | .id value => { stream with lastId := value.1.1 }
  | .retry value => { stream with retry := some value.1 }
  | .comment _ | .unknown _ _ => stream

/-- The name and the value of a line with a colon and a blank. -/
theorem feed_namedLine {name : Text} (hcolon : ':' ∉ name) (hne : name ≠ []) (value : Text) :
    stream.feed (namedLine name value) = stream.setField name value := by
  have hsplit : Text.splitOnce ':' (namedLine name value) = some (name, ' ' :: value) :=
    Text.splitOnce_eq_some.mpr ⟨rfl, hcolon⟩
  have hhead : (namedLine name value).head? ≠ some ':' := by
    cases name with
    | nil => exact absurd rfl hne
    | cons c name => exact fun heq => hcolon (Option.some.inj heq ▸ List.mem_cons_self)
  rw [feed, if_neg (by simp [namedLine]), if_neg hhead, hsplit]
  rfl

/-- A name that means nothing sets nothing. -/
theorem setField_unknown {name : Text} (h : name ∉ fieldNames) (value : Text) :
    stream.setField name value = stream := by
  simp only [fieldNames, List.map_cons, List.map_nil, List.mem_cons, List.not_mem_nil, or_false,
    not_or] at h
  rw [setField, if_neg h.1, if_neg h.2.1, if_neg fun hid => h.2.2.1 hid.1, if_neg h.2.2.2]

theorem feed_unknown {line : Text} (hne : line ≠ []) (h : fieldName line ∉ fieldNames) :
    stream.feed line = stream := by
  rw [feed, if_neg hne]
  split
  · rfl
  · rw [fieldName, Text.splitFirst] at h
    split
    next hsplit =>
      rw [hsplit] at h
      exact stream.setField_unknown h _
    next hsplit =>
      rw [hsplit] at h
      exact stream.setField_unknown h _

/-- A line sets what its field sets. -/
theorem feed_text (field : Field) : stream.feed field.text = stream.take field := by
  cases field with
  | data value =>
    rw [Field.text, feed_namedLine _ (by decide) (by decide), setField, if_pos rfl, take]
  | event value =>
    rw [Field.text, feed_namedLine _ (by decide) (by decide), setField, if_neg (by decide), if_pos rfl,
      take]
  | id value =>
    rw [Field.text, feed_namedLine _ (by decide) (by decide), setField, if_neg (by decide),
      if_neg (by decide), if_pos ⟨rfl, value.2⟩, take]
  | retry value =>
    have hparse : Text.parseUnsigned (2 ^ 64 - 1) (Text.ofNat value) = some value.1 :=
      (Text.isNumeral_ofNat value).parseUnsigned (by omega)
    rw [Field.text, feed_namedLine _ (by decide) (by decide), setField, if_neg (by decide),
      if_neg (by decide), if_neg fun h => absurd h.1 (by decide), if_pos rfl, hparse, take]
  | comment text => rfl
  | unknown line h => exact stream.feed_unknown h.1 h.2

/-- The fields of a block add to the data, and of what else they set the last remains. -/
theorem foldl_take (fields : List Field) : fields.foldl take stream =
    { events := stream.events
      data := stream.data ++ (fields.filterMap Field.data?).map Subtype.val
      eventType := (fields.filterMap Field.event?).foldl (fun _ value => value.1) stream.eventType
      lastId := (fields.filterMap Field.id?).foldl (fun _ value => value.1.1) stream.lastId
      retry := (fields.filterMap Field.retry?).foldl (fun _ value => some value.1) stream.retry } := by
  induction fields generalizing stream with
  | nil => simp
  | cons field fields ih =>
    rw [List.foldl_cons, ih]
    cases field with
    | data value =>
      have happend : stream.data ++ [value.1] ++ (fields.filterMap Field.data?).map Subtype.val =
          stream.data ++ value.1 :: (fields.filterMap Field.data?).map Subtype.val :=
        List.append_assoc ..
      simp only [take, happend]
      rfl
    | event | id | retry | comment | unknown => rfl

end EventStream

/-! ## Events -/

/-- The state between two blocks. -/
def EventStream.between (events : List StreamEvent) (lastId : Text) : EventStream := { events, lastId }

theorem ServerEvent.WrittenIn.foldl_feed {event : ServerEvent} {block : Block}
    (h : event.WrittenIn block) (events : List StreamEvent) (lastId : Text) :
    (block.lines.map Prod.fst).foldl EventStream.feed (.between events lastId) =
      .between (events ++ event.read (event.nextId lastId)) (event.nextId lastId) := by
  have hlines : block.lines.map Prod.fst =
      (block.fields.map Prod.fst).map Field.text ++ [[]] := by
    rw [Block.lines, List.map_append, List.map_map, List.map_map]
    rfl
  have hfeed : ∀ stream field, EventStream.feed stream (Field.text field) = stream.take field :=
    EventStream.feed_text
  rw [hlines, List.foldl_append, List.foldl_map]
  simp only [hfeed]
  rw [EventStream.foldl_take, h.data, h.eventType, h.id, h.retry, List.foldl_cons, List.foldl_nil,
    EventStream.feed, if_pos rfl]
  have heventType : event.eventType.toList.foldl (fun _ value => value.1) [] =
      (event.eventType.map Subtype.val).getD [] := by cases event.eventType <;> rfl
  have hid : event.id.toList.foldl (fun _ value => value.1.1) lastId = event.nextId lastId := by
    rw [ServerEvent.nextId]
    cases event.id <;> rfl
  have hretry : event.retry.toList.foldl (fun _ value => some value.1) none =
      event.retry.map Fin.val := by cases event.retry <;> rfl
  simp only [EventStream.between, EventStream.dispatch, List.nil_append, heventType, hid, hretry,
    List.map_eq_nil_iff, ServerEvent.read]
  split
  · rw [List.append_nil]
  · rfl

/-- The events of a stream are those of its blocks. -/
theorem foldl_feed_blocks {events : List ServerEvent} {blocks : List Block}
    (h : List.Forall₂ ServerEvent.WrittenIn events blocks) (before : List StreamEvent) (lastId : Text) :
    (((blocks.flatMap Block.lines).map Prod.fst ++ [[]]).foldl EventStream.feed
      (.between before lastId)).events = before ++ readEvents lastId events := by
  induction h generalizing before lastId with
  | nil => exact (List.append_nil before).symm
  | cons hevent _ ih =>
    rw [List.flatMap_cons, List.map_append, List.append_assoc, List.foldl_append, hevent.foldl_feed, ih,
      readEvents, List.append_assoc]

/-- The lines of blocks are texts without line ends. -/
theorem oneLine_blocks (blocks : List Block) :
    ∀ line ∈ blocks.flatMap Block.lines, '\r' ∉ line.1 ∧ '\n' ∉ line.1 := by
  intro line hline
  obtain ⟨block, -, hline⟩ := List.mem_flatMap.mp hline
  rcases List.mem_append.mp hline with hfield | hblank
  · obtain ⟨field, -, rfl⟩ := List.mem_map.mp hfield
    exact field.1.oneLine_text
  · rw [List.mem_singleton.mp hblank]
    exact ⟨List.not_mem_nil, List.not_mem_nil⟩

/-- A written stream is read as its events. -/
theorem parseEventStream_write {events : List ServerEvent} {blocks : List Block}
    (hwritten : List.Forall₂ ServerEvent.WrittenIn events blocks)
    (hseparate : Separate (blocks.flatMap Block.lines)) :
    parseEventStream (write (blocks.flatMap Block.lines)) = readEvents [] events := by
  rw [parseEventStream, lines_write (oneLine_blocks blocks) hseparate]
  exact foldl_feed_blocks hwritten [] []

/-- Two events with comments and an unknown field, and all line ends. -/
theorem parseEventStream_write_note :
    parseEventStream "id: 7\r\n:note\rdata: a\rother: b\ndata: b\n\r\n:note\n\rdata: c\n\n".toList =
      [("message".toList, "a\nb".toList, "7".toList, none), ("message".toList, "c".toList, "7".toList, none)] := by
  let a : LineText := ⟨"a".toList, by decide⟩
  let b : LineText := ⟨"b".toList, by decide⟩
  let c : LineText := ⟨"c".toList, by decide⟩
  let seven : IdText := ⟨⟨"7".toList, by decide⟩, by decide⟩
  let note : Field := .comment ⟨"note".toList, by decide⟩
  let other : Field := .unknown ⟨"other: b".toList, by decide⟩ (by decide)
  let events : List ServerEvent := [⟨[a, b], none, some seven, none⟩, ⟨[], none, none, none⟩,
    ⟨[c], none, none, none⟩]
  let blocks : List Block := [
    ⟨[(.id seven, .crlf), (note, .cr), (.data a, .cr), (other, .lf), (.data b, .lf)], .crlf⟩,
    ⟨[(note, .lf)], .cr⟩, ⟨[(.data c, .lf)], .lf⟩]
  have hwritten : List.Forall₂ ServerEvent.WrittenIn events blocks :=
    .cons ⟨rfl, rfl, rfl, rfl⟩ (.cons ⟨rfl, rfl, rfl, rfl⟩ (.cons ⟨rfl, rfl, rfl, rfl⟩ .nil))
  have hseparate : Separate (blocks.flatMap Block.lines) := by
    rw [Separate]
    decide +kernel
  have hread := parseEventStream_write hwritten hseparate
  exact hread

/-- A CR and the LF of an empty line are one line end, and two events are read as one. -/
theorem parseEventStream_cr_lf :
    ¬ ∀ (events : List ServerEvent) (blocks : List Block),
      List.Forall₂ ServerEvent.WrittenIn events blocks →
        parseEventStream (write (blocks.flatMap Block.lines)) = readEvents [] events := by
  let a : LineText := ⟨"a".toList, by decide⟩
  let b : LineText := ⟨"b".toList, by decide⟩
  intro h
  have hread := h [⟨[a], none, none, none⟩, ⟨[b], none, none, none⟩]
    [⟨[(.data a, .cr)], .lf⟩, ⟨[(.data b, .lf)], .lf⟩]
    (.cons ⟨rfl, rfl, rfl, rfl⟩ (.cons ⟨rfl, rfl, rfl, rfl⟩ .nil))
  revert hread
  decide +kernel

end Omoikane.Realtime
