import Omoikane.Html.Builder
import Omoikane.Html.Tokenizer

/-!
# Attributes of a start tag

A start tag is written out from names and values, each value between double or single quotes or without
quotes, and with the named references of the tokenizer for the characters that have one
(`WrittenAttribute.source`).  The tokenizer reads it to one token, whose attributes are `readAs` what
was written.

Two things go wrong on the way to the element.  The state in front of a value takes the first character
of a value without quotes as it is, so that a reference there is not decoded (`readValue`).  And
the attributes are set one after another, so that the last one of a name is kept.
`attributes_kept_iff` says when the element has the first value of each name all the same.
-/

namespace Omoikane.Html

open Base

/-! ## Writing -/

/-- The quotes of a value. -/
inductive Quoting
  | double
  | single
  | unquoted
deriving DecidableEq, Repr

/-- The name of the reference that a character is written with. -/
def referenceName (ch : Char) : Option Text :=
  if ch = '&' then some "amp".toList
  else if ch = '<' then some "lt".toList
  else if ch = '>' then some "gt".toList
  else if ch = '"' then some "quot".toList
  else if ch = '\'' then some "apos".toList
  else if ch = Char.ofNat 0xa0 then some "nbsp".toList
  else none

/-- How a code point of a value is written. -/
def escape : InputCodePoint → List InputCodePoint
  | .surrogate unit => [.surrogate unit]
  | .scalar ch =>
    match referenceName ch with
    | some name => ('&' :: (name ++ [';'])).map .scalar
    | none => [.scalar ch]

/-- A character that no name has: it ends a name or the tag. -/
def endsName (ch : Char) : Bool := isHtmlWhitespace ch || ch == '/' || ch == '>'

/-- An attribute that is to be written.  A name may start with `=`; a value without quotes has no
white space and is not empty. -/
structure WrittenAttribute where
  first : Char
  others : Text
  value : List InputCodePoint
  quoting : Quoting
  first_valid : endsName first = false
  others_valid : ∀ ch ∈ others, endsName ch = false ∧ ch ≠ '='
  unquoted_valid : quoting = .unquoted →
    value ≠ [] ∧ ∀ point ∈ value, isHtmlWhitespace point.scalarView = false

namespace WrittenAttribute

def name (attr : WrittenAttribute) : Text := attr.first :: attr.others

/-- The name that the element is to have it by. -/
def lowerName (attr : WrittenAttribute) : Text := Text.toAsciiLowercase attr.name

/-- The value between its quotes. -/
def body (attr : WrittenAttribute) : List InputCodePoint :=
  match attr.quoting with
  | .double => .scalar '"' :: (attr.value.flatMap escape ++ [.scalar '"'])
  | .single => .scalar '\'' :: (attr.value.flatMap escape ++ [.scalar '\''])
  | .unquoted => attr.value.flatMap escape

def source (attr : WrittenAttribute) : List InputCodePoint :=
  .scalar ' ' :: (attr.name.map .scalar ++ .scalar '=' :: attr.body)

/-- The value that is read: the first character of one without quotes is taken as it is written. -/
def readValue (attr : WrittenAttribute) : List InputCodePoint :=
  match attr.quoting, attr.value with
  | .unquoted, point :: points => escape point ++ points
  | _, value => value

/-- The attribute that is read. -/
def readAs (attr : WrittenAttribute) : Attribute :=
  ⟨attr.lowerName, .fromUtf16 (Utf16.encode attr.readValue)⟩

end WrittenAttribute

/-- A start tag that is to be written. -/
structure WrittenTag where
  first : Char
  others : Text
  attributes : List WrittenAttribute
  first_valid : isTagNameStart first = true
  others_valid : ∀ ch ∈ others, endsName ch = false

namespace WrittenTag

def name (tag : WrittenTag) : Text := tag.first :: tag.others

def source (tag : WrittenTag) : List InputCodePoint :=
  .scalar '<' :: (tag.name.map .scalar ++
    (tag.attributes.flatMap WrittenAttribute.source ++ [.scalar '>']))

/-- The token of the tag. -/
def token (tag : WrittenTag) : Token :=
  .startTag (Text.toAsciiLowercase tag.name) (tag.attributes.map WrittenAttribute.readAs) false

end WrittenTag

/-! ## Reading -/

namespace Quoting

/-- The state inside a value. -/
def valueState : Quoting → State
  | double => .attributeValueDoubleQuoted
  | single => .attributeValueSingleQuoted
  | unquoted => .attributeValueUnquoted

/-- A character ends a value. -/
def ends : Quoting → Char → Bool
  | double, ch => ch == '"'
  | single, ch => ch == '\''
  | unquoted, ch => isHtmlWhitespace ch || ch == '>'

end Quoting

section

variable {state state' : State} {r r' : Registers} {points : List InputCodePoint} {emits : List Emit}

/-- The tokenizer reads some code points, whatever is behind them. -/
def Consumes (state : State) (r : Registers) (points : List InputCodePoint) (emits : List Emit)
    (state' : State) (r' : Registers) : Prop :=
  ∀ (rest : List InputCodePoint) (d : Draining) (passes : Nat), d.state = state → d.registers = r →
    points.length ≤ passes → ∃ d' passes',
      drainLoop true false passes d (points ++ rest) = drainLoop true false passes' d' rest ∧
      d'.state = state' ∧ d'.registers = r' ∧ d'.output = d.output.emitAll emits ∧
      passes ≤ passes' + points.length

namespace Consumes

theorem nil : Consumes state r [] [] state r :=
  fun _ d passes hstate hr _ => ⟨d, passes, rfl, hstate, hr, rfl, le_rfl⟩

theorem trans {state'' : State} {r'' : Registers} {points' : List InputCodePoint}
    {emits' : List Emit} (h : Consumes state r points emits state' r')
    (h' : Consumes state' r' points' emits' state'' r'') :
    Consumes state r (points ++ points') (emits ++ emits') state'' r'' := by
  intro rest d passes hstate hr hpasses
  rw [List.length_append] at hpasses
  obtain ⟨d₁, passes₁, hloop₁, hstate₁, hr₁, houtput₁, hpasses₁⟩ :=
    h (points' ++ rest) d passes hstate hr (by omega)
  obtain ⟨d₂, passes₂, hloop₂, hstate₂, hr₂, houtput₂, hpasses₂⟩ :=
    h' rest d₁ passes₁ hstate₁ hr₁ (by omega)
  refine ⟨d₂, passes₂, ?_, hstate₂, hr₂, ?_, ?_⟩
  · rw [List.append_assoc, hloop₁, hloop₂]
  · rw [houtput₂, houtput₁, Output.emitAll, Output.emitAll, Output.emitAll, List.foldl_append]
  · rw [List.length_append]
    omega

theorem drainLoop_advance (passes : Nat) (d : Draining) (point : InputCodePoint)
    (rest : List InputCodePoint) : drainLoop true false (passes + 1) d (point :: rest) =
      drainLoop true false passes (d.advance point rest).1 (d.advance point rest).2 := rfl

/-- One pass, which reads a code point and some behind it. -/
theorem of_step {point : InputCodePoint}
    (h : ∀ rest, step state r point (points ++ rest) = ⟨state', r', emits, rest⟩) :
    Consumes state r (point :: points) emits state' r' := by
  intro rest d passes hstate hr hpasses
  cases passes with
  | zero => cases hpasses
  | succ passes =>
    subst hstate hr
    have hadvance : (d.advance point (points ++ rest)).1.state = state' ∧
        (d.advance point (points ++ rest)).1.registers = r' ∧
        (d.advance point (points ++ rest)).1.output = d.output.emitAll emits ∧
        (d.advance point (points ++ rest)).2 = rest := by
      simp only [Draining.advance, h, and_self]
    obtain ⟨hstate, hr, houtput, hrest⟩ := hadvance
    refine ⟨(d.advance point (points ++ rest)).1, passes, ?_, hstate, hr, houtput, ?_⟩
    · rw [List.cons_append, drainLoop_advance, hrest]
    · rw [List.length_cons]
      omega

theorem of_step_one {point : InputCodePoint}
    (h : ∀ rest, step state r point rest = ⟨state', r', emits, rest⟩) :
    Consumes state r [point] emits state' r' := @of_step _ _ _ _ [] _ _ h

end Consumes

/-! ## Values -/

/-- Some code points are read into the value. -/
def Registers.pushValue (r : Registers) (points : List InputCodePoint) : Registers :=
  { r with currentAttrValue := points.foldl TextBuffer.pushCodePoint r.currentAttrValue }

variable {quoting : Quoting} {point : InputCodePoint}

theorem step_value (hends : quoting.ends point.scalarView = false) (hamp : point.scalarView ≠ '&')
    (rest : List InputCodePoint) :
    step quoting.valueState r point rest = ⟨quoting.valueState, r.pushValue [point], [], rest⟩ := by
  cases quoting with
  | double | single =>
    have hne := ne_of_beq_false hends
    simp only [Quoting.valueState, step, if_neg hamp, stepPoint, if_neg hne, Turn.over,
      Bool.false_eq_true, if_false]
    rfl
  | unquoted =>
    obtain ⟨hspace, hclose⟩ := Bool.or_eq_false_iff.mp hends
    have hne := ne_of_beq_false hclose
    simp only [Quoting.valueState, step, if_neg hamp, stepPoint, hspace, if_neg hne, Turn.over,
      Bool.false_eq_true, if_false]
    rfl

/-- Code points that neither end the value nor start a reference are read as they are. -/
theorem consumes_plain : ∀ {points : List InputCodePoint} {r : Registers},
    (∀ point ∈ points, quoting.ends point.scalarView = false ∧ point.scalarView ≠ '&') →
      Consumes quoting.valueState r points [] quoting.valueState (r.pushValue points)
  | [], _, _ => .nil
  | point :: points, r, h => by
    obtain ⟨hends, hamp⟩ := h point List.mem_cons_self
    have hfirst : Consumes quoting.valueState r [point] [] quoting.valueState (r.pushValue [point]) :=
      .of_step_one (step_value hends hamp)
    exact hfirst.trans (consumes_plain fun other hother => h other (List.mem_cons_of_mem _ hother))

/-- What the references of the tokenizer stand for. -/
theorem decodeReference_of_referenceName {ch : Char} {name : Text} (h : referenceName ch = some name) :
    decodeReference name = .ok [ch] ∧ ∀ other ∈ name, isReferenceChar other = true := by
  unfold referenceName at h
  split at h
  next hch => cases h; rw [hch]; exact ⟨by decide, List.forall_iff_forall_mem.mp (by decide)⟩
  next =>
  split at h
  next hch => cases h; rw [hch]; exact ⟨by decide, List.forall_iff_forall_mem.mp (by decide)⟩
  next =>
  split at h
  next hch => cases h; rw [hch]; exact ⟨by decide, List.forall_iff_forall_mem.mp (by decide)⟩
  next =>
  split at h
  next hch => cases h; rw [hch]; exact ⟨by decide, List.forall_iff_forall_mem.mp (by decide)⟩
  next =>
  split at h
  next hch => cases h; rw [hch]; exact ⟨by decide, List.forall_iff_forall_mem.mp (by decide)⟩
  next =>
  split at h
  next hch => cases h; rw [hch]; exact ⟨by decide, List.forall_iff_forall_mem.mp (by decide)⟩
  next => cases h

/-- A named reference is consumed up to its semicolon. -/
theorem consumeCharacterReference_named {name decoded : Text}
    (hname : ∀ ch ∈ name, isReferenceChar ch = true) (hdecode : decodeReference name = .ok decoded)
    (rest : List InputCodePoint) :
    consumeCharacterReference ((name ++ [';']).map .scalar ++ rest) = (.ok decoded, rest) := by
  have hall : ∀ point ∈ name.map Utf16.CodePoint.scalar,
      isReferenceChar (InputCodePoint.scalarView point) = true := by
    intro point hpoint
    obtain ⟨ch, hch, rfl⟩ := List.mem_map.mp hpoint
    exact hname ch hch
  have hsplit : (name ++ [';']).map Utf16.CodePoint.scalar ++ rest =
      name.map .scalar ++ (.scalar ';' :: rest) := by
    rw [List.map_append, List.append_assoc]
    rfl
  have hstop : ¬ isReferenceChar (InputCodePoint.scalarView (.scalar ';')) = true := by decide
  have htake : ((name ++ [';']).map Utf16.CodePoint.scalar ++ rest).takeWhile
      (fun point => isReferenceChar (InputCodePoint.scalarView point)) = name.map .scalar := by
    rw [hsplit, List.takeWhile_append_of_pos hall, List.takeWhile_cons, if_neg hstop, List.append_nil]
  have hdrop : ((name ++ [';']).map Utf16.CodePoint.scalar ++ rest).dropWhile
      (fun point => isReferenceChar (InputCodePoint.scalarView point)) = .scalar ';' :: rest := by
    rw [hsplit, List.dropWhile_append_of_pos hall, List.dropWhile_cons, if_neg hstop]
  have hentity : (name.map Utf16.CodePoint.scalar).map InputCodePoint.scalarView = name := by
    rw [List.map_map]
    exact List.map_id name
  rw [consumeCharacterReference, htake, hdrop]
  dsimp only
  rw [hentity, if_pos (show InputCodePoint.scalarView (.scalar ';') = ';' from rfl)]
  dsimp only
  rw [hdecode]

theorem pushStr_singleton (buffer : TextBuffer) (ch : Char) :
    buffer.pushStr [ch] = buffer.pushCodePoint (.scalar ch) := by
  obtain ⟨data⟩ := buffer
  cases data with
  | scalar value => rfl
  | utf16 units =>
    change TextBuffer.mk (.utf16 (units ++ Utf16.encodeText [ch])) =
      .mk (.utf16 (units ++ Utf16.unitsOf ch))
    simp [Utf16.encodeText]

/-- What is written for a code point inside a value is read as that code point. -/
theorem consumes_escape (h : quoting = .unquoted → isHtmlWhitespace point.scalarView = false) :
    Consumes quoting.valueState r (escape point) [] quoting.valueState (r.pushValue [point]) := by
  cases point with
  | surrogate unit =>
    refine .of_step_one (step_value ?_ (show Char.ofNat 0xfffd ≠ '&' by decide))
    change quoting.ends (Char.ofNat 0xfffd) = false
    cases quoting <;> decide
  | scalar ch =>
    cases hname : referenceName ch with
    | none =>
      rw [escape, hname]
      have hch : ch ≠ '&' ∧ ch ≠ '"' ∧ ch ≠ '\'' ∧ ch ≠ '>' := by
        refine ⟨?_, ?_, ?_, ?_⟩ <;> rintro rfl <;> exact absurd hname (by decide)
      refine .of_step_one (step_value ?_ hch.1)
      cases quoting with
      | double => exact beq_false_of_ne hch.2.1
      | single => exact beq_false_of_ne hch.2.2.1
      | unquoted => exact Bool.or_eq_false_iff.mpr ⟨h rfl, beq_false_of_ne hch.2.2.2⟩
    | some name =>
      rw [escape, hname]
      obtain ⟨hdecode, hreference⟩ := decodeReference_of_referenceName hname
      refine .of_step fun rest => ?_
      have hread := consumeCharacterReference_named hreference hdecode rest
      have hstep : ∀ behind, step quoting.valueState r (.scalar '&') behind =
          referenceInAttribute quoting.valueState r behind := by
        intro behind
        cases quoting <;> rfl
      rw [hstep, referenceInAttribute, hread]
      dsimp only
      rw [pushStr_singleton]
      rfl

theorem consumes_value : ∀ {points : List InputCodePoint} {r : Registers},
    (quoting = .unquoted → ∀ point ∈ points, isHtmlWhitespace point.scalarView = false) →
      Consumes quoting.valueState r (points.flatMap escape) [] quoting.valueState (r.pushValue points)
  | [], _, _ => .nil
  | point :: points, r, h => by
    rw [List.flatMap_cons]
    have hfirst : Consumes quoting.valueState r (escape point) [] quoting.valueState (r.pushValue [point]) :=
      consumes_escape fun hquoting => h hquoting point List.mem_cons_self
    exact hfirst.trans (consumes_value fun hquoting other hother =>
      h hquoting other (List.mem_cons_of_mem _ hother))

/-- The characters of a reference stand in a value without quotes. -/
theorem unquoted_of_reference {ch : Char} (h : isReferenceChar ch = true ∨ ch = ';') :
    Quoting.unquoted.ends ch = false ∧ ch ≠ '&' := by
  have hnone : ∀ other ∈ ['\t', '\n', '\x0C', '\r', ' ', '>', '&'],
      ¬ (isReferenceChar other = true ∨ other = ';') :=
    List.forall_iff_forall_mem.mp (by decide)
  have hnot : ∀ other ∈ ['\t', '\n', '\x0C', '\r', ' ', '>', '&'], ch ≠ other := by
    rintro _ hother rfl
    exact hnone ch hother h
  simp only [List.forall_mem_cons, List.not_mem_nil, false_implies, implies_true, and_true] at hnot
  obtain ⟨htab, hline, hfeed, hreturn, hspace, hclose, hamp⟩ := hnot
  refine ⟨?_, hamp⟩
  simp only [Quoting.ends, isHtmlWhitespace, beq_false_of_ne htab, beq_false_of_ne hline,
    beq_false_of_ne hfeed, beq_false_of_ne hreturn, beq_false_of_ne hspace, beq_false_of_ne hclose,
    Bool.or_self]

/-- The first code point of a value without quotes is read as it is written. -/
theorem consumes_first (h : isHtmlWhitespace point.scalarView = false) :
    Consumes .beforeAttributeValue r (escape point) [] .attributeValueUnquoted
      (r.pushValue (escape point)) := by
  have hstep : ∀ {first : InputCodePoint}, isHtmlWhitespace first.scalarView = false →
      first.scalarView ≠ '"' → first.scalarView ≠ '\'' → first.scalarView ≠ '>' →
        Consumes .beforeAttributeValue r [first] [] .attributeValueUnquoted (r.pushValue [first]) := by
    intro first hspace hdouble hsingle hclose
    refine .of_step_one fun rest => ?_
    simp only [step, stepPoint, hspace, if_neg hdouble, if_neg hsingle, if_neg hclose, Turn.over,
      Bool.false_eq_true, if_false]
    rfl
  cases point with
  | surrogate unit =>
    exact hstep h (show Char.ofNat 0xfffd ≠ '"' by decide)
      (show Char.ofNat 0xfffd ≠ '\'' by decide) (show Char.ofNat 0xfffd ≠ '>' by decide)
  | scalar ch =>
    cases hname : referenceName ch with
    | none =>
      rw [escape, hname]
      have hch : ch ≠ '"' ∧ ch ≠ '\'' ∧ ch ≠ '>' := by
        refine ⟨?_, ?_, ?_⟩ <;> rintro rfl <;> exact absurd hname (by decide)
      exact hstep h hch.1 hch.2.1 hch.2.2
    | some name =>
      rw [escape, hname]
      obtain ⟨-, hreference⟩ := decodeReference_of_referenceName hname
      have hamp : Consumes .beforeAttributeValue r [.scalar '&'] [] .attributeValueUnquoted
          (r.pushValue [.scalar '&']) :=
        hstep (by decide) (by decide) (by decide) (by decide)
      have hrest : ∀ other ∈ (name ++ [';']).map Utf16.CodePoint.scalar,
          Quoting.unquoted.ends (InputCodePoint.scalarView other) = false ∧
            InputCodePoint.scalarView other ≠ '&' := by
        intro other hother
        obtain ⟨ch', hch', rfl⟩ := List.mem_map.mp hother
        refine unquoted_of_reference ?_
        rcases List.mem_append.mp hch' with hmem | hmem
        · exact .inl (hreference ch' hmem)
        · exact .inr (List.mem_singleton.mp hmem)
      exact hamp.trans (consumes_plain hrest)

/-! ## Names -/

/-- What a character does to the name, in the states that read it. -/
theorem endsName_eq_false {ch : Char} (h : endsName ch = false) :
    isHtmlWhitespace ch = false ∧ ch ≠ '/' ∧ ch ≠ '>' := by
  rw [endsName, Bool.or_eq_false_iff, Bool.or_eq_false_iff] at h
  exact ⟨h.1.1, ne_of_beq_false h.1.2, ne_of_beq_false h.2⟩

theorem consumes_attributeName : ∀ {others : Text} {r : Registers},
    (∀ ch ∈ others, endsName ch = false ∧ ch ≠ '=') →
      Consumes .attributeName r (others.map .scalar) [] .attributeName
        { r with currentAttrName := r.currentAttrName ++ Text.toAsciiLowercase others }
  | [], r, _ => by
    rw [show Text.toAsciiLowercase [] = [] from rfl, List.append_nil]
    exact .nil
  | ch :: others, r, h => by
    obtain ⟨hends, hequals⟩ := h ch List.mem_cons_self
    obtain ⟨hspace, hslash, hclose⟩ := endsName_eq_false hends
    have hfirst : Consumes .attributeName r [.scalar ch] [] .attributeName
        { r with currentAttrName := r.currentAttrName ++ [ch.toLower] } := by
      refine .of_step_one fun rest => ?_
      simp only [step, stepPoint, InputCodePoint.scalarView, hspace, hequals, hslash, hclose,
        Turn.over, Bool.false_eq_true, if_false]
    have hothers := @consumes_attributeName others
      { r with currentAttrName := r.currentAttrName ++ [ch.toLower] }
      fun other hother => h other (List.mem_cons_of_mem _ hother)
    have hall := hfirst.trans hothers
    rwa [List.append_assoc] at hall

/-- The name of a start tag. -/
theorem consumes_tagName : ∀ {others : Text} {r : Registers}, r.currentEndTagName = [] →
    (∀ ch ∈ others, endsName ch = false) →
      Consumes .tagName r (others.map .scalar) [] .tagName
        { r with currentTagName := r.currentTagName ++ Text.toAsciiLowercase others }
  | [], r, _, _ => by
    rw [show Text.toAsciiLowercase [] = [] from rfl, List.append_nil]
    exact .nil
  | ch :: others, r, hend, h => by
    obtain ⟨hspace, hslash, hclose⟩ := endsName_eq_false (h ch List.mem_cons_self)
    have hfirst : Consumes .tagName r [.scalar ch] [] .tagName
        { r with currentTagName := r.currentTagName ++ [ch.toLower] } := by
      refine .of_step_one fun rest => ?_
      simp only [step, stepPoint, InputCodePoint.scalarView, hspace, hslash, hclose, hend, List.isEmpty_nil, if_true, Turn.over, Bool.false_eq_true, if_false]
    have hothers := @consumes_tagName others
      { r with currentTagName := r.currentTagName ++ [ch.toLower] } hend
      fun other hother => h other (List.mem_cons_of_mem _ hother)
    have hall := hfirst.trans hothers
    rwa [List.append_assoc] at hall

/-! ## Attributes -/

theorem units_foldl (points : List InputCodePoint) : ∀ buffer : TextBuffer,
    (points.foldl TextBuffer.pushCodePoint buffer).units = buffer.units ++ Utf16.encode points := by
  induction points with
  | nil => simp
  | cons point points ih =>
    intro buffer
    rw [List.foldl_cons, ih, TextBuffer.units_pushCodePoint, List.append_assoc]
    rfl

theorem fromUtf16_encodeText (value : Text) :
    DomString.fromUtf16 (Utf16.encodeText value) = .scalar value := by
  rw [DomString.fromUtf16, Utf16.decode_encodeText, DomString.scalars_eq_some.mpr rfl]

/-- What is taken from a buffer is the string of its units. -/
theorem take_getD (buffer : TextBuffer) :
    buffer.take.getD (.scalar []) = DomString.fromUtf16 buffer.units := by
  rw [TextBuffer.take]
  split
  next hempty =>
    rw [TextBuffer.units, DomString.isEmpty_iff.mp hempty]
    rfl
  next =>
    obtain ⟨data⟩ := buffer
    cases data with
    | scalar value => exact (fromUtf16_encodeText value).symm
    | utf16 units => rfl

theorem pushAttribute_of_ne (h : r.currentAttrName ≠ []) : pushAttribute r =
    { r with
      currentAttributes := r.currentAttributes ++
        [⟨r.currentAttrName, .fromUtf16 r.currentAttrValue.units⟩]
      currentAttrName := []
      currentAttrValue := {} } := by
  rw [pushAttribute, if_neg fun hempty => h (List.isEmpty_iff.mp hempty), take_getD]

/-- The registers inside a start tag, in front of an attribute. -/
def opened (scriptingEnabled : Bool) (tagName : Text) (attributes : List Attribute) : Registers :=
  { scriptingEnabled, currentTagName := tagName, currentAttributes := attributes }

/-- White space or the end of the tag may follow, with these registers. -/
structure Ready (state : State) (r registers : Registers) : Prop where
  space : ∀ rest, step state r (.scalar ' ') rest = ⟨.beforeAttributeName, registers, [], rest⟩
  close : ∀ rest, step state r (.scalar '>') rest =
    ⟨(closeCurrentTag registers).state, (closeCurrentTag registers).registers,
      (closeCurrentTag registers).emits, rest⟩

theorem ready_tagName : Ready .tagName r r := ⟨fun _ => rfl, fun _ => rfl⟩

theorem ready_quoted : Ready .afterAttributeValueQuoted r r := ⟨fun _ => rfl, fun _ => rfl⟩

theorem ready_unquoted : Ready .attributeValueUnquoted r (pushAttribute r) :=
  ⟨fun _ => rfl, fun _ => rfl⟩

/-- A value is read, and its attribute is complete. -/
theorem consumes_body (attr : WrittenAttribute) (r : Registers) : ∃ state' r',
    Consumes .beforeAttributeValue r attr.body [] state' r' ∧
      Ready state' r' (pushAttribute (r.pushValue attr.readValue)) := by
  obtain ⟨first, others, value, quoting, -, -, hunquoted⟩ := attr
  cases quoting with
  | double =>
    refine ⟨.afterAttributeValueQuoted, _, ?_, ready_quoted⟩
    have hopen : Consumes .beforeAttributeValue r [.scalar '"'] []
        Quoting.double.valueState r := .of_step_one fun _ => rfl
    have hclose : ∀ r, Consumes Quoting.double.valueState r [.scalar '"'] []
        .afterAttributeValueQuoted (pushAttribute r) := fun r => .of_step_one fun _ => rfl
    have hvalue : Consumes Quoting.double.valueState r (value.flatMap escape) []
        Quoting.double.valueState (r.pushValue value) := consumes_value fun hquoting => nomatch hquoting
    exact hopen.trans (hvalue.trans (hclose _))
  | single =>
    refine ⟨.afterAttributeValueQuoted, _, ?_, ready_quoted⟩
    have hopen : Consumes .beforeAttributeValue r [.scalar '\''] []
        Quoting.single.valueState r := .of_step_one fun _ => rfl
    have hclose : ∀ r, Consumes Quoting.single.valueState r [.scalar '\''] []
        .afterAttributeValueQuoted (pushAttribute r) := fun r => .of_step_one fun _ => rfl
    have hvalue : Consumes Quoting.single.valueState r (value.flatMap escape) []
        Quoting.single.valueState (r.pushValue value) := consumes_value fun hquoting => nomatch hquoting
    exact hopen.trans (hvalue.trans (hclose _))
  | unquoted =>
    obtain ⟨hne, hspace⟩ := hunquoted rfl
    cases value with
    | nil => exact absurd rfl hne
    | cons point points =>
      refine ⟨.attributeValueUnquoted, _, ?_, ready_unquoted⟩
      have hfirst := @consumes_first r point (hspace point List.mem_cons_self)
      have hothers : Consumes Quoting.unquoted.valueState (r.pushValue (escape point))
          (points.flatMap escape) [] Quoting.unquoted.valueState
          ((r.pushValue (escape point)).pushValue points) :=
        consumes_value fun _ other hother => hspace other (List.mem_cons_of_mem _ hother)
      have hall := hfirst.trans hothers
      simp only [WrittenAttribute.body, WrittenAttribute.readValue, List.flatMap_cons,
        Registers.pushValue, List.foldl_append] at hall ⊢
      exact hall

/-- An attribute is read. -/
theorem consumes_attribute (attr : WrittenAttribute) {scriptingEnabled : Bool} {tagName : Text}
    {attributes : List Attribute} (h : Ready state r (opened scriptingEnabled tagName attributes)) :
    ∃ state' r', Consumes state r attr.source [] state' r' ∧
      Ready state' r' (opened scriptingEnabled tagName (attributes ++ [attr.readAs])) := by
  obtain ⟨hspace, hslash, hclose⟩ := endsName_eq_false attr.first_valid
  have hgap : Consumes state r [.scalar ' '] [] .beforeAttributeName
      (opened scriptingEnabled tagName attributes) := .of_step_one h.space
  have hfirst : Consumes .beforeAttributeName (opened scriptingEnabled tagName attributes)
      [.scalar attr.first] [] .attributeName
      { opened scriptingEnabled tagName attributes with currentAttrName := [attr.first.toLower] } := by
    refine .of_step_one fun rest => ?_
    simp only [step, stepPoint, InputCodePoint.scalarView, hspace, hslash, hclose, Turn.over,
      Bool.false_eq_true, if_false]
    rfl
  have hname : Consumes .attributeName
      { opened scriptingEnabled tagName attributes with currentAttrName := [attr.first.toLower] }
      (attr.others.map .scalar) [] .attributeName
      { opened scriptingEnabled tagName attributes with currentAttrName := attr.lowerName } :=
    consumes_attributeName attr.others_valid
  have hequals : Consumes .attributeName
      { opened scriptingEnabled tagName attributes with currentAttrName := attr.lowerName }
      [.scalar '='] [] .beforeAttributeValue
      { opened scriptingEnabled tagName attributes with currentAttrName := attr.lowerName } :=
    .of_step_one fun _ => rfl
  obtain ⟨state', r', hbody, hready⟩ := consumes_body attr
    { opened scriptingEnabled tagName attributes with currentAttrName := attr.lowerName }
  refine ⟨state', r', hgap.trans (hfirst.trans (hname.trans (hequals.trans hbody))), ?_⟩
  have hpushed : pushAttribute (Registers.pushValue
      { opened scriptingEnabled tagName attributes with currentAttrName := attr.lowerName }
      attr.readValue) = opened scriptingEnabled tagName (attributes ++ [attr.readAs]) := by
    refine (pushAttribute_of_ne (List.cons_ne_nil _ _)).trans ?_
    simp only [Registers.pushValue, opened, units_foldl]
    rfl
  rwa [hpushed] at hready

theorem consumes_attributes : ∀ (attrs : List WrittenAttribute) {state : State} {r : Registers}
    {scriptingEnabled : Bool} {tagName : Text} {attributes : List Attribute},
    Ready state r (opened scriptingEnabled tagName attributes) →
      ∃ state' r', Consumes state r (attrs.flatMap WrittenAttribute.source) [] state' r' ∧
        Ready state' r' (opened scriptingEnabled tagName
          (attributes ++ attrs.map WrittenAttribute.readAs))
  | [], state, r, _, _, attributes, h => by
    refine ⟨state, r, .nil, ?_⟩
    rwa [List.map_nil, List.append_nil]
  | attr :: attrs, _, _, _, _, _, h => by
    obtain ⟨_, _, hattr, hready⟩ := consumes_attribute attr h
    obtain ⟨state', r', hattrs, hready'⟩ := consumes_attributes attrs hready
    refine ⟨state', r', ?_, ?_⟩
    · rw [List.flatMap_cons]
      exact hattr.trans hattrs
    · rwa [List.append_assoc] at hready'

/-! ## The token -/

theorem rawNextState_ne {tagName : Text} {selfClosing scriptingEnabled : Bool} :
    rawNextState tagName selfClosing scriptingEnabled ≠ .bogusComment := by
  unfold rawNextState
  repeat' split
  all_goals exact nofun

/-- A start tag is read to its token. -/
theorem consumes_tag (tag : WrittenTag) (scriptingEnabled : Bool) : ∃ state' r',
    Consumes .data { scriptingEnabled } tag.source [.flush, .token tag.token] state' r' ∧
      state' ≠ .bogusComment := by
  have hopen : Consumes .data { scriptingEnabled } [.scalar '<'] [.flush] .tagOpen
      { scriptingEnabled } := .of_step_one fun _ => rfl
  have hfirst : Consumes .tagOpen { scriptingEnabled } [.scalar tag.first] [] .tagName
      (opened scriptingEnabled [tag.first.toLower] []) := by
    have hnot : ∀ other ∈ ['/', '!', '?'], isTagNameStart other = false :=
      List.forall_iff_forall_mem.mp (by decide)
    have hne : ∀ other ∈ ['/', '!', '?'], tag.first ≠ other := by
      intro other hother heq
      have hvalid := tag.first_valid
      rw [heq, hnot other hother] at hvalid
      cases hvalid
    simp only [List.forall_mem_cons, List.not_mem_nil, false_implies, implies_true, and_true] at hne
    obtain ⟨hslash, hbang, hquestion⟩ := hne
    refine .of_step_one fun rest => ?_
    simp only [step, stepPoint, InputCodePoint.scalarView, hslash, hbang, hquestion, tag.first_valid,
      Turn.over, Bool.false_eq_true, if_false, if_true]
    rfl
  have hname : Consumes .tagName (opened scriptingEnabled [tag.first.toLower] [])
      (tag.others.map .scalar) [] .tagName
      (opened scriptingEnabled (Text.toAsciiLowercase tag.name) []) :=
    consumes_tagName rfl tag.others_valid
  obtain ⟨state', r', hattributes, hready⟩ := consumes_attributes tag.attributes
    (@ready_tagName (opened scriptingEnabled (Text.toAsciiLowercase tag.name) []))
  have hclose := Consumes.of_step_one hready.close
  refine ⟨_, _, hopen.trans (hfirst.trans (hname.trans (hattributes.trans hclose))), ?_⟩
  rw [closeCurrentTag]
  dsimp only
  split
  · exact rawNextState_ne
  · exact nofun

end

/-- At the end of the input `drain` has the tokens of its loop and that of the end. -/
theorem drain_of_loop (t : IncrementalTokenizer) {d : Draining} (hfinish : t.finishInputChunk = t)
    (hloop : drainLoop true false (IncrementalTokenizer.passes t.pending)
      { state := t.state
        registers := t.registers
        output := { textBuffer := t.textBuffer }
        sourcePosition := t.sourcePosition } t.pending = (d, []))
    (hstate : d.state ≠ .bogusComment) :
    (t.drain true false).2.1 = (d.output.emit .flush).tokens ++ [.eof] := by
  rw [IncrementalTokenizer.drain, if_pos rfl, hfinish, IncrementalTokenizer.drainPending, hloop]
  simp only [List.isEmpty_nil, Bool.not_true, Bool.false_and, Bool.or_false, Bool.false_eq_true,
    if_false, if_neg hstate]

/-- The tokens of an input that has a start tag and nothing else. -/
theorem drain_tag (tag : WrittenTag) (scriptingEnabled : Bool) :
    ({ IncrementalTokenizer.new scriptingEnabled with pending := tag.source }.drain true false).2.1 =
      [tag.token, .eof] := by
  obtain ⟨state', r', hconsumes, hstate'⟩ := consumes_tag tag scriptingEnabled
  obtain ⟨d, passes, hloop, hstate, -, houtput, -⟩ := hconsumes []
    { state := .data, registers := { scriptingEnabled }, sourcePosition := {} }
    (IncrementalTokenizer.passes tag.source) rfl rfl (by rw [IncrementalTokenizer.passes]; omega)
  rw [List.append_nil] at hloop
  have hdone : drainLoop true false passes d [] = (d, []) := by cases passes <;> rfl
  rw [hdone] at hloop
  rw [← hstate] at hstate'
  have htokens : (d.output.emit .flush).tokens = [tag.token] := by
    rw [houtput]
    rfl
  rw [drain_of_loop _ rfl hloop hstate', htokens]
  rfl

/-! ## The element -/

theorem units_fromUtf16 (units : List UInt16) : (DomString.fromUtf16 units).units = units := by
  rw [DomString.fromUtf16]
  cases hscalars : DomString.scalars (Utf16.decode units) with
  | none => rfl
  | some value =>
    have hdecode := DomString.scalars_eq_some.mp hscalars
    calc Utf16.encodeText value
        = Utf16.encode (value.map .scalar) := (Utf16.encode_map_scalar value).symm
      _ = Utf16.encode (Utf16.decode units) := by rw [hdecode]
      _ = units := Utf16.encode_decode units

theorem fromUtf16_inj {units units' : List UInt16} :
    DomString.fromUtf16 units = DomString.fromUtf16 units' ↔ units = units' := by
  refine ⟨fun h => ?_, congrArg _⟩
  rw [← units_fromUtf16 units, h, units_fromUtf16]

namespace Element

/-- The data of the attributes of a name. -/
def dataNamed (e : Element) (name : Text) : List DomString :=
  (e.attributeRecords.filter fun record => record.qualifiedName == name).map AttributeRecord.data

variable {e : Element} {name : Text} {data : DomString} {found : Option DomString}

theorem setAttributeOwned_html (h : e.html = true) : (e.setAttributeOwned name data).html = true := by
  rw [setAttributeOwned, if_pos h, putAttribute]
  split <;> exact h

/-- Records keep their names, and those that are selected take the data. -/
theorem dataNamed_replaced (records : List AttributeRecord) (other : Text) :
    ((records.map fun old => if old.qualifiedName == name then { old with data } else old).filter
        fun record => record.qualifiedName == other).map AttributeRecord.data =
      (records.filter fun record => record.qualifiedName == other).map fun record =>
        if record.qualifiedName == name then data else record.data := by
  induction records with
  | nil => rfl
  | cons old records ih =>
    rw [List.map_cons, List.filter_cons, List.filter_cons]
    have hname : (if old.qualifiedName == name then { old with data } else old).qualifiedName =
        old.qualifiedName := by split <;> rfl
    have hdata : (if old.qualifiedName == name then { old with data } else old).data =
        if old.qualifiedName == name then data else old.data := by split <;> rfl
    rw [hname]
    split
    · rw [List.map_cons, List.map_cons, ih, hdata]
    · exact ih

/-- Another attribute is not touched. -/
theorem dataNamed_setAttributeOwned_of_ne (hhtml : e.html = true) {other : Text}
    (hne : Text.toAsciiLowercase name ≠ other) :
    (e.setAttributeOwned name data).dataNamed other = e.dataNamed other := by
  rw [setAttributeOwned, if_pos hhtml, putAttribute]
  split
  next =>
    refine (dataNamed_replaced e.attributeRecords other).trans (List.map_congr_left ?_)
    intro record hrecord
    have hother := beq_iff_eq.mp (List.mem_filter.mp hrecord).2
    rw [hother, beq_false_of_ne (Ne.symm hne)]
    rfl
  next =>
    rw [dataNamed, List.filter_append, List.filter_cons, if_neg (by simpa using hne), List.filter_nil,
      List.append_nil]
    rfl

/-- An attribute that is set has the new data. -/
theorem dataNamed_setAttributeOwned (hhtml : e.html = true)
    (h : e.dataNamed (Text.toAsciiLowercase name) = found.toList) :
    (e.setAttributeOwned name data).dataNamed (Text.toAsciiLowercase name) = [data] := by
  rw [setAttributeOwned, if_pos hhtml, putAttribute]
  split
  next hany =>
    obtain ⟨record, hrecord, hname⟩ := List.any_eq_true.mp hany
    have hmem : record ∈ e.attributeRecords.filter fun record =>
        record.qualifiedName == Text.toAsciiLowercase name := List.mem_filter.mpr ⟨hrecord, hname⟩
    have hone : (e.attributeRecords.filter fun record =>
        record.qualifiedName == Text.toAsciiLowercase name) = [record] := by
      have hlength := congrArg List.length h
      rw [dataNamed, List.length_map] at hlength
      obtain ⟨only, honly⟩ := List.length_eq_one_iff.mp
        (show (e.attributeRecords.filter fun record =>
          record.qualifiedName == Text.toAsciiLowercase name).length = 1 from
            le_antisymm (hlength.trans_le (by cases found <;> simp)) (List.length_pos_of_mem hmem))
      rw [honly] at hmem ⊢
      rw [List.mem_singleton.mp hmem]
    refine (dataNamed_replaced e.attributeRecords _).trans ?_
    rw [hone, List.map_singleton, if_pos hname]
  next hany =>
    have hnone : (e.attributeRecords.filter fun record =>
        record.qualifiedName == Text.toAsciiLowercase name) = [] := by
      refine List.filter_eq_nil_iff.mpr fun record hrecord hname => ?_
      exact hany (List.any_eq_true.mpr ⟨record, hrecord, hname⟩)
    rw [dataNamed, List.filter_append, hnone, List.filter_cons, if_pos (beq_self_eq_true _)]
    rfl

/-- Of several values of one name the last is kept. -/
theorem dataNamed_foldl (attributes : List Attribute) : ∀ {e : Element} {found : Option DomString},
    e.html = true → e.dataNamed name = found.toList →
      (attributes.foldl (fun e attr => e.setAttributeOwned attr.name attr.data) e).dataNamed name =
        (((attributes.findRev? fun attr => Text.toAsciiLowercase attr.name == name).map
          Attribute.data).or found).toList := by
  induction attributes with
  | nil => exact fun _ h => h
  | cons attr attributes ih =>
    intro e found hhtml h
    rw [List.foldl_cons, List.findRev?]
    by_cases hname : Text.toAsciiLowercase attr.name = name
    · subst hname
      have hset : (e.setAttributeOwned attr.name attr.data).dataNamed
          (Text.toAsciiLowercase attr.name) = (some attr.data).toList :=
        dataNamed_setAttributeOwned hhtml h
      rw [ih (setAttributeOwned_html hhtml) hset, beq_self_eq_true]
      cases attributes.findRev? _ <;> rfl
    · rw [ih (setAttributeOwned_html hhtml)
        ((dataNamed_setAttributeOwned_of_ne hhtml hname).trans h), beq_false_of_ne hname]
      cases attributes.findRev? _ <;> rfl

end Element

namespace WrittenTag

variable {tag : WrittenTag} {name : Text}

/-- The first attribute of a name, which is in lower case. -/
def firstNamed (tag : WrittenTag) (name : Text) : Option WrittenAttribute :=
  tag.attributes.find? fun attr => attr.lowerName == name

/-- The last attribute of a name. -/
def lastNamed (tag : WrittenTag) (name : Text) : Option WrittenAttribute :=
  tag.attributes.findRev? fun attr => attr.lowerName == name

/-- An element has the first value of each name that is written, and nothing else. -/
def Kept (tag : WrittenTag) (e : Element) : Prop :=
  ∀ name, e.dataNamed name =
    ((tag.firstNamed name).map fun attr => DomString.fromUtf16 (Utf16.encode attr.value)).toList

/-- For each name, the last attribute reads as the value of the first. -/
def Regular (tag : WrittenTag) : Prop :=
  ∀ name first last, tag.firstNamed name = some first → tag.lastNamed name = some last →
    Utf16.encode last.readValue = Utf16.encode first.value

theorem firstNamed_eq_none : tag.firstNamed name = none ↔ tag.lastNamed name = none := by
  rw [firstNamed, lastNamed, List.findRev?_eq_find?_reverse, List.find?_eq_none, List.find?_eq_none]
  simp only [List.mem_reverse]

/-- The names of what is read are in lower case already. -/
theorem findRev?_readAs (attrs : List WrittenAttribute) (name : Text) :
    (attrs.map WrittenAttribute.readAs).findRev? (fun attr => Text.toAsciiLowercase attr.name == name) =
      (attrs.findRev? fun attr => attr.lowerName == name).map WrittenAttribute.readAs := by
  rw [List.findRev?_eq_find?_reverse, List.findRev?_eq_find?_reverse, ← List.map_reverse,
    List.find?_map]
  congr 2
  funext attr
  exact congrArg (· == name) (Text.toAsciiLowercase_idem attr.name)

/-- The element that is inserted has the last value of each name as it is read. -/
theorem dataNamed_newHtmlElement (tag : WrittenTag) (b : Builder) (tagName name : Text) :
    (b.newHtmlElement tagName (tag.attributes.map WrittenAttribute.readAs)).2.dataNamed name =
      ((tag.lastNamed name).map fun attr =>
        DomString.fromUtf16 (Utf16.encode attr.readValue)).toList := by
  let fresh : Element :=
    { tagName
      namespaceUri := some htmlNamespace
      localName := ((Text.splitOnce ':' tagName).map Prod.snd).getD tagName
      html := true }
  have hset : ((tag.attributes.map WrittenAttribute.readAs).foldl
      (fun e attr => e.setAttributeOwned attr.name attr.data) fresh).dataNamed name =
        ((tag.lastNamed name).map fun attr =>
          DomString.fromUtf16 (Utf16.encode attr.readValue)).toList := by
    have hfold := @Element.dataNamed_foldl name (tag.attributes.map WrittenAttribute.readAs) fresh none
      rfl rfl
    rw [findRev?_readAs, Option.map_map, Option.or_none] at hfold
    exact hfold
  rw [Builder.newHtmlElement]
  split <;> exact hset

/-- The element has the first values if and only if the last ones read as them. -/
theorem kept_newHtmlElement_iff (tag : WrittenTag) (b : Builder) (tagName : Text) :
    tag.Kept (b.newHtmlElement tagName (tag.attributes.map WrittenAttribute.readAs)).2 ↔
      tag.Regular := by
  unfold Kept Regular
  refine forall_congr' fun name => ?_
  rw [dataNamed_newHtmlElement]
  cases hfirst : tag.firstNamed name with
  | none => simp [firstNamed_eq_none.mp hfirst]
  | some first =>
    cases hlast : tag.lastNamed name with
    | none => rw [firstNamed_eq_none.mpr hlast] at hfirst; cases hfirst
    | some last => simp [fromUtf16_inj]

/-- The tag is read to one token, and the element that is inserted for it has the first value of each
name. -/
def ReadFaithfully (tag : WrittenTag) (scriptingEnabled : Bool) (b : Builder) : Prop :=
  ∃ attributes,
    ({ IncrementalTokenizer.new scriptingEnabled with pending := tag.source }.drain true false).2.1 =
      [.startTag (Text.toAsciiLowercase tag.name) attributes false, .eof] ∧
    tag.Kept (b.newHtmlElement (Text.toAsciiLowercase tag.name) attributes).2

theorem readFaithfully_iff_kept {scriptingEnabled : Bool} {b : Builder} :
    tag.ReadFaithfully scriptingEnabled b ↔
      tag.Kept (b.newHtmlElement (Text.toAsciiLowercase tag.name)
        (tag.attributes.map WrittenAttribute.readAs)).2 := by
  have hdrain := drain_tag tag scriptingEnabled
  constructor
  · rintro ⟨attributes, htokens, hkept⟩
    rw [hdrain, List.cons.injEq, token, Token.startTag.injEq] at htokens
    obtain ⟨⟨-, rfl, -⟩, -⟩ := htokens
    exact hkept
  · exact fun hkept => ⟨_, hdrain, hkept⟩

end WrittenTag

/-- The element for a start tag has, for each name in lower case, the first value that is written, if
and only if the last attribute of that name reads as that value.  Between quotes a value is read as it
is written. -/
theorem attributes_kept_iff (tag : WrittenTag) (scriptingEnabled : Bool) (b : Builder) :
    tag.ReadFaithfully scriptingEnabled b ↔ tag.Regular :=
  WrittenTag.readFaithfully_iff_kept.trans (tag.kept_newHtmlElement_iff b _)

/-- An attribute `a` whose value is one character. -/
def attributeA (ch : Char) (hspace : isHtmlWhitespace ch = false) (quoting : Quoting) :
    WrittenAttribute where
  first := 'a'
  others := []
  value := [.scalar ch]
  quoting := quoting
  first_valid := by decide
  others_valid := nofun
  unquoted_valid _ := ⟨List.cons_ne_nil _ _, fun _ hpoint => List.mem_singleton.mp hpoint ▸ hspace⟩

/-- A tag `p`. -/
def tagP (attributes : List WrittenAttribute) : WrittenTag where
  first := 'p'
  others := []
  attributes := attributes
  first_valid := by decide
  others_valid := nofun

/-- A builder without any nodes. -/
def blankBuilder : Builder where
  nodes :=
    { count := 0
      node := fun _ => { data := .documentFragment }
      linked := nofun
      bounded := nofun
      fresh := fun _ _ => rfl }
  document := 0

/-- Of `<p a="1" a="2">` the second value is kept, and of `<p a=&amp;>` the reference as it is written. -/
theorem attributes_overwritten :
    ¬ (tagP [attributeA '1' rfl .double, attributeA '2' rfl .double]).ReadFaithfully false blankBuilder ∧
    ¬ (tagP [attributeA '&' rfl .unquoted]).ReadFaithfully false blankBuilder := by
  constructor <;> intro hread <;>
    exact absurd (WrittenTag.readFaithfully_iff_kept.mp hread ['a']) (by decide)

end Omoikane.Html
