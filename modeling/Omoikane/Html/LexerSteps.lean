import Omoikane.Html.Tokenizer

/-!
# What a step of the tokenizer does

Three facts about a step carry everything that is said about the loop.

* A step reads a prefix of the input that remains.  A step that reads nothing
  goes to a state of lower rank, so no input is looked at forever.
* What a step writes fits the text that is still unflushed (`Wrote`).  A state of
  markup has no unflushed text, so that its tokens stay in order.  A state of
  content copies code points into the text.  A state that holds a `<` back writes
  that first, so that no two surrogates meet in the text that were not neighbours
  in the input.
* A step whose lookahead is decided does the same when more input follows
  (`step_extend`).
-/

namespace Omoikane.Html

open Base

/-! ## Progress -/

/-- A state that reconsumes goes to a state of lower rank. -/
def State.rank : State → Nat
  | .afterAttributeValueQuoted | .selfClosingStartTag => 1
  | .afterDoctypePublicKeyword | .beforeDoctypePublicIdentifier | .afterDoctypePublicIdentifier
  | .betweenDoctypePublicAndSystemIdentifiers | .afterDoctypeSystemKeyword
  | .beforeDoctypeSystemIdentifier | .afterDoctypeSystemIdentifier => 1
  | .rawTextLessThanSign | .rcDataLessThanSign | .scriptDataLessThanSign
  | .scriptDataDoubleEscapedLessThanSign => 1
  | .rawTextEndTagName | .rcDataEndTagName | .scriptDataEndTagName
  | .scriptDataEscapedEndTagName => 1
  | .scriptDataEscapeStart | .scriptDataEscapeStartDash | .scriptDataDoubleEscapeStart
  | .scriptDataDoubleEscapeEnd => 1
  | .rawTextEndTagOpen | .rcDataEndTagOpen | .scriptDataEndTagOpen
  | .scriptDataEscapedEndTagOpen | .scriptDataEscapedLessThanSign => 2
  | _ => 0

theorem State.rank_le (state : State) : state.rank ≤ 2 := by
  cases state <;> decide

/-! ## Text -/

/-- What a state does to the unflushed text. -/
inductive Mode
  /-- There is no unflushed text. -/
  | markup
  /-- Code points are copied into the text. -/
  | content
  /-- A `<` that may be text is held back. -/
  | held
deriving DecidableEq

def State.mode : State → Mode
  | .data | .plainText | .rawText | .rcData | .scriptData | .scriptDataEscapeStart
  | .scriptDataEscapeStartDash | .scriptDataEscaped | .scriptDataEscapedDash
  | .scriptDataEscapedDashDash | .scriptDataDoubleEscapeStart | .scriptDataDoubleEscaped
  | .scriptDataDoubleEscapedDash | .scriptDataDoubleEscapedDashDash
  | .scriptDataDoubleEscapedLessThanSign | .scriptDataDoubleEscapeEnd => .content
  | .rawTextLessThanSign | .rawTextEndTagOpen | .rawTextEndTagName | .rcDataLessThanSign
  | .rcDataEndTagOpen | .rcDataEndTagName | .scriptDataLessThanSign | .scriptDataEndTagOpen
  | .scriptDataEndTagName | .scriptDataEscapedLessThanSign | .scriptDataEscapedEndTagOpen
  | .scriptDataEscapedEndTagName => .held
  | _ => .markup

/-- Neither a token of text nor the end of the file. -/
def Token.isMarkup : Token → Bool
  | .character _ | .surrogate _ | .eof => false
  | _ => true

namespace Emit

/-- Writes no text. -/
def isQuiet : Emit → Bool
  | .token t => t.isMarkup
  | error _ => true
  | _ => false

/-- Writes scalar text or an error. -/
def isPlain : Emit → Bool
  | push _ | pushStr _ | error _ => true
  | _ => false

/-- Writes a scalar value. -/
def isText : Emit → Bool
  | push _ => true
  | pushStr value => !value.isEmpty
  | _ => false

def isToken : Emit → Bool
  | token _ => true
  | _ => false

end Emit

/-- Errors, and at most one token. -/
def quiet (emits : List Emit) : Bool :=
  emits.all Emit.isQuiet && decide (emits.countP Emit.isToken ≤ 1)

/-- What the writes of a step are, by the modes before and after it; the last
argument says whether the code point is reconsumed. -/
inductive Wrote (point : InputCodePoint) : Mode → List Emit → Mode → Bool → Prop
  | quiet {emits : List Emit} {mode : Mode} {back : Bool} :
      quiet emits = true → Wrote point .markup emits mode back
  | opened (emits : List Emit) : emits.all Emit.isPlain = true → emits.any Emit.isText = true →
      Wrote point .markup (emits ++ [.pushCodePoint point]) .content false
  | copied : Wrote point .content [.pushCodePoint point] .content false
  | scalars {mode : Mode} {emits : List Emit} {back : Bool} :
      mode ≠ .markup → emits.all Emit.isPlain = true → emits.any Emit.isText = true →
      Wrote point mode emits .content back
  | passed : Wrote point .content [] .content true
  | held {mode : Mode} {back : Bool} : mode ≠ .markup → Wrote point mode [] .held back
  | flushed {before after : Mode} {emits : List Emit} :
      before ≠ .markup → quiet emits = true →
      Wrote point before (.flush :: emits) after false

theorem quiet_iff {emits : List Emit} : quiet emits = true ↔
    (∀ emit ∈ emits, emit.isQuiet = true) ∧ emits.countP Emit.isToken ≤ 1 := by
  simp [quiet]

theorem commentToken_isMarkup (data : TextBuffer) : (commentToken data).isMarkup = true := by
  unfold commentToken
  split <;> rfl

theorem quiet_commentToken (data : TextBuffer) : quiet [.token (commentToken data)] = true := by
  rw [quiet_iff]
  refine ⟨?_, Nat.le_refl 1⟩
  intro emit hemit
  rw [List.mem_singleton.mp hemit]
  exact commentToken_isMarkup data

theorem emitTag_quiet (r : Registers) : quiet (emitTag r) = true := by
  unfold emitTag
  split
  · rfl
  · split <;> rfl

theorem closeCurrentTag_wrote (point : InputCodePoint) (r : Registers) :
    Wrote point .markup (closeCurrentTag r).emits (closeCurrentTag r).state.mode
      (closeCurrentTag r).reconsume :=
  .quiet (emitTag_quiet r)

/-- The states of a doctype behind its name write nothing but tokens and errors. -/
theorem beforePublicIdentifier_quiet (r : Registers) (ch : Char) :
    quiet (beforePublicIdentifier r ch).emits = true := by
  unfold beforePublicIdentifier
  repeat' split
  all_goals rfl

theorem beforeSystemIdentifier_quiet (r : Registers) (ch : Char) :
    quiet (beforeSystemIdentifier r ch).emits = true := by
  unfold beforeSystemIdentifier
  repeat' split
  all_goals rfl

theorem publicIdentifierQuoted_quiet (quote : Char) (selfState : State) (r : Registers)
    (ch : Char) : quiet (publicIdentifierQuoted quote selfState r ch).emits = true := by
  unfold publicIdentifierQuoted
  repeat' split
  all_goals rfl

theorem systemIdentifierQuoted_quiet (quote : Char) (selfState : State) (r : Registers)
    (ch : Char) : quiet (systemIdentifierQuoted quote selfState r ch).emits = true := by
  unfold systemIdentifierQuoted
  repeat' split
  all_goals rfl

theorem afterPublicIdentifier_quiet {emits : List Emit} (hemits : quiet emits = true)
    (r : Registers) (ch : Char) :
    quiet (afterPublicIdentifier emits r ch).emits = true := by
  unfold afterPublicIdentifier
  repeat' split
  all_goals first | exact hemits | rfl

theorem rawEndTagNameStep_wrote (point : InputCodePoint) {selfState content : State}
    (hself : selfState.mode = .held) (hcontent : content.mode = .content) (r : Registers)
    (ch : Char) :
    Wrote point selfState.mode (rawEndTagNameStep selfState content r ch).emits
      (rawEndTagNameStep selfState content r ch).state.mode
      (rawEndTagNameStep selfState content r ch).reconsume := by
  have hne : selfState.mode ≠ .markup := by rw [hself]; decide
  simp only [rawEndTagNameStep]
  split
  · exact .flushed hne rfl
  split
  · exact .flushed hne rfl
  split
  · exact .flushed hne rfl
  split
  · rw [hself]
    exact .held (by decide)
  · show Wrote point selfState.mode _ content.mode true
    rw [hcontent]
    exact .scalars hne rfl rfl

theorem lessThanSign_wrote (point : InputCodePoint) {mode : Mode} (hmode : mode ≠ .markup)
    {content slash : State} (hcontent : content.mode = .content) (hslash : slash.mode = .held)
    (r : Registers) (ch : Char) :
    Wrote point mode (lessThanSign content slash r ch).emits
      (lessThanSign content slash r ch).state.mode
      (lessThanSign content slash r ch).reconsume := by
  unfold lessThanSign
  split
  · rw [hslash]
    exact .held hmode
  · show Wrote point mode _ content.mode true
    rw [hcontent]
    exact .scalars hmode rfl rfl

theorem rawEndTagOpen_wrote (point : InputCodePoint) {mode : Mode} (hmode : mode ≠ .markup)
    {content name : State} (hcontent : content.mode = .content) (hname : name.mode = .held)
    (r : Registers) (ch : Char) :
    Wrote point mode (rawEndTagOpen content name r ch).emits
      (rawEndTagOpen content name r ch).state.mode
      (rawEndTagOpen content name r ch).reconsume := by
  unfold rawEndTagOpen
  split
  · rw [hname]
    exact .held hmode
  · show Wrote point mode _ content.mode true
    rw [hcontent]
    exact .scalars hmode rfl rfl

theorem doubleEscape_wrote (point : InputCodePoint) {selfState script otherwise : State}
    (hself : selfState.mode = .content) (hscript : script.mode = .content)
    (hotherwise : otherwise.mode = .content) (r : Registers) (ch : Char) :
    Wrote point .content (doubleEscape selfState script otherwise r ch).emits
      (doubleEscape selfState script otherwise r ch).state.mode
      (doubleEscape selfState script otherwise r ch).reconsume := by
  unfold doubleEscape
  split
  · have hmode : (if Text.eqIgnoreAsciiCase r.tempBuffer "script".toList then script
        else otherwise).mode = .content := by
      split
      · exact hscript
      · exact hotherwise
    rw [hmode]
    exact .scalars (by decide) rfl rfl
  split
  · rw [hself]
    exact .scalars (by decide) rfl rfl
  · show Wrote point .content _ otherwise.mode true
    rw [hotherwise]
    exact .passed

theorem stepPoint_wrote (state : State) (r : Registers) (point : InputCodePoint) :
    Wrote point state.mode (stepPoint state r point).emits (stepPoint state r point).state.mode
      (stepPoint state r point).reconsume := by
  cases state
  case rawTextEndTagName | rcDataEndTagName | scriptDataEndTagName | scriptDataEscapedEndTagName =>
    exact rawEndTagNameStep_wrote point rfl rfl r _
  case rawTextLessThanSign | rcDataLessThanSign =>
    exact lessThanSign_wrote point (by decide) rfl rfl r _
  case rawTextEndTagOpen | rcDataEndTagOpen | scriptDataEndTagOpen | scriptDataEscapedEndTagOpen =>
    exact rawEndTagOpen_wrote point (by decide) rfl rfl r _
  case scriptDataDoubleEscapeStart | scriptDataDoubleEscapeEnd =>
    exact doubleEscape_wrote point rfl rfl rfl r _
  case scriptDataLessThanSign =>
    simp only [stepPoint]
    split
    · exact .scalars (by decide) rfl rfl
    · exact lessThanSign_wrote point (by decide) rfl rfl r _
  case scriptDataEscapedLessThanSign =>
    simp only [stepPoint]
    split
    · exact .scalars (by decide) rfl rfl
    · exact lessThanSign_wrote point (by decide) rfl rfl r _
  case tagOpen =>
    simp only [stepPoint]
    split
    · exact .quiet rfl
    split
    · exact .quiet rfl
    split
    · exact .quiet rfl
    · exact .opened [.error .missingTagName, .push '<'] rfl rfl
  case endTagOpen =>
    simp only [stepPoint]
    split
    · exact .quiet rfl
    split
    · exact .quiet rfl
    · exact .opened [.error .missingTagName, .pushStr "</".toList] rfl rfl
  case afterDoctypePublicKeyword | beforeDoctypePublicIdentifier =>
    exact .quiet (beforePublicIdentifier_quiet r _)
  case afterDoctypeSystemKeyword | beforeDoctypeSystemIdentifier =>
    exact .quiet (beforeSystemIdentifier_quiet r _)
  case doctypePublicIdentifierDoubleQuoted | doctypePublicIdentifierSingleQuoted =>
    exact .quiet (publicIdentifierQuoted_quiet _ _ r _)
  case doctypeSystemIdentifierDoubleQuoted | doctypeSystemIdentifierSingleQuoted =>
    exact .quiet (systemIdentifierQuoted_quiet _ _ r _)
  case afterDoctypePublicIdentifier | betweenDoctypePublicAndSystemIdentifiers =>
    exact .quiet (afterPublicIdentifier_quiet rfl r _)
  case data =>
    simp only [stepPoint]
    split
    · exact .flushed (by decide) rfl
    · exact .copied
  case plainText => exact .copied
  case rawText | rcData | scriptData =>
    simp only [stepPoint]
    split
    · exact .held (by decide)
    · exact .copied
  case scriptDataEscapeStart | scriptDataEscapeStartDash =>
    simp only [stepPoint]
    split
    · exact .scalars (by decide) rfl rfl
    · exact .passed
  case scriptDataEscaped | scriptDataEscapedDash =>
    simp only [stepPoint]
    split
    · exact .scalars (by decide) rfl rfl
    split
    · exact .held (by decide)
    · exact .copied
  case scriptDataEscapedDashDash =>
    simp only [stepPoint]
    split
    · exact .scalars (by decide) rfl rfl
    split
    · exact .held (by decide)
    split
    · exact .scalars (by decide) rfl rfl
    · exact .copied
  case scriptDataDoubleEscaped | scriptDataDoubleEscapedDash =>
    simp only [stepPoint]
    split
    · exact .scalars (by decide) rfl rfl
    split
    · exact .scalars (by decide) rfl rfl
    · exact .copied
  case scriptDataDoubleEscapedDashDash =>
    simp only [stepPoint]
    split
    · exact .scalars (by decide) rfl rfl
    split
    · exact .scalars (by decide) rfl rfl
    split
    · exact .scalars (by decide) rfl rfl
    · exact .copied
  case scriptDataDoubleEscapedLessThanSign =>
    simp only [stepPoint]
    split
    · exact .scalars (by decide) rfl rfl
    · exact .passed
  -- the states of markup that are left write tokens and errors only
  all_goals
    simp only [stepPoint]
    repeat' split
    all_goals
      first
      | exact .quiet rfl
      | exact closeCurrentTag_wrote point _
      | exact .quiet (quiet_commentToken _)

/-! ## Reconsuming -/

/-- A turn that reconsumes goes down in rank and pushes no token. -/
def Turn.Falls (state : State) (turn : Turn) : Prop :=
  turn.reconsume = true → turn.state.rank < state.rank ∧ turn.emits.any Emit.isToken = false

theorem Turn.falls_of_consumed {state : State} {turn : Turn} (h : turn.reconsume = false) :
    turn.Falls state := by
  intro hback
  rw [h] at hback
  cases hback

theorem Turn.falls_of_rank {state target : State} (h : target.rank < state.rank) (r : Registers)
    {emits : List Emit} (hemits : emits.any Emit.isToken = false) :
    Turn.Falls state ⟨target, r, emits, true⟩ := fun _ => ⟨h, hemits⟩

theorem invalidDoctype_falls {state : State} (h : 0 < state.rank) (r : Registers) :
    (invalidDoctype r).Falls state := fun _ => ⟨h, rfl⟩

theorem beforePublicIdentifier_falls {state : State} (h : 0 < state.rank) (r : Registers)
    (ch : Char) : (beforePublicIdentifier r ch).Falls state := by
  unfold beforePublicIdentifier
  repeat' split
  all_goals first | exact Turn.falls_of_consumed rfl | exact invalidDoctype_falls h r

theorem beforeSystemIdentifier_falls {state : State} (h : 0 < state.rank) (r : Registers)
    (ch : Char) : (beforeSystemIdentifier r ch).Falls state := by
  unfold beforeSystemIdentifier
  repeat' split
  all_goals first | exact Turn.falls_of_consumed rfl | exact invalidDoctype_falls h r

theorem afterPublicIdentifier_falls {state : State} (h : 0 < state.rank) (emits : List Emit)
    (r : Registers) (ch : Char) : (afterPublicIdentifier emits r ch).Falls state := by
  unfold afterPublicIdentifier
  repeat' split
  all_goals first | exact Turn.falls_of_consumed rfl | exact invalidDoctype_falls h r

theorem publicIdentifierQuoted_falls (state : State) (quote : Char) (selfState : State)
    (r : Registers) (ch : Char) : (publicIdentifierQuoted quote selfState r ch).Falls state := by
  unfold publicIdentifierQuoted
  repeat' split
  all_goals exact Turn.falls_of_consumed rfl

theorem systemIdentifierQuoted_falls (state : State) (quote : Char) (selfState : State)
    (r : Registers) (ch : Char) : (systemIdentifierQuoted quote selfState r ch).Falls state := by
  unfold systemIdentifierQuoted
  repeat' split
  all_goals exact Turn.falls_of_consumed rfl

theorem rawEndTagNameStep_falls {state content : State} (h : content.rank < state.rank)
    (selfState : State) (r : Registers) (ch : Char) :
    (rawEndTagNameStep selfState content r ch).Falls state := by
  simp only [rawEndTagNameStep]
  repeat' split
  all_goals first | exact Turn.falls_of_consumed rfl | exact Turn.falls_of_rank h _ rfl

theorem lessThanSign_falls {state content : State} (h : content.rank < state.rank) (slash : State)
    (r : Registers) (ch : Char) : (lessThanSign content slash r ch).Falls state := by
  unfold lessThanSign
  split
  · exact Turn.falls_of_consumed rfl
  · exact Turn.falls_of_rank h _ rfl

theorem rawEndTagOpen_falls {state content name : State} (hcontent : content.rank < state.rank)
    (hname : name.rank < state.rank) (r : Registers) (ch : Char) :
    (rawEndTagOpen content name r ch).Falls state := by
  unfold rawEndTagOpen
  split
  · exact Turn.falls_of_rank hname _ rfl
  · exact Turn.falls_of_rank hcontent _ rfl

theorem doubleEscape_falls {state otherwise : State} (h : otherwise.rank < state.rank)
    (selfState script : State) (r : Registers) (ch : Char) :
    (doubleEscape selfState script otherwise r ch).Falls state := by
  unfold doubleEscape
  repeat' split
  all_goals first | exact Turn.falls_of_consumed rfl | exact Turn.falls_of_rank h _ rfl

theorem stepPoint_falls (state : State) (r : Registers) (point : InputCodePoint) :
    (stepPoint state r point).Falls state := by
  cases state
  case rawTextEndTagName | rcDataEndTagName | scriptDataEndTagName | scriptDataEscapedEndTagName =>
    exact rawEndTagNameStep_falls (by decide) _ r _
  case rawTextLessThanSign | rcDataLessThanSign =>
    exact lessThanSign_falls (by decide) _ r _
  case rawTextEndTagOpen | rcDataEndTagOpen | scriptDataEndTagOpen | scriptDataEscapedEndTagOpen =>
    exact rawEndTagOpen_falls (by decide) (by decide) r _
  case scriptDataDoubleEscapeStart | scriptDataDoubleEscapeEnd =>
    exact doubleEscape_falls (by decide) _ _ r _
  case scriptDataLessThanSign =>
    simp only [stepPoint]
    split
    · exact Turn.falls_of_consumed rfl
    · exact lessThanSign_falls (by decide) _ r _
  case scriptDataEscapedLessThanSign =>
    simp only [stepPoint]
    split
    · exact Turn.falls_of_rank (by decide) _ rfl
    · exact lessThanSign_falls (by decide) _ r _
  case afterDoctypePublicKeyword | beforeDoctypePublicIdentifier =>
    exact beforePublicIdentifier_falls (by decide) r _
  case afterDoctypeSystemKeyword | beforeDoctypeSystemIdentifier =>
    exact beforeSystemIdentifier_falls (by decide) r _
  case doctypePublicIdentifierDoubleQuoted | doctypePublicIdentifierSingleQuoted =>
    exact publicIdentifierQuoted_falls _ _ _ r _
  case doctypeSystemIdentifierDoubleQuoted | doctypeSystemIdentifierSingleQuoted =>
    exact systemIdentifierQuoted_falls _ _ _ r _
  case afterDoctypePublicIdentifier | betweenDoctypePublicAndSystemIdentifiers =>
    exact afterPublicIdentifier_falls (by decide) _ r _
  case afterAttributeValueQuoted | selfClosingStartTag | scriptDataEscapeStart
      | scriptDataEscapeStartDash | scriptDataDoubleEscapedLessThanSign
      | afterDoctypeSystemIdentifier =>
    simp only [stepPoint]
    repeat' split
    all_goals
      first
      | exact Turn.falls_of_consumed rfl
      | exact Turn.falls_of_rank (by decide) _ rfl
  -- the other states consume every code point
  all_goals
    simp only [stepPoint]
    repeat' split
    all_goals exact Turn.falls_of_consumed rfl

/-! ## Lookahead reads a prefix -/

theorem consumeCharacterReference_suffix (rest : List InputCodePoint) :
    (consumeCharacterReference rest).2 <:+ rest := by
  have hsuffix := List.dropWhile_suffix (l := rest) fun point => isReferenceChar point.scalarView
  simp only [consumeCharacterReference]
  split
  next => exact List.suffix_refl rest
  next behind hconsumed =>
    have hbehind : behind <:+ rest := by
      split at hconsumed
      next h =>
        rw [← Option.some.inj hconsumed]
        exact List.nil_suffix
      next point tail h =>
        split at hconsumed
        next =>
          rw [← Option.some.inj hconsumed]
          rw [h] at hsuffix
          exact (List.suffix_cons point tail).trans hsuffix
        next => cases hconsumed
    split
    · exact hbehind
    · exact List.suffix_refl rest

namespace ProcessingInstruction

theorem bogusData_suffix (rest : List InputCodePoint) : ∀ data,
    (bogusData data rest).2 <:+ rest := by
  induction rest with
  | nil =>
    intro data
    exact List.suffix_refl []
  | cons point rest ih =>
    intro data
    rw [bogusData]
    split
    · exact List.suffix_cons point rest
    split
    · exact (ih _).trans (List.suffix_cons point rest)
    · exact (ih _).trans (List.suffix_cons point rest)

theorem instructionData_suffix (rest : List InputCodePoint) : ∀ data,
    (instructionData data rest).2 <:+ rest := by
  induction rest with
  | nil =>
    intro data
    exact List.suffix_refl []
  | cons point rest ih =>
    intro data
    have hcons := List.suffix_cons point rest
    cases rest with
    | nil =>
      rw [instructionData]
      split
      · exact hcons
      · exact (ih _).trans hcons
    | cons next behind =>
      rw [instructionData]
      split
      · exact hcons
      show (if point.scalarView = '?' ∧ next.scalarView = '>' then (some data, behind)
        else instructionData (data.pushCodePoint point) (next :: behind)).2 <:+ _
      split
      · exact (List.suffix_cons next behind).trans hcons
      · exact (ih _).trans hcons

theorem consume_suffix (rest : List InputCodePoint) : (consume rest).2.2 <:+ rest := by
  unfold consume
  split
  next => exact List.suffix_refl []
  next first tail =>
    generalize hrest : first :: tail = rest
    split
    next => exact bogusData_suffix _ _
    next =>
      have hbehind := List.dropWhile_suffix (l := rest) fun point =>
        isTargetChar point.scalarView
      dsimp only
      split
      next => exact List.nil_suffix
      next delimiter after hdelimiter =>
        rw [hdelimiter] at hbehind
        rw [hdelimiter]
        split
        next => exact (bogusData_suffix _ _).trans hbehind
        split
        next => exact (bogusData_suffix _ _).trans hbehind
        next =>
          have hdata := ((instructionData_suffix ((delimiter :: after).dropWhile fun point =>
            isHtmlWhitespace point.scalarView) {}).trans (List.dropWhile_suffix _)).trans hbehind
          split
          · exact hdata
          · exact hdata

end ProcessingInstruction

theorem gatherKeyword_suffix (rest : List InputCodePoint) : ∀ keyword,
    (gatherKeyword keyword rest).2 <:+ rest := by
  induction rest with
  | nil =>
    intro keyword
    exact List.suffix_refl []
  | cons point rest ih =>
    intro keyword
    rw [gatherKeyword]
    split
    · exact (ih _).trans (List.suffix_cons point rest)
    · exact List.suffix_refl _

/-! ## What a step is -/

/-- What lookahead writes. -/
inductive Looked : Mode → List Emit → Mode → Prop
  | quiet {emits : List Emit} {mode : Mode} :
      quiet emits = true → Looked .markup emits mode
  | text {emits : List Emit} :
      emits.all Emit.isPlain = true → emits.any Emit.isText = true →
      Looked .content emits .content

/-- A step takes one code point, or reads on. -/
inductive StepCase (state : State) (r : Registers) (point : InputCodePoint)
    (rest : List InputCodePoint) : Stepped → Prop
  | point : StepCase state r point rest ((stepPoint state r point).over point rest)
  | ahead {stepped : Stepped} : stepped.rest <:+ rest →
      Looked state.mode stepped.emits stepped.state.mode →
      StepCase state r point rest stepped

theorem decodeReference_ne_nil {entity decoded : Text} (h : decodeReference entity = .ok decoded) :
    decoded ≠ [] := by
  have hnumeric : ∀ radix digits, numericReference radix digits = .ok decoded → decoded ≠ [] := by
    intro radix digits hd
    simp only [numericReference] at hd
    generalize (if radix = 16 then Text.isHexDigit else Char.isDigit) = isDigit at hd
    split at hd
    next => cases hd
    split at hd
    next => cases hd
    unfold charFromU32 at hd
    split at hd
    next =>
      cases hd
      exact List.cons_ne_nil _ _
    next => cases hd
  unfold decodeReference at h
  repeat' split at h
  all_goals first | exact hnumeric _ _ h | cases h
  all_goals exact List.cons_ne_nil _ _

theorem consumeCharacterReference_ne_nil {rest : List InputCodePoint} {decoded : Text}
    (h : (consumeCharacterReference rest).1 = .ok decoded) : decoded ≠ [] := by
  simp only [consumeCharacterReference] at h
  split at h
  next => cases h
  next behind hconsumed =>
    split at h
    next text htext =>
      cases h
      exact decodeReference_ne_nil htext
    next => cases h

theorem referenceInText_case {state : State} (hmode : state.mode = .content) (r : Registers)
    (point : InputCodePoint) (rest : List InputCodePoint) :
    StepCase state r point rest (referenceInText state r rest) := by
  have hsuffix := consumeCharacterReference_suffix rest
  simp only [referenceInText]
  split
  next decoded hdecoded =>
    refine .ahead hsuffix ?_
    have hne := consumeCharacterReference_ne_nil hdecoded
    rw [hmode]
    refine .text rfl ?_
    cases decoded with
    | nil => exact absurd rfl hne
    | cons c decoded => rfl
  next error herror =>
    refine .ahead hsuffix ?_
    rw [hmode]
    exact .text rfl rfl

theorem referenceInAttribute_case {state : State} (hmode : state.mode = .markup) (r : Registers)
    (point : InputCodePoint) (rest : List InputCodePoint) :
    StepCase state r point rest (referenceInAttribute state r rest) := by
  have hsuffix := consumeCharacterReference_suffix rest
  simp only [referenceInAttribute]
  split
  all_goals
    refine .ahead hsuffix ?_
    rw [hmode]
    exact .quiet rfl

theorem ProcessingInstruction.consume_isMarkup (rest : List InputCodePoint) :
    ∀ token ∈ (consume rest).1, token.isMarkup = true := by
  intro token htoken
  unfold consume at htoken
  split at htoken
  next => cases htoken
  next first tail =>
    split at htoken
    next =>
      cases htoken
      exact commentToken_isMarkup _
    next =>
      dsimp only at htoken
      split at htoken
      next => cases htoken
      next delimiter after hdelimiter =>
        split at htoken
        next =>
          cases htoken
          exact commentToken_isMarkup _
        split at htoken
        next =>
          cases htoken
          exact commentToken_isMarkup _
        split at htoken
        next => cases htoken
        next =>
          cases htoken
          split <;> rfl

theorem processingInstruction_case (r : Registers) (point : InputCodePoint)
    (rest : List InputCodePoint) :
    StepCase .tagOpen r point rest (processingInstruction r rest) := by
  refine .ahead (ProcessingInstruction.consume_suffix rest) (.quiet ?_)
  have hmarkup := ProcessingInstruction.consume_isMarkup rest
  show quiet ((ProcessingInstruction.consume rest).2.1.map .error ++
    (ProcessingInstruction.consume rest).1.toList.map .token) = true
  generalize (ProcessingInstruction.consume rest).2.1 = errors
  generalize (ProcessingInstruction.consume rest).1 = token at hmarkup
  rw [quiet_iff, List.countP_append, List.countP_eq_zero.mpr]
  · refine ⟨?_, ?_⟩
    · intro emit hemit
      rcases List.mem_append.mp hemit with herror | htoken
      · obtain ⟨error, -, rfl⟩ := List.mem_map.mp herror
        rfl
      · obtain ⟨t, ht, rfl⟩ := List.mem_map.mp htoken
        exact hmarkup t (Option.mem_toList.mp ht)
    · cases token with
      | none => exact Nat.zero_le 1
      | some token => exact Nat.le_refl 1
  · intro emit hemit
    obtain ⟨error, -, rfl⟩ := List.mem_map.mp hemit
    exact Bool.false_ne_true

theorem markupDeclarationOpen_case (r : Registers) (point : InputCodePoint)
    (rest : List InputCodePoint) :
    StepCase .markupDeclarationOpen r point rest (markupDeclarationOpen r point rest) := by
  simp only [markupDeclarationOpen]
  split
  next => exact .ahead (List.tail_suffix rest) (.quiet rfl)
  split
  next =>
    repeat' split
    all_goals exact .ahead (List.drop_suffix 6 rest) (.quiet rfl)
  next => exact .point

theorem doctypeKeyword_case (r : Registers) (point : InputCodePoint) (rest : List InputCodePoint)
    (hch : (isHtmlWhitespace point.scalarView || point.scalarView == '>') = false) :
    StepCase .afterDoctypeName r point rest (doctypeKeyword r point rest) := by
  have hsuffix := gatherKeyword_suffix rest [point.scalarView]
  obtain ⟨hspace, hclose⟩ := Bool.or_eq_false_iff.mp hch
  have hclose : point.scalarView ≠ '>' := beq_eq_false_iff_ne.mp hclose
  simp only [doctypeKeyword]
  split
  next => exact .ahead hsuffix (.quiet rfl)
  split
  next => exact .ahead hsuffix (.quiet rfl)
  next =>
    simp only [stepPoint, hspace, hclose, Turn.over, if_false, Bool.false_eq_true]
    exact .ahead hsuffix (.quiet rfl)

theorem step_case (state : State) (r : Registers) (point : InputCodePoint)
    (rest : List InputCodePoint) : StepCase state r point rest (step state r point rest) := by
  cases state
  case data | rcData =>
    simp only [step]
    split
    · exact referenceInText_case rfl r point rest
    · exact .point
  case attributeValueDoubleQuoted | attributeValueSingleQuoted | attributeValueUnquoted =>
    simp only [step]
    split
    · exact referenceInAttribute_case rfl r point rest
    · exact .point
  case tagOpen =>
    simp only [step]
    split
    · exact processingInstruction_case r point rest
    · exact .point
  case markupDeclarationOpen => exact markupDeclarationOpen_case r point rest
  case afterDoctypeName =>
    simp only [step]
    split
    next => exact .point
    next h => exact doctypeKeyword_case r point rest (Bool.eq_false_iff.mpr h)
  all_goals exact .point

/-- A step reads something, or falls in rank and pushes no token. -/
theorem step_reads (state : State) (r : Registers) (point : InputCodePoint)
    (rest : List InputCodePoint) :
    (step state r point rest).rest <:+ rest ∨
      ((step state r point rest).rest = point :: rest ∧
        (step state r point rest).state.rank < state.rank ∧
        (step state r point rest).emits.any Emit.isToken = false) := by
  have hcase := step_case state r point rest
  generalize step state r point rest = stepped at hcase
  cases hcase with
  | point =>
    have hfalls := stepPoint_falls state r point
    cases hback : (stepPoint state r point).reconsume with
    | false =>
      refine .inl ?_
      simp [Turn.over, hback]
    | true =>
      refine .inr ⟨?_, hfalls hback⟩
      simp [Turn.over, hback]
  | ahead hsuffix _ => exact .inl hsuffix

theorem step_suffix (state : State) (r : Registers) (point : InputCodePoint)
    (rest : List InputCodePoint) : (step state r point rest).rest <:+ point :: rest := by
  rcases step_reads state r point rest with hsuffix | ⟨hback, _⟩
  · exact hsuffix.trans (List.suffix_cons point rest)
  · exact hback ▸ List.suffix_refl _

end Omoikane.Html
