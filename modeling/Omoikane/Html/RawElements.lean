import Omoikane.Html.Chunking
import Omoikane.Html.RawText

/-!
# Elements of raw text

Up to its end tag the content of an element of raw text is written as it is, whatever of it the
tokenizer holds back on the way (`Draining.Inside.reads`).  Behind the end tag everything is read as if the
input began there: the name of the element is kept, but no state looks at it (`step_tied`).

The end of the input is the exception.  What is held back there is never written, so that a text is
read as it is only if no `<`, `</` or `</name` that may open an end tag is at its end.
-/

namespace Omoikane.Html

open Base

/-! ## Passes of the loop -/

/-- Some passes of the loop lead from one place to another. -/
def Leads (d : Draining) (points : List InputCodePoint) (d' : Draining)
    (points' : List InputCodePoint) : Prop :=
  ∃ n, ∀ passes, drainLoop true false (passes + n) d points = drainLoop true false passes d' points'

theorem drainLoop_more : ∀ (passes : Nat) (d : Draining) (rest : List InputCodePoint) (n : Nat),
    work d.state rest < passes →
      drainLoop true false (passes + n) d rest = drainLoop true false passes d rest := by
  intro passes
  induction passes with
  | zero => exact fun _ _ _ h => absurd h (Nat.not_lt_zero _)
  | succ passes ih =>
    intro d rest n h
    rw [Nat.succ_add]
    cases rest with
    | nil => rfl
    | cons point rest =>
      have hstep := step_work d.state d.registers point rest
      exact ih (d.advance point rest).1 (d.advance point rest).2 n
        (Nat.lt_of_lt_of_le hstep (Nat.le_of_lt_succ h))

namespace Leads

variable {d d' d'' : Draining} {points points' points'' : List InputCodePoint}

theorem refl : Leads d points d points := ⟨0, fun _ => rfl⟩

theorem trans (h : Leads d points d' points') (h' : Leads d' points' d'' points'') :
    Leads d points d'' points'' := by
  obtain ⟨n, hn⟩ := h
  obtain ⟨n', hn'⟩ := h'
  refine ⟨n' + n, fun passes => ?_⟩
  rw [← Nat.add_assoc, hn, hn']

theorem advance (point : InputCodePoint) (rest : List InputCodePoint) :
    Leads d (point :: rest) (d.advance point rest).1 (d.advance point rest).2 :=
  ⟨1, fun _ => rfl⟩

/-- With passes enough the loop gets there. -/
theorem drainLoop_eq (h : Leads d points d' points') {passes : Nat} (hpasses : work d.state points < passes) :
    drainLoop true false passes d points = drainLoop true false passes d' points' := by
  obtain ⟨n, hn⟩ := h
  rw [← hn passes, drainLoop_more passes d points n hpasses]

end Leads

/-! ## Character references -/

/-- What stands behind a `&` is a character reference. -/
def startsReference (s : Text) : Bool :=
  match (consumeCharacterReference (s.map .scalar)).1 with
  | .ok _ => true
  | .error _ => false

/-- There is no character reference in a text. -/
def Unreferenced (s : Text) : Prop := ∀ rest, '&' :: rest <:+ s → startsReference rest = false

theorem consumeCharacterReference_of_not {rest : Text} (h : startsReference rest = false) :
    ∃ error, consumeCharacterReference (rest.map .scalar) = (.error error, rest.map .scalar) := by
  unfold startsReference at h
  cases hconsumed : (consumeCharacterReference (rest.map .scalar)).1 with
  | ok decoded => rw [hconsumed] at h; cases h
  | error error =>
    refine ⟨error, Prod.ext hconsumed ?_⟩
    unfold consumeCharacterReference at hconsumed ⊢
    dsimp only at hconsumed ⊢
    split at hconsumed
    next => rfl
    next =>
      split at hconsumed
      next => cases hconsumed
      next => rfl

/-- Markup behind a text makes no reference of it. -/
theorem startsReference_lessThan {s : Text} (h : startsReference s = false) (more : Text) :
    startsReference (s ++ '<' :: more) = false := by
  unfold startsReference at h ⊢
  cases hall : (s.map Utf16.CodePoint.scalar).all fun point =>
      isReferenceChar (InputCodePoint.scalarView point) with
  | false =>
    rw [List.map_append, consumeCharacterReference_append hall]
    exact h
  | true =>
    have hend : isReferenceChar (InputCodePoint.scalarView (.scalar '<')) = false := by decide
    have hdrop : ((s ++ '<' :: more).map Utf16.CodePoint.scalar).dropWhile
        (fun point => isReferenceChar (InputCodePoint.scalarView point)) =
          .scalar '<' :: more.map .scalar := by
      rw [List.map_append, List.dropWhile_append_of_pos (List.all_eq_true.mp hall), List.map_cons,
        List.dropWhile_cons, hend]
      rfl
    have hlt : InputCodePoint.scalarView (.scalar '<') ≠ ';' := by decide
    rw [consumeCharacterReference, hdrop]
    dsimp only
    rw [if_neg hlt]

/-! ## Reading the text -/

section

variable {scriptingEnabled : Bool} {name : Text} {model : ContentModel} {state : State}
  {temp read held rest : Text} {ch : Char}

namespace ContentModel

theorem switch_eq_rcData {s : Text} : model.switch s = rcData ↔ model = rcData := by
  cases model <;> simp only [switch] <;> split_ifs <;> simp

theorem behind_eq_rcData {s : Text} : ∀ {model : ContentModel}, model.behind s = rcData ↔ model = rcData := by
  induction s with
  | nil => exact Iff.rfl
  | cons ch s ih => exact ih.trans switch_eq_rcData

end ContentModel

/-- A pass is that of `stepPoint`, but for the references of `title` and `textarea`. -/
theorem Matching.step_eq (h : Matching model state temp read held rest) (r : Registers)
    (hamp : state = .rcData → ch ≠ '&') (points : List InputCodePoint) :
    step state r (.scalar ch) points = (stepPoint state r (.scalar ch)).over (.scalar ch) points := by
  cases h with
  | content model =>
    cases model with
    | rcData => exact if_neg (hamp rfl)
    | _ => rfl
  | lessThan | endTagOpen | endTagName => cases model <;> rfl
  | _ => rfl

/-- What is read with one pass. -/
theorem Matching.step {more : Text} (h : Matching model state temp read held (ch :: rest))
    (hname : ∀ ch ∈ name, ch.isAlpha = true) (hlower : Text.toAsciiLowercase name = name)
    (hclear : model.Unclosed name (read ++ ch :: rest))
    (hreference : model = .rcData → ch = '&' → startsReference (rest ++ more) = false) :
    ∃ turn, step state (rawRegisters scriptingEnabled name temp) (.scalar ch) ((rest ++ more).map .scalar) =
        turn.over (.scalar ch) ((rest ++ more).map .scalar) ∧
      Follows scriptingEnabled name model read held ch rest turn := by
  by_cases hamp : state = .rcData ∧ ch = '&'
  · obtain ⟨rfl, rfl⟩ := hamp
    obtain ⟨rfl, rfl, rfl⟩ : model = .rcData ∧ read = [] ∧ held = [] := by
      generalize hstate : State.rcData = state at h
      cases h with
      | content model => cases model <;> first | exact ⟨rfl, rfl, rfl⟩ | cases hstate
      | lessThan | endTagOpen | endTagName => cases model <;> cases hstate
      | _ => cases hstate
    obtain ⟨error, hconsumed⟩ := consumeCharacterReference_of_not (hreference rfl rfl)
    refine ⟨⟨.rcData, rawRegisters scriptingEnabled name temp, [.error error, .push '&'], false⟩, ?_, ?_⟩
    · change referenceInText .rcData _ _ = _
      rw [referenceInText, hconsumed]
      rfl
    · exact .consumed (by simp [Emit.isScalar]) rfl (.content .rcData)
        (.passChar (by decide) fun heq => absurd heq (by decide))
  · exact ⟨_, h.step_eq _ (fun hstate hch => hamp ⟨hstate, hch⟩) _, h.follows hname hlower hclear⟩

/-- The loop stands in front of `rest`, inside the text of an element. -/
structure Draining.Inside (d : Draining) (scriptingEnabled : Bool) (name : Text) (model : ContentModel)
    (read held rest text : Text) (tokens : List Token) : Prop where
  matching : ∃ temp, d.registers = rawRegisters scriptingEnabled name temp ∧
    Matching model d.state temp read held rest
  buffer : d.output.textBuffer = ⟨.scalar text⟩
  tokens : d.output.tokens = tokens

/-- One pass inside the text of an element. -/
theorem Draining.Inside.advance {more : Text} {d : Draining} {text : Text} {tokens : List Token}
    (h : d.Inside scriptingEnabled name model read held (ch :: rest) text tokens)
    (hname : ∀ ch ∈ name, ch.isAlpha = true) (hlower : Text.toAsciiLowercase name = name)
    (hclear : model.Unclosed name (read ++ ch :: rest))
    (hreference : model = .rcData → ch = '&' → startsReference (rest ++ more) = false) :
    ∃ model' read' held' rest' text',
      (d.advance (.scalar ch) ((rest ++ more).map .scalar)).2 = (rest' ++ more).map .scalar ∧
      (d.advance (.scalar ch) ((rest ++ more).map .scalar)).1.Inside scriptingEnabled name model' read'
        held' rest' text' tokens ∧
      rest' <:+ ch :: rest ∧ text' ++ held' ++ rest' = text ++ held ++ ch :: rest ∧
      ContentModel.Alike name model (read ++ ch :: rest) model' (read' ++ rest') := by
  obtain ⟨⟨temp, hregisters, hmatching⟩, hbuffer, htokens⟩ := h
  obtain ⟨turn, hstep, model', temp', read', held', rest', hrest', hregisters', hemits, htext, hmatching',
    halike⟩ := @Matching.step scriptingEnabled _ _ _ _ _ _ _ _ more hmatching hname hlower hclear hreference
  obtain ⟨hbuffer', htokens'⟩ := emitAll_scalar hemits hbuffer
  have hadvance : (d.advance (.scalar ch) ((rest ++ more).map .scalar)).2 =
      (rest' ++ more).map .scalar := by
    rw [Draining.advance, hregisters, hstep, hrest']
    simp only [Turn.over]
    split <;> rfl
  refine ⟨model', read', held', rest', text ++ turn.emits.flatMap Emit.scalars,
    hadvance, ⟨⟨temp', ?_, ?_⟩, ?_, ?_⟩, ?_, ?_, halike⟩
  · rw [Draining.advance, hregisters, hstep]
    exact hregisters'
  · rw [Draining.advance, hregisters, hstep]
    exact hmatching'
  · rw [Draining.advance, hregisters, hstep]
    exact hbuffer'
  · rw [Draining.advance, hregisters, hstep]
    exact htokens'.trans htokens
  · rw [hrest']
    split
    · exact List.suffix_refl _
    · exact List.suffix_cons _ _
  · rw [List.append_assoc, List.append_assoc, ← List.append_assoc _ held', htext, List.append_assoc]

/-- Up to the end of a text without an end tag the loop writes the text, but for what it holds back. -/
theorem Draining.Inside.reads {more : Text} {tokens : List Token} (hname : ∀ ch ∈ name, ch.isAlpha = true)
    (hlower : Text.toAsciiLowercase name = name) : ∀ (n : Nat) {d : Draining} {model : ContentModel}
      {read held rest text : Text}, work d.state ((rest ++ more).map .scalar) ≤ n →
      d.Inside scriptingEnabled name model read held rest text tokens →
      model.Unclosed name (read ++ rest) →
      (model = .rcData → ∀ behind, '&' :: behind <:+ rest → startsReference (behind ++ more) = false) →
        ∃ d' model' read' held' text', Leads d ((rest ++ more).map .scalar) d' (more.map .scalar) ∧
          d'.Inside scriptingEnabled name model' read' held' [] text' tokens ∧
          text' ++ held' = text ++ held ++ rest ∧
          ContentModel.Alike name model (read ++ rest) model' read' := by
  intro n
  induction n using Nat.strong_induction_on with
  | _ n ih =>
    intro d model read held rest text hwork hinside hclear hreference
    cases rest with
    | nil =>
      refine ⟨d, model, read, held, text, .refl, hinside, (List.append_nil _).symm, ?_⟩
      rw [List.append_nil]
      exact .refl
    | cons ch rest =>
      obtain ⟨model₁, read₁, held₁, rest₁, text₁, hbehind, hinside₁, hsuffix, htext₁, halike₁⟩ :=
        @Draining.Inside.advance _ _ _ _ _ _ _ more _ _ _ hinside hname hlower hclear
          fun hmodel hch => hreference hmodel rest (hch ▸ List.suffix_refl _)
      have hdecrease := step_work d.state d.registers (.scalar ch) ((rest ++ more).map .scalar)
      have hwork₁ : work (d.advance (.scalar ch) ((rest ++ more).map .scalar)).1.state
          ((rest₁ ++ more).map .scalar) < n := by
        rw [← hbehind]
        exact hdecrease.trans_le hwork
      have hmodel₁ : model₁ = .rcData → model = .rcData := by
        intro heq
        have hbehind := halike₁.behind
        rw [heq, ContentModel.behind_eq_rcData.mpr rfl] at hbehind
        exact ContentModel.behind_eq_rcData.mp hbehind
      obtain ⟨d', model', read', held', text', hleads, hinside', htext', halike⟩ :=
        ih _ hwork₁ le_rfl hinside₁ (halike₁.unclosed hclear)
          fun hmodel behind hmem => hreference (hmodel₁ hmodel) behind (hmem.trans hsuffix)
      refine ⟨d', model', read', held', text', ?_, hinside', htext'.trans htext₁, halike₁.trans halike⟩
      rw [← hbehind] at hleads
      exact (Leads.advance _ _).trans hleads

end

/-! ## In front of markup -/

theorem isPrefixOf_lessThan {more : Text} : ∀ {word s : Text}, '<' ∉ word →
    word.isPrefixOf (s ++ '<' :: more) = word.isPrefixOf s
  | [], _, _ => rfl
  | letter :: word, [], h => by
    have hne : letter ≠ '<' := fun heq => h (heq ▸ List.mem_cons_self)
    exact Bool.and_eq_false_iff.mpr (.inl (beq_false_of_ne hne))
  | letter :: word, ch :: s, h => by
    have ih := @isPrefixOf_lessThan more word s fun hmem => h (List.mem_cons_of_mem _ hmem)
    exact congrArg (letter == ch && ·) ih

theorem namesTag_lessThan {more : Text} : ∀ {name s : Text}, (∀ ch ∈ name, ch.isAlpha = true) →
    namesTag name (s ++ '<' :: more) = namesTag name s
  | [], [], _ => rfl
  | [], _ :: _, _ => rfl
  | letter :: name, [], h => by
    have hne : '<'.toLower ≠ letter := by
      rintro rfl
      exact absurd (h _ List.mem_cons_self) (by decide)
    rw [List.nil_append, namesTag, beq_false_of_ne hne]
    rfl
  | letter :: name, ch :: s, h => by
    have ih := @namesTag_lessThan more name s fun other hother => h other (List.mem_cons_of_mem _ hother)
    rw [List.cons_append, namesTag, ih]
    rfl

/-- A name that is not ended yet. -/
theorem namesTag_of_isAlpha : ∀ {name letters : Text}, (∀ ch ∈ letters, ch.isAlpha = true) →
    namesTag name letters = false
  | [], [], _ => rfl
  | _ :: _, [], _ => rfl
  | [], ch :: _, h => isNameDelimiter_of_isAlpha (h ch List.mem_cons_self)
  | letter :: name, ch :: letters, h => by
    have ih := @namesTag_of_isAlpha name letters fun other hother => h other (List.mem_cons_of_mem _ hother)
    rw [namesTag, ih, Bool.and_false]

theorem closesTag_lessThan {name s more : Text} {ch : Char} (hname : ∀ ch ∈ name, ch.isAlpha = true) :
    closesTag name (ch :: (s ++ '<' :: more)) = closesTag name (ch :: s) := by
  by_cases hlt : ch = '<'
  · subst hlt
    cases s with
    | nil => rfl
    | cons slash s =>
      by_cases hslash : slash = '/'
      · subst hslash
        exact namesTag_lessThan hname
      · have hnone (t : Text) : closesTag name ('<' :: slash :: t) = false := by
          unfold closesTag
          split <;> simp_all
        exact (hnone _).trans (hnone _).symm
  · rw [ContentModel.closesTag_of_ne hlt, ContentModel.closesTag_of_ne hlt]

namespace ContentModel

variable {name s more : Text} {model : ContentModel} {ch : Char}

/-- Markup behind a text does not change how the text is read. -/
theorem switch_append_lessThan :
    model.switch (ch :: (s ++ '<' :: more)) = model.switch (ch :: s) := by
  have hend : "-->".toList.isPrefixOf (ch :: (s ++ '<' :: more)) = "-->".toList.isPrefixOf (ch :: s) :=
    @isPrefixOf_lessThan more "-->".toList (ch :: s) (by decide)
  cases model with
  | rawText | rcData => rfl
  | script =>
    have hbang : "!--".toList.isPrefixOf (s ++ '<' :: more) = "!--".toList.isPrefixOf s :=
      isPrefixOf_lessThan (by decide)
    have hstart (t : Text) : "<!--".toList.isPrefixOf (ch :: t) =
        ('<' == ch && "!--".toList.isPrefixOf t) := rfl
    rw [switch, switch, hstart, hstart, hbang]
  | escaped =>
    have hlt (t : Text) : "<".toList.isPrefixOf (ch :: t) = ('<' == ch && true) := by cases t <;> rfl
    have hscript : namesTag "script".toList (s ++ '<' :: more) = namesTag "script".toList s :=
      namesTag_lessThan script_isAlpha
    rw [switch, switch, hend, hlt, hlt, List.tail_cons, List.tail_cons, hscript]
  | doubleEscaped =>
    have hscript := @closesTag_lessThan "script".toList s more ch script_isAlpha
    rw [switch, switch, hend, hscript]

theorem unclosed_append_lessThan (hname : ∀ ch ∈ name, ch.isAlpha = true) :
    ∀ {s : Text} {model : ContentModel}, model.Unclosed name s →
      (model.behind s).Unclosed name ('<' :: more) → model.Unclosed name (s ++ '<' :: more) := by
  intro s
  induction s with
  | nil => exact fun _ h => h
  | cons ch s ih =>
    intro model h hmore
    rw [List.cons_append]
    refine ⟨fun hmodel => ?_, ?_⟩
    · rw [closesTag_lessThan hname]
      exact h.1 hmodel
    · rw [switch_append_lessThan]
      exact ih h.2 hmore

theorem openEnded_append_lessThan : ∀ {s : Text} {model : ContentModel},
    (model.behind s).OpenEnded ('<' :: more) → model.OpenEnded (s ++ '<' :: more) := by
  intro s
  induction s with
  | nil => exact fun h => h
  | cons ch s ih =>
    intro model h
    refine .inr ?_
    change (model.switch (ch :: (s ++ '<' :: more))).OpenEnded (s ++ '<' :: more)
    rw [switch_append_lessThan]
    exact ih h

/-- Without a `<` there is no end tag. -/
theorem unclosed_of_notMem : ∀ {s : Text} {model : ContentModel}, '<' ∉ s → model.Unclosed name s := by
  intro s
  induction s with
  | nil => exact fun _ => trivial
  | cons ch s ih =>
    intro model h
    have hch : ch ≠ '<' := fun heq => h (heq ▸ List.mem_cons_self)
    exact ⟨fun _ => closesTag_of_ne hch, ih fun hmem => h (List.mem_cons_of_mem _ hmem)⟩

end ContentModel

/-! ## Behind the element

The name of the last start tag is looked at inside the text of an element only. -/

/-- A state inside the text of an element. -/
def State.isRaw : State → Bool
  | .rawText | .rawTextLessThanSign | .rawTextEndTagOpen | .rawTextEndTagName
  | .rcData | .rcDataLessThanSign | .rcDataEndTagOpen | .rcDataEndTagName
  | .scriptData | .scriptDataLessThanSign | .scriptDataEndTagOpen | .scriptDataEndTagName
  | .scriptDataEscapeStart | .scriptDataEscapeStartDash
  | .scriptDataEscaped | .scriptDataEscapedDash | .scriptDataEscapedDashDash
  | .scriptDataEscapedLessThanSign | .scriptDataEscapedEndTagOpen | .scriptDataEscapedEndTagName
  | .scriptDataDoubleEscapeStart | .scriptDataDoubleEscaped | .scriptDataDoubleEscapedDash
  | .scriptDataDoubleEscapedDashDash | .scriptDataDoubleEscapedLessThanSign
  | .scriptDataDoubleEscapeEnd => true
  | _ => false

def Registers.named (r : Registers) (name : Text) : Registers := { r with lastStartTagName := name }

/-- Registers that are the same for what a state reads. -/
inductive Tied (state : State) (r : Registers) : Registers → Prop
  | same : Tied state r r
  | named (name : Text) : state.isRaw = false → Tied state r (r.named name)

theorem Tied.currentComment {state : State} {r r' : Registers} (h : Tied state r r') :
    r'.currentComment = r.currentComment := by
  cases h <;> rfl

/-- Two turns do the same. -/
structure Turn.Tied (a b : Turn) : Prop where
  state : b.state = a.state
  registers : Html.Tied a.state a.registers b.registers
  emits : b.emits = a.emits
  reconsume : b.reconsume = a.reconsume

section

variable {state : State} {r r' : Registers} {name : Text}

theorem pushAttribute_named (r : Registers) (name : Text) :
    pushAttribute (r.named name) = (pushAttribute r).named name := by
  unfold pushAttribute Registers.named
  dsimp only
  split <;> rfl

theorem closeCurrentTag_tied (r : Registers) (name : Text) :
    (closeCurrentTag r).Tied (closeCurrentTag (r.named name)) := by
  refine ⟨rfl, ?_, rfl, rfl⟩
  by_cases hraw : (r.currentEndTagName.isEmpty &&
      rawNextState r.currentTagName r.currentSelfClosing r.scriptingEnabled != .data) = true
  · have hequal : (closeCurrentTag (r.named name)).registers = (closeCurrentTag r).registers := by
      simp only [closeCurrentTag, Registers.named, hraw, if_true]
    rw [hequal]
    exact .same
  · have hnamed : (closeCurrentTag (r.named name)).registers =
        (closeCurrentTag r).registers.named name := by
      simp only [closeCurrentTag, Registers.named, hraw, if_false, Bool.false_eq_true]
    rw [hnamed]
    refine .named name ?_
    simp only [closeCurrentTag]
    rw [Bool.and_eq_true, not_and, bne_iff_ne, ne_eq, not_not] at hraw
    split
    next hopened => rw [hraw hopened]; rfl
    next => rfl

theorem stepPoint_named (hstate : state.isRaw = false) (r : Registers) (point : InputCodePoint) :
    (stepPoint state r point).Tied (stepPoint state (r.named name) point) := by
  have hframe {next : State} (hnext : next.isRaw = false) (r : Registers) (emits : List Emit) (back : Bool) :
      Turn.Tied ⟨next, r, emits, back⟩ ⟨next, r.named name, emits, back⟩ :=
    ⟨rfl, .named name hnext, rfl, rfl⟩
  cases state
  case plainText => exact hframe rfl _ _ _
  case tagName =>
    have hsame : (r.named name).currentEndTagName.isEmpty = r.currentEndTagName.isEmpty := rfl
    cases hend : r.currentEndTagName.isEmpty with
    | true | false =>
      simp only [stepPoint, hsame.trans hend, hend, Bool.false_eq_true, if_false, if_true]
      repeat' split
      all_goals first
        | exact closeCurrentTag_tied _ _
        | (refine hframe ?_ _ _ _; rfl)
  case data | tagOpen | endTagOpen | beforeAttributeName | attributeName | afterAttributeName |
      beforeAttributeValue | attributeValueDoubleQuoted | attributeValueSingleQuoted |
      attributeValueUnquoted | afterAttributeValueQuoted | selfClosingStartTag =>
    simp only [stepPoint, pushAttribute_named]
    repeat' split
    all_goals first
      | exact closeCurrentTag_tied _ _
      | (refine hframe ?_ _ _ _; rfl)
  case markupDeclarationOpen | commentStart | commentStartDash | comment | commentEndDash | commentEnd |
      bogusComment | doctype | beforeDoctypeName | doctypeName | afterDoctypeName |
      afterDoctypePublicKeyword | beforeDoctypePublicIdentifier | doctypePublicIdentifierDoubleQuoted |
      doctypePublicIdentifierSingleQuoted | afterDoctypePublicIdentifier |
      betweenDoctypePublicAndSystemIdentifiers | afterDoctypeSystemKeyword |
      beforeDoctypeSystemIdentifier | doctypeSystemIdentifierDoubleQuoted |
      doctypeSystemIdentifierSingleQuoted | afterDoctypeSystemIdentifier | bogusDoctype =>
    simp only [stepPoint, beforePublicIdentifier, beforeSystemIdentifier, publicIdentifierQuoted,
      systemIdentifierQuoted, afterPublicIdentifier]
    repeat' split
    all_goals (refine hframe ?_ _ _ _; rfl)
  all_goals cases hstate

/-- Two steps do the same. -/
structure Stepped.Tied (a b : Stepped) : Prop where
  state : b.state = a.state
  registers : Html.Tied a.state a.registers b.registers
  emits : b.emits = a.emits
  rest : b.rest = a.rest

theorem Turn.Tied.over {a b : Turn} (h : a.Tied b) (point : InputCodePoint) (rest : List InputCodePoint) :
    (a.over point rest).Tied (b.over point rest) :=
  ⟨h.state, h.registers, h.emits, by simp only [Turn.over, h.reconsume]⟩

/-- One step does the same with registers that are the same for its state. -/
theorem step_tied (h : Tied state r r') (point : InputCodePoint) (rest : List InputCodePoint) :
    (step state r point rest).Tied (step state r' point rest) := by
  cases h with
  | same => exact ⟨rfl, .same, rfl, rfl⟩
  | named name hstate =>
    have hover := (@stepPoint_named state name hstate r point).over point
    have hframe {next : State} (hnext : next.isRaw = false) (r : Registers) (emits : List Emit)
        (rest : List InputCodePoint) :
        Stepped.Tied ⟨next, r, emits, rest⟩ ⟨next, r.named name, emits, rest⟩ :=
      ⟨rfl, .named name hnext, rfl, rfl⟩
    cases state
    case data =>
      simp only [step]
      split
      next =>
        unfold referenceInText
        dsimp only
        split <;> exact hframe rfl _ _ _
      next => exact hover rest
    case attributeValueDoubleQuoted | attributeValueSingleQuoted | attributeValueUnquoted =>
      simp only [step]
      split
      next =>
        unfold referenceInAttribute
        dsimp only
        split <;> (refine hframe ?_ _ _ _; rfl)
      next => exact hover rest
    case tagOpen =>
      simp only [step]
      split
      next => exact hframe rfl _ _ _
      next => exact hover rest
    case markupDeclarationOpen =>
      simp only [step, markupDeclarationOpen]
      repeat' split
      all_goals first
        | exact hover rest
        | (refine hframe ?_ _ _ _; rfl)
    case afterDoctypeName =>
      simp only [step, doctypeKeyword]
      repeat' split
      all_goals first
        | exact hover _
        | (refine hframe ?_ _ _ _; rfl)
    all_goals first
      | exact hover rest
      | cases hstate

/-- Two runs of the loop, one of them behind some tokens. -/
structure Draining.Behind (d : Draining) (front : List Token) (d' : Draining) : Prop where
  state : d'.state = d.state
  registers : Tied d.state d.registers d'.registers
  buffer : d'.output.textBuffer = d.output.textBuffer
  tokens : d'.output.tokens = front ++ d.output.tokens

theorem emitAll_behind {front : List Token} (emits : List Emit) : ∀ {output output' : Output},
    output'.textBuffer = output.textBuffer → output'.tokens = front ++ output.tokens →
      (output'.emitAll emits).textBuffer = (output.emitAll emits).textBuffer ∧
        (output'.emitAll emits).tokens = front ++ (output.emitAll emits).tokens := by
  induction emits with
  | nil => exact fun hbuffer htokens => ⟨hbuffer, htokens⟩
  | cons emit emits ih =>
    intro output output' hbuffer htokens
    rw [emitAll_cons, emitAll_cons]
    refine ih ?_ ?_
    · cases emit <;> simp only [Output.emit, hbuffer]
    · cases emit <;> simp only [Output.emit, hbuffer, htokens, List.append_assoc]

theorem drainLoop_behind {front : List Token} : ∀ (passes : Nat) {d d' : Draining}
    {points : List InputCodePoint}, d.Behind front d' →
      (drainLoop true false passes d points).1.Behind front (drainLoop true false passes d' points).1 := by
  intro passes
  induction passes with
  | zero => exact fun h => h
  | succ passes ih =>
    intro d d' points h
    cases points with
    | nil => exact h
    | cons point rest =>
      have hstep : (step d.state d.registers point rest).Tied (step d'.state d'.registers point rest) := by
        rw [h.state]
        exact step_tied h.registers point rest
      obtain ⟨hbuffer, htokens⟩ :=
        emitAll_behind (step d.state d.registers point rest).emits h.buffer h.tokens
      have hnext : (d.advance point rest).1.Behind front (d'.advance point rest).1 := by
        refine ⟨hstep.state, hstep.registers, ?_, ?_⟩
        · simp only [Draining.advance, hstep.emits, hbuffer]
        · simp only [Draining.advance, hstep.emits, htokens]
      have hrest : (d'.advance point rest).2 = (d.advance point rest).2 := hstep.rest
      change (drainLoop true false passes (d.advance point rest).1 (d.advance point rest).2).1.Behind front
        (drainLoop true false passes (d'.advance point rest).1 (d'.advance point rest).2).1
      rw [hrest]
      exact ih hnext

end

/-! ## Tokens -/

namespace IncrementalTokenizer

/-- The tokens at the end of the input, by what the loop leaves. -/
def finalTokens (d : Draining) : List Token :=
  (d.output.emit .flush).tokens ++
    (if d.state = .bogusComment then [commentToken d.registers.currentComment] else []) ++ [.eof]

theorem finalTokens_behind {d d' : Draining} {front : List Token} (h : d.Behind front d') :
    finalTokens d' = front ++ finalTokens d := by
  have hcomment := h.registers.currentComment
  have hflush : (d'.output.emit .flush).tokens = front ++ (d.output.emit .flush).tokens := by
    simp only [Output.emit, h.buffer, h.tokens, List.append_assoc]
  rw [finalTokens, finalTokens, hflush, hcomment, h.state, List.append_assoc, List.append_assoc,
    List.append_assoc]

/-- A tokenizer in front of its whole input. -/
theorem drain_tokens (t : IncrementalTokenizer) (hfinish : t.finishInputChunk = t) :
    (t.drain true false).2.1 =
      finalTokens (drainLoop true false (passes t.pending)
        { state := t.state
          registers := t.registers
          output := { textBuffer := t.textBuffer }
          sourcePosition := t.sourcePosition } t.pending).1 := by
  have hpending := drainPending_eof t
  rw [drain, if_pos rfl, hfinish]
  dsimp only
  rw [hpending]
  simp only [List.isEmpty_nil, Bool.not_true, Bool.false_and, Bool.or_false, Bool.false_eq_true, if_false,
    finalTokens]
  unfold drainPending
  dsimp only
  split
  next => simp
  next => simp

end IncrementalTokenizer

/-! ## Elements of raw text -/

/-- The elements whose content is text. -/
inductive RawTextElement
  | script
  | style
  | xmp
  | noembed
  | noframes
  | title
  | textarea
deriving DecidableEq, Repr

namespace RawTextElement

def name : RawTextElement → Text
  | script => "script".toList
  | style => "style".toList
  | xmp => "xmp".toList
  | noembed => "noembed".toList
  | noframes => "noframes".toList
  | title => "title".toList
  | textarea => "textarea".toList

/-- What the content is read as. -/
def model : RawTextElement → ContentModel
  | script => .script
  | style | xmp | noembed | noframes => .rawText
  | title | textarea => .rcData

variable (element : RawTextElement)

theorem name_isAlpha : ∀ ch ∈ element.name, ch.isAlpha = true := by
  cases element <;> exact List.forall_iff_forall_mem.mp (by decide)

theorem name_lower : Text.toAsciiLowercase element.name = element.name := by
  cases element <;> decide

theorem rawNextState_name (scriptingEnabled : Bool) :
    rawNextState element.name false scriptingEnabled = element.model.content := by
  cases element <;> cases scriptingEnabled <;> decide

end RawTextElement

/-- The end tag of an element, with the name as it is written. -/
def endTagSource (written : Text) : Text := '<' :: '/' :: (written ++ ['>'])

/-- The tokens are texts that make up `s`, and what follows them. -/
def ReadAs (tokens : List Token) (s : Text) (following : List Token) : Prop :=
  ∃ texts : List Text, tokens = texts.map .character ++ following ∧ texts.flatten = s

section

variable {scriptingEnabled : Bool} {element : RawTextElement} {s : Text}

theorem pushInput_new (t : IncrementalTokenizer) (hdecoder : t.inputDecoder = {}) (hpending : t.pending = [])
    (input : Text) : t.pushInput input = { t with pending := input.map .scalar } := by
  obtain ⟨⟩ := t
  subst hdecoder hpending
  cases input <;> rfl

/-- What `tokenize_with_errors` starts from. -/
def freshDraining (scriptingEnabled : Bool) : Draining :=
  { state := .data, registers := { scriptingEnabled }, sourcePosition := {} }

theorem tokenizeWithErrors_tokens (scriptingEnabled : Bool) (input : Text) :
    (tokenizeWithErrors scriptingEnabled input).1 =
      IncrementalTokenizer.finalTokens (drainLoop true false
        (IncrementalTokenizer.passes (input.map Utf16.CodePoint.scalar)) (freshDraining scriptingEnabled)
        (input.map .scalar)).1 := by
  rw [tokenizeWithErrors, pushInput_new _ rfl rfl]
  exact IncrementalTokenizer.drain_tokens _ rfl

/-- What `tokenize_fragment_with_errors` starts from inside an element. -/
def elementDraining (scriptingEnabled : Bool) (element : RawTextElement) : Draining :=
  { state := element.model.content
    registers := rawRegisters scriptingEnabled element.name []
    sourcePosition := {} }

theorem tokenizeFragmentWithErrors_tokens (scriptingEnabled : Bool) (element : RawTextElement)
    (input : Text) :
    (tokenizeFragmentWithErrors scriptingEnabled input element.name).1 =
      IncrementalTokenizer.finalTokens (drainLoop true false
        (IncrementalTokenizer.passes (input.map Utf16.CodePoint.scalar))
        (elementDraining scriptingEnabled element) (input.map .scalar)).1 := by
  have hne : element.model.content ≠ .data := by cases element <;> decide
  rw [tokenizeFragmentWithErrors, element.name_lower, element.rawNextState_name]
  dsimp only
  rw [if_pos hne, pushInput_new _ rfl rfl]
  exact IncrementalTokenizer.drain_tokens _ rfl

theorem elementDraining_inside (s : Text) :
    (elementDraining scriptingEnabled element).Inside scriptingEnabled element.name element.model [] [] s []
      [] :=
  ⟨⟨[], rfl, .content element.model⟩, rfl, rfl⟩

theorem Matching.isRaw {model : ContentModel} {state : State} {temp read held rest : Text}
    (h : Matching model state temp read held rest) : state.isRaw = true := by
  cases h with
  | content model | @lessThan model | @endTagOpen model | @endTagName model => cases model <;> rfl
  | _ => rfl

/-- What is held back is what may open an end tag. -/
theorem Matching.openEnded_iff {model : ContentModel} {state : State} {temp read held : Text}
    (h : Matching model state temp read held []) : model.OpenEnded read ↔ held ≠ [] := by
  have hletters {model : ContentModel} {letters : Text} (h : ∀ ch ∈ letters, ch.isAlpha = true) :
      ¬ model.OpenEnded letters := by
    have hpass := @ContentModel.Alike.passLetters [] [] model letters h
    rw [List.append_nil] at hpass
    exact hpass.openEnded.mp
  cases h with
  | content model => exact iff_of_false id fun h => h rfl
  | lessThan hmodel | endTagOpen hmodel =>
    exact iff_of_true (.inl ⟨hmodel, rfl⟩) (List.cons_ne_nil _ _)
  | endTagName hmodel h =>
    exact iff_of_true (.inl ⟨hmodel, List.all_eq_true.mpr h⟩) (List.cons_ne_nil _ _)
  | escapeStart | escapeStartDash | escapedDash | escapedDashDash | doubleEscapedDash |
      doubleEscapedDashDash | doubleEscapedLessThan =>
      exact iff_of_false (by simp [ContentModel.OpenEnded, isOpenTag]) fun h => h rfl
  | @doubleEscapeStart letters _ h hfirst =>
    refine iff_of_false ?_ fun h => h rfl
    cases letters with
    | nil => cases hfirst rfl
    | cons first letters =>
      have hslash : first ≠ '/' := by
        rintro rfl
        cases h '/' List.mem_cons_self
      have hbehind := (@ContentModel.Alike.skip [] (first :: letters) .escaped '<'
        fun _ => ContentModel.isOpenTag_lessThan hslash).openEnded
      exact fun hopen => hletters h (hbehind.mp hopen)
  | @doubleEscapeEnd letters _ h =>
    refine iff_of_false (fun hopen => ?_) fun h => h rfl
    have hbehind := (@ContentModel.Alike.skip [] ('/' :: letters) .doubleEscaped '<'
      fun hmodel => absurd rfl hmodel).openEnded.mp hopen
    rcases hbehind with ⟨-, hslash⟩ | hbehind
    · rw [ContentModel.isOpenTag_of_ne (by decide)] at hslash
      cases hslash
    · exact hletters h hbehind

/-- The text is flushed as a whole. -/
theorem flushText_scalar (text : Text) :
    flushText ⟨.scalar text⟩ = (if text.isEmpty then [] else [text]).map .character := by
  cases text <;> rfl

theorem readAs_flush {text : Text} {following : List Token} :
    ReadAs (flushText ⟨.scalar text⟩ ++ following) s following ↔ text = s := by
  rw [flushText_scalar]
  have hflatten : (if text.isEmpty then [] else [text]).flatten = text := by
    cases text with
    | nil => rfl
    | cons ch text => exact List.append_nil _
  constructor
  · rintro ⟨texts, htokens, htexts⟩
    have hmap := List.append_cancel_right htokens
    have hsame := List.map_injective_iff.mpr (fun _ _ h => Token.character.inj h) hmap
    rw [← htexts, ← hsame, hflatten]
  · rintro rfl
    exact ⟨_, rfl, hflatten⟩

/-- The loop at the end of a text that has no end tag. -/
theorem reads_element {more : Text} (hclear : element.model.Unclosed element.name s)
    (hreference : element.model = .rcData → ∀ behind, '&' :: behind <:+ s →
      startsReference (behind ++ more) = false) :
    ∃ d model read held text, Leads (elementDraining scriptingEnabled element) ((s ++ more).map .scalar) d
        (more.map .scalar) ∧
      d.Inside scriptingEnabled element.name model read held [] text [] ∧ text ++ held = s ∧
      (element.model.OpenEnded s ↔ held ≠ []) := by
  obtain ⟨d, model, read, held, text, hleads, hinside, htext, halike⟩ :=
    Draining.Inside.reads element.name_isAlpha element.name_lower _ le_rfl
      (elementDraining_inside s) hclear hreference
  obtain ⟨temp, -, hmatching⟩ := hinside.matching
  exact ⟨d, model, read, held, text, hleads, hinside, htext, halike.openEnded.trans hmatching.openEnded_iff⟩

/-- A text without an end tag is read as it is if and only if nothing that may open an end tag is at its
end. -/
theorem readAs_alone_iff (hclear : element.model.Unclosed element.name s)
    (hreference : element.model = .rcData → Unreferenced s) :
    ReadAs (tokenizeFragmentWithErrors scriptingEnabled s element.name).1 s [.eof] ↔
      ¬ element.model.OpenEnded s := by
  obtain ⟨d, model, read, held, text, hleads, hinside, htext, hopen⟩ :=
    @reads_element scriptingEnabled element s [] hclear fun hmodel behind hbehind => by
      rw [List.append_nil]
      exact hreference hmodel behind hbehind
  rw [List.append_nil] at hleads
  obtain ⟨temp, -, hmatching⟩ := hinside.matching
  have hstate : d.state ≠ .bogusComment := fun heq => by
    have hraw := hmatching.isRaw
    rw [heq] at hraw
    cases hraw
  have hloop := hleads.drainLoop_eq (IncrementalTokenizer.work_lt_passes _ (s.map .scalar))
  have hdone (passes : Nat) : drainLoop true false passes d [] = (d, []) := by cases passes <;> rfl
  rw [tokenizeFragmentWithErrors_tokens, hloop, List.map_nil, hdone, IncrementalTokenizer.finalTokens,
    if_neg hstate, List.append_nil]
  have htokens : (d.output.emit .flush).tokens = flushText ⟨.scalar text⟩ := by
    simp only [Output.emit, hinside.buffer, hinside.tokens, List.nil_append]
  rw [htokens, readAs_flush, hopen, not_not, ← htext, List.self_eq_append_right]

/-- What follows the last `<` of a text. -/
theorem append_lessThan_inj {a b c d : Text} (h : a ++ '<' :: b = c ++ '<' :: d) (hb : '<' ∉ b)
    (hd : '<' ∉ d) : a = c ∧ b = d := by
  rcases List.append_eq_append_iff.mp h with ⟨gap, hc, hgap⟩ | ⟨gap, ha, hgap⟩
  · cases gap with
    | nil => exact ⟨by rw [hc, List.append_nil], (List.cons.inj hgap).2⟩
    | cons ch gap =>
      obtain ⟨-, rfl⟩ := List.cons.inj hgap
      exact absurd (List.mem_append_right _ List.mem_cons_self) hb
  · cases gap with
    | nil => exact ⟨by rw [ha, List.append_nil], (List.cons.inj hgap).2.symm⟩
    | cons ch gap =>
      obtain ⟨-, rfl⟩ := List.cons.inj hgap
      exact absurd (List.mem_append_right _ List.mem_cons_self) hd

/-- In front of an end tag of its own name, a state holds back `</` and the name. -/
theorem Matching.endTagName_inv {model : ContentModel} {state : State} {temp read held text written : Text}
    (h : Matching model state temp read held []) (hheld : held ≠ []) (hwritten : '<' ∉ written)
    (hne : written ≠ []) (htext : text ++ held = s ++ '<' :: '/' :: written) :
    text = s ∧ temp = written ∧ state = model.endTagName ∧ model ≠ .doubleEscaped := by
  have hslash : '<' ∉ '/' :: written := by simpa using hwritten
  cases h with
  | lessThan hmodel =>
    have hsame := append_lessThan_inj htext nofun hslash
    cases hsame.2
  | endTagOpen hmodel =>
    have hsame := append_lessThan_inj htext (by decide) hslash
    exact absurd (List.cons.inj hsame.2).2.symm hne
  | endTagName hmodel hletters =>
    have hnot : '<' ∉ '/' :: temp := by
      simp only [List.mem_cons, not_or]
      exact ⟨by decide, fun hmem => absurd (hletters _ hmem) (by decide)⟩
    obtain ⟨rfl, hsame⟩ := append_lessThan_inj htext hnot hslash
    exact ⟨rfl, (List.cons.inj hsame).2, rfl, hmodel⟩
  | _ => exact absurd rfl hheld

/-- Markup without a `&` behind a text adds no reference. -/
theorem Unreferenced.append_lessThan {markup more behind : Text} (h : Unreferenced s) (hmarkup : '&' ∉ markup)
    (hbehind : '&' :: behind <:+ s ++ '<' :: markup) : startsReference (behind ++ more) = false := by
  obtain ⟨front, hfront⟩ := hbehind
  rcases List.append_eq_append_iff.mp hfront with ⟨gap, hs, hgap⟩ | ⟨gap, -, hgap⟩
  · cases gap with
    | nil => cases hgap
    | cons ch gap =>
      obtain ⟨rfl, rfl⟩ := List.cons.inj hgap
      change startsReference (gap ++ '<' :: markup ++ more) = false
      rw [List.append_assoc, List.cons_append]
      exact startsReference_lessThan (h gap ⟨front, hs.symm⟩) _
  · refine absurd ?_ hmarkup
    have hmem : '&' ∈ '<' :: markup := hgap ▸ List.mem_append_right _ List.mem_cons_self
    exact (List.mem_cons.mp hmem).resolve_left (by decide)

/-- The end of the tag of the element. -/
theorem advance_endTag {model : ContentModel} {d : Draining} {text written rest : Text}
    (hregisters : d.registers = rawRegisters scriptingEnabled element.name written)
    (hstate : d.state = model.endTagName) (hmodel : model ≠ .doubleEscaped)
    (hbuffer : d.output.textBuffer = ⟨.scalar text⟩) (htokens : d.output.tokens = [])
    (hwritten : Text.toAsciiLowercase written = element.name) :
    (d.advance (.scalar '>') (rest.map .scalar)).2 = rest.map .scalar ∧
      (freshDraining scriptingEnabled).Behind (flushText ⟨.scalar text⟩ ++ [.endTag element.name])
        (d.advance (.scalar '>') (rest.map .scalar)).1 := by
  have happropriate : Text.eqIgnoreAsciiCase written element.name = true := by
    rw [Text.eqIgnoreAsciiCase_iff, hwritten, element.name_lower]
  have hturn : rawEndTagNameStep model.endTagName model.content
      (rawRegisters scriptingEnabled element.name written) '>' =
        ⟨.data, rawRegisters scriptingEnabled element.name [], [.flush, .token (.endTag element.name)],
          false⟩ := by
    simp [rawEndTagNameStep, rawRegisters, happropriate, hwritten, isHtmlWhitespace]
  have hstep : step d.state d.registers (.scalar '>') (rest.map .scalar) =
      ⟨.data, rawRegisters scriptingEnabled element.name [], [.flush, .token (.endTag element.name)],
        rest.map .scalar⟩ := by
    have hover : step d.state d.registers (.scalar '>') (rest.map .scalar) =
        (rawEndTagNameStep model.endTagName model.content d.registers '>').over (.scalar '>')
          (rest.map .scalar) := by
      rw [hstate]
      cases model with
      | doubleEscaped => exact absurd rfl hmodel
      | _ => rfl
    rw [hover, hregisters, hturn]
    rfl
  rw [Draining.advance, hstep]
  refine ⟨rfl, rfl, .named element.name rfl, rfl, ?_⟩
  simp only [Output.emitAll, List.foldl_cons, List.foldl_nil, Output.emit, hbuffer, htokens,
    List.nil_append]
  exact (List.append_nil _).symm

/-- A text without an end tag, and the end tag behind it. -/
theorem readAs_endTag {written rest : Text} (hclear : element.model.Unclosed element.name s)
    (hreference : element.model = .rcData → Unreferenced s)
    (hbehind : element.model.behind s ≠ .doubleEscaped)
    (hwritten : Text.toAsciiLowercase written = element.name) :
    ReadAs (tokenizeFragmentWithErrors scriptingEnabled (s ++ endTagSource written ++ rest) element.name).1
      s (.endTag element.name :: (tokenizeWithErrors scriptingEnabled rest).1) := by
  have hletters : ∀ ch ∈ written, ch.isAlpha = true := by
    intro ch hch
    refine isAlpha_of_toLower (element.name_isAlpha ch.toLower ?_)
    rw [← hwritten]
    exact List.mem_map_of_mem hch
  have hne : written ≠ [] := by
    rintro rfl
    cases element <;> cases hwritten
  have hnot : '<' ∉ written := fun hmem => absurd (hletters _ hmem) (by decide)
  have hclear' : element.model.Unclosed element.name (s ++ '<' :: '/' :: written) := by
    refine ContentModel.unclosed_append_lessThan element.name_isAlpha hclear ⟨fun _ => ?_, ?_⟩
    · exact namesTag_of_isAlpha hletters
    · exact ContentModel.unclosed_of_notMem (by simpa using hnot)
  have hopen : element.model.OpenEnded (s ++ '<' :: '/' :: written) :=
    ContentModel.openEnded_append_lessThan (.inl ⟨hbehind, List.all_eq_true.mpr hletters⟩)
  obtain ⟨d, model, read, held, text, hleads, hinside, htext, hheld⟩ :=
    @reads_element scriptingEnabled element (s ++ '<' :: '/' :: written) ('>' :: rest) hclear'
      fun hmodel behind hbehind => (hreference hmodel).append_lessThan
        (by simpa using fun hmem => absurd (hletters _ hmem) (by decide)) hbehind
  obtain ⟨temp, hregisters, hmatching⟩ := hinside.matching
  obtain ⟨rfl, rfl, hstate, hmodel⟩ := hmatching.endTagName_inv (hheld.mp hopen) hnot hne htext
  obtain ⟨hrest, hfresh⟩ :=
    @advance_endTag _ _ _ _ _ _ rest hregisters hstate hmodel hinside.buffer hinside.tokens hwritten
  have hlast := @Leads.advance d (.scalar '>') (rest.map .scalar)
  rw [hrest] at hlast
  have hsource : text ++ endTagSource temp ++ rest = text ++ '<' :: '/' :: temp ++ '>' :: rest := by
    simp [endTagSource]
  have hloop := (hleads.trans hlast).drainLoop_eq (IncrementalTokenizer.work_lt_passes _ _)
  rw [hsource, tokenizeFragmentWithErrors_tokens, hloop, tokenizeWithErrors_tokens]
  obtain ⟨n, hn⟩ : ∃ n, IncrementalTokenizer.passes
      ((text ++ '<' :: '/' :: temp ++ '>' :: rest).map Utf16.CodePoint.scalar) =
        IncrementalTokenizer.passes (rest.map Utf16.CodePoint.scalar) + n := by
    refine Nat.exists_eq_add_of_le ?_
    simp only [IncrementalTokenizer.passes, List.length_map, List.length_append, List.length_cons]
    omega
  have hrun := IncrementalTokenizer.finalTokens_behind (@drainLoop_behind _
    (IncrementalTokenizer.passes (rest.map Utf16.CodePoint.scalar) + n) _ _ (rest.map .scalar) hfresh)
  rw [hn, hrun, drainLoop_more _ (freshDraining scriptingEnabled) _ n
    (IncrementalTokenizer.work_lt_passes _ _), List.append_assoc, List.singleton_append]
  exact readAs_flush.mpr rfl

end

/-- A text without references and without an end tag of its element is read as it is, if and only if no
`<`, `</` or `</` and letters are at its end, outside of text that is escaped twice.  With the end tag
behind it, outside of text that is escaped twice, it is always read as it is, followed by the end tag and the
tokens of the rest. -/
theorem rawText_verbatim_iff (scriptingEnabled : Bool) (element : RawTextElement) (s : Text)
    (hclear : element.model.Unclosed element.name s)
    (hreference : element.model = .rcData → Unreferenced s) :
    (ReadAs (tokenizeFragmentWithErrors scriptingEnabled s element.name).1 s [.eof] ↔
      ¬ element.model.OpenEnded s) ∧
    (element.model.behind s ≠ .doubleEscaped → ∀ written rest,
      Text.toAsciiLowercase written = element.name →
        ReadAs (tokenizeFragmentWithErrors scriptingEnabled (s ++ endTagSource written ++ rest)
          element.name).1 s (.endTag element.name :: (tokenizeWithErrors scriptingEnabled rest).1)) :=
  ⟨readAs_alone_iff hclear hreference,
    fun hbehind _ _ hwritten => readAs_endTag hclear hreference hbehind hwritten⟩

/-- The text `a<b` of a title. -/
theorem rawText_verbatim_title :
    (ReadAs (tokenizeFragmentWithErrors true "a<b".toList "title".toList).1 "a<b".toList [.eof] ↔
      ¬ ContentModel.rcData.OpenEnded "a<b".toList) ∧
    (ContentModel.rcData.behind "a<b".toList ≠ .doubleEscaped → ∀ written rest,
      Text.toAsciiLowercase written = "title".toList →
        ReadAs (tokenizeFragmentWithErrors true ("a<b".toList ++ endTagSource written ++ rest)
          "title".toList).1 "a<b".toList
            (.endTag "title".toList :: (tokenizeWithErrors true rest).1)) := by
  refine rawText_verbatim_iff true .title "a<b".toList ?_ fun _ behind hbehind => ?_
  · simp [ContentModel.Unclosed, closesTag]
  · exact absurd (hbehind.subset List.mem_cons_self) (by decide)

/-- Of the text `a<` in a `style` the `<` is lost. -/
theorem lessThan_lost_at_end :
    RawTextElement.style.model.Unclosed "style".toList "a<".toList ∧ Unreferenced "a<".toList ∧
      ¬ ReadAs (tokenizeFragmentWithErrors true "a<".toList "style".toList).1 "a<".toList [.eof] := by
  refine ⟨by simp [ContentModel.Unclosed, closesTag], fun behind hbehind => ?_, fun hread => ?_⟩
  · exact absurd (hbehind.subset List.mem_cons_self) (by decide)
  · have htokens : (tokenizeFragmentWithErrors true "a<".toList "style".toList).1 =
        flushText ⟨.scalar "a".toList⟩ ++ [.eof] := by decide
    rw [htokens, readAs_flush] at hread
    cases hread

end Omoikane.Html
