import Omoikane.Html.Lookahead
import Omoikane.Html.StartTags

/-!
# Raw text

The content of `script`, `style`, `xmp`, `noembed`, `noframes`, `title` and `textarea` is text up to
the end tag of the element.  `ContentModel` says what such a text is read as, and `switch` what changes it:
in a script `<!--` starts escaped text, where `<script` starts text that is escaped twice.

The tokenizer has four states for each content model, and more for what begins and ends escaped text.
Each of them has read the start of some markup, which it may have written already or still hold back.
`Matching` lists them, and `Matching.follows` is what one pass does: held back text is written
or stays held back, and what is in front of the tokenizer reads alike before and after.
-/

namespace Omoikane.Html

open Base

/-! ## What the text is -/

/-- What the text of an element is read as. -/
inductive ContentModel
  | rawText
  | rcData
  | script
  /-- Behind `<!--` in a script. -/
  | escaped
  /-- Behind `<script` in escaped text. -/
  | doubleEscaped
deriving DecidableEq, Repr

/-- A character that ends the name of a tag. -/
def isNameDelimiter (ch : Char) : Bool := isHtmlWhitespace ch || ch == '/' || ch == '>'

/-- A name in any case stands here, and ends. -/
def namesTag : Text → Text → Bool
  | [], ch :: _ => isNameDelimiter ch
  | letter :: name, ch :: s => ch.toLower == letter && namesTag name s
  | _, [] => false

/-- An end tag of a name starts here. -/
def closesTag (name : Text) : Text → Bool
  | '<' :: '/' :: s => namesTag name s
  | _ => false

/-- The text is a `<`, or `</` and letters: more of an end tag may follow. -/
def isOpenTag : Text → Bool
  | ['<'] => true
  | '<' :: '/' :: s => s.all Char.isAlpha
  | _ => false

namespace ContentModel

/-- The content model behind the first character. -/
def switch (model : ContentModel) (s : Text) : ContentModel :=
  match model with
  | rawText => rawText
  | rcData => rcData
  | script => if "<!--".toList.isPrefixOf s then escaped else script
  | escaped =>
    if "-->".toList.isPrefixOf s then script
    else if "<".toList.isPrefixOf s && namesTag "script".toList s.tail then doubleEscaped
    else escaped
  | doubleEscaped =>
    if "-->".toList.isPrefixOf s then script
    else if closesTag "script".toList s then escaped
    else doubleEscaped

/-- The content model behind a text. -/
def behind : ContentModel → Text → ContentModel
  | model, [] => model
  | model, ch :: s => behind (model.switch (ch :: s)) s

/-- There is no end tag of a name outside of text that is escaped twice. -/
def Unclosed (name : Text) : ContentModel → Text → Prop
  | _, [] => True
  | model, ch :: s =>
    (model ≠ doubleEscaped → closesTag name (ch :: s) = false) ∧
      Unclosed name (model.switch (ch :: s)) s

/-- The text ends in what may open an end tag, outside of text that is escaped twice. -/
def OpenEnded : ContentModel → Text → Prop
  | _, [] => False
  | model, ch :: s =>
    (model ≠ doubleEscaped ∧ isOpenTag (ch :: s) = true) ∨ OpenEnded (model.switch (ch :: s)) s

/-- Two texts read alike. -/
structure Alike (name : Text) (model : ContentModel) (s : Text) (model' : ContentModel) (s' : Text) :
    Prop where
  behind : model.behind s = model'.behind s'
  unclosed : model.Unclosed name s → model'.Unclosed name s'
  openEnded : model.OpenEnded s ↔ model'.OpenEnded s'

namespace Alike

variable {name s s' s'' : Text} {model model' model'' : ContentModel} {ch : Char}

theorem refl : Alike name model s model s := ⟨rfl, id, Iff.rfl⟩

theorem trans (h : Alike name model s model' s') (h' : Alike name model' s' model'' s'') :
    Alike name model s model'' s'' :=
  ⟨h.behind.trans h'.behind, fun hs => h'.unclosed (h.unclosed hs), h.openEnded.trans h'.openEnded⟩

/-- The first character is passed, if it opens no end tag at the end of the text. -/
theorem skip (hopen : model ≠ doubleEscaped → isOpenTag (ch :: s) = false) :
    Alike name model (ch :: s) (model.switch (ch :: s)) s where
  behind := rfl
  unclosed h := h.2
  openEnded := by
    refine ⟨fun h => h.resolve_left ?_, .inr⟩
    rintro ⟨hmodel, htag⟩
    rw [hopen hmodel] at htag
    cases htag

end Alike

/-! ## Passing over characters -/

variable {name s : Text} {model : ContentModel} {ch : Char}

theorem isOpenTag_of_ne (h : ch ≠ '<') : isOpenTag (ch :: s) = false := by
  unfold isOpenTag
  split <;> simp_all

theorem closesTag_of_ne (h : ch ≠ '<') : closesTag name (ch :: s) = false := by
  unfold closesTag
  split <;> simp_all

/-- Outside of escaped text only a `<` changes anything. -/
theorem switch_of_ne (h : ch ≠ '<') (hdash : ch = '-' → model ≠ escaped ∧ model ≠ doubleEscaped) :
    model.switch (ch :: s) = model := by
  have hlt : ¬ '<' = ch := Ne.symm h
  cases model with
  | rawText | rcData => rfl
  | script => simp [switch, hlt]
  | escaped =>
    have hne : ¬ '-' = ch := fun heq => (hdash heq.symm).1 rfl
    simp [switch, hlt, hne]
  | doubleEscaped =>
    have hne : ¬ '-' = ch := fun heq => (hdash heq.symm).2 rfl
    rw [switch, closesTag_of_ne h]
    simp [hne]

/-- A dash is passed if it does not end escaped text. -/
theorem switch_dash (h : "->".toList.isPrefixOf s = false) : model.switch ('-' :: s) = model := by
  have hend : "-->".toList.isPrefixOf ('-' :: s) = false := h
  cases model with
  | rawText | rcData | script => rfl
  | escaped =>
    rw [switch, hend]
    rfl
  | doubleEscaped =>
    rw [switch, hend, closesTag_of_ne (by decide)]
    rfl

namespace Alike

theorem passChar (h : ch ≠ '<') (hdash : ch = '-' → model ≠ escaped ∧ model ≠ doubleEscaped) :
    Alike name model (ch :: s) model s := by
  have hskip := @skip name s model ch fun _ => isOpenTag_of_ne h
  rwa [switch_of_ne h hdash] at hskip

theorem passDash (h : "->".toList.isPrefixOf s = false) : Alike name model ('-' :: s) model s := by
  have hskip := @skip name s model '-' fun _ => isOpenTag_of_ne (by decide)
  rwa [switch_dash h] at hskip

theorem passLetters : ∀ {letters : Text}, (∀ ch ∈ letters, ch.isAlpha = true) →
    Alike name model (letters ++ s) model s
  | [], _ => refl
  | ch :: letters, h => by
    have hch : ch.isAlpha = true := h ch List.mem_cons_self
    have hne : ch ≠ '<' := by rintro rfl; cases hch
    have hdash : ch ≠ '-' := by rintro rfl; cases hch
    exact (passChar hne fun heq => absurd heq hdash).trans
      (passLetters fun other hother => h other (List.mem_cons_of_mem _ hother))

end Alike

end ContentModel

/-! ## Names -/

theorem isNameDelimiter_of_isAlpha {ch : Char} (h : ch.isAlpha = true) : isNameDelimiter ch = false := by
  have hnot : ∀ other ∈ ['\t', '\n', '\x0C', '\r', ' ', '/', '>'], other.isAlpha = false :=
    List.forall_iff_forall_mem.mp (by decide)
  have hne : ∀ other ∈ ['\t', '\n', '\x0C', '\r', ' ', '/', '>'], ch ≠ other := by
    rintro other hother rfl
    rw [hnot ch hother] at h
    cases h
  simp only [List.forall_mem_cons, List.not_mem_nil, false_implies, implies_true, and_true] at hne
  simp [isNameDelimiter, isHtmlWhitespace, hne]

theorem script_isAlpha : ∀ ch ∈ "script".toList, ch.isAlpha = true :=
  List.forall_iff_forall_mem.mp (by decide)

/-- A name is compared with the letters in front of a character that is none. -/
theorem namesTag_letters {ch : Char} (hch : ch.isAlpha = false) (rest : Text) :
    ∀ {name letters : Text}, (∀ ch ∈ name, ch.isAlpha = true) → (∀ ch ∈ letters, ch.isAlpha = true) →
      namesTag name (letters ++ ch :: rest) =
        (Text.toAsciiLowercase letters == name && isNameDelimiter ch)
  | [], [], _, _ => rfl
  | [], other :: letters, _, h => isNameDelimiter_of_isAlpha (h other List.mem_cons_self)
  | letter :: name, [], hname, _ => by
    have hne : ch.toLower ≠ letter := by
      intro heq
      have hletter := hname letter List.mem_cons_self
      rw [← heq] at hletter
      rw [isAlpha_of_toLower hletter] at hch
      cases hch
    rw [List.nil_append, namesTag, beq_false_of_ne hne]
    rfl
  | letter :: name, other :: letters, hname, h => by
    have ih := namesTag_letters hch rest (fun x hx => hname x (List.mem_cons_of_mem _ hx))
      (fun x hx => h x (List.mem_cons_of_mem _ hx))
    rw [List.cons_append, namesTag, ih, ← Bool.and_assoc]
    rfl

/-! ## Passing over markup that is none -/

namespace ContentModel

variable {name letters s : Text} {model : ContentModel} {ch : Char}

theorem isOpenTag_lessThan (h : ch ≠ '/') : isOpenTag ('<' :: ch :: s) = false := by
  unfold isOpenTag
  split <;> simp_all

theorem isOpenTag_ended (hch : ch.isAlpha = false) :
    isOpenTag ('<' :: '/' :: (letters ++ ch :: s)) = false := by
  rw [isOpenTag, List.all_append, List.all_cons, hch, Bool.false_and, Bool.and_false]

/-- Behind `<` and a character that is no slash. -/
theorem switch_lessThan (h : ch ≠ '/') (hbang : model = script → "!--".toList.isPrefixOf (ch :: s) = false)
    (hname : model = escaped → namesTag "script".toList (ch :: s) = false) :
    model.switch ('<' :: ch :: s) = model := by
  cases model with
  | rawText | rcData => rfl
  | script =>
    have hnone : "<!--".toList.isPrefixOf ('<' :: ch :: s) = false := hbang rfl
    rw [switch, hnone]
    rfl
  | escaped =>
    rw [switch, List.tail_cons, hname rfl]
    rfl
  | doubleEscaped =>
    have hclose : closesTag "script".toList ('<' :: ch :: s) = false := by
      unfold closesTag
      split <;> simp_all
    rw [switch, hclose]
    rfl

/-- An end tag changes nothing but text that is escaped twice. -/
theorem switch_slash (h : model ≠ doubleEscaped) : model.switch ('<' :: '/' :: s) = model := by
  cases model with
  | doubleEscaped => exact absurd rfl h
  | _ => rfl

namespace Alike

theorem passLessThan (h : ch ≠ '/') (hbang : model = script → "!--".toList.isPrefixOf (ch :: s) = false)
    (hname : model = escaped → namesTag "script".toList (ch :: s) = false) :
    Alike name model ('<' :: ch :: s) model (ch :: s) := by
  have hskip := @skip name (ch :: s) model '<' fun _ => isOpenTag_lessThan h
  rwa [switch_lessThan h hbang hname] at hskip

/-- A dash that no dash is behind is passed. -/
theorem passDashChar (h : ch ≠ '-') : Alike name model ('-' :: ch :: s) model (ch :: s) :=
  passDash (Bool.and_eq_false_iff.mpr (.inl (beq_false_of_ne (Ne.symm h))))

theorem passDashes (h : ch ≠ '-') (hgreater : ch ≠ '>') :
    Alike name model ('-' :: '-' :: ch :: s) model (ch :: s) := by
  have hfirst : Alike name model ('-' :: '-' :: ch :: s) model ('-' :: ch :: s) :=
    passDash (Bool.and_eq_false_iff.mpr
      (.inr (Bool.and_eq_false_iff.mpr (.inl (beq_false_of_ne (Ne.symm hgreater))))))
  exact hfirst.trans (passDashChar h)

/-- Escaped text ends. -/
theorem endEscape (h : model = escaped ∨ model = doubleEscaped) :
    Alike name model ('-' :: '-' :: '>' :: s) script s := by
  have hswitch : model.switch ('-' :: '-' :: '>' :: s) = script := by
    rcases h with rfl | rfl <;> rfl
  have hskip := @skip name ('-' :: '>' :: s) model '-' fun _ => isOpenTag_of_ne (by decide)
  rw [hswitch] at hskip
  have hdash : Alike name script ('-' :: '>' :: s) script ('>' :: s) := passDashChar (by decide)
  exact hskip.trans (hdash.trans (passChar (by decide) nofun))

/-- What looks like an end tag is text if its name has ended. -/
theorem passSlash (hmodel : model ≠ doubleEscaped) (hch : ch.isAlpha = false)
    (hletters : ∀ ch ∈ letters, ch.isAlpha = true) :
    Alike name model ('<' :: '/' :: (letters ++ ch :: s)) model (ch :: s) := by
  have hskip := @skip name ('/' :: (letters ++ ch :: s)) model '<' fun _ => isOpenTag_ended hch
  rw [switch_slash hmodel] at hskip
  have hslash : Alike name model ('/' :: (letters ++ ch :: s)) model (letters ++ ch :: s) :=
    passChar (by decide) nofun
  exact hskip.trans (hslash.trans (passLetters hletters))

end Alike

end ContentModel

/-! ## The states -/

namespace ContentModel

/-- The state that reads the text. -/
def content : ContentModel → State
  | rawText => .rawText
  | rcData => .rcData
  | script => .scriptData
  | escaped => .scriptDataEscaped
  | doubleEscaped => .scriptDataDoubleEscaped

/-- Behind `<`. -/
def lessThan : ContentModel → State
  | rawText => .rawTextLessThanSign
  | rcData => .rcDataLessThanSign
  | script => .scriptDataLessThanSign
  | escaped => .scriptDataEscapedLessThanSign
  | doubleEscaped => .scriptDataDoubleEscapedLessThanSign

/-- Behind `</`. -/
def endTagOpen : ContentModel → State
  | rawText => .rawTextEndTagOpen
  | rcData => .rcDataEndTagOpen
  | script => .scriptDataEndTagOpen
  | escaped => .scriptDataEscapedEndTagOpen
  | doubleEscaped => .scriptDataDoubleEscapeEnd

/-- Behind `</` and letters. -/
def endTagName : ContentModel → State
  | rawText => .rawTextEndTagName
  | rcData => .rcDataEndTagName
  | script => .scriptDataEndTagName
  | escaped => .scriptDataEscapedEndTagName
  | doubleEscaped => .scriptDataDoubleEscapeEnd

end ContentModel

/-- `Matching model state temp read held rest`: in front of `rest` the state, with its temporary buffer,
has read `read` since the text was last read as `model`, and has not written the part `held` of it. -/
inductive Matching : ContentModel → State → Text → Text → Text → Text → Prop
  | content (model : ContentModel) {temp rest : Text} : Matching model model.content temp [] [] rest
  | lessThan {model : ContentModel} {temp rest : Text} (h : model ≠ .doubleEscaped) :
      Matching model model.lessThan temp ['<'] ['<'] rest
  | endTagOpen {model : ContentModel} {temp rest : Text} (h : model ≠ .doubleEscaped) :
      Matching model model.endTagOpen temp ['<', '/'] ['<', '/'] rest
  | endTagName {model : ContentModel} {temp rest : Text} (h : model ≠ .doubleEscaped)
      (hletters : ∀ ch ∈ temp, ch.isAlpha = true) :
      Matching model model.endTagName temp ('<' :: '/' :: temp) ('<' :: '/' :: temp) rest
  | escapeStart {temp rest : Text} :
      Matching .script .scriptDataEscapeStart temp ['<', '!'] [] rest
  | escapeStartDash {temp rest : Text} :
      Matching .script .scriptDataEscapeStartDash temp ['<', '!', '-'] [] rest
  | escapedDash {temp rest : Text} : Matching .escaped .scriptDataEscapedDash temp ['-'] [] rest
  | escapedDashDash {temp rest : Text} :
      Matching .escaped .scriptDataEscapedDashDash temp ['-', '-'] [] rest
  /-- A letter is read, or about to be. -/
  | doubleEscapeStart {letters rest : Text} (hletters : ∀ ch ∈ letters, ch.isAlpha = true)
      (hfirst : letters = [] → rest.head?.any Char.isAlpha = true) :
      Matching .escaped .scriptDataDoubleEscapeStart (Text.toAsciiLowercase letters) ('<' :: letters) []
        rest
  | doubleEscapedDash {temp rest : Text} :
      Matching .doubleEscaped .scriptDataDoubleEscapedDash temp ['-'] [] rest
  | doubleEscapedDashDash {temp rest : Text} :
      Matching .doubleEscaped .scriptDataDoubleEscapedDashDash temp ['-', '-'] [] rest
  | doubleEscapedLessThan {temp rest : Text} :
      Matching .doubleEscaped .scriptDataDoubleEscapedLessThanSign temp ['<'] [] rest
  | doubleEscapeEnd {letters rest : Text} (hletters : ∀ ch ∈ letters, ch.isAlpha = true) :
      Matching .doubleEscaped .scriptDataDoubleEscapeEnd (Text.toAsciiLowercase letters)
        ('<' :: '/' :: letters) [] rest

/-! ## What is written -/

namespace Emit

/-- The scalar values that are written. -/
def scalars : Emit → Text
  | push value => [value]
  | pushStr value => value
  | pushCodePoint (.scalar value) => [value]
  | _ => []

/-- Writes scalar values to the text buffer, or an error. -/
def isScalar : Emit → Bool
  | push _ | pushStr _ | pushCodePoint (.scalar _) | error _ => true
  | _ => false

end Emit

theorem emit_scalar {output : Output} {emit : Emit} {held : Text} (h : emit.isScalar = true)
    (hbuffer : output.textBuffer = ⟨.scalar held⟩) :
    (output.emit emit).textBuffer = ⟨.scalar (held ++ emit.scalars)⟩ ∧
      (output.emit emit).tokens = output.tokens := by
  cases emit with
  | push value | pushStr value => exact ⟨by rw [Output.emit, hbuffer]; rfl, rfl⟩
  | pushCodePoint point =>
    cases point with
    | scalar value =>
      refine ⟨?_, rfl⟩
      rw [Output.emit]
      dsimp only
      rw [hbuffer]
      rfl
    | surrogate unit => cases h
  | error error => exact ⟨hbuffer.trans (by simp [Emit.scalars]), rfl⟩
  | flush | token token => cases h

theorem emitAll_scalar {emits : List Emit} : ∀ {output : Output} {held : Text},
    (∀ emit ∈ emits, emit.isScalar = true) → output.textBuffer = ⟨.scalar held⟩ →
      (output.emitAll emits).textBuffer = ⟨.scalar (held ++ emits.flatMap Emit.scalars)⟩ ∧
        (output.emitAll emits).tokens = output.tokens := by
  induction emits with
  | nil =>
    intro output held _ hbuffer
    exact ⟨hbuffer.trans (by rw [List.flatMap_nil, List.append_nil]), rfl⟩
  | cons emit emits ih =>
    intro output held h hbuffer
    obtain ⟨hfirst, htokens⟩ := emit_scalar (h emit List.mem_cons_self) hbuffer
    obtain ⟨hrest, htokens'⟩ := ih (fun other hother => h other (List.mem_cons_of_mem _ hother)) hfirst
    refine ⟨?_, htokens'.trans htokens⟩
    rw [List.flatMap_cons, ← List.append_assoc]
    exact hrest

/-! ## One pass -/

/-- The registers inside the text of an element. -/
def rawRegisters (scriptingEnabled : Bool) (name temp : Text) : Registers :=
  { scriptingEnabled, lastStartTagName := name, tempBuffer := temp }

section

variable {scriptingEnabled : Bool} {name : Text}

/-- A pass leads from one matching to another: what it writes and what is held back then is what was
held back before and what is read, and everything reads alike. -/
def Follows (scriptingEnabled : Bool) (name : Text) (model : ContentModel) (read held : Text) (ch : Char)
    (rest : Text) (turn : Turn) : Prop :=
  ∃ model' temp' read' held' rest', rest' = (if turn.reconsume then ch :: rest else rest) ∧
    turn.registers = rawRegisters scriptingEnabled name temp' ∧
    (∀ emit ∈ turn.emits, emit.isScalar = true) ∧
    turn.emits.flatMap Emit.scalars ++ held' ++ rest' = held ++ ch :: rest ∧
    Matching model' turn.state temp' read' held' rest' ∧
    ContentModel.Alike name model (read ++ ch :: rest) model' (read' ++ rest')

variable {model model' : ContentModel} {state' : State} {temp temp' read read' held held' rest : Text}
  {ch : Char} {emits : List Emit}

theorem Follows.consumed (hemits : ∀ emit ∈ emits, emit.isScalar = true)
    (htext : emits.flatMap Emit.scalars ++ held' = held ++ [ch])
    (hmatching : Matching model' state' temp' read' held' rest)
    (halike : ContentModel.Alike name model (read ++ ch :: rest) model' (read' ++ rest)) :
    Follows scriptingEnabled name model read held ch rest
      ⟨state', rawRegisters scriptingEnabled name temp', emits, false⟩ := by
  refine ⟨model', temp', read', held', rest, rfl, rfl, hemits, ?_, hmatching, halike⟩
  rw [htext, List.append_assoc]
  rfl

theorem Follows.reconsumed (hemits : ∀ emit ∈ emits, emit.isScalar = true)
    (htext : emits.flatMap Emit.scalars ++ held' = held)
    (hmatching : Matching model' state' temp' read' held' (ch :: rest))
    (halike : ContentModel.Alike name model (read ++ ch :: rest) model' (read' ++ ch :: rest)) :
    Follows scriptingEnabled name model read held ch rest
      ⟨state', rawRegisters scriptingEnabled name temp', emits, true⟩ :=
  ⟨model', temp', read', held', ch :: rest, rfl, rfl, hemits, by rw [htext], hmatching, halike⟩

open ContentModel (Alike)

theorem follows_content (model : ContentModel) : Follows scriptingEnabled name model [] [] ch rest
    (stepPoint model.content (rawRegisters scriptingEnabled name temp) (.scalar ch)) := by
  have hcopied (hlt : ch ≠ '<') (hdash : ch = '-' → model ≠ .escaped ∧ model ≠ .doubleEscaped) :
      Follows scriptingEnabled name model [] [] ch rest
        ⟨model.content, rawRegisters scriptingEnabled name temp, [.pushCodePoint (.scalar ch)], false⟩ :=
    .consumed (List.forall_mem_singleton.mpr rfl) rfl (.content model) (.passChar hlt hdash)
  have hmarkup (hmodel : model ≠ .doubleEscaped) : Follows scriptingEnabled name model [] [] '<' rest
      ⟨model.lessThan, rawRegisters scriptingEnabled name temp, [], false⟩ :=
    .consumed nofun rfl (.lessThan hmodel) .refl
  cases model with
  | rawText | rcData | script =>
    change Follows _ _ _ _ _ _ _ (if ch = '<' then _ else _)
    split
    next hlt => subst hlt; exact hmarkup nofun
    next hlt => exact hcopied hlt fun _ => ⟨nofun, nofun⟩
  | escaped =>
    change Follows _ _ _ _ _ _ _ (if ch = '-' then _ else if ch = '<' then _ else _)
    split
    next hdash => subst hdash; exact .consumed (List.forall_mem_singleton.mpr rfl) rfl .escapedDash .refl
    next hdash =>
    split
    next hlt => subst hlt; exact hmarkup nofun
    next hlt => exact hcopied hlt fun heq => absurd heq hdash
  | doubleEscaped =>
    change Follows _ _ _ _ _ _ _ (if ch = '-' then _ else if ch = '<' then _ else _)
    split
    next hdash =>
      subst hdash
      exact .consumed (List.forall_mem_singleton.mpr rfl) rfl .doubleEscapedDash .refl
    next hdash =>
    split
    next hlt =>
      subst hlt
      exact .consumed (List.forall_mem_singleton.mpr rfl) rfl .doubleEscapedLessThan .refl
    next hlt => exact hcopied hlt fun heq => absurd heq hdash

/-- A `<` that opens nothing is written. -/
theorem follows_lessThanSign (hmodel : model ≠ .doubleEscaped)
    (hbang : model = .script → "!--".toList.isPrefixOf (ch :: rest) = false)
    (hname : model = .escaped → namesTag "script".toList (ch :: rest) = false) :
    Follows scriptingEnabled name model ['<'] ['<'] ch rest
      (lessThanSign model.content model.endTagOpen (rawRegisters scriptingEnabled name temp) ch) := by
  rw [lessThanSign]
  split
  next hslash => subst hslash; exact .consumed nofun rfl (.endTagOpen hmodel) .refl
  next hslash =>
    exact .reconsumed (List.forall_mem_singleton.mpr rfl) rfl (.content model)
      (.passLessThan hslash hbang hname)

theorem follows_lessThan (hmodel : model ≠ .doubleEscaped) :
    Follows scriptingEnabled name model ['<'] ['<'] ch rest
      (stepPoint model.lessThan (rawRegisters scriptingEnabled name temp) (.scalar ch)) := by
  cases model with
  | doubleEscaped => exact absurd rfl hmodel
  | rawText => exact @follows_lessThanSign _ _ .rawText _ _ _ hmodel (fun heq => by cases heq) fun heq => by cases heq
  | rcData => exact @follows_lessThanSign _ _ .rcData _ _ _ hmodel (fun heq => by cases heq) fun heq => by cases heq
  | script =>
    change Follows _ _ _ _ _ _ _ (if ch = '!' then _ else _)
    split
    next hbang => subst hbang; exact .consumed (by simp [Emit.isScalar]) rfl .escapeStart .refl
    next hbang =>
      refine @follows_lessThanSign _ _ .script _ _ _ hmodel (fun _ => ?_) fun heq => by cases heq
      exact Bool.and_eq_false_iff.mpr (.inl (beq_false_of_ne (Ne.symm hbang)))
  | escaped =>
    change Follows _ _ _ _ _ _ _ (if ch.isAlpha then _ else _)
    split
    next halpha =>
      exact .reconsumed (List.forall_mem_singleton.mpr rfl) rfl
        (@Matching.doubleEscapeStart [] _ (List.forall_mem_nil _) fun _ => halpha) .refl
    next halpha =>
      refine @follows_lessThanSign _ _ .escaped _ _ _ hmodel (fun heq => by cases heq) fun _ => ?_
      exact @namesTag_letters ch (Bool.eq_false_iff.mpr halpha) rest "script".toList [] script_isAlpha
        (List.forall_mem_nil _)

/-- A `</` without a letter behind it is written. -/
theorem follows_endTagOpen (hmodel : model ≠ .doubleEscaped) :
    Follows scriptingEnabled name model ['<', '/'] ['<', '/'] ch rest
      (stepPoint model.endTagOpen (rawRegisters scriptingEnabled name temp) (.scalar ch)) := by
  have hopen : stepPoint model.endTagOpen (rawRegisters scriptingEnabled name temp) (.scalar ch) =
      rawEndTagOpen model.content model.endTagName (rawRegisters scriptingEnabled name temp) ch := by
    cases model with
    | doubleEscaped => exact absurd rfl hmodel
    | _ => rfl
  rw [hopen, rawEndTagOpen]
  split
  next halpha =>
    exact .reconsumed (List.forall_mem_nil _) rfl
      (@Matching.endTagName _ [] _ hmodel (List.forall_mem_nil _)) .refl
  next halpha =>
    exact .reconsumed (by simp [Emit.isScalar]) rfl (.content model)
      (@Alike.passSlash _ [] _ _ _ hmodel (Bool.eq_false_iff.mpr halpha) (List.forall_mem_nil _))

/-- Where the name of the element does not end, a letter is held back too, and anything else gives
everything back. -/
theorem rawEndTagNameStep_of_not {selfState content : State} {r : Registers}
    (h : (Text.eqIgnoreAsciiCase r.tempBuffer r.lastStartTagName && isNameDelimiter ch) = false) :
    rawEndTagNameStep selfState content r ch =
      if ch.isAlpha then ⟨selfState, { r with tempBuffer := r.tempBuffer ++ [ch] }, [], false⟩
      else
        ⟨content, { r with tempBuffer := [] }, [.push '<', .push '/', .pushStr r.tempBuffer], true⟩ := by
  rw [rawEndTagNameStep]
  cases hname : Text.eqIgnoreAsciiCase r.tempBuffer r.lastStartTagName with
  | false => simp
  | true =>
    rw [hname, Bool.true_and, isNameDelimiter, Bool.or_eq_false_iff, Bool.or_eq_false_iff] at h
    have hslash := ne_of_beq_false h.1.2
    have hgreater := ne_of_beq_false h.2
    simp [h.1.1, hslash, hgreater]

/-- The name of another element, or of none, is written. -/
theorem follows_endTagName (hmodel : model ≠ .doubleEscaped) (hletters : ∀ ch ∈ temp, ch.isAlpha = true)
    (hname : ∀ ch ∈ name, ch.isAlpha = true) (hlower : Text.toAsciiLowercase name = name)
    (hclear : model.Unclosed name ('<' :: '/' :: (temp ++ ch :: rest))) :
    Follows scriptingEnabled name model ('<' :: '/' :: temp) ('<' :: '/' :: temp) ch rest
      (stepPoint model.endTagName (rawRegisters scriptingEnabled name temp) (.scalar ch)) := by
  have hstep : stepPoint model.endTagName (rawRegisters scriptingEnabled name temp) (.scalar ch) =
      rawEndTagNameStep model.endTagName model.content (rawRegisters scriptingEnabled name temp) ch := by
    cases model with
    | doubleEscaped => exact absurd rfl hmodel
    | _ => rfl
  have hother : (Text.eqIgnoreAsciiCase temp name && isNameDelimiter ch) = false := by
    cases halpha : ch.isAlpha with
    | true => rw [isNameDelimiter_of_isAlpha halpha, Bool.and_false]
    | false =>
      have hclose : namesTag name (temp ++ ch :: rest) = false := hclear.1 hmodel
      rw [namesTag_letters halpha rest hname hletters] at hclose
      rwa [Text.eqIgnoreAsciiCase, hlower]
  rw [hstep, rawEndTagNameStep_of_not hother]
  split
  next halpha =>
    have hletters' : ∀ other ∈ temp ++ [ch], other.isAlpha = true := by
      simpa [or_imp, forall_and] using ⟨hletters, halpha⟩
    refine .consumed (List.forall_mem_nil _) rfl (.endTagName hmodel hletters') ?_
    simpa [rawRegisters] using Alike.refl
  next halpha =>
    refine .reconsumed (by simp [Emit.isScalar]) (by simp [Emit.scalars, rawRegisters]) (.content model) ?_
    exact .passSlash hmodel (Bool.eq_false_iff.mpr halpha) hletters

/-! ### Escaped text -/

theorem follows_escapeStart : Follows scriptingEnabled name .script ['<', '!'] [] ch rest
    (stepPoint .scriptDataEscapeStart (rawRegisters scriptingEnabled name temp) (.scalar ch)) := by
  change Follows _ _ _ _ _ _ _ (if ch = '-' then _ else _)
  split
  next hdash => subst hdash; exact .consumed (List.forall_mem_singleton.mpr rfl) rfl .escapeStartDash .refl
  next hdash =>
    have hbang : Alike name .script ('<' :: '!' :: ch :: rest) .script ('!' :: ch :: rest) :=
      .passLessThan (by decide)
        (fun _ => Bool.and_eq_false_iff.mpr
          (.inr (Bool.and_eq_false_iff.mpr (.inl (beq_false_of_ne (Ne.symm hdash)))))) nofun
    exact .reconsumed nofun rfl (.content .script) (hbang.trans (.passChar (by decide) nofun))

theorem follows_escapeStartDash : Follows scriptingEnabled name .script ['<', '!', '-'] [] ch rest
    (stepPoint .scriptDataEscapeStartDash (rawRegisters scriptingEnabled name temp) (.scalar ch)) := by
  change Follows _ _ _ _ _ _ _ (if ch = '-' then _ else _)
  split
  next hdash =>
    subst hdash
    have hswitch : Alike name .script ("<!--".toList ++ rest) .escaped ("!--".toList ++ rest) :=
      .skip fun _ => rfl
    have hbang : Alike name .escaped ("!--".toList ++ rest) .escaped ("--".toList ++ rest) :=
      .passChar (by decide) nofun
    exact .consumed (List.forall_mem_singleton.mpr rfl) rfl .escapedDashDash (hswitch.trans hbang)
  next hdash =>
    have hlessThan : Alike name .script ('<' :: '!' :: '-' :: ch :: rest) .script
        ('!' :: '-' :: ch :: rest) :=
      .passLessThan (by decide)
        (fun _ => Bool.and_eq_false_iff.mpr (.inr (Bool.and_eq_false_iff.mpr
          (.inr (Bool.and_eq_false_iff.mpr (.inl (beq_false_of_ne (Ne.symm hdash)))))))) nofun
    have hbang : Alike name .script ('!' :: '-' :: ch :: rest) .script ('-' :: ch :: rest) :=
      .passChar (by decide) nofun
    exact .reconsumed nofun rfl (.content .script)
      (hlessThan.trans (hbang.trans (.passChar (by decide) fun _ => ⟨nofun, nofun⟩)))

theorem follows_escapedDash : Follows scriptingEnabled name .escaped ['-'] [] ch rest
    (stepPoint .scriptDataEscapedDash (rawRegisters scriptingEnabled name temp) (.scalar ch)) := by
  change Follows _ _ _ _ _ _ _ (if ch = '-' then _ else if ch = '<' then _ else _)
  split
  next hdash => subst hdash; exact .consumed (List.forall_mem_singleton.mpr rfl) rfl .escapedDashDash .refl
  next hdash =>
  split
  next hlt => subst hlt; exact .consumed nofun rfl (@Matching.lessThan .escaped _ _ nofun) (.passDash rfl)
  next hlt =>
    exact .consumed (List.forall_mem_singleton.mpr rfl) rfl (.content .escaped)
      ((Alike.passDashChar hdash).trans (.passChar hlt fun heq => absurd heq hdash))

theorem follows_doubleEscapedDash : Follows scriptingEnabled name .doubleEscaped ['-'] [] ch rest
    (stepPoint .scriptDataDoubleEscapedDash (rawRegisters scriptingEnabled name temp) (.scalar ch)) := by
  change Follows _ _ _ _ _ _ _ (if ch = '-' then _ else if ch = '<' then _ else _)
  split
  next hdash =>
    subst hdash
    exact .consumed (List.forall_mem_singleton.mpr rfl) rfl .doubleEscapedDashDash .refl
  next hdash =>
  split
  next hlt =>
    subst hlt
    exact .consumed (List.forall_mem_singleton.mpr rfl) rfl .doubleEscapedLessThan (.passDash rfl)
  next hlt =>
    exact .consumed (List.forall_mem_singleton.mpr rfl) rfl (.content .doubleEscaped)
      ((Alike.passDashChar hdash).trans (.passChar hlt fun heq => absurd heq hdash))

theorem follows_escapedDashDash : Follows scriptingEnabled name .escaped ['-', '-'] [] ch rest
    (stepPoint .scriptDataEscapedDashDash (rawRegisters scriptingEnabled name temp) (.scalar ch)) := by
  change Follows _ _ _ _ _ _ _ (if ch = '-' then _ else if ch = '<' then _ else if ch = '>' then _ else _)
  split
  next hdash =>
    subst hdash
    exact .consumed (List.forall_mem_singleton.mpr rfl) rfl .escapedDashDash (.passDash rfl)
  next hdash =>
  split
  next hlt =>
    subst hlt
    exact .consumed nofun rfl (@Matching.lessThan .escaped _ _ nofun) (.passDashes (by decide) (by decide))
  next hlt =>
  split
  next hgreater =>
    subst hgreater
    exact .consumed (List.forall_mem_singleton.mpr rfl) rfl (.content .script) (.endEscape (.inl rfl))
  next hgreater =>
    exact .consumed (List.forall_mem_singleton.mpr rfl) rfl (.content .escaped)
      ((Alike.passDashes hdash hgreater).trans (.passChar hlt fun heq => absurd heq hdash))

theorem follows_doubleEscapedDashDash : Follows scriptingEnabled name .doubleEscaped ['-', '-'] [] ch rest
    (stepPoint .scriptDataDoubleEscapedDashDash (rawRegisters scriptingEnabled name temp)
      (.scalar ch)) := by
  change Follows _ _ _ _ _ _ _ (if ch = '-' then _ else if ch = '<' then _ else if ch = '>' then _ else _)
  split
  next hdash =>
    subst hdash
    exact .consumed (List.forall_mem_singleton.mpr rfl) rfl .doubleEscapedDashDash (.passDash rfl)
  next hdash =>
  split
  next hlt =>
    subst hlt
    exact .consumed (List.forall_mem_singleton.mpr rfl) rfl .doubleEscapedLessThan
      (.passDashes (by decide) (by decide))
  next hlt =>
  split
  next hgreater =>
    subst hgreater
    exact .consumed (List.forall_mem_singleton.mpr rfl) rfl (.content .script) (.endEscape (.inr rfl))
  next hgreater =>
    exact .consumed (List.forall_mem_singleton.mpr rfl) rfl (.content .doubleEscaped)
      ((Alike.passDashes hdash hgreater).trans (.passChar hlt fun heq => absurd heq hdash))

theorem follows_doubleEscapedLessThan : Follows scriptingEnabled name .doubleEscaped ['<'] [] ch rest
    (stepPoint .scriptDataDoubleEscapedLessThanSign (rawRegisters scriptingEnabled name temp)
      (.scalar ch)) := by
  change Follows _ _ _ _ _ _ _ (if ch = '/' then _ else _)
  split
  next hslash =>
    subst hslash
    exact .consumed (List.forall_mem_singleton.mpr rfl) rfl
      (@Matching.doubleEscapeEnd [] _ (List.forall_mem_nil _)) .refl
  next hslash =>
    exact .reconsumed (List.forall_mem_nil _) rfl (.content .doubleEscaped)
      (.passLessThan hslash (fun heq => by cases heq) fun heq => by cases heq)

/-- The states that look for `script` in escaped text: `mark` is what is in front of the letters. -/
theorem follows_doubleEscape {selfState : State} {target : ContentModel} {mark letters : Text}
    (hdelimiter : isNameDelimiter ch = true → Alike name model (mark ++ letters ++ ch :: rest)
      (if Text.toAsciiLowercase letters = "script".toList then target else model) rest)
    (hletter : ch.isAlpha = true →
      Matching model selfState (Text.toAsciiLowercase (letters ++ [ch])) (mark ++ letters ++ [ch]) [] rest)
    (hother : isNameDelimiter ch = false → ch.isAlpha = false →
      Alike name model (mark ++ letters ++ ch :: rest) model (ch :: rest)) :
    Follows scriptingEnabled name model (mark ++ letters) [] ch rest
      (doubleEscape selfState target.content model.content
        (rawRegisters scriptingEnabled name (Text.toAsciiLowercase letters)) ch) := by
  rw [doubleEscape]
  split
  next hend =>
    have hscript : Text.eqIgnoreAsciiCase (Text.toAsciiLowercase letters) "script".toList = true ↔
        Text.toAsciiLowercase letters = "script".toList := by
      rw [Text.eqIgnoreAsciiCase_iff, Text.toAsciiLowercase_idem]
      exact Iff.rfl
    have hcontent : (if Text.eqIgnoreAsciiCase (Text.toAsciiLowercase letters) "script".toList = true
        then target.content else model.content) =
        (if Text.toAsciiLowercase letters = "script".toList then target else model).content := by
      rw [if_congr hscript rfl rfl]
      split <;> rfl
    change Follows _ _ _ _ _ _ _ ⟨if Text.eqIgnoreAsciiCase (Text.toAsciiLowercase letters)
      "script".toList = true then target.content else model.content, _, _, _⟩
    rw [hcontent]
    exact .consumed (List.forall_mem_singleton.mpr rfl) rfl (.content _) (hdelimiter hend)
  next hend =>
  split
  next halpha =>
    have hlower : Text.toAsciiLowercase letters ++ [ch.toLower] =
        Text.toAsciiLowercase (letters ++ [ch]) := (Text.toAsciiLowercase_append letters [ch]).symm
    change Follows _ _ _ _ _ _ _ ⟨_, rawRegisters _ _ (Text.toAsciiLowercase letters ++ [ch.toLower]), _, _⟩
    rw [hlower]
    refine .consumed (List.forall_mem_singleton.mpr rfl) rfl (hletter halpha) ?_
    simpa using Alike.refl
  next halpha =>
    exact .reconsumed nofun rfl (.content model)
      (hother (Bool.eq_false_iff.mpr hend) (Bool.eq_false_iff.mpr halpha))

theorem isAlpha_of_isNameDelimiter (h : isNameDelimiter ch = true) : ch.isAlpha = false := by
  refine Bool.eq_false_iff.mpr fun halpha => ?_
  rw [isNameDelimiter_of_isAlpha halpha] at h
  cases h

/-- A delimiter of a name is no markup of its own. -/
theorem passDelimiter (h : isNameDelimiter ch = true) : Alike name model (ch :: rest) model rest := by
  have hlt : ch ≠ '<' := by rintro rfl; cases h
  have hdash : ch ≠ '-' := by rintro rfl; cases h
  exact .passChar hlt fun heq => absurd heq hdash

theorem all_isAlpha_append {letters : Text} (hletters : ∀ ch ∈ letters, ch.isAlpha = true)
    (hch : ch.isAlpha = true) : ∀ other ∈ letters ++ [ch], other.isAlpha = true := by
  simpa [or_imp, forall_and] using ⟨hletters, hch⟩

theorem follows_doubleEscapeStart {letters : Text} (hletters : ∀ ch ∈ letters, ch.isAlpha = true)
    (hfirst : letters = [] → (ch :: rest).head?.any Char.isAlpha = true) :
    Follows scriptingEnabled name .escaped ('<' :: letters) [] ch rest
      (stepPoint .scriptDataDoubleEscapeStart
        (rawRegisters scriptingEnabled name (Text.toAsciiLowercase letters)) (.scalar ch)) := by
  have hscript (hch : ch.isAlpha = false) : namesTag "script".toList (letters ++ ch :: rest) =
      (Text.toAsciiLowercase letters == "script".toList && isNameDelimiter ch) :=
    namesTag_letters hch rest script_isAlpha hletters
  -- The `<` is passed: a letter is behind it, so that it opens no end tag.
  have hskip (hch : ch.isAlpha = false) : Alike name .escaped ('<' :: (letters ++ ch :: rest))
      (if (Text.toAsciiLowercase letters == "script".toList && isNameDelimiter ch) = true
        then .doubleEscaped else .escaped) (letters ++ ch :: rest) := by
    have hopen : isOpenTag ('<' :: (letters ++ ch :: rest)) = false := by
      cases letters with
      | nil =>
        have halpha : ch.isAlpha = true := hfirst rfl
        rw [hch] at halpha
        cases halpha
      | cons first letters =>
        refine ContentModel.isOpenTag_lessThan ?_
        rintro rfl
        cases hletters '/' List.mem_cons_self
    have hskip := @Alike.skip name (letters ++ ch :: rest) .escaped '<' fun _ => hopen
    rw [← hscript hch]
    exact hskip
  refine @follows_doubleEscape _ _ _ _ _ _ .doubleEscaped ['<'] _ (fun hend => ?_) (fun halpha => ?_)
    fun hend halpha => ?_
  · have hopened := hskip (isAlpha_of_isNameDelimiter hend)
    rw [hend, Bool.and_true, if_congr beq_iff_eq rfl rfl] at hopened
    exact hopened.trans ((Alike.passLetters hletters).trans (passDelimiter hend))
  · refine .doubleEscapeStart (all_isAlpha_append hletters halpha) fun hnil => ?_
    cases letters <;> cases hnil
  · have hopened := hskip halpha
    rw [hend, Bool.and_false, if_neg Bool.false_ne_true] at hopened
    exact hopened.trans (.passLetters hletters)

theorem follows_doubleEscapeEnd {letters : Text} (hletters : ∀ ch ∈ letters, ch.isAlpha = true) :
    Follows scriptingEnabled name .doubleEscaped ('<' :: '/' :: letters) [] ch rest
      (stepPoint .scriptDataDoubleEscapeEnd
        (rawRegisters scriptingEnabled name (Text.toAsciiLowercase letters)) (.scalar ch)) := by
  have hscript (hch : ch.isAlpha = false) : namesTag "script".toList (letters ++ ch :: rest) =
      (Text.toAsciiLowercase letters == "script".toList && isNameDelimiter ch) :=
    namesTag_letters hch rest script_isAlpha hletters
  have hskip (hch : ch.isAlpha = false) :
      Alike name .doubleEscaped ('<' :: '/' :: (letters ++ ch :: rest))
        (if (Text.toAsciiLowercase letters == "script".toList && isNameDelimiter ch) = true
          then .escaped else .doubleEscaped) (letters ++ ch :: rest) := by
    have hskip := @Alike.skip name ('/' :: (letters ++ ch :: rest)) .doubleEscaped '<'
      fun hmodel => absurd rfl hmodel
    rw [← hscript hch]
    exact hskip.trans (.passChar (by decide) nofun)
  refine @follows_doubleEscape _ _ _ _ _ _ .escaped ['<', '/'] _ (fun hend => ?_) (fun halpha => ?_)
    fun hend halpha => ?_
  · have hopened := hskip (isAlpha_of_isNameDelimiter hend)
    rw [hend, Bool.and_true, if_congr beq_iff_eq rfl rfl] at hopened
    exact hopened.trans ((Alike.passLetters hletters).trans (passDelimiter hend))
  · exact .doubleEscapeEnd (all_isAlpha_append hletters halpha)
  · have hopened := hskip halpha
    rw [hend, Bool.and_false, if_neg Bool.false_ne_true] at hopened
    exact hopened.trans (.passLetters hletters)

/-! ### Any pass -/

/-- A pass inside the text of an element keeps the matching, as long as there is no end tag. -/
theorem Matching.follows {state : State} (h : Matching model state temp read held (ch :: rest))
    (hname : ∀ ch ∈ name, ch.isAlpha = true) (hlower : Text.toAsciiLowercase name = name)
    (hclear : model.Unclosed name (read ++ ch :: rest)) :
    Follows scriptingEnabled name model read held ch rest
      (stepPoint state (rawRegisters scriptingEnabled name temp) (.scalar ch)) := by
  cases h with
  | content model => exact follows_content model
  | lessThan hmodel => exact follows_lessThan hmodel
  | endTagOpen hmodel => exact follows_endTagOpen hmodel
  | endTagName hmodel hletters => exact follows_endTagName hmodel hletters hname hlower hclear
  | escapeStart => exact follows_escapeStart
  | escapeStartDash => exact follows_escapeStartDash
  | escapedDash => exact follows_escapedDash
  | escapedDashDash => exact follows_escapedDashDash
  | doubleEscapeStart hletters hfirst => exact follows_doubleEscapeStart hletters hfirst
  | doubleEscapedDash => exact follows_doubleEscapedDash
  | doubleEscapedDashDash => exact follows_doubleEscapedDashDash
  | doubleEscapedLessThan => exact follows_doubleEscapedLessThan
  | doubleEscapeEnd hletters => exact follows_doubleEscapeEnd hletters

end

end Omoikane.Html
