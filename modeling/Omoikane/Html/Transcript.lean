import Omoikane.Html.Lookahead

/-!
# Transcripts

The tokens of a drain depend on where it was cut off only in how the text is
divided into tokens.  A transcript forgets the division: it is the list of code
points and other tokens written, the list of errors, and the positions behind
the start tags of scripts.

Reading a whole input is a relation between the state before it, the input, the
transcript and the state behind it (`Reads`).  Every run of the loop is a part of
one reading, whatever input follows (`drainLoop_spec`).
-/

namespace Omoikane.Html

open Base

/-! ## Atoms -/

/-- A code point of text, or another token. -/
inductive Atom
  | point (point : InputCodePoint)
  | token (token : Token)

/-- What a token writes. -/
def Token.atoms : Token → List Atom
  | .character data => data.map fun ch => .point (.scalar ch)
  | .surrogate unit => [.point (.surrogate unit)]
  | token => [.token token]

/-- What an emit writes. -/
def Emit.atoms : Emit → List Atom
  | .push value => [.point (.scalar value)]
  | .pushStr value => value.map fun ch => .point (.scalar ch)
  | .pushCodePoint point => [.point point]
  | .flush => []
  | .token t => t.atoms
  | .error _ => []

def Emit.tokens : Emit → List Token
  | .token t => [t]
  | _ => []

def Emit.errors : Emit → List HtmlParseError
  | .error e => [e]
  | _ => []

def Emit.text : Emit → Text
  | .push value => [value]
  | .pushStr value => value
  | _ => []

/-- A token of text. -/
inductive Token.IsText : Token → Prop
  | character {data : Text} : data ≠ [] → IsText (.character data)
  | surrogate {unit : UInt16} : IsText (.surrogate unit)

theorem atoms_of_isMarkup {token : Token} (h : token.isMarkup = true) :
    token.atoms = [.token token] := by
  cases token <;> first | rfl | cases h

/-! ## Flushing -/

theorem splitRuns_atoms (points : List InputCodePoint) : ∀ scalar,
    (splitRuns scalar points).flatMap Token.atoms =
      (scalar.map Utf16.CodePoint.scalar ++ points).map .point := by
  have hrun : ∀ scalar : Text, (if scalar.isEmpty then [] else [Token.character scalar]).flatMap
      Token.atoms = (scalar.map .scalar).map Atom.point := by
    intro scalar
    cases scalar with
    | nil => rfl
    | cons ch scalar => simp [Token.atoms]
  induction points with
  | nil =>
    intro scalar
    rw [List.append_nil]
    exact hrun scalar
  | cons point points ih =>
    intro scalar
    cases point with
    | scalar ch =>
      rw [splitRuns, ih]
      simp
    | surrogate unit =>
      rw [splitRuns, List.flatMap_append, hrun, List.flatMap_cons, ih]
      simp [Token.atoms]

theorem splitRuns_isText (points : List InputCodePoint) : ∀ scalar,
    ∀ token ∈ splitRuns scalar points, token.IsText := by
  have hrun : ∀ scalar : Text, ∀ token ∈ (if scalar.isEmpty then []
      else [Token.character scalar]), token.IsText := by
    intro scalar token htoken
    cases scalar with
    | nil => cases htoken
    | cons ch scalar =>
      rw [List.mem_singleton.mp htoken]
      exact .character (List.cons_ne_nil _ _)
  induction points with
  | nil =>
    intro scalar
    exact hrun scalar
  | cons point points ih =>
    intro scalar token htoken
    cases point with
    | scalar ch => exact ih _ token htoken
    | surrogate unit =>
      rw [splitRuns] at htoken
      rcases List.mem_append.mp htoken with hfront | hbehind
      · exact hrun scalar token hfront
      rcases List.mem_cons.mp hbehind with rfl | hbehind
      · exact .surrogate
      · exact ih [] token hbehind

theorem flushText_spec (buffer : TextBuffer) :
    (flushText buffer).flatMap Token.atoms = (Utf16.decode buffer.units).map .point ∧
      ∀ token ∈ flushText buffer, token.IsText := by
  unfold flushText TextBuffer.take
  cases hempty : buffer.data.isEmpty with
  | true =>
    have hunits : buffer.units = [] := DomString.isEmpty_iff.mp hempty
    rw [hunits]
    exact ⟨rfl, by simp⟩
  | false =>
    have hunits : buffer.units = buffer.data.units := rfl
    rw [hunits]
    cases hdata : buffer.data with
    | scalar value =>
      rw [hdata] at hempty
      refine ⟨?_, ?_⟩
      · simp [DomString.units, Utf16.decode_encodeText, Token.atoms]
      · intro token htoken
        rw [List.mem_singleton.mp htoken]
        refine .character ?_
        rintro rfl
        cases hempty
    | utf16 units =>
      simp only [DomString.units, DomString.fromUtf16, if_false, Bool.false_eq_true]
      cases hscalars : DomString.scalars (Utf16.decode units) with
      | some value =>
        have hdecode := DomString.scalars_eq_some.mp hscalars
        refine ⟨?_, ?_⟩
        · simp [hdecode, Token.atoms]
        · intro token htoken
          rw [List.mem_singleton.mp htoken]
          refine .character ?_
          rintro rfl
          rw [hdata, Utf16.decode_eq_nil.mp hdecode] at hempty
          cases hempty
      | none =>
        refine ⟨?_, splitRuns_isText _ []⟩
        exact splitRuns_atoms _ []

theorem flushText_eq_nil {buffer : TextBuffer} (h : buffer.units = []) : flushText buffer = [] := by
  have hempty : buffer.data.isEmpty = true := DomString.isEmpty_iff.mpr h
  rw [flushText, TextBuffer.take, if_pos hempty]

/-! ## Carrying out the writes of a step -/

/-- The code points and tokens written so far. -/
def Output.atoms (output : Output) : List Atom :=
  output.tokens.flatMap Token.atoms ++ (Utf16.decode output.textBuffer.units).map .point

theorem emitAll_cons (output : Output) (emit : Emit) (emits : List Emit) :
    output.emitAll (emit :: emits) = (output.emit emit).emitAll emits := rfl

theorem emitAll_errors (emits : List Emit) : ∀ output : Output,
    (output.emitAll emits).errors = output.errors ++ emits.flatMap Emit.errors := by
  induction emits with
  | nil =>
    intro output
    exact (List.append_nil _).symm
  | cons emit emits ih =>
    intro output
    rw [emitAll_cons, ih, List.flatMap_cons, ← List.append_assoc]
    congr 1
    cases emit <;> first | rfl | exact (List.append_nil _).symm

/-- Tokens and errors leave the text alone. -/
theorem emitAll_quiet {emits : List Emit} (h : ∀ emit ∈ emits, emit.isQuiet = true) :
    ∀ output : Output, (output.emitAll emits).textBuffer = output.textBuffer ∧
      (output.emitAll emits).tokens = output.tokens ++ emits.flatMap Emit.tokens := by
  induction emits with
  | nil =>
    intro output
    exact ⟨rfl, (List.append_nil _).symm⟩
  | cons emit emits ih =>
    intro output
    have hemit := h emit (List.mem_cons_self ..)
    obtain ⟨htext, htokens⟩ := ih (fun e he => h e (List.mem_cons_of_mem _ he)) (output.emit emit)
    rw [emitAll_cons, htext, htokens, List.flatMap_cons, ← List.append_assoc]
    cases emit with
    | token t => exact ⟨rfl, rfl⟩
    | error e =>
      refine ⟨rfl, ?_⟩
      show output.tokens ++ _ = output.tokens ++ [] ++ _
      rw [List.append_nil]
    | _ => cases hemit

theorem quiet_atoms {emits : List Emit} (h : ∀ emit ∈ emits, emit.isQuiet = true) :
    emits.flatMap Emit.atoms = (emits.flatMap Emit.tokens).flatMap Token.atoms ∧
      ∀ token ∈ emits.flatMap Emit.tokens, token.isMarkup = true := by
  induction emits with
  | nil => exact ⟨rfl, by simp⟩
  | cons emit emits ih =>
    have hemit := h emit (List.mem_cons_self ..)
    obtain ⟨hatoms, hmarkup⟩ := ih (fun e he => h e (List.mem_cons_of_mem _ he))
    rw [List.flatMap_cons, List.flatMap_cons, List.flatMap_append, hatoms]
    cases emit with
    | token t =>
      refine ⟨by simp [Emit.atoms, Emit.tokens], ?_⟩
      intro token htoken
      rcases List.mem_append.mp htoken with hfirst | hrest
      · rw [List.mem_singleton.mp hfirst]
        exact hemit
      · exact hmarkup token hrest
    | error e => exact ⟨rfl, hmarkup⟩
    | _ => cases hemit

theorem tokens_length (emits : List Emit) :
    (emits.flatMap Emit.tokens).length = emits.countP Emit.isToken := by
  induction emits with
  | nil => rfl
  | cons emit emits ih =>
    rw [List.flatMap_cons, List.length_append, ih, List.countP_cons]
    cases emit <;> simp [Emit.tokens, Emit.isToken, Nat.add_comm]

theorem tokens_eq_nil {emits : List Emit} (h : emits.any Emit.isToken = false) :
    emits.flatMap Emit.tokens = [] := by
  apply List.length_eq_zero_iff.mp
  rw [tokens_length, List.countP_eq_zero]
  intro emit hemit htoken
  rw [List.any_eq_true.mpr ⟨emit, hemit, htoken⟩] at h
  cases h

/-- Scalar text goes to the text buffer. -/
theorem emitAll_plain {emits : List Emit} (h : emits.all Emit.isPlain = true) :
    ∀ output : Output,
      (output.emitAll emits).textBuffer.units =
          output.textBuffer.units ++ Utf16.encodeText (emits.flatMap Emit.text) ∧
        (output.emitAll emits).tokens = output.tokens := by
  induction emits with
  | nil =>
    intro output
    exact ⟨(List.append_nil _).symm, rfl⟩
  | cons emit emits ih =>
    intro output
    obtain ⟨hemit, hrest⟩ := Bool.and_eq_true_iff.mp (List.all_cons (f := Emit.isPlain) ▸ h)
    obtain ⟨hunits, htokens⟩ := ih hrest (output.emit emit)
    rw [emitAll_cons, hunits, htokens, List.flatMap_cons, TextBuffer.encodeText_append,
      ← List.append_assoc]
    cases emit with
    | push c =>
      refine ⟨?_, rfl⟩
      congr 1
      rw [Output.emit, TextBuffer.push, TextBuffer.units_pushCodePoint]
      simp [Emit.text, Utf16.encodeText, Utf16.CodePoint.units]
    | pushStr s =>
      refine ⟨?_, rfl⟩
      congr 1
      exact TextBuffer.units_pushStr output.textBuffer s
    | error e =>
      refine ⟨?_, rfl⟩
      congr 1
      exact (List.append_nil _).symm
    | _ => cases hemit

theorem plain_atoms {emits : List Emit} (h : emits.all Emit.isPlain = true) :
    emits.flatMap Emit.atoms = ((emits.flatMap Emit.text).map .scalar).map .point ∧
      emits.flatMap Emit.tokens = [] := by
  induction emits with
  | nil => exact ⟨rfl, rfl⟩
  | cons emit emits ih =>
    obtain ⟨hemit, hrest⟩ := Bool.and_eq_true_iff.mp (List.all_cons (f := Emit.isPlain) ▸ h)
    obtain ⟨hatoms, htokens⟩ := ih hrest
    simp only [List.flatMap_cons, hatoms, htokens, List.map_append, List.append_nil]
    cases emit with
    | push c => exact ⟨rfl, rfl⟩
    | pushStr s => exact ⟨by simp [Emit.atoms, Emit.text], rfl⟩
    | error e => exact ⟨rfl, rfl⟩
    | _ => cases hemit

theorem text_ne_nil {emits : List Emit} (h : emits.any Emit.isText = true) :
    emits.flatMap Emit.text ≠ [] := by
  obtain ⟨emit, hemit, htext⟩ := List.any_eq_true.mp h
  intro hnil
  have hempty := List.flatMap_eq_nil_iff.mp hnil emit hemit
  cases emit with
  | push c => cases hempty
  | pushStr s =>
    have hs : s = [] := hempty
    rw [hs] at htext
    cases htext
  | _ => cases htext

/-- The unflushed text fits the state and the input that remains. -/
structure Fits (mode : Mode) (units : List UInt16) (rest : List InputCodePoint) : Prop where
  markup : mode = .markup → units = []
  content : mode = .content → Utf16.EndsHigh units → ∀ q ∈ rest.head?, q.isLow = false

theorem Fits.empty (mode : Mode) (rest : List InputCodePoint) : Fits mode [] rest := by
  refine ⟨fun _ => rfl, ?_⟩
  rintro _ ⟨u, hu, _⟩
  cases hu

theorem Fits.of_content {units : List UInt16} {rest : List InputCodePoint}
    (h : Utf16.EndsHigh units → ∀ q ∈ rest.head?, q.isLow = false) :
    Fits .content units rest := by
  refine ⟨?_, fun _ => h⟩
  intro hmode
  cases hmode

theorem Fits.held (units : List UInt16) (rest : List InputCodePoint) : Fits .held units rest := by
  refine ⟨?_, ?_⟩
  all_goals
    intro hmode
    cases hmode

/-- What the writes of a step come to. -/
structure Carried (output : Output) (emits : List Emit) : Prop where
  atoms : (output.emitAll emits).atoms = output.atoms ++ emits.flatMap Emit.atoms
  tokens : ∃ flushed, (output.emitAll emits).tokens =
      output.tokens ++ flushed ++ emits.flatMap Emit.tokens ∧ ∀ token ∈ flushed, token.IsText
  markup : ∀ token ∈ emits.flatMap Emit.tokens, token.isMarkup = true
  atMostOne : (emits.flatMap Emit.tokens).length ≤ 1

theorem carried_quiet {output : Output} {emits : List Emit} (hunits : output.textBuffer.units = [])
    (h : quiet emits = true) : Carried output emits ∧ (output.emitAll emits).textBuffer.units = [] := by
  obtain ⟨hquiet, hone⟩ := quiet_iff.mp h
  obtain ⟨htext, htokens⟩ := emitAll_quiet hquiet output
  obtain ⟨hatoms, hmarkup⟩ := quiet_atoms hquiet
  refine ⟨⟨?_, ⟨[], ?_, by simp⟩, hmarkup, ?_⟩, ?_⟩
  · rw [Output.atoms, Output.atoms, htext, htokens, hunits, hatoms, List.flatMap_append,
      Utf16.decode_nil, List.map_nil, List.append_nil, List.append_nil]
  · rw [htokens, List.append_nil]
  · rw [tokens_length]
    exact hone
  · rw [htext, hunits]

theorem carried_plain (output : Output) {emits : List Emit} (h : emits.all Emit.isPlain = true) :
    Carried output emits := by
  obtain ⟨hunits, htokens⟩ := emitAll_plain h output
  obtain ⟨hatoms, hnone⟩ := plain_atoms h
  refine ⟨?_, ⟨[], ?_, by simp⟩, ?_, ?_⟩
  · rw [Output.atoms, Output.atoms, hunits, htokens, hatoms, Utf16.decode_append_encodeText,
      List.map_append, List.append_assoc]
  · rw [htokens, hnone, List.append_nil, List.append_nil]
  · rw [hnone]
    simp
  · rw [hnone]
    exact Nat.zero_le 1

theorem carried_flush (output : Output) : (output.emit .flush).atoms = output.atoms ∧
    (output.emit .flush).textBuffer.units = [] := by
  refine ⟨?_, rfl⟩
  have hflush := (flushText_spec output.textBuffer).1
  show (output.tokens ++ flushText output.textBuffer).flatMap Token.atoms ++ [] = output.atoms
  rw [List.append_nil, List.flatMap_append, hflush]
  rfl

/-- A code point is copied into the text. -/
theorem carried_copied (output : Output) {point : InputCodePoint} (hproper : point.Proper)
    (h : point.isLow = true → ¬ Utf16.EndsHigh output.textBuffer.units) :
    (output.emit (.pushCodePoint point)).atoms = output.atoms ++ [.point point] := by
  show output.tokens.flatMap Token.atoms ++
    (Utf16.decode (output.textBuffer.pushCodePoint point).units).map .point = _
  rw [TextBuffer.units_pushCodePoint, Utf16.decode_append_units hproper h, List.map_append,
    ← List.append_assoc]
  rfl

/-- What a step writes is carried out in order, and what stays unflushed fits
the state behind the step. -/
theorem Wrote.carried {point : InputCodePoint} {rest behind : List InputCodePoint}
    {before after : Mode} {emits : List Emit} {back : Bool}
    (hwrote : Wrote point before emits after back) (hsettled : Utf16.Settled (point :: rest))
    {output : Output} (hfits : Fits before output.textBuffer.units (point :: rest))
    (hback : back = true → behind = point :: rest)
    (hcopied : back = false → .pushCodePoint point ∈ emits → behind = rest) :
    Carried output emits ∧ Fits after (output.emitAll emits).textBuffer.units behind := by
  have hproper := hsettled.proper point (List.mem_cons_self ..)
  have happart : ∀ units, Utf16.EndsHigh (units ++ point.units) → behind = rest →
      ∀ q ∈ behind.head?, q.isLow = false := by
    rintro units ⟨u, hu, hhigh⟩ hrest q hq
    rw [hrest] at hq
    have hpoint : point.isHigh = true := by
      cases point with
      | scalar c =>
        refine absurd ⟨u, ?_, hhigh⟩ (Utf16.not_endsHigh_encodeText (List.cons_ne_nil c []) units)
        rw [Utf16.encodeText, List.flatMap_cons, List.flatMap_nil, List.append_nil]
        exact hu
      | surrogate v =>
        rw [Utf16.CodePoint.units, List.getLast?_concat, Option.mem_def,
          Option.some.injEq] at hu
        rw [← hu] at hhigh
        exact hhigh
    exact Bool.eq_false_iff.mpr fun hlow => hsettled.head q hq ⟨hpoint, hlow⟩
  cases hwrote with
  | quiet hquiet =>
    obtain ⟨hcarried, hunits⟩ := carried_quiet (hfits.markup rfl) hquiet
    refine ⟨hcarried, ?_⟩
    rw [hunits]
    exact .empty after behind
  | opened emits hplain htext =>
    have hend := Utf16.not_endsHigh_encodeText (text_ne_nil htext) output.textBuffer.units
    obtain ⟨hunits, htokens⟩ := emitAll_plain hplain output
    obtain ⟨_, hnone⟩ := plain_atoms hplain
    rw [← hunits] at hend
    have hcarried := carried_plain output hplain
    have hpoint := carried_copied (output.emitAll emits) hproper fun _ => hend
    have hlast : output.emitAll (emits ++ [.pushCodePoint point]) =
        (output.emitAll emits).emit (.pushCodePoint point) := by
      rw [Output.emitAll, List.foldl_append]
      rfl
    have hwritten : (emits ++ [Emit.pushCodePoint point]).flatMap Emit.tokens = [] := by
      rw [List.flatMap_append, hnone]
      rfl
    refine ⟨⟨?_, ⟨[], ?_, by simp⟩, ?_, ?_⟩, .of_content ?_⟩
    · rw [hlast, hpoint, hcarried.atoms, List.flatMap_append, List.append_assoc]
      rfl
    · rw [hlast, hwritten, List.append_nil, List.append_nil]
      exact htokens
    · rw [hwritten]
      simp
    · rw [hwritten]
      exact Nat.zero_le 1
    · intro hends
      rw [hlast] at hends
      refine happart _ (TextBuffer.units_pushCodePoint _ _ ▸ hends) (hcopied rfl ?_)
      exact List.mem_append_right _ (List.mem_singleton.mpr rfl)
  | copied =>
    have hrest := hcopied rfl (List.mem_singleton.mpr rfl)
    have hpoint := carried_copied output hproper fun hlow hends => by
      rw [hfits.content rfl hends point rfl] at hlow
      cases hlow
    refine ⟨⟨hpoint, ⟨[], ?_, by simp⟩, by simp [Emit.tokens], by simp [Emit.tokens]⟩,
      .of_content ?_⟩
    · show output.tokens = output.tokens ++ [] ++ []
      rw [List.append_nil, List.append_nil]
    · intro hends
      exact happart _ (TextBuffer.units_pushCodePoint _ _ ▸ hends) hrest
  | scalars hmode hplain htext =>
    obtain ⟨hunits, _⟩ := emitAll_plain hplain output
    refine ⟨carried_plain output hplain, .of_content ?_⟩
    intro hends
    rw [hunits] at hends
    exact absurd hends (Utf16.not_endsHigh_encodeText (text_ne_nil htext) _)
  | passed =>
    refine ⟨carried_plain output rfl, .of_content ?_⟩
    rw [hback rfl]
    exact hfits.content rfl
  | held hmode => exact ⟨carried_plain output rfl, .held _ _⟩
  | @flushed _ _ emits hmode hquiet =>
    obtain ⟨hatoms, hunits⟩ := carried_flush output
    obtain ⟨hcarried, hempty⟩ := carried_quiet hunits hquiet
    obtain ⟨flushed, htokens, hflushed⟩ := hcarried.tokens
    refine ⟨⟨?_, ⟨flushText output.textBuffer ++ flushed, ?_, ?_⟩, hcarried.markup,
      hcarried.atMostOne⟩, ?_⟩
    · rw [emitAll_cons, hcarried.atoms, hatoms]
      rfl
    · rw [emitAll_cons, htokens, ← List.append_assoc output.tokens]
      rfl
    · intro token htoken
      rcases List.mem_append.mp htoken with hfirst | hrest
      · exact (flushText_spec output.textBuffer).2 token hfirst
      · exact hflushed token hrest
    · rw [emitAll_cons, hempty]
      exact .empty after behind

end Omoikane.Html
