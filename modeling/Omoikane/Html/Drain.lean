import Omoikane.Html.Transcript

/-!
# What a drain reads

`Reads` relates a state, a whole input, its transcript and the state behind it.
The loop of `drain` stops in front of undecided lookahead or behind a script; what
it has read until then is the beginning of a reading of its input with anything
behind it.
-/

namespace Omoikane.Html

open Base

/-! ## Transcripts -/

/-- What was written, without the division of the text into tokens. -/
structure Transcript where
  written : List Atom := []
  errors : List HtmlParseError := []
  scripts : List SourcePosition := []

namespace Transcript

def append (t u : Transcript) : Transcript :=
  ⟨t.written ++ u.written, t.errors ++ u.errors, t.scripts ++ u.scripts⟩

instance : Append Transcript := ⟨append⟩

theorem append_def (t u : Transcript) :
    t ++ u = ⟨t.written ++ u.written, t.errors ++ u.errors, t.scripts ++ u.scripts⟩ := rfl

theorem append_assoc (t u v : Transcript) : t ++ u ++ v = t ++ (u ++ v) := by
  simp only [append_def, List.append_assoc]

theorem append_empty (t : Transcript) : t ++ ({} : Transcript) = t := by
  simp only [append_def, List.append_nil]

theorem empty_append (t : Transcript) : ({} : Transcript) ++ t = t := rfl

end Transcript

/-! ## Readings -/

/-- The lexical state in front of an input. -/
structure Reading where
  state : State
  registers : Registers
  position : SourcePosition

namespace Reading

/-- The state behind a step. -/
def after (c : Reading) (point : InputCodePoint) (rest : List InputCodePoint) : Reading :=
  let stepped := step c.state c.registers point rest
  ⟨stepped.state, stepped.registers, advanceOver c.position (point :: rest) stepped.rest⟩

/-- The transcript of a step. -/
def transcript (c : Reading) (point : InputCodePoint) (rest : List InputCodePoint) : Transcript :=
  let emits := (step c.state c.registers point rest).emits
  { written := emits.flatMap Emit.atoms
    errors := emits.flatMap Emit.errors
    scripts :=
      if (emits.flatMap Emit.tokens).getLast?.any Token.isScriptStart then
        [(c.after point rest).position]
      else [] }

end Reading

/-- Reading an input to its end. -/
inductive Reads : Reading → List InputCodePoint → Transcript → Reading → Prop
  | done {c : Reading} : Reads c [] {} c
  | step {c c' : Reading} {point : InputCodePoint} {rest : List InputCodePoint} {t : Transcript} :
      Reads (c.after point rest) (Html.step c.state c.registers point rest).rest t c' →
      Reads c (point :: rest) (c.transcript point rest ++ t) c'

/-- There is one reading of an input. -/
theorem Reads.unique {c c₁ c₂ : Reading} {rest : List InputCodePoint} {t₁ t₂ : Transcript}
    (h₁ : Reads c rest t₁ c₁) (h₂ : Reads c rest t₂ c₂) : t₁ = t₂ ∧ c₁ = c₂ := by
  induction h₁ generalizing t₂ c₂ with
  | done =>
    cases h₂
    exact ⟨rfl, rfl⟩
  | step _ ih =>
    cases h₂ with
    | step h₂ =>
      obtain ⟨ht, hc⟩ := ih h₂
      exact ⟨by rw [ht], hc⟩

theorem Reads.step_inv {c c' : Reading} {point : InputCodePoint} {rest : List InputCodePoint}
    {t : Transcript} (h : Reads c (point :: rest) t c') :
    ∃ t', t = c.transcript point rest ++ t' ∧
      Reads (c.after point rest) (Html.step c.state c.registers point rest).rest t' c' := by
  cases h with
  | step h => exact ⟨_, rfl, h⟩

/-! ## Input behind a step -/

theorem advanceOver_append (position : SourcePosition) (xs ys : List InputCodePoint) :
    advanceOver position (xs ++ ys) ys = xs.foldl SourcePosition.advance position := by
  rw [advanceOver, List.length_append, Nat.add_sub_cancel, List.take_left']
  rfl

/-- The bogus doctype state skips letters. -/
theorem Reads.skip_letters {letters : List InputCodePoint}
    (hletters : ∀ point ∈ letters, point.scalarView.isAlpha = true) {r : Registers}
    {rest : List InputCodePoint} {c' : Reading} : ∀ {position : SourcePosition} {t : Transcript},
    Reads ⟨.bogusDoctype, r, position⟩ (letters ++ rest) t c' →
    Reads ⟨.bogusDoctype, r, letters.foldl SourcePosition.advance position⟩ rest t c' := by
  induction letters with
  | nil =>
    intro position t h
    exact h
  | cons point letters ih =>
    intro position t h
    have hopen : point.scalarView ≠ '>' := by
      intro hclose
      have hletter := hletters point (List.mem_cons_self ..)
      rw [hclose] at hletter
      exact absurd hletter (by decide)
    have hstep : Html.step .bogusDoctype r point (letters ++ rest) =
        ⟨.bogusDoctype, r, [], letters ++ rest⟩ := by
      simp only [Html.step, stepPoint, hopen, if_false, Turn.over, Bool.false_eq_true]
    rw [List.cons_append] at h
    obtain ⟨t', rfl, hrest⟩ := h.step_inv
    have hposition : advanceOver position (point :: (letters ++ rest)) (letters ++ rest) =
        position.advance point := advanceOver_append position [point] (letters ++ rest)
    have hafter : Reading.after ⟨.bogusDoctype, r, position⟩ point (letters ++ rest) =
        ⟨.bogusDoctype, r, position.advance point⟩ := by
      simp only [Reading.after, hstep, hposition]
    have htranscript : Reading.transcript ⟨.bogusDoctype, r, position⟩ point
        (letters ++ rest) = {} := by
      simp only [Reading.transcript, hstep]
      rfl
    rw [hafter, hstep] at hrest
    rw [htranscript, Transcript.empty_append]
    exact ih (fun q hq => hletters q (List.mem_cons_of_mem _ hq)) hrest

/-- A step whose lookahead is decided begins the reading of a longer input. -/
theorem Reads.extend {c c' : Reading} {point : InputCodePoint} {rest more : List InputCodePoint}
    {t : Transcript}
    (hdecided : needsMoreInput c.state point.scalarView (point :: rest) = false)
    (h : Reads (c.after point rest)
      ((Html.step c.state c.registers point rest).rest ++ more) t c') :
    Reads c (point :: rest ++ more) (c.transcript point rest ++ t) c' := by
  obtain ⟨consumed, hconsumed⟩ := step_suffix c.state c.registers point rest
  have hextends := step_extends hdecided more (r := c.registers)
  have hposition : ∀ behind, (Html.step c.state c.registers point rest).rest ++ more = behind →
      advanceOver c.position (point :: (rest ++ more)) behind = (c.after point rest).position := by
    rintro behind rfl
    rw [← List.cons_append, ← hconsumed, List.append_assoc, advanceOver_append, Reading.after,
      ← hconsumed, advanceOver_append]
  have hstep : ∀ extended, Html.step c.state c.registers point (rest ++ more) = extended →
      Reads (c.after point (rest ++ more)) extended.rest t c' →
      c.transcript point (rest ++ more) = c.transcript point rest →
      Reads c (point :: rest ++ more) (c.transcript point rest ++ t) c' := by
    rintro extended rfl hreads htranscript
    rw [List.cons_append, ← htranscript]
    exact .step hreads
  generalize hextended : Html.step c.state c.registers point (rest ++ more) = extended at hextends
  cases hextends with
  | same =>
    have hafter : c.after point (rest ++ more) = c.after point rest := by
      have h := hposition _ rfl
      simp only [Reading.after, hextended, Stepped.appendRest] at h ⊢
      rw [h]
    refine hstep _ hextended ?_ ?_
    · rw [hafter]
      exact h
    · simp only [Reading.transcript, hafter, hextended, Stepped.appendRest]
  | @letters letters behind hbogus hnone hsplit hletters =>
    have hnow : advanceOver c.position (point :: (rest ++ more)) behind =
        letters.foldl SourcePosition.advance (c.after point rest).position := by
      rw [← List.cons_append, ← hconsumed, List.append_assoc, hsplit, ← List.append_assoc,
        advanceOver_append, List.foldl_append, Reading.after, ← hconsumed, advanceOver_append]
    have hskipped : Reads ⟨.bogusDoctype, (c.after point rest).registers,
        letters.foldl SourcePosition.advance (c.after point rest).position⟩ behind t c' := by
      apply Reads.skip_letters hletters
      rw [← hsplit, ← hbogus]
      exact h
    have hafter : c.after point (rest ++ more) = ⟨.bogusDoctype, (c.after point rest).registers,
        letters.foldl SourcePosition.advance (c.after point rest).position⟩ := by
      rw [← hnow]
      simp only [Reading.after, hextended, hbogus]
    have htokens := tokens_eq_nil hnone
    refine hstep _ hextended ?_ ?_
    · rw [hafter]
      exact hskipped
    · simp only [Reading.transcript, hextended, htokens]
      rfl

/-! ## Positions of scripts -/

/-- The indices of the start tags of scripts, counted from `first`. -/
def scriptIndices : Nat → List Token → List Nat
  | _, [] => []
  | first, token :: tokens =>
    if token.isScriptStart then first :: scriptIndices (first + 1) tokens
    else scriptIndices (first + 1) tokens

theorem scriptIndices_append (xs ys : List Token) : ∀ first,
    scriptIndices first (xs ++ ys) =
      scriptIndices first xs ++ scriptIndices (first + xs.length) ys := by
  induction xs with
  | nil =>
    intro first
    rfl
  | cons token xs ih =>
    intro first
    have hlength : first + (token :: xs).length = first + 1 + xs.length := by
      rw [List.length_cons]
      omega
    rw [List.cons_append, scriptIndices, scriptIndices, ih, hlength]
    split <;> rfl

theorem scriptIndices_eq_nil {tokens : List Token}
    (h : ∀ token ∈ tokens, token.isScriptStart = false) :
    ∀ first, scriptIndices first tokens = [] := by
  induction tokens with
  | nil =>
    intro first
    rfl
  | cons token tokens ih =>
    intro first
    rw [scriptIndices, h token (List.mem_cons_self ..), if_neg Bool.false_ne_true]
    exact ih (fun t ht => h t (List.mem_cons_of_mem _ ht)) (first + 1)

theorem Token.IsText.not_scriptStart {token : Token} (h : token.IsText) :
    token.isScriptStart = false := by
  cases h <;> rfl

/-- The token a step has pushed last, past the text it has flushed. -/
theorem pushedLast_any {p : Token → Bool} (hp : ∀ token : Token, token.IsText → p token = false)
    {flushed : List Token} (hflushed : ∀ token ∈ flushed, token.IsText)
    (before tokens : List Token) :
    (pushedLast before (before ++ flushed ++ tokens)).any p = tokens.getLast?.any p := by
  unfold pushedLast
  cases tokens with
  | cons token tokens =>
    rw [if_pos (by simp only [List.length_append, List.length_cons]; omega), List.getLast?_append,
      List.getLast?_eq_some_getLast (List.cons_ne_nil token tokens), Option.some_or]
  | nil =>
    rw [List.append_nil]
    split
    next hlonger =>
      have hne : flushed ≠ [] := by
        rintro rfl
        rw [List.append_nil] at hlonger
        exact Nat.lt_irrefl _ hlonger
      rw [List.getLast?_append, List.getLast?_eq_some_getLast hne, Option.some_or]
      exact hp _ (hflushed _ (List.getLast_mem hne))
    next => rfl

/-! ## The loop -/

namespace Draining

def reading (d : Draining) : Reading := ⟨d.state, d.registers, d.sourcePosition⟩

def transcript (d : Draining) : Transcript :=
  ⟨d.output.atoms, d.output.errors, d.scriptSourcePositions.map Prod.snd⟩

/-- What holds of the locals of `drain` in front of an input. -/
structure Sound (d : Draining) (rest : List InputCodePoint) : Prop where
  settled : Utf16.Settled rest
  fits : Fits d.state.mode d.output.textBuffer.units rest
  located : d.scriptSourcePositions.map Prod.fst = scriptIndices 0 d.output.tokens
  tokens : ∀ token ∈ d.output.tokens, token.IsText ∨ token.isMarkup = true

/-- The writes of a step are carried out, and what is unflushed fits again. -/
theorem carried {d : Draining} {point : InputCodePoint} {rest : List InputCodePoint}
    (h : d.Sound (point :: rest)) :
    Carried d.output (step d.state d.registers point rest).emits ∧
      Fits (step d.state d.registers point rest).state.mode
        (d.output.emitAll (step d.state d.registers point rest).emits).textBuffer.units
        (step d.state d.registers point rest).rest := by
  have hcase := step_case d.state d.registers point rest
  generalize step d.state d.registers point rest = stepped at hcase
  cases hcase with
  | point =>
    apply (stepPoint_wrote d.state d.registers point).carried h.settled h.fits
    · intro hback
      simp only [Turn.over, hback, if_true]
    · intro hback _
      simp only [Turn.over, hback, if_false, Bool.false_eq_true]
  | ahead hsuffix hlooked =>
    have hnone : ∀ emits : List Emit, (∀ emit ∈ emits, emit ≠ .pushCodePoint point) →
        .pushCodePoint point ∈ emits → stepped.rest = rest :=
      fun emits hother hmem => absurd rfl (hother _ hmem)
    have hwrote : Wrote point d.state.mode stepped.emits stepped.state.mode false ∧
        ∀ emit ∈ stepped.emits, emit ≠ .pushCodePoint point := by
      generalize d.state.mode = before at hlooked
      generalize stepped.state.mode = after at hlooked
      cases hlooked with
      | quiet hquiet =>
        refine ⟨.quiet hquiet, ?_⟩
        rintro emit hemit rfl
        have hbad := (quiet_iff.mp hquiet).1 _ hemit
        cases hbad
      | text hplain htext =>
        refine ⟨.scalars (by decide) hplain htext, ?_⟩
        rintro emit hemit rfl
        have hbad := List.all_eq_true.mp hplain _ hemit
        cases hbad
    apply hwrote.1.carried h.settled h.fits
    · intro hback
      cases hback
    · exact fun _ => hnone _ hwrote.2

theorem advance_tokens {d : Draining} {point : InputCodePoint} {rest : List InputCodePoint}
    (h : d.Sound (point :: rest)) :
    ∃ flushed, (d.advance point rest).1.output.tokens = d.output.tokens ++ flushed ++
        (step d.state d.registers point rest).emits.flatMap Emit.tokens ∧
      ∀ token ∈ flushed, token.IsText := (carried h).1.tokens

/-- The script that a step starts. -/
theorem advance_scripts {d : Draining} {point : InputCodePoint} {rest : List InputCodePoint}
    (h : d.Sound (point :: rest)) :
    (d.advance point rest).1.scriptSourcePositions = d.scriptSourcePositions ++
      ((d.reading.transcript point rest).scripts.map fun position =>
        ((d.advance point rest).1.output.tokens.length - 1, position)) := by
  obtain ⟨flushed, htokens, hflushed⟩ := (carried h).1.tokens
  have hlast := pushedLast_any (fun _ => Token.IsText.not_scriptStart) hflushed d.output.tokens
    ((step d.state d.registers point rest).emits.flatMap Emit.tokens)
  rw [← htokens] at hlast
  have hscripts : (d.reading.transcript point rest).scripts =
      if ((step d.state d.registers point rest).emits.flatMap Emit.tokens).getLast?.any
        Token.isScriptStart then [(d.reading.after point rest).position] else [] := rfl
  rw [hscripts]
  simp only [advance, hlast]
  split
  next => rfl
  next => exact (List.append_nil _).symm

/-- A step adds its transcript. -/
theorem advance_transcript {d : Draining} {point : InputCodePoint} {rest : List InputCodePoint}
    (h : d.Sound (point :: rest)) :
    (d.advance point rest).1.transcript = d.transcript ++ d.reading.transcript point rest := by
  have hscripts := congrArg (List.map Prod.snd) (advance_scripts h)
  rw [List.map_append, List.map_map, Function.comp_def, List.map_id'] at hscripts
  have hatoms := (carried h).1.atoms
  have herrors := emitAll_errors (step d.state d.registers point rest).emits d.output
  rw [transcript, hscripts, Transcript.append_def]
  simp only [transcript, Reading.transcript, Transcript.mk.injEq]
  exact ⟨hatoms, herrors, trivial⟩

theorem advance_sound {d : Draining} {point : InputCodePoint} {rest : List InputCodePoint}
    (h : d.Sound (point :: rest)) :
    (d.advance point rest).1.Sound (d.advance point rest).2 := by
  obtain ⟨hcarried, hfits⟩ := carried h
  obtain ⟨flushed, htokens, hflushed⟩ := hcarried.tokens
  have hsuffix := step_suffix d.state d.registers point rest
  obtain ⟨consumed, hconsumed⟩ := hsuffix
  refine ⟨?_, hfits, ?_, ?_⟩
  · have hsettled := h.settled
    rw [← hconsumed] at hsettled
    exact hsettled.right
  · have hindices : scriptIndices 0 (d.advance point rest).1.output.tokens =
        scriptIndices 0 d.output.tokens ++ scriptIndices (d.output.tokens ++ flushed).length
          ((step d.state d.registers point rest).emits.flatMap Emit.tokens) := by
      rw [show (d.advance point rest).1.output.tokens = _ from htokens, scriptIndices_append,
        scriptIndices_append, scriptIndices_eq_nil fun t ht => (hflushed t ht).not_scriptStart,
        List.append_nil, Nat.zero_add]
    have hlength := congrArg List.length htokens
    have hone := hcarried.atMostOne
    rw [hindices, advance_scripts h, List.map_append, h.located, List.map_map]
    congr 1
    have hscripts : (d.reading.transcript point rest).scripts =
        if ((step d.state d.registers point rest).emits.flatMap Emit.tokens).getLast?.any
          Token.isScriptStart then [(d.reading.after point rest).position] else [] := rfl
    rw [show (d.advance point rest).1.output.tokens = _ from htokens, hscripts]
    generalize (step d.state d.registers point rest).emits.flatMap Emit.tokens = pushed at *
    cases pushed with
    | nil => rfl
    | cons token tokens =>
      cases tokens with
      | cons second tokens => exact absurd hone (by simp)
      | nil =>
        cases hscript : token.isScriptStart with
        | true =>
          simp [scriptIndices, hscript]
        | false => simp [scriptIndices, hscript]
  · intro token htoken
    rw [show (d.advance point rest).1.output.tokens = _ from htokens] at htoken
    rcases List.mem_append.mp htoken with hold | hnew
    · rcases List.mem_append.mp hold with hold | htext
      · exact h.tokens token hold
      · exact .inl (hflushed token htext)
    · exact .inr (hcarried.markup token hnew)

end Draining

/-- A step that is decided, or has the whole input, begins a reading. -/
theorem Draining.reads_advance {d : Draining} {point : InputCodePoint}
    {rest more : List InputCodePoint} {t : Transcript} {c : Reading}
    (hdecided : more = [] ∨ needsMoreInput d.state point.scalarView (point :: rest) = false)
    (h : Reads (d.advance point rest).1.reading ((d.advance point rest).2 ++ more) t c) :
    Reads d.reading (point :: rest ++ more) (d.reading.transcript point rest ++ t) c := by
  rcases hdecided with rfl | hdecided
  · rw [List.append_nil] at h ⊢
    exact .step h
  · exact Reads.extend hdecided h

/-- The loop reads the beginning of its input, whatever follows. -/
theorem drainLoop_spec (eof stopAtScript : Bool) : ∀ (passes : Nat) (d : Draining)
    (rest : List InputCodePoint), d.Sound rest →
    (drainLoop eof stopAtScript passes d rest).1.Sound
        (drainLoop eof stopAtScript passes d rest).2 ∧
      ∃ t, (drainLoop eof stopAtScript passes d rest).1.transcript = d.transcript ++ t ∧
        ∀ more, (eof = true → more = []) → ∀ t' c,
          Reads (drainLoop eof stopAtScript passes d rest).1.reading
            ((drainLoop eof stopAtScript passes d rest).2 ++ more) t' c →
          Reads d.reading (rest ++ more) (t ++ t') c := by
  intro passes
  induction passes with
  | zero =>
    intro d rest hsound
    exact ⟨hsound, {}, (Transcript.append_empty _).symm, fun _ _ _ _ h => h⟩
  | succ passes ih =>
    intro d rest hsound
    cases rest with
    | nil => exact ⟨hsound, {}, (Transcript.append_empty _).symm, fun _ _ _ _ h => h⟩
    | cons point rest =>
      rw [drainLoop]
      split
      next => exact ⟨hsound, {}, (Transcript.append_empty _).symm, fun _ _ _ _ h => h⟩
      next hready =>
        have hdecided : ∀ more : List InputCodePoint, (eof = true → more = []) →
            more = [] ∨
              needsMoreInput d.state point.scalarView (point :: rest) = false := by
          intro more hmore
          cases heof : eof with
          | true => exact .inl (hmore heof)
          | false =>
            rw [heof] at hready
            exact .inr (Bool.eq_false_iff.mpr hready)
        have hnext := Draining.advance_sound hsound
        have htranscript := Draining.advance_transcript hsound
        dsimp only
        split
        next =>
          refine ⟨hnext, _, htranscript, ?_⟩
          intro more hmore t' c h
          exact Draining.reads_advance (hdecided more hmore) h
        next =>
          obtain ⟨hlooped, t, ht, hreads⟩ := ih (d.advance point rest).1
            (d.advance point rest).2 hnext
          refine ⟨hlooped, d.reading.transcript point rest ++ t, ?_, ?_⟩
          · rw [ht, htranscript, Transcript.append_assoc]
          · intro more hmore t' c h
            rw [Transcript.append_assoc]
            exact Draining.reads_advance (hdecided more hmore) (hreads more hmore t' c h)

/-- The loop leaves the end of its input. -/
theorem drainLoop_suffix (eof stopAtScript : Bool) : ∀ (passes : Nat) (d : Draining)
    (rest : List InputCodePoint), (drainLoop eof stopAtScript passes d rest).2 <:+ rest := by
  intro passes
  induction passes with
  | zero =>
    intro d rest
    exact List.suffix_refl rest
  | succ passes ih =>
    intro d rest
    cases rest with
    | nil => exact List.suffix_refl []
    | cons point rest =>
      have hstep := step_suffix d.state d.registers point rest
      rw [drainLoop]
      split
      next => exact List.suffix_refl _
      dsimp only
      split
      next => exact hstep
      next => exact (ih _ _).trans hstep

/-- What is left to do in front of an input. -/
def work (state : State) (rest : List InputCodePoint) : Nat := 3 * rest.length + state.rank

theorem step_work (state : State) (r : Registers) (point : InputCodePoint)
    (rest : List InputCodePoint) :
    work (step state r point rest).state (step state r point rest).rest <
      work state (point :: rest) := by
  have hrank := State.rank_le (step state r point rest).state
  unfold work
  rcases step_reads state r point rest with hsuffix | ⟨hback, hfalls, _⟩
  · have hlength := hsuffix.length_le
    rw [List.length_cons]
    omega
  · rw [hback]
    omega

/-- At the end of the input the loop reads everything, unless it stops at a script. -/
theorem drainLoop_eof : ∀ (passes : Nat) (d : Draining) (rest : List InputCodePoint),
    work d.state rest < passes → (drainLoop true false passes d rest).2 = [] := by
  intro passes
  induction passes with
  | zero =>
    intro d rest h
    exact absurd h (Nat.not_lt_zero _)
  | succ passes ih =>
    intro d rest h
    cases rest with
    | nil => rfl
    | cons point rest =>
      rw [drainLoop]
      simp only [Bool.not_true, Bool.false_and, Bool.false_eq_true, if_false]
      apply ih
      have hstep := step_work d.state d.registers point rest
      exact Nat.lt_of_lt_of_le hstep (Nat.le_of_lt_succ h)

/-- At the end of the input the loop reads something, if there is anything. -/
theorem drainLoop_progress (stopAtScript : Bool) : ∀ (passes : Nat) (d : Draining)
    (rest : List InputCodePoint), d.Sound rest → rest ≠ [] → work d.state rest < passes →
    (drainLoop true stopAtScript passes d rest).2.length < rest.length := by
  intro passes
  induction passes with
  | zero =>
    intro d rest _ _ h
    exact absurd h (Nat.not_lt_zero _)
  | succ passes ih =>
    intro d rest hsound hne h
    cases rest with
    | nil => exact absurd rfl hne
    | cons point rest =>
      have hwork := step_work d.state d.registers point rest
      rw [drainLoop]
      simp only [Bool.not_true, Bool.false_and, Bool.false_eq_true, if_false]
      rcases step_reads d.state d.registers point rest with hsuffix | ⟨hback, _, hnone⟩
      · have hlength : (d.advance point rest).2.length < (point :: rest).length :=
          Nat.lt_succ_of_le hsuffix.length_le
        split
        next => exact hlength
        next => exact Nat.lt_of_le_of_lt (drainLoop_suffix _ _ _ _ _).length_le hlength
      · have hnext := Draining.advance_sound hsound
        obtain ⟨flushed, htokens, hflushed⟩ := Draining.advance_tokens hsound
        have hscript : (pushedLast d.output.tokens
            (d.advance point rest).1.output.tokens).any Token.isScriptEnd = false := by
          rw [htokens, pushedLast_any (fun token htext => by cases htext <;> rfl) hflushed,
            tokens_eq_nil hnone]
          rfl
        rw [hscript, Bool.and_false, if_neg Bool.false_ne_true]
        have hrest : (d.advance point rest).2 = point :: rest := hback
        have hsound' := hnext
        rw [hrest] at hsound' ⊢
        refine ih _ _ hsound' hne ?_
        rw [hback] at hwork
        exact Nat.lt_of_lt_of_le hwork (Nat.le_of_lt_succ h)

end Omoikane.Html
