import Omoikane.Html.Drain

/-!
# Chunks of input

An input may be pushed in any number of chunks, with drains in between.  The
tokens are those of one push of the whole input, up to the division of text into
tokens; the errors and the positions of scripts are the same.
-/

namespace Omoikane.Html

open Base

/-! ## Coalescing -/

/-- Appends text to the last token, if that is text. -/
def joinText (result : List Token) (text : Text) : List Token :=
  match result.getLast? with
  | some (.character previous) => result.dropLast ++ [.character (previous ++ text)]
  | _ => result ++ [.character text]

def joinToken (result : List Token) : Token → List Token
  | .character text => joinText result text
  | token => result ++ [token]

/-- `coalesce`: adjacent character tokens are joined. -/
def coalesce (tokens : List Token) : List Token := tokens.foldl joinToken []

/-- A token of its own for every atom. -/
def Atom.toToken : Atom → Token
  | .point (.scalar ch) => .character [ch]
  | .point (.surrogate unit) => .surrogate unit
  | .token t => t

theorem joinText_concat (front : List Token) (previous text : Text) :
    joinText (front ++ [.character previous]) text = front ++ [.character (previous ++ text)] := by
  simp [joinText]

theorem joinText_cases (result : List Token) :
    (∃ front previous, result = front ++ [.character previous]) ∨
      ∀ text, joinText result text = result ++ [.character text] := by
  rcases List.eq_nil_or_concat result with rfl | ⟨front, last, rfl⟩
  · exact .inr fun _ => rfl
  · rw [List.concat_eq_append]
    cases last with
    | character previous => exact .inl ⟨front, previous, rfl⟩
    | _ =>
      refine .inr fun text => ?_
      simp only [joinText, List.getLast?_concat]

theorem joinText_joinText (result : List Token) (s t : Text) :
    joinText (joinText result s) t = joinText result (s ++ t) := by
  rcases joinText_cases result with ⟨front, previous, rfl⟩ | hother
  · rw [joinText_concat, joinText_concat, joinText_concat, List.append_assoc]
  · rw [hother, hother, joinText_concat]

/-- Text is joined one code point after the other. -/
theorem foldl_joinText (text : Text) : ∀ (result : List Token) (first : Char),
    (text.map fun ch => Token.character [ch]).foldl joinToken (joinText result [first]) =
      joinText result (first :: text) := by
  intro result first
  have hmany : ∀ (text front : Text),
      (text.map fun ch => Token.character [ch]).foldl joinToken (joinText result front) =
        joinText result (front ++ text) := by
    intro text
    induction text with
    | nil =>
      intro front
      rw [List.append_nil]
      rfl
    | cons ch text ih =>
      intro front
      rw [List.map_cons, List.foldl_cons, joinToken, joinText_joinText, ih, List.append_assoc]
      rfl
  exact hmany text [first]

/-- A token that a drain returns. -/
def Token.Returned (token : Token) : Prop :=
  token.IsText ∨ token.isMarkup = true ∨ token = .eof

theorem joinToken_atoms {token : Token} (h : token.Returned) (result : List Token) :
    (token.atoms.map Atom.toToken).foldl joinToken result = joinToken result token := by
  rcases h with htext | hmarkup | rfl
  · cases htext with
    | @character data hne =>
      obtain ⟨first, text, rfl⟩ := List.exists_cons_of_ne_nil hne
      rw [Token.atoms, List.map_map]
      exact foldl_joinText text result first
    | surrogate => rfl
  · rw [atoms_of_isMarkup hmarkup]
    rfl
  · rfl

/-- The atoms of returned tokens determine them up to joining. -/
theorem coalesce_eq {tokens : List Token} (h : ∀ token ∈ tokens, token.Returned) :
    coalesce tokens = coalesce ((tokens.flatMap Token.atoms).map Atom.toToken) := by
  have hfold : ∀ result, tokens.foldl joinToken result =
      ((tokens.flatMap Token.atoms).map Atom.toToken).foldl joinToken result := by
    induction tokens with
    | nil =>
      intro result
      rfl
    | cons token tokens ih =>
      intro result
      rw [List.foldl_cons, List.flatMap_cons, List.map_append, List.foldl_append,
        joinToken_atoms (h token (List.mem_cons_self ..))]
      exact ih (fun t ht => h t (List.mem_cons_of_mem _ ht)) _
  exact hfold []

/-! ## Runs -/

/-- What is pushed at once. -/
inductive Chunk
  | units (units : List UInt16)
  | text (text : Text)

/-- The UTF-16 units of a chunk. -/
def Chunk.toUnits : Chunk → List UInt16
  | .units us => us
  | .text s => Utf16.encodeText s

/-- A push of a chunk, or a drain that is not the last. -/
inductive Feeding
  | push (chunk : Chunk)
  | drain (stopAtScript : Bool)

/-- The units that are pushed. -/
def Feeding.toUnits : Feeding → List UInt16
  | push chunk => chunk.toUnits
  | drain _ => []

def unitsOfFeedings (feedings : List Feeding) : List UInt16 := feedings.flatMap Feeding.toUnits

/-- What drains have returned, with the line and column recorded for each start
tag of a script. -/
structure Collected where
  tokens : List Token := []
  errors : List HtmlParseError := []
  scripts : List (Option (Nat × Nat)) := []

namespace Collected

def append (c d : Collected) : Collected :=
  ⟨c.tokens ++ d.tokens, c.errors ++ d.errors, c.scripts ++ d.scripts⟩

instance : Append Collected := ⟨append⟩

/-- Equal up to the division of text into tokens. -/
def Alike (c d : Collected) : Prop :=
  coalesce c.tokens = coalesce d.tokens ∧ c.errors = d.errors ∧ c.scripts = d.scripts

end Collected

def SourcePosition.lineColumn (position : SourcePosition) : Nat × Nat :=
  (position.line, position.column)

/-- What is recorded for the start tags of scripts among the tokens of a drain. -/
def scriptPositions (tokens : List Token) (recorded : List (Nat × SourcePosition)) :
    List (Option (Nat × Nat)) :=
  (scriptIndices 0 tokens).map fun i => (recorded.lookup i).map SourcePosition.lineColumn

namespace IncrementalTokenizer

def pushChunk (t : IncrementalTokenizer) : Chunk → IncrementalTokenizer
  | .units us => t.pushInputUtf16 us
  | .text s => t.pushInput s

/-- A drain, with what it returns and records. -/
def drainCollected (t : IncrementalTokenizer) (eof stopAtScript : Bool) :
    IncrementalTokenizer × Collected :=
  let (drained, tokens, errors) := t.drain eof stopAtScript
  (drained, ⟨tokens, errors, scriptPositions tokens drained.scriptSourcePositions⟩)

/-- Pushes and drains in turn. -/
def feed : IncrementalTokenizer → List Feeding → IncrementalTokenizer × Collected
  | t, [] => (t, {})
  | t, .push chunk :: feedings => feed (t.pushChunk chunk) feedings
  | t, .drain stopAtScript :: feedings =>
    let drained := t.drainCollected false stopAtScript
    let fed := feed drained.1 feedings
    (fed.1, drained.2 ++ fed.2)

/-- Drains to the end of the file, at most the given number of times. -/
def drainUntilEof (stopAtScript : Bool) : Nat → IncrementalTokenizer → Option Collected
  | 0, _ => none
  | drains + 1, t =>
    let drained := t.drainCollected true stopAtScript
    if drained.2.tokens.getLast? = some .eof then some drained.2
    else (drainUntilEof stopAtScript drains drained.1).map (drained.2 ++ ·)

end IncrementalTokenizer

/-! ## What runs collect -/

/-- What was collected has the transcript. -/
structure Collected.Tells (c : Collected) (t : Transcript) : Prop where
  tokens : c.tokens.flatMap Token.atoms = t.written
  errors : c.errors = t.errors
  scripts : c.scripts = t.scripts.map fun position => some position.lineColumn
  returned : ∀ token ∈ c.tokens, token.Returned

theorem Collected.Tells.empty : Collected.Tells {} {} := ⟨rfl, rfl, rfl, by simp⟩

theorem Collected.Tells.append {c d : Collected} {t u : Transcript} (hc : c.Tells t)
    (hd : d.Tells u) : (c ++ d).Tells (t ++ u) := by
  refine ⟨?_, ?_, ?_, ?_⟩
  · show (c.tokens ++ d.tokens).flatMap Token.atoms = t.written ++ u.written
    rw [List.flatMap_append, hc.tokens, hd.tokens]
  · show c.errors ++ d.errors = t.errors ++ u.errors
    rw [hc.errors, hd.errors]
  · show c.scripts ++ d.scripts = (t.scripts ++ u.scripts).map _
    rw [List.map_append, hc.scripts, hd.scripts]
  · intro token htoken
    rcases List.mem_append.mp htoken with hfirst | hsecond
    · exact hc.returned token hfirst
    · exact hd.returned token hsecond

/-- The transcript determines what was collected up to joining. -/
theorem Collected.Tells.alike {c d : Collected} {t : Transcript} (hc : c.Tells t)
    (hd : d.Tells t) : c.Alike d := by
  refine ⟨?_, hc.errors.trans hd.errors.symm, hc.scripts.trans hd.scripts.symm⟩
  rw [coalesce_eq hc.returned, coalesce_eq hd.returned, hc.tokens, hd.tokens]

/-! ## Recorded positions -/

theorem le_of_mem_scriptIndices {tokens : List Token} : ∀ {first i : Nat},
    i ∈ scriptIndices first tokens → first ≤ i := by
  induction tokens with
  | nil =>
    intro first i h
    cases h
  | cons token tokens ih =>
    intro first i h
    rw [scriptIndices] at h
    split at h
    next =>
      rcases List.mem_cons.mp h with rfl | h
      · exact Nat.le_refl _
      · exact Nat.le_of_succ_le (ih h)
    next => exact Nat.le_of_succ_le (ih h)

theorem nodup_scriptIndices (tokens : List Token) : ∀ first,
    (scriptIndices first tokens).Nodup := by
  induction tokens with
  | nil =>
    intro first
    exact List.nodup_nil
  | cons token tokens ih =>
    intro first
    rw [scriptIndices]
    split
    next =>
      refine List.nodup_cons.mpr ⟨?_, ih _⟩
      intro h
      exact Nat.lt_irrefl _ (le_of_mem_scriptIndices h)
    next => exact ih _

/-- With distinct keys, looking every key up gives back the values. -/
theorem map_lookup_keys {β γ : Type} (f : β → γ) {entries : List (Nat × β)}
    (h : (entries.map Prod.fst).Nodup) :
    ((entries.map Prod.fst).map fun i => (entries.lookup i).map f) =
      entries.map fun entry => some (f entry.2) := by
  induction entries with
  | nil => rfl
  | cons entry entries ih =>
    obtain ⟨i, b⟩ := entry
    obtain ⟨hnot, hnodup⟩ := List.nodup_cons.mp h
    rw [List.map_cons, List.map_cons, List.map_cons, ← ih hnodup]
    congr 1
    · simp [List.lookup]
    · apply List.map_congr_left
      intro j hj
      have hne : (j == i) = false := by
        rw [beq_eq_false_iff_ne]
        rintro rfl
        exact hnot hj
      simp [List.lookup, hne]

theorem scriptPositions_eq {tokens : List Token} {recorded : List (Nat × SourcePosition)}
    (h : recorded.map Prod.fst = scriptIndices 0 tokens) :
    scriptPositions tokens recorded =
      (recorded.map Prod.snd).map fun position => some position.lineColumn := by
  rw [scriptPositions, ← h, map_lookup_keys, List.map_map]
  · rfl
  · rw [h]
    exact nodup_scriptIndices tokens 0

/-! ## Drains -/

namespace IncrementalTokenizer

def reading (t : IncrementalTokenizer) : Reading := ⟨t.state, t.registers, t.sourcePosition⟩

/-- The code points that are still to be read when the units follow. -/
def upcoming (t : IncrementalTokenizer) (units : List UInt16) : List InputCodePoint :=
  t.pending ++ t.inputDecoder.upcoming units

theorem upcoming_pushChunk (t : IncrementalTokenizer) (chunk : Chunk) (units : List UInt16) :
    (t.pushChunk chunk).upcoming units = t.upcoming (chunk.toUnits ++ units) := by
  cases chunk with
  | units us => exact InputDecoder.push_upcoming us t.inputDecoder t.pending units
  | text s => exact InputDecoder.pushStr_upcoming s t.inputDecoder t.pending units

theorem upcoming_finish (t : IncrementalTokenizer) :
    t.finishInputChunk.pending = t.upcoming [] ∧ t.finishInputChunk.upcoming [] = t.upcoming [] := by
  obtain ⟨hnone, hpending⟩ := InputDecoder.finish_upcoming t.inputDecoder t.pending
  refine ⟨hpending, ?_⟩
  show (t.inputDecoder.finish t.pending).2 ++
    Utf16.decodeFrom (t.inputDecoder.finish t.pending).1.pendingHigh [] = _
  rw [hnone, hpending, Utf16.decodeFrom, List.append_nil]
  rfl

/-- The loop and the flush behind it. -/
structure Suspended (t : IncrementalTokenizer) (eof : Bool)
    (out : IncrementalTokenizer × Output) (told : Transcript) : Prop where
  unflushed : out.1.textBuffer.units = []
  decoder : out.1.inputDecoder = t.inputDecoder
  pending : out.1.pending <:+ t.pending
  tells : Collected.Tells ⟨out.2.tokens, out.2.errors,
    scriptPositions out.2.tokens out.1.scriptSourcePositions⟩ told
  unfinished : .eof ∉ out.2.tokens
  reads : ∀ more, (eof = true → more = []) → ∀ rest c,
    Reads out.1.reading (out.1.pending ++ more) rest c →
    Reads t.reading (t.pending ++ more) (told ++ rest) c

/-- The locals of `drain` in front of the loop. -/
def draining (t : IncrementalTokenizer) : Draining :=
  { state := t.state
    registers := t.registers
    output := { textBuffer := t.textBuffer }
    sourcePosition := t.sourcePosition }

theorem draining_sound {t : IncrementalTokenizer} (hunflushed : t.textBuffer.units = [])
    (hsettled : Utf16.Settled t.pending) : t.draining.Sound t.pending := by
  refine ⟨hsettled, ?_, rfl, by simp [draining]⟩
  rw [show t.draining.output.textBuffer.units = [] from hunflushed]
  exact .empty _ _

theorem drainPending_suspended {t : IncrementalTokenizer} (hunflushed : t.textBuffer.units = [])
    (hsettled : Utf16.Settled t.pending) (eof stopAtScript : Bool) :
    ∃ told, Suspended t eof (t.drainPending eof stopAtScript) told := by
  have hempty : t.draining.transcript = {} := by
    have hatoms : t.draining.output.atoms = [] := by
      show [] ++ (Utf16.decode t.textBuffer.units).map Atom.point = []
      rw [hunflushed]
      rfl
    simp only [Draining.transcript, hatoms]
    rfl
  obtain ⟨hsound, told, htold, hreads⟩ := drainLoop_spec eof stopAtScript (passes t.pending)
    t.draining t.pending (draining_sound hunflushed hsettled)
  have hsuffix := drainLoop_suffix eof stopAtScript (passes t.pending) t.draining t.pending
  rw [hempty, Transcript.empty_append] at htold
  have hout : t.drainPending eof stopAtScript =
      (let looped := drainLoop eof stopAtScript (passes t.pending) t.draining t.pending
      ({ sourcePosition := looped.1.sourcePosition
         scriptSourcePositions := looped.1.scriptSourcePositions
         pending := looped.2
         inputDecoder := t.inputDecoder
         state := looped.1.state
         textBuffer := (looped.1.output.emit .flush).textBuffer
         registers := looped.1.registers }, looped.1.output.emit .flush)) := rfl
  generalize drainLoop eof stopAtScript (passes t.pending) t.draining t.pending = looped at *
  obtain ⟨hatoms, hflushed⟩ := carried_flush looped.1.output
  obtain ⟨_, htext⟩ := flushText_spec looped.1.output.textBuffer
  have hindices : looped.1.scriptSourcePositions.map Prod.fst =
      scriptIndices 0 (looped.1.output.emit .flush).tokens := by
    show _ = scriptIndices 0 (looped.1.output.tokens ++ flushText looped.1.output.textBuffer)
    rw [scriptIndices_append, scriptIndices_eq_nil fun t ht => (htext t ht).not_scriptStart,
      List.append_nil, hsound.located]
  have htokens : ∀ token ∈ (looped.1.output.emit .flush).tokens,
      token.IsText ∨ token.isMarkup = true := by
    intro token htoken
    rcases List.mem_append.mp (show token ∈ looped.1.output.tokens ++ _ from htoken) with hold | hnew
    · exact hsound.tokens token hold
    · exact .inl (htext token hnew)
  rw [hout]
  refine ⟨told, hflushed, rfl, hsuffix, ⟨?_, ?_, ?_, ?_⟩, ?_, hreads⟩
  · rw [← htold]
    show _ = looped.1.output.atoms
    rw [← hatoms]
    exact (List.append_nil _).symm
  · rw [← htold]
    rfl
  · rw [← htold]
    exact scriptPositions_eq hindices
  · intro token htoken
    rcases htokens token htoken with h | h
    · exact .inl h
    · exact .inr (.inl h)
  · intro heof
    rcases htokens .eof heof with h | h
    · cases h
    · cases h

/-- Pushes and drains read the beginning of what is pushed. -/
theorem feed_spec (feedings : List Feeding) : ∀ t : IncrementalTokenizer,
    t.textBuffer.units = [] → Utf16.Settled (t.upcoming (unitsOfFeedings feedings)) →
    (t.feed feedings).1.textBuffer.units = [] ∧
      (t.feed feedings).1.upcoming [] <:+ t.upcoming (unitsOfFeedings feedings) ∧
      ∃ told, (t.feed feedings).2.Tells told ∧ ∀ rest c,
        Reads (t.feed feedings).1.reading ((t.feed feedings).1.upcoming []) rest c →
        Reads t.reading (t.upcoming (unitsOfFeedings feedings)) (told ++ rest) c := by
  induction feedings with
  | nil =>
    intro t hunflushed _
    exact ⟨hunflushed, List.suffix_refl _, {}, .empty, fun _ _ h => h⟩
  | cons feeding feedings ih =>
    intro t hunflushed hsettled
    cases feeding with
    | push chunk =>
      have hupcoming : (t.pushChunk chunk).upcoming (unitsOfFeedings feedings) =
          t.upcoming (unitsOfFeedings (.push chunk :: feedings)) :=
        upcoming_pushChunk t chunk _
      have hbuffer : (t.pushChunk chunk).textBuffer = t.textBuffer := by
        cases chunk <;> rfl
      have hreading : (t.pushChunk chunk).reading = t.reading := by
        cases chunk <;> rfl
      rw [← hupcoming] at hsettled ⊢
      rw [← hreading]
      refine ih (t.pushChunk chunk) ?_ hsettled
      rw [hbuffer]
      exact hunflushed
    | drain stopAtScript =>
      obtain ⟨told, hsuspended⟩ := drainPending_suspended hunflushed hsettled.left false
        stopAtScript
      have hmore : (t.drainPending false stopAtScript).1.upcoming (unitsOfFeedings feedings) =
          (t.drainPending false stopAtScript).1.pending ++
            t.inputDecoder.upcoming (unitsOfFeedings feedings) := by
        rw [upcoming, hsuspended.decoder]
      have hsuffix : (t.drainPending false stopAtScript).1.upcoming (unitsOfFeedings feedings)
          <:+ t.upcoming (unitsOfFeedings feedings) := by
        obtain ⟨consumed, hconsumed⟩ := hsuspended.pending
        refine ⟨consumed, ?_⟩
        rw [hmore, upcoming, ← hconsumed, List.append_assoc]
      obtain ⟨hrest, hbehind, told', htells, hreads⟩ := ih _ hsuspended.unflushed (by
        obtain ⟨consumed, hconsumed⟩ := hsuffix
        have h : Utf16.Settled (t.upcoming (unitsOfFeedings feedings)) := hsettled
        rw [← hconsumed] at h
        exact h.right)
      refine ⟨hrest, hbehind.trans hsuffix, told ++ told', hsuspended.tells.append htells, ?_⟩
      intro rest c h
      rw [Transcript.append_assoc]
      refine hsuspended.reads (t.inputDecoder.upcoming (unitsOfFeedings feedings))
        (fun h => by cases h) _ c ?_
      rw [← hmore]
      exact hreads rest c h

/-- What is written at the end of the file. -/
def ending (c : Reading) : Transcript :=
  { written :=
      (if c.state = .bogusComment then [.token (commentToken c.registers.currentComment)] else []) ++
        [.token .eof]
    errors := if eofStateNeedsUnexpectedEofError c.state then [.unexpectedEof] else [] }

/-- The tokens at the end of the file are told with the rest. -/
theorem tells_ending {tokens : List Token} {errors : List HtmlParseError}
    {recorded : List (Nat × SourcePosition)} {told : Transcript}
    (h : Collected.Tells ⟨tokens, errors, scriptPositions tokens recorded⟩ told) (c : Reading)
    {last : List Token} (hlast : last =
      (if c.state = .bogusComment then [commentToken c.registers.currentComment] else []) ++
        [.eof]) :
    Collected.Tells ⟨tokens ++ last,
      errors ++ (if eofStateNeedsUnexpectedEofError c.state then [.unexpectedEof] else []),
      scriptPositions (tokens ++ last) recorded⟩ (told ++ ending c) := by
  have hcomment := commentToken_isMarkup c.registers.currentComment
  have hquiet : ∀ token ∈ last, token.isScriptStart = false ∧ token.Returned := by
    intro token htoken
    rw [hlast] at htoken
    rcases List.mem_append.mp htoken with hbogus | heof
    · split at hbogus
      · rw [List.mem_singleton.mp hbogus]
        refine ⟨?_, .inr (.inl hcomment)⟩
        unfold commentToken
        split <;> rfl
      · cases hbogus
    · rw [List.mem_singleton.mp heof]
      exact ⟨rfl, .inr (.inr rfl)⟩
  refine ⟨?_, ?_, ?_, ?_⟩
  · have hwritten : last.flatMap Token.atoms = (ending c).written := by
      rw [hlast, ending, List.flatMap_append]
      congr 1
      split
      · rw [List.flatMap_cons, atoms_of_isMarkup hcomment]
        rfl
      · rfl
    show (tokens ++ last).flatMap Token.atoms = told.written ++ (ending c).written
    rw [List.flatMap_append, h.tokens, hwritten]
  · exact congrArg (· ++ _) h.errors
  · show scriptPositions (tokens ++ last) recorded = (told.scripts ++ []).map _
    rw [List.append_nil, ← h.scripts]
    simp only [scriptPositions, scriptIndices_append,
      scriptIndices_eq_nil fun t ht => (hquiet t ht).1, List.append_nil]
  · intro token htoken
    rcases List.mem_append.mp htoken with hold | hnew
    · exact h.returned token hold
    · exact (hquiet token hnew).2

theorem work_lt_passes (state : State) (pending : List InputCodePoint) :
    work state pending < passes pending := by
  have hrank := state.rank_le
  unfold work passes
  omega

/-- Without a script to stop at, a drain at EOF leaves nothing. -/
theorem drainPending_eof (t : IncrementalTokenizer) :
    (t.drainPending true false).1.pending = [] :=
  drainLoop_eof (passes t.pending) t.draining t.pending (work_lt_passes _ _)

/-- A drain at EOF reads something, or returns nothing. -/
theorem drainPending_progress {t : IncrementalTokenizer} (hunflushed : t.textBuffer.units = [])
    (hsettled : Utf16.Settled t.pending) (stopAtScript : Bool) :
    (t.drainPending true stopAtScript).1.pending.length < t.pending.length ∨
      ((t.drainPending true stopAtScript).1.pending = [] ∧
        (t.drainPending true stopAtScript).2.tokens = []) := by
  cases hpending : t.pending with
  | nil =>
    refine .inr ?_
    have hloop : drainLoop true stopAtScript (passes t.pending) t.draining t.pending =
        (t.draining, []) := by
      rw [hpending]
      rfl
    refine ⟨congrArg Prod.snd hloop, ?_⟩
    show (drainLoop true stopAtScript (passes t.pending) t.draining t.pending).1.output.tokens ++
      flushText (drainLoop true stopAtScript (passes t.pending) t.draining
        t.pending).1.output.textBuffer = []
    rw [hloop]
    exact flushText_eq_nil hunflushed
  | cons point rest =>
    refine .inl ?_
    rw [← hpending]
    refine drainLoop_progress stopAtScript (passes t.pending) t.draining t.pending
      (draining_sound hunflushed hsettled) ?_ (work_lt_passes _ _)
    rw [hpending]
    exact List.cons_ne_nil _ _

/-- The last drain reads everything and ends the file; a drain that stops at a
script leaves less to read. -/
theorem drainCollected_eof {t : IncrementalTokenizer} (hunflushed : t.textBuffer.units = [])
    (hsettled : Utf16.Settled (t.upcoming [])) (stopAtScript : Bool) :
    (∃ told c, Reads t.reading (t.upcoming []) told c ∧
      (t.drainCollected true stopAtScript).2.Tells (told ++ ending c) ∧
      (t.drainCollected true stopAtScript).2.tokens.getLast? = some .eof) ∨
    (stopAtScript = true ∧ ∃ told,
      (t.drainCollected true stopAtScript).2.Tells told ∧
      (t.drainCollected true stopAtScript).2.tokens.getLast? ≠ some .eof ∧
      (t.drainCollected true stopAtScript).1.textBuffer.units = [] ∧
      (t.drainCollected true stopAtScript).1.upcoming [] <:+ t.upcoming [] ∧
      ((t.drainCollected true stopAtScript).1.upcoming []).length < (t.upcoming []).length ∧
      ∀ rest c, Reads (t.drainCollected true stopAtScript).1.reading
          ((t.drainCollected true stopAtScript).1.upcoming []) rest c →
        Reads t.reading (t.upcoming []) (told ++ rest) c) := by
  obtain ⟨hpending, hupcoming⟩ := upcoming_finish t
  have hfinished : t.finishInputChunk.inputDecoder.pendingHigh = none :=
    (InputDecoder.finish_upcoming t.inputDecoder t.pending).1
  rw [← hpending] at hsettled ⊢
  obtain ⟨told, hsuspended⟩ := drainPending_suspended (t := t.finishInputChunk) hunflushed hsettled
    true stopAtScript
  have hbehind : (t.finishInputChunk.drainPending true stopAtScript).1.upcoming [] =
      (t.finishInputChunk.drainPending true stopAtScript).1.pending := by
    rw [upcoming, hsuspended.decoder, InputDecoder.upcoming, hfinished]
    exact List.append_nil _
  have hreads := hsuspended.reads [] (fun _ => rfl)
  rw [List.append_nil, List.append_nil] at hreads
  by_cases hopen : (!(t.finishInputChunk.drainPending true stopAtScript).1.pending.isEmpty ||
      (stopAtScript && (t.finishInputChunk.drainPending true
        stopAtScript).2.tokens.getLast?.any Token.isScriptEnd)) = true
  · have hdrained : t.drainCollected true stopAtScript =
        ((t.finishInputChunk.drainPending true stopAtScript).1,
          ⟨(t.finishInputChunk.drainPending true stopAtScript).2.tokens,
            (t.finishInputChunk.drainPending true stopAtScript).2.errors,
            scriptPositions (t.finishInputChunk.drainPending true stopAtScript).2.tokens
              (t.finishInputChunk.drainPending true stopAtScript).1.scriptSourcePositions⟩) := by
      simp only [drainCollected, drain, if_true, Bool.not_true, Bool.false_or, hopen]
    have hstop : stopAtScript = true := by
      cases stopAtScript with
      | true => rfl
      | false =>
        rw [drainPending_eof] at hopen
        cases hopen
    refine .inr ⟨hstop, told, ?_⟩
    rw [hdrained, hbehind]
    refine ⟨hsuspended.tells, ?_, hsuspended.unflushed, hsuspended.pending, ?_, hreads⟩
    · intro heof
      exact hsuspended.unfinished (List.mem_of_getLast? heof)
    · rcases drainPending_progress (t := t.finishInputChunk) hunflushed hsettled stopAtScript
        with hless | ⟨hnone, htokens⟩
      · exact hless
      · rw [hnone, htokens] at hopen
        simp at hopen
  · have hclosed := Bool.eq_false_iff.mpr hopen
    have hnone : (t.finishInputChunk.drainPending true stopAtScript).1.pending = [] := by
      rw [Bool.or_eq_true, Bool.not_eq_true', not_or, Bool.not_eq_false, List.isEmpty_iff] at hopen
      exact hopen.1
    let c := (t.finishInputChunk.drainPending true stopAtScript).1.reading
    let last := (if c.state = .bogusComment then [commentToken c.registers.currentComment] else []) ++
      [Token.eof]
    have hdrained : (t.drainCollected true stopAtScript).2 =
        ⟨(t.finishInputChunk.drainPending true stopAtScript).2.tokens ++ last,
          (t.finishInputChunk.drainPending true stopAtScript).2.errors ++
            (if eofStateNeedsUnexpectedEofError c.state then [.unexpectedEof] else []),
          scriptPositions ((t.finishInputChunk.drainPending true stopAtScript).2.tokens ++ last)
            (t.finishInputChunk.drainPending true stopAtScript).1.scriptSourcePositions⟩ := by
      simp only [drainCollected, drain, if_true, Bool.not_true, Bool.false_or, hclosed, if_false,
        Bool.false_eq_true, last, c, reading]
      split <;> rfl
    refine .inl ⟨told, c, ?_, ?_, ?_⟩
    · have hdone : Reads c (t.finishInputChunk.drainPending true stopAtScript).1.pending {} c := by
        rw [hnone]
        exact .done
      have h := hreads _ _ hdone
      rw [Transcript.append_empty] at h
      exact h
    · rw [hdrained]
      exact tells_ending hsuspended.tells c rfl
    · rw [hdrained]
      show (_ ++ (_ ++ [Token.eof])).getLast? = some .eof
      rw [← List.append_assoc, List.getLast?_concat]

/-- Drains to the end of the file read everything. -/
theorem drainUntilEof_spec (stopAtScript : Bool) : ∀ (drains : Nat) (t : IncrementalTokenizer),
    t.textBuffer.units = [] → Utf16.Settled (t.upcoming []) → (t.upcoming []).length < drains →
    ∃ collected told c, t.drainUntilEof stopAtScript drains = some collected ∧
      Reads t.reading (t.upcoming []) told c ∧ collected.Tells (told ++ ending c) := by
  intro drains
  induction drains with
  | zero =>
    intro t _ _ h
    exact absurd h (Nat.not_lt_zero _)
  | succ drains ih =>
    intro t hunflushed hsettled hlength
    rcases drainCollected_eof hunflushed hsettled stopAtScript with
      ⟨told, c, hreads, htells, heof⟩ |
      ⟨_, told, htells, hopen, hflushed, hsuffix, hless, hreads⟩
    · exact ⟨_, told, c, if_pos heof, hreads, htells⟩
    · obtain ⟨consumed, hconsumed⟩ := hsuffix
      rw [← hconsumed] at hsettled
      obtain ⟨collected, told', c, hdrained, hrest, htells'⟩ := ih
        (t.drainCollected true stopAtScript).1 hflushed hsettled.right
        (Nat.lt_of_lt_of_le hless (Nat.le_of_lt_succ hlength))
      refine ⟨(t.drainCollected true stopAtScript).2 ++ collected, told ++ told', c, ?_, ?_, ?_⟩
      · show (if _ then _ else _) = _
        rw [if_neg hopen, hdrained]
        rfl
      · exact hreads told' c hrest
      · rw [Transcript.append_assoc]
        exact htells.append htells'

end IncrementalTokenizer

/-! ## Chunking -/

open IncrementalTokenizer

/-- The input pushed at once, and drained. -/
def tokenizeWhole (scriptingEnabled : Bool) (units : List UInt16) : Collected :=
  (((new scriptingEnabled).pushInputUtf16 units).drainCollected true false).2

theorem reading_unique {c d : Collected} {t u : Transcript} {start a b : Reading}
    {input : List InputCodePoint} (ha : Reads start input t a) (hc : c.Tells (t ++ ending a))
    (hb : Reads start input u b) (hd : d.Tells (u ++ ending b)) : c.Alike d := by
  obtain ⟨rfl, rfl⟩ := ha.unique hb
  exact hc.alike hd

theorem settled_new (scriptingEnabled : Bool) (units : List UInt16) :
    Utf16.Settled ((new scriptingEnabled).upcoming units) := Utf16.settled_decode units

/-- However an input is divided into chunks, and wherever it is drained in
between, with or without stops at scripts, the drains to the end of the file
return what one push of the input returns. -/
theorem tokenize_chunks_alike (scriptingEnabled : Bool) (feedings : List Feeding) :
    (((new scriptingEnabled).feed feedings).2 ++
        (((new scriptingEnabled).feed feedings).1.drainCollected true false).2).Alike
      (tokenizeWhole scriptingEnabled (unitsOfFeedings feedings)) ∧
    ∀ stopAtScript, ∃ collected,
      ((new scriptingEnabled).feed feedings).1.drainUntilEof stopAtScript
          ((unitsOfFeedings feedings).length + 1) = some collected ∧
        (((new scriptingEnabled).feed feedings).2 ++ collected).Alike
          (tokenizeWhole scriptingEnabled (unitsOfFeedings feedings)) := by
  have hsettled := settled_new scriptingEnabled (unitsOfFeedings feedings)
  have hlength : ((new scriptingEnabled).upcoming (unitsOfFeedings feedings)).length ≤
      (unitsOfFeedings feedings).length := by
    have h := Utf16.length_decodeFrom_le (unitsOfFeedings feedings) none
    rw [Option.toList_none, List.length_nil, Nat.zero_add] at h
    exact h
  -- the whole input at once
  have hpush : ((new scriptingEnabled).pushInputUtf16 (unitsOfFeedings feedings)).upcoming [] =
      (new scriptingEnabled).upcoming (unitsOfFeedings feedings) := by
    have h := upcoming_pushChunk (new scriptingEnabled) (.units (unitsOfFeedings feedings)) []
    rw [List.append_nil] at h
    exact h
  have hwhole : ∃ told c, Reads (new scriptingEnabled).reading
      ((new scriptingEnabled).upcoming (unitsOfFeedings feedings)) told c ∧
      (tokenizeWhole scriptingEnabled (unitsOfFeedings feedings)).Tells (told ++ ending c) := by
    have hpushed := hsettled
    rw [← hpush] at hpushed ⊢
    rcases drainCollected_eof (t := (new scriptingEnabled).pushInputUtf16 (unitsOfFeedings feedings))
      rfl hpushed false with ⟨told, c, hreads, htells, _⟩ | ⟨hstop, _⟩
    · exact ⟨told, c, hreads, htells⟩
    · cases hstop
  obtain ⟨whole, cwhole, hreadsWhole, htellsWhole⟩ := hwhole
  -- the chunks
  obtain ⟨hunflushed, hsuffix, told, htells, hreads⟩ :=
    feed_spec feedings (new scriptingEnabled) rfl hsettled
  have hrest : Utf16.Settled (((new scriptingEnabled).feed feedings).1.upcoming []) := by
    obtain ⟨consumed, hconsumed⟩ := hsuffix
    rw [← hconsumed] at hsettled
    exact hsettled.right
  refine ⟨?_, fun stopAtScript => ?_⟩
  · rcases drainCollected_eof hunflushed hrest false with ⟨told', c, hlast, htells', _⟩ | ⟨hstop, _⟩
    · refine reading_unique (hreads told' c hlast) ?_ hreadsWhole htellsWhole
      rw [Transcript.append_assoc]
      exact htells.append htells'
    · cases hstop
  · obtain ⟨collected, told', c, hdrained, hlast, htells'⟩ := drainUntilEof_spec stopAtScript
      ((unitsOfFeedings feedings).length + 1) ((new scriptingEnabled).feed feedings).1 hunflushed
      hrest (Nat.lt_succ_of_le (hsuffix.length_le.trans hlength))
    refine ⟨collected, hdrained, reading_unique (hreads told' c hlast) ?_ hreadsWhole htellsWhole⟩
    rw [Transcript.append_assoc]
    exact htells.append htells'

end Omoikane.Html
