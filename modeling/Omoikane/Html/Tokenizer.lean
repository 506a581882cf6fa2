import Omoikane.Html.Lexer

/-!
# The incremental tokenizer

`IncrementalTokenizer.drain` runs the state machine of `Html.Lexer` over the
pending input.  It stops at the end of the input, in front of lookahead that the
input pushed so far does not decide, and, where asked to, behind the end tag of a
script.
-/

namespace Omoikane.Html

open Base

/-! ## Source positions -/

/-- `u32::saturating_add`. -/
def saturatingAdd (a b : Nat) : Nat := min (a + b) 4294967295

structure SourcePosition where
  line : Nat := 1
  column : Nat := 1
  afterCr : Bool := false
deriving DecidableEq, Repr

/-- The number of UTF-16 units of a code point. -/
def InputCodePoint.width (point : InputCodePoint) : Nat := point.units.length

def SourcePosition.advance (position : SourcePosition) (point : InputCodePoint) :
    SourcePosition :=
  if point = .scalar '\r' then
    { line := saturatingAdd position.line 1, column := 1, afterCr := true }
  else if point = .scalar '\n' then
    { line := if position.afterCr then position.line else saturatingAdd position.line 1
      column := 1
      afterCr := false }
  else
    { line := position.line
      column := saturatingAdd position.column (InputCodePoint.width point)
      afterCr := false }

/-! ## Output -/

/-- The tokens of decoded text: runs of scalar values between surrogates. -/
def splitRuns : Text → List InputCodePoint → List Token
  | scalar, [] => if scalar.isEmpty then [] else [.character scalar]
  | scalar, .scalar ch :: points => splitRuns (scalar ++ [ch]) points
  | scalar, .surrogate unit :: points =>
    (if scalar.isEmpty then [] else [.character scalar]) ++
      .surrogate unit :: splitRuns [] points

/-- `flush_text`: the tokens of the buffer, which is empty afterwards. -/
def flushText (buffer : TextBuffer) : List Token :=
  match buffer.take with
  | none => []
  | some (.scalar data) => [.character data]
  | some (.utf16 units) => splitRuns [] (Utf16.decode units)

/-- What the loop of `drain` writes to. -/
structure Output where
  textBuffer : TextBuffer := {}
  tokens : List Token := []
  errors : List HtmlParseError := []

/-- Carries out one write of a step. -/
def Output.emit (output : Output) : Emit → Output
  | .push value => { output with textBuffer := output.textBuffer.push value }
  | .pushStr value => { output with textBuffer := output.textBuffer.pushStr value }
  | .pushCodePoint point => { output with textBuffer := output.textBuffer.pushCodePoint point }
  | .flush =>
    { output with textBuffer := {}, tokens := output.tokens ++ flushText output.textBuffer }
  | .token token => { output with tokens := output.tokens ++ [token] }
  | .error error => { output with errors := output.errors ++ [error] }

def Output.emitAll (output : Output) (emits : List Emit) : Output := emits.foldl Output.emit output

/-- A start tag of a script. -/
def Token.isScriptStart : Token → Bool
  | .startTag name _ _ => name == "script".toList
  | _ => false

/-- An end tag of a script. -/
def Token.isScriptEnd : Token → Bool
  | .endTag name => name == "script".toList
  | _ => false

/-! ## Lookahead at an input boundary -/

/-- Lookahead which cannot be committed at a non-final input boundary. -/
def needsMoreInput (state : State) (ch : Char) (remaining : List InputCodePoint) : Bool :=
  if ch = '&' ∧ (state = .data ∨ state = .rcData ∨ state = .attributeValueDoubleQuoted ∨
      state = .attributeValueSingleQuoted ∨ state = .attributeValueUnquoted) then
    remaining.tail.all fun point => isReferenceChar point.scalarView
  else
    match state with
    | .tagOpen => ch == '?' && !remaining.contains (.scalar '>')
    | .markupDeclarationOpen =>
      if ch = '-' then remaining.length < 2
      else ch.toLower == 'd' && remaining.length < 7
    | .afterDoctypeName =>
      !isHtmlWhitespace ch && ch != '>' && remaining.length < 6 &&
        remaining.all fun point => point.scalarView.isAlpha
    | _ => false

/-- Whether reaching EOF while in `state` is an unexpected EOF. -/
def eofStateNeedsUnexpectedEofError : State → Bool
  | .comment | .commentEnd | .commentEndDash | .commentStart | .commentStartDash | .tagOpen
  | .endTagOpen | .tagName | .beforeAttributeName | .attributeName | .afterAttributeName
  | .beforeAttributeValue | .attributeValueDoubleQuoted | .attributeValueSingleQuoted
  | .attributeValueUnquoted | .afterAttributeValueQuoted | .selfClosingStartTag
  | .markupDeclarationOpen | .doctype | .beforeDoctypeName | .doctypeName | .afterDoctypeName
  | .afterDoctypePublicKeyword | .beforeDoctypePublicIdentifier
  | .doctypePublicIdentifierDoubleQuoted | .doctypePublicIdentifierSingleQuoted
  | .afterDoctypePublicIdentifier | .betweenDoctypePublicAndSystemIdentifiers
  | .afterDoctypeSystemKeyword | .beforeDoctypeSystemIdentifier
  | .doctypeSystemIdentifierDoubleQuoted | .doctypeSystemIdentifierSingleQuoted
  | .afterDoctypeSystemIdentifier => true
  | _ => false

/-! ## The loop -/

/-- The locals of `drain`. -/
structure Draining where
  state : State
  registers : Registers
  output : Output := {}
  sourcePosition : SourcePosition
  scriptSourcePositions : List (Nat × SourcePosition) := []

/-- The last token, if the step has pushed one. -/
def pushedLast (before after : List Token) : Option Token :=
  if after.length > before.length then after.getLast? else none

/-- The position behind what was consumed of `remaining`. -/
def advanceOver (position : SourcePosition) (remaining rest : List InputCodePoint) :
    SourcePosition :=
  (remaining.take (remaining.length - rest.length)).foldl SourcePosition.advance position

/-- One pass of the loop. -/
def Draining.advance (d : Draining) (point : InputCodePoint) (rest : List InputCodePoint) :
    Draining × List InputCodePoint :=
  let stepped := step d.state d.registers point rest
  let output := d.output.emitAll stepped.emits
  let sourcePosition := advanceOver d.sourcePosition (point :: rest) stepped.rest
  ({ state := stepped.state
     registers := stepped.registers
     output := output
     sourcePosition := sourcePosition
     scriptSourcePositions :=
       if (pushedLast d.output.tokens output.tokens).any Token.isScriptStart then
         d.scriptSourcePositions ++ [(output.tokens.length - 1, sourcePosition)]
       else d.scriptSourcePositions },
    stepped.rest)

/-- The loop of `drain`, with a bound on the number of passes. -/
def drainLoop (eof stopAtScript : Bool) :
    Nat → Draining → List InputCodePoint → Draining × List InputCodePoint
  | 0, d, remaining => (d, remaining)
  | _ + 1, d, [] => (d, [])
  | passes + 1, d, point :: rest =>
    if !eof && needsMoreInput d.state point.scalarView (point :: rest) then (d, point :: rest)
    else
      let next := d.advance point rest
      if stopAtScript &&
          (pushedLast d.output.tokens next.1.output.tokens).any Token.isScriptEnd then next
      else drainLoop eof stopAtScript passes next.1 next.2

/-! ## The tokenizer -/

/-- Retains lexical state across writes; only an explicit finish emits EOF. -/
structure IncrementalTokenizer where
  sourcePosition : SourcePosition := {}
  scriptSourcePositions : List (Nat × SourcePosition) := []
  pending : List InputCodePoint := []
  inputDecoder : InputDecoder := {}
  state : State := .data
  textBuffer : TextBuffer := {}
  registers : Registers := {}

namespace IncrementalTokenizer

/-- `new`, with or without the scripting-enabled content model. -/
def new (scriptingEnabled : Bool) : IncrementalTokenizer :=
  { registers := { scriptingEnabled } }

def pushInput (t : IncrementalTokenizer) (input : Text) : IncrementalTokenizer :=
  let pushed := t.inputDecoder.pushStr input t.pending
  { t with inputDecoder := pushed.1, pending := pushed.2 }

def pushInputUtf16 (t : IncrementalTokenizer) (units : List UInt16) : IncrementalTokenizer :=
  let pushed := t.inputDecoder.push units t.pending
  { t with inputDecoder := pushed.1, pending := pushed.2 }

def finishInputChunk (t : IncrementalTokenizer) : IncrementalTokenizer :=
  let finished := t.inputDecoder.finish t.pending
  { t with inputDecoder := finished.1, pending := finished.2 }

/-- More passes than the loop can make: a state reconsumes at most twice in a row. -/
def passes (pending : List InputCodePoint) : Nat := 3 * pending.length + 3

/-- The part of `drain` up to the questions of EOF: the loop, and flushing the text. -/
def drainPending (t : IncrementalTokenizer) (eof stopAtScript : Bool) :
    IncrementalTokenizer × Output :=
  let looped := drainLoop eof stopAtScript (passes t.pending)
    { state := t.state
      registers := t.registers
      output := { textBuffer := t.textBuffer }
      sourcePosition := t.sourcePosition } t.pending
  let output := looped.1.output.emit .flush
  ({ sourcePosition := looped.1.sourcePosition
     scriptSourcePositions := looped.1.scriptSourcePositions
     pending := looped.2
     inputDecoder := t.inputDecoder
     state := looped.1.state
     textBuffer := output.textBuffer
     registers := looped.1.registers }, output)

def drain (t : IncrementalTokenizer) (eof stopAtScript : Bool) :
    IncrementalTokenizer × List Token × List HtmlParseError :=
  let t := if eof then t.finishInputChunk else t
  let (drained, output) := t.drainPending eof stopAtScript
  if !eof || !drained.pending.isEmpty ||
      (stopAtScript && output.tokens.getLast?.any Token.isScriptEnd) then
    (drained, output.tokens, output.errors)
  else
    let errors := if eofStateNeedsUnexpectedEofError drained.state then [.unexpectedEof] else []
    if drained.state = .bogusComment then
      ({ drained with registers := { drained.registers with currentComment := {} } },
        output.tokens ++ [commentToken drained.registers.currentComment, .eof],
        output.errors ++ errors)
    else (drained, output.tokens ++ [.eof], output.errors ++ errors)

end IncrementalTokenizer

/-! ## Whole inputs -/

/-- `tokenize_with_errors`. -/
def tokenizeWithErrors (scriptingEnabled : Bool) (input : Text) :
    List Token × List HtmlParseError :=
  (((IncrementalTokenizer.new scriptingEnabled).pushInput input).drain true false).2

/-- `tokenize_fragment_with_errors`. -/
def tokenizeFragmentWithErrors (scriptingEnabled : Bool) (input contextName : Text) :
    List Token × List HtmlParseError :=
  let tokenizer := IncrementalTokenizer.new scriptingEnabled
  let contextName := Text.toAsciiLowercase contextName
  let tokenizer := { tokenizer with state := rawNextState contextName false scriptingEnabled }
  let tokenizer :=
    if tokenizer.state ≠ .data then
      { tokenizer with registers := { tokenizer.registers with lastStartTagName := contextName } }
    else tokenizer
  ((tokenizer.pushInput input).drain true false).2

end Omoikane.Html
