import Omoikane.Html.Input

/-!
# The tokenizer's state machine

The lexical states, the buffers a token under construction is kept in, and what
one input code point does.  The output of a step is a list of `Emit`s: what the
step writes to the text buffer, the token list and the error list, in order.
`Html.Tokenizer` has the loop that carries them out.

Most states look at one code point only (`stepPoint`).  Character references,
processing instructions, `<!` and the keyword of a doctype look further ahead
(`step`).
-/

namespace Omoikane.Html

open Base

/-! ## Tokens -/

/-- A parsed attribute.  `Attribute::value` and the exact units of the source are
the two parts of `data`. -/
structure Attribute where
  name : Text
  data : DomString
deriving DecidableEq, Repr

structure DoctypeToken where
  name : Option Text
  publicId : Option Text
  systemId : Option Text
  forceQuirks : Bool
deriving DecidableEq, Repr

inductive Token
  | startTag (name : Text) (attributes : List Attribute) (selfClosing : Bool)
  | endTag (name : Text)
  | comment (data : Text)
  | commentUtf16 (units : List UInt16)
  | processingInstructionUtf16 (target : Text) (data : List UInt16)
  | processingInstruction (target data : Text)
  | doctype (token : DoctypeToken)
  | character (data : Text)
  | surrogate (unit : UInt16)
  | eof
deriving DecidableEq, Repr

/-- Tokenization errors collected while parsing. -/
inductive HtmlParseError
  | unexpectedEof
  | missingTagName
  | invalidCharacterReference
  | invalidDoctype
  | invalidProcessingInstructionTarget
  | disallowedProcessingInstructionTarget
deriving DecidableEq, Repr

/-! ## States -/

inductive State
  | data
  | tagOpen
  | endTagOpen
  | tagName
  | beforeAttributeName
  | attributeName
  | afterAttributeName
  | beforeAttributeValue
  | attributeValueDoubleQuoted
  | attributeValueSingleQuoted
  | attributeValueUnquoted
  | afterAttributeValueQuoted
  | selfClosingStartTag
  | markupDeclarationOpen
  | commentStart
  | commentStartDash
  | comment
  | commentEndDash
  | commentEnd
  | bogusComment
  | doctype
  | beforeDoctypeName
  | doctypeName
  | afterDoctypeName
  | afterDoctypePublicKeyword
  | beforeDoctypePublicIdentifier
  | doctypePublicIdentifierDoubleQuoted
  | doctypePublicIdentifierSingleQuoted
  | afterDoctypePublicIdentifier
  | betweenDoctypePublicAndSystemIdentifiers
  | afterDoctypeSystemKeyword
  | beforeDoctypeSystemIdentifier
  | doctypeSystemIdentifierDoubleQuoted
  | doctypeSystemIdentifierSingleQuoted
  | afterDoctypeSystemIdentifier
  | bogusDoctype
  | rawText
  | rawTextLessThanSign
  | rawTextEndTagOpen
  | rawTextEndTagName
  | rcData
  | rcDataLessThanSign
  | rcDataEndTagOpen
  | rcDataEndTagName
  | scriptData
  | scriptDataLessThanSign
  | scriptDataEndTagOpen
  | scriptDataEndTagName
  | scriptDataEscapeStart
  | scriptDataEscapeStartDash
  | scriptDataEscaped
  | scriptDataEscapedDash
  | scriptDataEscapedDashDash
  | scriptDataEscapedLessThanSign
  | scriptDataEscapedEndTagOpen
  | scriptDataEscapedEndTagName
  | scriptDataDoubleEscapeStart
  | scriptDataDoubleEscaped
  | scriptDataDoubleEscapedDash
  | scriptDataDoubleEscapedDashDash
  | scriptDataDoubleEscapedLessThanSign
  | scriptDataDoubleEscapeEnd
  | plainText
deriving DecidableEq, Repr

/-- The buffers of `IncrementalTokenizer` other than the text buffer. -/
structure Registers where
  scriptingEnabled : Bool := true
  currentTagName : Text := []
  currentEndTagName : Text := []
  currentAttributes : List Attribute := []
  currentAttrName : Text := []
  currentAttrValue : TextBuffer := {}
  currentSelfClosing : Bool := false
  currentComment : TextBuffer := {}
  currentDoctypeName : Text := []
  currentDoctypePublicId : Option Text := none
  currentDoctypeSystemId : Option Text := none
  currentDoctypeForceQuirks : Bool := false
  tempBuffer : Text := []
  lastStartTagName : Text := []
deriving DecidableEq, Repr

/-- One write of a step: to the text buffer, the token list or the error list. -/
inductive Emit
  | push (value : Char)
  | pushStr (value : Text)
  | pushCodePoint (point : InputCodePoint)
  /-- `flush_text`. -/
  | flush
  | token (token : Token)
  | error (error : HtmlParseError)
deriving DecidableEq, Repr

/-- What a state does with one code point. -/
structure Turn where
  state : State
  registers : Registers
  emits : List Emit := []
  reconsume : Bool := false

/-! ## Characters -/

def isTagNameStart (ch : Char) : Bool := ch.isAlpha

def isHtmlWhitespace (ch : Char) : Bool :=
  ch == '\t' || ch == '\n' || ch == '\x0C' || ch == '\r' || ch == ' '

/-! ## Tags -/

def commentToken (data : TextBuffer) : Token :=
  match data.take.getD (.scalar []) with
  | .scalar data => .comment data
  | .utf16 units => .commentUtf16 units

def pushAttribute (r : Registers) : Registers :=
  if r.currentAttrName.isEmpty then r
  else
    { r with
      currentAttributes := r.currentAttributes ++
        [⟨r.currentAttrName, r.currentAttrValue.take.getD (.scalar [])⟩]
      currentAttrName := []
      currentAttrValue := {} }

def emitTag (r : Registers) : List Emit :=
  if !r.currentEndTagName.isEmpty then [.token (.endTag r.currentEndTagName)]
  else if !r.currentTagName.isEmpty then
    [.token (.startTag r.currentTagName r.currentAttributes r.currentSelfClosing)]
  else []

/-- The state to switch into after a start tag. -/
def rawNextState (tagName : Text) (selfClosing scriptingEnabled : Bool) : State :=
  if selfClosing then .data
  else if tagName = "script".toList then .scriptData
  else if tagName = "style".toList ∨ tagName = "xmp".toList ∨ tagName = "noembed".toList ∨
      tagName = "noframes".toList then .rawText
  else if tagName = "noscript".toList ∧ scriptingEnabled then .rawText
  else if tagName = "title".toList ∨ tagName = "textarea".toList then .rcData
  else if tagName = "plaintext".toList then .plainText
  else .data

/-- Emits the current start or end tag and switches into the state behind it. -/
def closeCurrentTag (r : Registers) : Turn :=
  let next := rawNextState r.currentTagName r.currentSelfClosing r.scriptingEnabled
  let opened := r.currentEndTagName.isEmpty
  { state := if opened then next else .data
    registers :=
      { r with
        lastStartTagName :=
          if opened && next != .data then r.currentTagName else r.lastStartTagName
        currentTagName := []
        currentEndTagName := []
        currentAttributes := []
        currentSelfClosing := false }
    emits := emitTag r }

/-- `raw_end_tag_name_step`; what is no end tag is reconsumed in `content`. -/
def rawEndTagNameStep (selfState content : State) (r : Registers) (ch : Char) : Turn :=
  let isAppropriate := Text.eqIgnoreAsciiCase r.tempBuffer r.lastStartTagName
  let committed : Registers :=
    { r with
      currentEndTagName := Text.toAsciiLowercase r.tempBuffer
      currentTagName := []
      currentAttributes := []
      currentSelfClosing := false
      tempBuffer := [] }
  if isHtmlWhitespace ch && isAppropriate then ⟨.beforeAttributeName, committed, [.flush], false⟩
  else if ch = '/' ∧ isAppropriate then ⟨.selfClosingStartTag, committed, [.flush], false⟩
  else if ch = '>' ∧ isAppropriate then
    ⟨.data, { r with tempBuffer := [] },
      [.flush, .token (.endTag (Text.toAsciiLowercase r.tempBuffer))], false⟩
  else if ch.isAlpha then ⟨selfState, { r with tempBuffer := r.tempBuffer ++ [ch] }, [], false⟩
  else
    ⟨content, { r with tempBuffer := [] }, [.push '<', .push '/', .pushStr r.tempBuffer], true⟩

/-! ## States of raw text

The states behind a `<` are alike in the raw content models, up to the states
they switch between. -/

def lessThanSign (content slash : State) (r : Registers) (ch : Char) : Turn :=
  if ch = '/' then ⟨slash, { r with tempBuffer := [] }, [], false⟩
  else ⟨content, r, [.push '<'], true⟩

def rawEndTagOpen (content name : State) (r : Registers) (ch : Char) : Turn :=
  if ch.isAlpha then ⟨name, { r with tempBuffer := [] }, [], true⟩
  else ⟨content, r, [.push '<', .push '/'], true⟩

/-- The states that look for `script` inside escaped script data. -/
def doubleEscape (selfState script otherwise : State) (r : Registers) (ch : Char) : Turn :=
  if isHtmlWhitespace ch || ch == '/' || ch == '>' then
    ⟨if Text.eqIgnoreAsciiCase r.tempBuffer "script".toList then script else otherwise, r,
      [.push ch], false⟩
  else if ch.isAlpha then
    ⟨selfState, { r with tempBuffer := r.tempBuffer ++ [ch.toLower] }, [.push ch], false⟩
  else ⟨otherwise, r, [], true⟩

/-! ## Doctypes -/

/-- `emit_doctype!`. -/
def emitDoctype (r : Registers) : Registers × Emit :=
  ({ r with
      currentDoctypeName := []
      currentDoctypePublicId := none
      currentDoctypeSystemId := none
      currentDoctypeForceQuirks := false },
    .token (.doctype
      { name := some r.currentDoctypeName
        publicId := r.currentDoctypePublicId
        systemId := r.currentDoctypeSystemId
        forceQuirks := r.currentDoctypeForceQuirks }))

/-- Ends the current doctype at `>`. -/
def closeDoctype (r : Registers) : Turn :=
  ⟨.data, (emitDoctype r).1, [(emitDoctype r).2], false⟩

/-- Ends a doctype that lacks something at `>`. -/
def closeInvalidDoctype (r : Registers) : Turn :=
  let quirky := { r with currentDoctypeForceQuirks := true }
  ⟨.data, (emitDoctype quirky).1, [.error .invalidDoctype, (emitDoctype quirky).2], false⟩

/-- A doctype without a name. -/
def closeNamelessDoctype (r : Registers) : Turn :=
  ⟨.data, r, [.error .invalidDoctype, .token (.doctype
    { name := none, publicId := none, systemId := none, forceQuirks := true })], false⟩

/-- What does not belong into a doctype is left to the bogus doctype state. -/
def invalidDoctype (r : Registers) : Turn :=
  ⟨.bogusDoctype, { r with currentDoctypeForceQuirks := true }, [.error .invalidDoctype], true⟩

/-- The states in front of a public identifier. -/
def beforePublicIdentifier (r : Registers) (ch : Char) : Turn :=
  if isHtmlWhitespace ch then ⟨.beforeDoctypePublicIdentifier, r, [], false⟩
  else if ch = '"' then
    ⟨.doctypePublicIdentifierDoubleQuoted, { r with currentDoctypePublicId := some [] }, [], false⟩
  else if ch = '\'' then
    ⟨.doctypePublicIdentifierSingleQuoted, { r with currentDoctypePublicId := some [] }, [], false⟩
  else if ch = '>' then closeInvalidDoctype r
  else invalidDoctype r

/-- The states in front of a system identifier. -/
def beforeSystemIdentifier (r : Registers) (ch : Char) : Turn :=
  if isHtmlWhitespace ch then ⟨.beforeDoctypeSystemIdentifier, r, [], false⟩
  else if ch = '"' then
    ⟨.doctypeSystemIdentifierDoubleQuoted, { r with currentDoctypeSystemId := some [] }, [], false⟩
  else if ch = '\'' then
    ⟨.doctypeSystemIdentifierSingleQuoted, { r with currentDoctypeSystemId := some [] }, [], false⟩
  else if ch = '>' then closeInvalidDoctype r
  else invalidDoctype r

def publicIdentifierQuoted (quote : Char) (selfState : State) (r : Registers) (ch : Char) : Turn :=
  if ch = quote then ⟨.afterDoctypePublicIdentifier, r, [], false⟩
  else if ch = '>' then closeInvalidDoctype r
  else
    ⟨selfState, { r with currentDoctypePublicId := r.currentDoctypePublicId.map (· ++ [ch]) }, [],
      false⟩

def systemIdentifierQuoted (quote : Char) (selfState : State) (r : Registers) (ch : Char) : Turn :=
  if ch = quote then ⟨.afterDoctypeSystemIdentifier, r, [], false⟩
  else if ch = '>' then closeInvalidDoctype r
  else
    ⟨selfState, { r with currentDoctypeSystemId := r.currentDoctypeSystemId.map (· ++ [ch]) }, [],
      false⟩

/-- The states behind a public identifier; `emits` is the error of a missing space. -/
def afterPublicIdentifier (emits : List Emit) (r : Registers) (ch : Char) : Turn :=
  if isHtmlWhitespace ch then ⟨.betweenDoctypePublicAndSystemIdentifiers, r, [], false⟩
  else if ch = '>' then closeDoctype r
  else if ch = '"' then
    ⟨.doctypeSystemIdentifierDoubleQuoted, { r with currentDoctypeSystemId := some [] }, emits,
      false⟩
  else if ch = '\'' then
    ⟨.doctypeSystemIdentifierSingleQuoted, { r with currentDoctypeSystemId := some [] }, emits,
      false⟩
  else invalidDoctype r

/-! ## One code point -/

/-- What a state does with a code point when nothing behind it is looked at. -/
def stepPoint (state : State) (r : Registers) (point : InputCodePoint) : Turn :=
  let ch := point.scalarView
  match state with
  | .data =>
    if ch = '<' then ⟨.tagOpen, r, [.flush], false⟩
    else ⟨.data, r, [.pushCodePoint point], false⟩
  | .plainText => ⟨.plainText, r, [.pushCodePoint point], false⟩
  | .tagOpen =>
    if ch = '/' then ⟨.endTagOpen, { r with currentEndTagName := [] }, [], false⟩
    else if ch = '!' then ⟨.markupDeclarationOpen, r, [], false⟩
    else if isTagNameStart ch then
      ⟨.tagName,
        { r with
          currentTagName := [ch.toLower]
          currentAttributes := []
          currentSelfClosing := false }, [], false⟩
    else ⟨.data, r, [.error .missingTagName, .push '<', .pushCodePoint point], false⟩
  | .endTagOpen =>
    if isTagNameStart ch then ⟨.tagName, { r with currentEndTagName := [ch.toLower] }, [], false⟩
    else if ch = '>' then ⟨.data, r, [.error .missingTagName], false⟩
    else
      ⟨.data, r, [.error .missingTagName, .pushStr "</".toList, .pushCodePoint point], false⟩
  | .tagName =>
    if isHtmlWhitespace ch then ⟨.beforeAttributeName, r, [], false⟩
    else if ch = '/' then ⟨.selfClosingStartTag, r, [], false⟩
    else if ch = '>' then closeCurrentTag r
    else if r.currentEndTagName.isEmpty then
      ⟨.tagName, { r with currentTagName := r.currentTagName ++ [ch.toLower] }, [], false⟩
    else
      ⟨.tagName, { r with currentEndTagName := r.currentEndTagName ++ [ch.toLower] }, [], false⟩
  | .beforeAttributeName =>
    if isHtmlWhitespace ch then ⟨.beforeAttributeName, r, [], false⟩
    else if ch = '/' then ⟨.selfClosingStartTag, r, [], false⟩
    else if ch = '>' then closeCurrentTag r
    else
      ⟨.attributeName, { r with currentAttrName := [ch.toLower], currentAttrValue := {} }, [],
        false⟩
  | .attributeName =>
    if isHtmlWhitespace ch then ⟨.afterAttributeName, r, [], false⟩
    else if ch = '=' then ⟨.beforeAttributeValue, r, [], false⟩
    else if ch = '/' then ⟨.selfClosingStartTag, pushAttribute r, [], false⟩
    else if ch = '>' then closeCurrentTag (pushAttribute r)
    else ⟨.attributeName, { r with currentAttrName := r.currentAttrName ++ [ch.toLower] }, [], false⟩
  | .afterAttributeName =>
    if isHtmlWhitespace ch then ⟨.afterAttributeName, r, [], false⟩
    else if ch = '=' then ⟨.beforeAttributeValue, r, [], false⟩
    else if ch = '/' then ⟨.selfClosingStartTag, pushAttribute r, [], false⟩
    else if ch = '>' then closeCurrentTag (pushAttribute r)
    else
      let pushed := pushAttribute r
      ⟨.attributeName, { pushed with currentAttrName := pushed.currentAttrName ++ [ch.toLower] },
        [], false⟩
  | .beforeAttributeValue =>
    if isHtmlWhitespace ch then ⟨.beforeAttributeValue, r, [], false⟩
    else if ch = '"' then ⟨.attributeValueDoubleQuoted, r, [], false⟩
    else if ch = '\'' then ⟨.attributeValueSingleQuoted, r, [], false⟩
    else if ch = '>' then closeCurrentTag (pushAttribute r)
    else
      ⟨.attributeValueUnquoted,
        { r with currentAttrValue := r.currentAttrValue.pushCodePoint point }, [], false⟩
  | .attributeValueDoubleQuoted =>
    if ch = '"' then ⟨.afterAttributeValueQuoted, pushAttribute r, [], false⟩
    else
      ⟨.attributeValueDoubleQuoted,
        { r with currentAttrValue := r.currentAttrValue.pushCodePoint point }, [], false⟩
  | .attributeValueSingleQuoted =>
    if ch = '\'' then ⟨.afterAttributeValueQuoted, pushAttribute r, [], false⟩
    else
      ⟨.attributeValueSingleQuoted,
        { r with currentAttrValue := r.currentAttrValue.pushCodePoint point }, [], false⟩
  | .attributeValueUnquoted =>
    if isHtmlWhitespace ch then ⟨.beforeAttributeName, pushAttribute r, [], false⟩
    else if ch = '>' then closeCurrentTag (pushAttribute r)
    else
      ⟨.attributeValueUnquoted,
        { r with currentAttrValue := r.currentAttrValue.pushCodePoint point }, [], false⟩
  | .afterAttributeValueQuoted =>
    if isHtmlWhitespace ch then ⟨.beforeAttributeName, r, [], false⟩
    else if ch = '/' then ⟨.selfClosingStartTag, r, [], false⟩
    else if ch = '>' then closeCurrentTag r
    else
      ⟨.beforeAttributeName, { r with currentAttrName := [], currentAttrValue := {} },
        [.error .unexpectedEof], true⟩
  | .selfClosingStartTag =>
    if ch = '>' then closeCurrentTag { r with currentSelfClosing := true }
    else ⟨.beforeAttributeName, r, [], true⟩
  | .markupDeclarationOpen =>
    ⟨.bogusComment, { r with currentComment := ({} : TextBuffer).pushCodePoint point }, [], false⟩
  | .commentStart =>
    if ch = '-' then ⟨.commentStartDash, r, [], false⟩
    else if ch = '>' then ⟨.data, r, [.token (.comment [])], false⟩
    else ⟨.comment, { r with currentComment := r.currentComment.pushCodePoint point }, [], false⟩
  | .commentStartDash =>
    if ch = '-' then ⟨.commentEnd, r, [], false⟩
    else if ch = '>' then ⟨.data, r, [.token (.comment [])], false⟩
    else
      ⟨.comment, { r with currentComment := (r.currentComment.push '-').pushCodePoint point }, [],
        false⟩
  | .comment =>
    if ch = '-' then ⟨.commentEndDash, r, [], false⟩
    else ⟨.comment, { r with currentComment := r.currentComment.pushCodePoint point }, [], false⟩
  | .commentEndDash =>
    if ch = '-' then ⟨.commentEnd, r, [], false⟩
    else
      ⟨.comment, { r with currentComment := (r.currentComment.push '-').pushCodePoint point }, [],
        false⟩
  | .commentEnd =>
    if ch = '>' then
      ⟨.data, { r with currentComment := {} }, [.token (commentToken r.currentComment)], false⟩
    else if ch = '-' then
      ⟨.commentEnd, { r with currentComment := r.currentComment.push '-' }, [], false⟩
    else
      ⟨.comment,
        { r with currentComment := (r.currentComment.pushStr "--".toList).pushCodePoint point },
        [], false⟩
  | .bogusComment =>
    if ch = '>' then
      ⟨.data, { r with currentComment := {} }, [.token (commentToken r.currentComment)], false⟩
    else
      ⟨.bogusComment, { r with currentComment := r.currentComment.pushCodePoint point }, [], false⟩
  | .doctype =>
    if isHtmlWhitespace ch then ⟨.beforeDoctypeName, r, [], false⟩
    else if ch = '>' then closeNamelessDoctype r
    else
      ⟨.doctypeName, { r with currentDoctypeName := r.currentDoctypeName ++ [ch.toLower] },
        [.error .invalidDoctype], false⟩
  | .beforeDoctypeName =>
    if isHtmlWhitespace ch then ⟨.beforeDoctypeName, r, [], false⟩
    else if ch = '>' then closeNamelessDoctype r
    else ⟨.doctypeName, { r with currentDoctypeName := [ch.toLower] }, [], false⟩
  | .doctypeName =>
    if isHtmlWhitespace ch then ⟨.afterDoctypeName, r, [], false⟩
    else if ch = '>' then closeDoctype r
    else
      ⟨.doctypeName, { r with currentDoctypeName := r.currentDoctypeName ++ [ch.toLower] }, [],
        false⟩
  | .afterDoctypeName =>
    if isHtmlWhitespace ch then ⟨.afterDoctypeName, r, [], false⟩
    else if ch = '>' then closeDoctype r
    -- what the keyword is, `doctypeKeyword` decides; this is the case of no keyword
    else
      ⟨.bogusDoctype, { r with currentDoctypeForceQuirks := true }, [.error .invalidDoctype],
        false⟩
  | .afterDoctypePublicKeyword => beforePublicIdentifier r ch
  | .beforeDoctypePublicIdentifier => beforePublicIdentifier r ch
  | .doctypePublicIdentifierDoubleQuoted =>
    publicIdentifierQuoted '"' .doctypePublicIdentifierDoubleQuoted r ch
  | .doctypePublicIdentifierSingleQuoted =>
    publicIdentifierQuoted '\'' .doctypePublicIdentifierSingleQuoted r ch
  | .afterDoctypePublicIdentifier => afterPublicIdentifier [.error .invalidDoctype] r ch
  | .betweenDoctypePublicAndSystemIdentifiers => afterPublicIdentifier [] r ch
  | .afterDoctypeSystemKeyword => beforeSystemIdentifier r ch
  | .beforeDoctypeSystemIdentifier => beforeSystemIdentifier r ch
  | .doctypeSystemIdentifierDoubleQuoted =>
    systemIdentifierQuoted '"' .doctypeSystemIdentifierDoubleQuoted r ch
  | .doctypeSystemIdentifierSingleQuoted =>
    systemIdentifierQuoted '\'' .doctypeSystemIdentifierSingleQuoted r ch
  | .afterDoctypeSystemIdentifier =>
    if isHtmlWhitespace ch then ⟨.afterDoctypeSystemIdentifier, r, [], false⟩
    else if ch = '>' then closeDoctype r
    else ⟨.bogusDoctype, r, [.error .invalidDoctype], true⟩
  | .bogusDoctype => if ch = '>' then closeDoctype r else ⟨.bogusDoctype, r, [], false⟩
  | .rawText =>
    if ch = '<' then ⟨.rawTextLessThanSign, r, [], false⟩
    else ⟨.rawText, r, [.pushCodePoint point], false⟩
  | .rawTextLessThanSign => lessThanSign .rawText .rawTextEndTagOpen r ch
  | .rawTextEndTagOpen => rawEndTagOpen .rawText .rawTextEndTagName r ch
  | .rawTextEndTagName => rawEndTagNameStep .rawTextEndTagName .rawText r ch
  | .rcData =>
    if ch = '<' then ⟨.rcDataLessThanSign, r, [], false⟩
    else ⟨.rcData, r, [.pushCodePoint point], false⟩
  | .rcDataLessThanSign => lessThanSign .rcData .rcDataEndTagOpen r ch
  | .rcDataEndTagOpen => rawEndTagOpen .rcData .rcDataEndTagName r ch
  | .rcDataEndTagName => rawEndTagNameStep .rcDataEndTagName .rcData r ch
  | .scriptData =>
    if ch = '<' then ⟨.scriptDataLessThanSign, r, [], false⟩
    else ⟨.scriptData, r, [.pushCodePoint point], false⟩
  | .scriptDataLessThanSign =>
    if ch = '!' then ⟨.scriptDataEscapeStart, r, [.push '<', .push '!'], false⟩
    else lessThanSign .scriptData .scriptDataEndTagOpen r ch
  | .scriptDataEndTagOpen => rawEndTagOpen .scriptData .scriptDataEndTagName r ch
  | .scriptDataEndTagName => rawEndTagNameStep .scriptDataEndTagName .scriptData r ch
  | .scriptDataEscapeStart =>
    if ch = '-' then ⟨.scriptDataEscapeStartDash, r, [.push '-'], false⟩
    else ⟨.scriptData, r, [], true⟩
  | .scriptDataEscapeStartDash =>
    if ch = '-' then ⟨.scriptDataEscapedDashDash, r, [.push '-'], false⟩
    else ⟨.scriptData, r, [], true⟩
  | .scriptDataEscaped =>
    if ch = '-' then ⟨.scriptDataEscapedDash, r, [.push '-'], false⟩
    else if ch = '<' then ⟨.scriptDataEscapedLessThanSign, r, [], false⟩
    else ⟨.scriptDataEscaped, r, [.pushCodePoint point], false⟩
  | .scriptDataEscapedDash =>
    if ch = '-' then ⟨.scriptDataEscapedDashDash, r, [.push '-'], false⟩
    else if ch = '<' then ⟨.scriptDataEscapedLessThanSign, r, [], false⟩
    else ⟨.scriptDataEscaped, r, [.pushCodePoint point], false⟩
  | .scriptDataEscapedDashDash =>
    if ch = '-' then ⟨.scriptDataEscapedDashDash, r, [.push '-'], false⟩
    else if ch = '<' then ⟨.scriptDataEscapedLessThanSign, r, [], false⟩
    else if ch = '>' then ⟨.scriptData, r, [.push '>'], false⟩
    else ⟨.scriptDataEscaped, r, [.pushCodePoint point], false⟩
  | .scriptDataEscapedLessThanSign =>
    if ch.isAlpha then
      ⟨.scriptDataDoubleEscapeStart, { r with tempBuffer := [] }, [.push '<'], true⟩
    else lessThanSign .scriptDataEscaped .scriptDataEscapedEndTagOpen r ch
  | .scriptDataEscapedEndTagOpen =>
    rawEndTagOpen .scriptDataEscaped .scriptDataEscapedEndTagName r ch
  | .scriptDataEscapedEndTagName =>
    rawEndTagNameStep .scriptDataEscapedEndTagName .scriptDataEscaped r ch
  | .scriptDataDoubleEscapeStart =>
    doubleEscape .scriptDataDoubleEscapeStart .scriptDataDoubleEscaped .scriptDataEscaped r ch
  | .scriptDataDoubleEscaped =>
    if ch = '-' then ⟨.scriptDataDoubleEscapedDash, r, [.push '-'], false⟩
    else if ch = '<' then ⟨.scriptDataDoubleEscapedLessThanSign, r, [.push '<'], false⟩
    else ⟨.scriptDataDoubleEscaped, r, [.pushCodePoint point], false⟩
  | .scriptDataDoubleEscapedDash =>
    if ch = '-' then ⟨.scriptDataDoubleEscapedDashDash, r, [.push '-'], false⟩
    else if ch = '<' then ⟨.scriptDataDoubleEscapedLessThanSign, r, [.push '<'], false⟩
    else ⟨.scriptDataDoubleEscaped, r, [.pushCodePoint point], false⟩
  | .scriptDataDoubleEscapedDashDash =>
    if ch = '-' then ⟨.scriptDataDoubleEscapedDashDash, r, [.push '-'], false⟩
    else if ch = '<' then ⟨.scriptDataDoubleEscapedLessThanSign, r, [.push '<'], false⟩
    else if ch = '>' then ⟨.scriptData, r, [.push '>'], false⟩
    else ⟨.scriptDataDoubleEscaped, r, [.pushCodePoint point], false⟩
  | .scriptDataDoubleEscapedLessThanSign =>
    if ch = '/' then
      ⟨.scriptDataDoubleEscapeEnd, { r with tempBuffer := [] }, [.push '/'], false⟩
    else ⟨.scriptDataDoubleEscaped, r, [], true⟩
  | .scriptDataDoubleEscapeEnd =>
    doubleEscape .scriptDataDoubleEscapeEnd .scriptDataEscaped .scriptDataDoubleEscaped r ch

/-! ## Lookahead -/

/-- A character that a reference may consist of. -/
def isReferenceChar (ch : Char) : Bool := ch.isAlphanum || ch == '#'

/-- `char::from_u32`. -/
def charFromU32 (value : Nat) : Except HtmlParseError Text :=
  if value.isValidChar then .ok [Char.ofNat value] else .error .invalidCharacterReference

/-- The number of a reference: `from_str_radix(rest, 16)` and `parse` for `u32`. -/
def numericReference (radix : Nat) (digits : Text) : Except HtmlParseError Text :=
  let isDigit := if radix = 16 then Text.isHexDigit else Char.isDigit
  if digits.isEmpty || !digits.all isDigit then .error .invalidCharacterReference
  else if Text.ofDigits radix digits > 4294967295 then .error .invalidCharacterReference
  else charFromU32 (Text.ofDigits radix digits)

/-- The text of a reference between `&` and `;`. -/
def decodeReference (entity : Text) : Except HtmlParseError Text :=
  if entity.isEmpty then .error .invalidCharacterReference
  else if entity = "amp".toList then .ok ['&']
  else if entity = "lt".toList then .ok ['<']
  else if entity = "gt".toList then .ok ['>']
  else if entity = "quot".toList then .ok ['"']
  else if entity = "apos".toList then .ok ['\'']
  else if entity = "nbsp".toList then .ok [Char.ofNat 0xa0]
  else match entity with
    | '#' :: 'x' :: rest => numericReference 16 rest
    | '#' :: 'X' :: rest => numericReference 16 rest
    | '#' :: rest => numericReference 10 rest
    | _ => .error .invalidCharacterReference

/-- Reads a character reference behind `&`.  What is no reference is not consumed. -/
def consumeCharacterReference (rest : List InputCodePoint) :
    Except HtmlParseError Text × List InputCodePoint :=
  let entity := (rest.takeWhile fun point => isReferenceChar point.scalarView).map (·.scalarView)
  let consumed := match rest.dropWhile fun point => isReferenceChar point.scalarView with
    | [] => some []
    | point :: behind => if point.scalarView = ';' then some behind else none
  match consumed with
  | none => (.error .invalidCharacterReference, rest)
  | some behind =>
    match decodeReference entity with
    | .ok decoded => (.ok decoded, behind)
    | .error error => (.error error, rest)

namespace ProcessingInstruction

/-- `bogus_comment`: everything up to `>` is comment data. -/
def bogusData : TextBuffer → List InputCodePoint → TextBuffer × List InputCodePoint
  | data, [] => (data, [])
  | data, point :: rest =>
    if point.scalarView = '>' then (data, rest)
    else if point.scalarView = '\x00' then bogusData (data.push (Char.ofNat 0xfffd)) rest
    else bogusData (data.pushCodePoint point) rest

def bogusComment (target : Text) (rest : List InputCodePoint) : Token × List InputCodePoint :=
  let consumed := bogusData (({} : TextBuffer).pushStr ('?' :: target)) rest
  (commentToken consumed.1, consumed.2)

/-- The data of an instruction up to `>` or `?>`, if it is ended. -/
def instructionData : TextBuffer → List InputCodePoint → Option TextBuffer × List InputCodePoint
  | _, [] => (none, [])
  | data, point :: rest =>
    if point.scalarView = '>' then (some data, rest)
    else match rest with
      | next :: behind =>
        if point.scalarView = '?' ∧ next.scalarView = '>' then (some data, behind)
        else instructionData (data.pushCodePoint point) (next :: behind)
      | [] => instructionData (data.pushCodePoint point) []

def isTargetChar (ch : Char) : Bool := ch.isAlphanum || ch == '-' || ch == '_'

/-- Consumes after `<?`. -/
def consume (rest : List InputCodePoint) :
    Option Token × List HtmlParseError × List InputCodePoint :=
  match rest with
  | [] => (none, [.unexpectedEof], [])
  | first :: _ =>
    if !first.scalarView.isAlpha && first.scalarView != '_' then
      let comment := bogusComment [] rest
      (some comment.1, [.invalidProcessingInstructionTarget], comment.2)
    else
      let target := (rest.takeWhile fun point => isTargetChar point.scalarView).map (·.scalarView)
      let behind := rest.dropWhile fun point => isTargetChar point.scalarView
      match behind with
      | [] => (none, [.unexpectedEof], [])
      | delimiter :: _ =>
        let ch := delimiter.scalarView
        if !isHtmlWhitespace ch && ch != '?' && ch != '>' then
          let comment := bogusComment target behind
          (some comment.1, [.invalidProcessingInstructionTarget], comment.2)
        else if Text.eqIgnoreAsciiCase target "xml".toList ||
            Text.eqIgnoreAsciiCase target "xml-stylesheet".toList then
          let comment := bogusComment target behind
          (some comment.1, [.disallowedProcessingInstructionTarget], comment.2)
        else
          let consumed := instructionData {}
            (behind.dropWhile fun point => isHtmlWhitespace point.scalarView)
          match consumed.1 with
          | none => (none, [.unexpectedEof], consumed.2)
          | some data =>
            let token := match data.take.getD (.scalar []) with
              | .scalar data => Token.processingInstruction target data
              | .utf16 units => Token.processingInstructionUtf16 target units
            (some token, [], consumed.2)

end ProcessingInstruction

/-- What a step leaves behind. -/
structure Stepped where
  state : State
  registers : Registers
  emits : List Emit
  rest : List InputCodePoint

/-- A step that looks at one code point only. -/
def Turn.over (turn : Turn) (point : InputCodePoint) (rest : List InputCodePoint) : Stepped :=
  ⟨turn.state, turn.registers, turn.emits, if turn.reconsume then point :: rest else rest⟩

/-- The `&` of `Data` and `RcData`. -/
def referenceInText (state : State) (r : Registers) (rest : List InputCodePoint) : Stepped :=
  let consumed := consumeCharacterReference rest
  match consumed.1 with
  | .ok decoded => ⟨state, r, [.pushStr decoded], consumed.2⟩
  | .error error => ⟨state, r, [.error error, .push '&'], consumed.2⟩

/-- The `&` of an attribute value. -/
def referenceInAttribute (state : State) (r : Registers) (rest : List InputCodePoint) : Stepped :=
  let consumed := consumeCharacterReference rest
  match consumed.1 with
  | .ok decoded =>
    ⟨state, { r with currentAttrValue := r.currentAttrValue.pushStr decoded }, [], consumed.2⟩
  | .error error =>
    ⟨state, { r with currentAttrValue := r.currentAttrValue.push '&' }, [.error error], consumed.2⟩

/-- The `?` of `TagOpen`. -/
def processingInstruction (r : Registers) (rest : List InputCodePoint) : Stepped :=
  let (token, errors, behind) := ProcessingInstruction.consume rest
  ⟨.data, r, errors.map .error ++ token.toList.map .token, behind⟩

/-- `MarkupDeclarationOpen`. -/
def markupDeclarationOpen (r : Registers) (point : InputCodePoint) (rest : List InputCodePoint) :
    Stepped :=
  if point.scalarView = '-' ∧ rest.head?.map (·.scalarView) = some '-' then
    ⟨.commentStart, { r with currentComment := {} }, [], rest.tail⟩
  else if point.scalarView.toLower = 'd' then
    let lookahead := point :: rest.take 6
    let data := lookahead.foldl TextBuffer.pushCodePoint {}
    if rest.length < 6 then
      ⟨.bogusComment, { r with currentComment := data }, [.error .invalidDoctype], rest.drop 6⟩
    else if Text.eqIgnoreAsciiCase (lookahead.map (·.scalarView)) "doctype".toList then
      ⟨.doctype,
        { r with
          currentDoctypeName := []
          currentDoctypePublicId := none
          currentDoctypeSystemId := none
          currentDoctypeForceQuirks := false }, [], rest.drop 6⟩
    else ⟨.bogusComment, { r with currentComment := data }, [.error .invalidDoctype], rest.drop 6⟩
  else (stepPoint .markupDeclarationOpen r point).over point rest

/-- The keyword of a doctype: ASCII letters up to six bytes. -/
def gatherKeyword : Text → List InputCodePoint → Text × List InputCodePoint
  | keyword, [] => (keyword, [])
  | keyword, point :: rest =>
    if Text.utf8Len keyword < 6 ∧ point.scalarView.isAlpha then
      gatherKeyword (keyword ++ [point.scalarView]) rest
    else (keyword, point :: rest)

/-- `AfterDoctypeName` in front of what may be a keyword. -/
def doctypeKeyword (r : Registers) (point : InputCodePoint) (rest : List InputCodePoint) : Stepped :=
  let gathered := gatherKeyword [point.scalarView] rest
  if Text.eqIgnoreAsciiCase gathered.1 "public".toList then
    ⟨.afterDoctypePublicKeyword, r, [], gathered.2⟩
  else if Text.eqIgnoreAsciiCase gathered.1 "system".toList then
    ⟨.afterDoctypeSystemKeyword, r, [], gathered.2⟩
  else (stepPoint .afterDoctypeName r point).over point gathered.2

/-! ## One step -/

/-- One pass of the loop in `drain`: a code point, and what is read behind it. -/
def step (state : State) (r : Registers) (point : InputCodePoint) (rest : List InputCodePoint) :
    Stepped :=
  let ch := point.scalarView
  match state with
  | .data | .rcData =>
    if ch = '&' then referenceInText state r rest else (stepPoint state r point).over point rest
  | .attributeValueDoubleQuoted | .attributeValueSingleQuoted | .attributeValueUnquoted =>
    if ch = '&' then referenceInAttribute state r rest
    else (stepPoint state r point).over point rest
  | .tagOpen =>
    if ch = '?' then processingInstruction r rest
    else (stepPoint .tagOpen r point).over point rest
  | .markupDeclarationOpen => markupDeclarationOpen r point rest
  | .afterDoctypeName =>
    if isHtmlWhitespace ch || ch == '>' then (stepPoint .afterDoctypeName r point).over point rest
    else doctypeKeyword r point rest
  | _ => (stepPoint state r point).over point rest

end Omoikane.Html
