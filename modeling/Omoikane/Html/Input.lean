import Omoikane.Base.Utf16

/-!
# Input of the tokenizer

Input is pushed as a text or as UTF-16 units and is read as code points.  A high
surrogate at the end of a push stays in the decoder until the next unit decides
whether the two form a pair.

Text that is collected from the input is held in a `TextBuffer`.  It is a scalar
text until a surrogate is pushed, and a list of units from then on.
-/

namespace Omoikane.Html

open Base

/-- A source code point; surrogates remain distinct from U+FFFD. -/
abbrev InputCodePoint := Utf16.CodePoint

namespace InputCodePoint

/-- Scalar view for lexical decisions. -/
def scalarView : InputCodePoint → Char
  | .scalar value => value
  | .surrogate _ => Char.ofNat 0xfffd

end InputCodePoint

/-! ## The decoder -/

/-- Decodes writes without resolving a trailing high surrogate before more input. -/
structure InputDecoder where
  pendingHigh : Option UInt16 := none
deriving DecidableEq, Repr

namespace InputDecoder

def finish (decoder : InputDecoder) (output : List InputCodePoint) :
    InputDecoder × List InputCodePoint :=
  match decoder.pendingHigh with
  | some high => ({ pendingHigh := none }, output ++ [.surrogate high])
  | none => (decoder, output)

/-- Scalar input cannot complete a pending high surrogate. -/
def pushStr (decoder : InputDecoder) (value : Text) (output : List InputCodePoint) :
    InputDecoder × List InputCodePoint :=
  if value.isEmpty then (decoder, output)
  else
    let finished := decoder.finish output
    (finished.1, finished.2 ++ value.map .scalar)

/-- The part of `push` for a unit that does not complete a pair. -/
def pushUnit (unit : UInt16) (output : List InputCodePoint) :
    InputDecoder × List InputCodePoint :=
  if Utf16.isHigh unit then ({ pendingHigh := some unit }, output)
  else if Utf16.isLow unit then ({ pendingHigh := none }, output ++ [.surrogate unit])
  else ({ pendingHigh := none }, output ++ [.scalar (Char.ofNat unit.toNat)])

def push (decoder : InputDecoder) :
    List UInt16 → List InputCodePoint → InputDecoder × List InputCodePoint
  | [], output => (decoder, output)
  | unit :: units, output =>
    let pushed : InputDecoder × List InputCodePoint :=
      match decoder.pendingHigh with
      | some high =>
        if Utf16.isLow unit then
          ({ pendingHigh := none }, output ++ [.scalar (Utf16.pair high unit)])
        else pushUnit unit (output ++ [.surrogate high])
      | none => pushUnit unit output
    push pushed.1 units pushed.2

/-- The code points that are still to come when the units follow. -/
def upcoming (decoder : InputDecoder) (units : List UInt16) : List InputCodePoint :=
  Utf16.decodeFrom decoder.pendingHigh units

theorem pushUnit_upcoming (unit : UInt16) (output : List InputCodePoint) (units : List UInt16) :
    (pushUnit unit output).2 ++ (pushUnit unit output).1.upcoming units =
      output ++ Utf16.decodeFrom none (unit :: units) := by
  unfold pushUnit
  rw [Utf16.decodeFrom]
  split
  next => rfl
  next =>
    rw [Utf16.CodePoint.single]
    split
    all_goals
      rw [List.append_assoc, List.singleton_append]
      rfl

/-- A push decodes its units, whatever units follow them. -/
theorem push_upcoming (units : List UInt16) : ∀ (decoder : InputDecoder)
    (output : List InputCodePoint) (more : List UInt16),
    (decoder.push units output).2 ++ (decoder.push units output).1.upcoming more =
      output ++ decoder.upcoming (units ++ more) := by
  induction units with
  | nil =>
    intro decoder output more
    rfl
  | cons unit units ih =>
    intro decoder output more
    have hnow : decoder.upcoming (unit :: units ++ more) =
        Utf16.decodeFrom decoder.pendingHigh (unit :: (units ++ more)) := rfl
    rw [push, ih, hnow]
    cases decoder.pendingHigh with
    | none => exact pushUnit_upcoming unit output (units ++ more)
    | some high =>
      by_cases hlow : Utf16.isLow unit = true
      · simp [hlow, upcoming, Utf16.decodeFrom]
      · have hunit := pushUnit_upcoming unit (output ++ [.surrogate high]) (units ++ more)
        simp only [hlow, Bool.false_eq_true, if_false]
        rw [hunit, List.append_assoc, Utf16.decodeFrom, Utf16.decodeFrom, if_neg hlow]
        rfl

/-- A scalar push is a push of its encoding. -/
theorem pushStr_upcoming (value : Text) (decoder : InputDecoder)
    (output : List InputCodePoint) (more : List UInt16) :
    (decoder.pushStr value output).2 ++ (decoder.pushStr value output).1.upcoming more =
      output ++ decoder.upcoming (Utf16.encodeText value ++ more) := by
  unfold pushStr
  split
  next hempty =>
    rw [List.isEmpty_iff.mp hempty]
    rfl
  next hempty =>
    have hne : value ≠ [] := fun h => hempty (List.isEmpty_iff.mpr h)
    have hfinish : (decoder.finish output).1.pendingHigh = none ∧
        (decoder.finish output).2 ++ Utf16.decodeFrom none (Utf16.encodeText value ++ more) =
          output ++ decoder.upcoming (Utf16.encodeText value ++ more) := by
      unfold finish upcoming
      cases hpending : decoder.pendingHigh with
      | none => exact ⟨hpending, rfl⟩
      | some high =>
        refine ⟨rfl, ?_⟩
        rw [Utf16.decodeFrom_some fun u rest h => Utf16.isLow_of_encodeText hne h]
        simp
    rw [← hfinish.2, Utf16.decodeFrom_encodeText, upcoming, hfinish.1, List.append_assoc]

/-- Finishing leaves nothing to come. -/
theorem finish_upcoming (decoder : InputDecoder) (output : List InputCodePoint) :
    (decoder.finish output).1.pendingHigh = none ∧
      (decoder.finish output).2 = output ++ decoder.upcoming [] := by
  unfold finish upcoming
  cases hpending : decoder.pendingHigh with
  | none => exact ⟨hpending, (List.append_nil output).symm⟩
  | some high => exact ⟨rfl, rfl⟩

end InputDecoder

/-! ## Strings of the document -/

/-- Scalar strings; exact units are retained only when needed. -/
inductive DomString
  | scalar (value : Text)
  | utf16 (units : List UInt16)
deriving DecidableEq, Repr

namespace DomString

/-- The text of code points that are all scalar. -/
def scalars : List InputCodePoint → Option Text
  | [] => some []
  | .scalar c :: points => (scalars points).map (c :: ·)
  | .surrogate _ :: _ => none

theorem scalars_eq_some {points : List InputCodePoint} {s : Text} :
    scalars points = some s ↔ points = s.map .scalar := by
  induction points generalizing s with
  | nil => cases s <;> simp [scalars]
  | cons p points ih =>
    cases p with
    | surrogate u => cases s <;> simp [scalars]
    | scalar c =>
      cases s with
      | nil => simp [scalars]
      | cons d s =>
        simp only [scalars, Option.map_eq_some_iff, List.cons.injEq, List.map_cons,
          Utf16.CodePoint.scalar.injEq]
        constructor
        · rintro ⟨t, ht, rfl, rfl⟩
          exact ⟨rfl, ih.mp ht⟩
        · rintro ⟨rfl, h⟩
          exact ⟨s, ih.mpr h, rfl, rfl⟩

def fromUtf16 (units : List UInt16) : DomString :=
  match scalars (Utf16.decode units) with
  | some value => scalar value
  | none => utf16 units

/-- The exact code units. -/
def units : DomString → List UInt16
  | scalar value => Utf16.encodeText value
  | utf16 units => units

def isEmpty : DomString → Bool
  | scalar value => value.isEmpty
  | utf16 units => units.isEmpty

theorem encodeText_eq_nil {s : Text} : Utf16.encodeText s = [] ↔ s = [] := by
  refine ⟨fun h => ?_, fun h => by rw [h]; rfl⟩
  have hdecode := Utf16.decode_encodeText s
  rw [h, Utf16.decode_nil] at hdecode
  exact List.map_eq_nil_iff.mp hdecode.symm

theorem isEmpty_iff {data : DomString} : data.isEmpty = true ↔ data.units = [] := by
  cases data with
  | scalar value => simp [isEmpty, units, encodeText_eq_nil]
  | utf16 us => simp [isEmpty, units]

end DomString

/-! ## Text buffers -/

/-- Exact owned token text, independent of the scalar state-machine view. -/
structure TextBuffer where
  data : DomString := .scalar []
deriving DecidableEq, Repr

namespace TextBuffer

def pushCodePoint (buffer : TextBuffer) (point : InputCodePoint) : TextBuffer :=
  match buffer.data, point with
  | .scalar value, .scalar ch => ⟨.scalar (value ++ [ch])⟩
  | .utf16 units, point => ⟨.utf16 (units ++ point.units)⟩
  | .scalar value, .surrogate unit => ⟨.utf16 (Utf16.encodeText value ++ [unit])⟩

def push (buffer : TextBuffer) (value : Char) : TextBuffer := buffer.pushCodePoint (.scalar value)

def pushStr (buffer : TextBuffer) (value : Text) : TextBuffer :=
  match buffer.data with
  | .scalar text => ⟨.scalar (text ++ value)⟩
  | .utf16 units => ⟨.utf16 (units ++ Utf16.encodeText value)⟩

/-- The data that `take` returns; the buffer is empty afterwards. -/
def take (buffer : TextBuffer) : Option DomString :=
  if buffer.data.isEmpty then none
  else match buffer.data with
    | .scalar value => some (.scalar value)
    | .utf16 units => some (DomString.fromUtf16 units)

/-- The units that were pushed. -/
def units (buffer : TextBuffer) : List UInt16 := buffer.data.units

@[simp] theorem units_default : ({} : TextBuffer).units = [] := rfl

theorem encodeText_append (s t : Text) :
    Utf16.encodeText (s ++ t) = Utf16.encodeText s ++ Utf16.encodeText t := by
  simp [Utf16.encodeText]

theorem units_pushCodePoint (buffer : TextBuffer) (point : InputCodePoint) :
    (buffer.pushCodePoint point).units = buffer.units ++ point.units := by
  obtain ⟨data⟩ := buffer
  cases data with
  | utf16 us => rfl
  | scalar value =>
    cases point with
    | surrogate u => rfl
    | scalar c =>
      show Utf16.encodeText (value ++ [c]) = Utf16.encodeText value ++ Utf16.unitsOf c
      rw [encodeText_append]
      simp [Utf16.encodeText]

theorem units_pushStr (buffer : TextBuffer) (value : Text) :
    (buffer.pushStr value).units = buffer.units ++ Utf16.encodeText value := by
  obtain ⟨data⟩ := buffer
  cases data with
  | utf16 us => rfl
  | scalar text => exact encodeText_append text value

end TextBuffer

end Omoikane.Html
