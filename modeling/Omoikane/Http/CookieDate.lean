import Omoikane.Base.Text

/-!
# Cookie dates

`parseHttpDate` reads a date from its tokens: a time `h:m:s`, a day of one or
two digits, a month name and a year, each taken from the first token that fits.
The instant is a number of nanoseconds since the Unix epoch.
-/

namespace Omoikane.Http

open Base

/-! ## Instants -/

/-- `SystemTime`, in nanoseconds since `UNIX_EPOCH`. -/
abbrev SystemTime := Int

/-- Nanoseconds in a second. -/
def nanosPerSecond : Int := 1000000000

/-- `checked_add` of whole seconds.  The seconds of a `SystemTime` are an `i64`. -/
def SystemTime.checkedAddSecs (time : SystemTime) (secs : Int) : Option SystemTime :=
  let sum := time + secs * nanosPerSecond
  if sum / nanosPerSecond < 2 ^ 63 then some sum else none

/-- `checked_sub` of whole seconds. -/
def SystemTime.checkedSubSecs (time : SystemTime) (secs : Int) : Option SystemTime :=
  let difference := time - secs * nanosPerSecond
  if -2 ^ 63 ≤ difference / nanosPerSecond then some difference else none

/-! ## Reading the tokens -/

/-- The fields found so far. -/
structure DateFields where
  day : Option Nat := none
  month : Option Nat := none
  year : Option Int := none
  time : Option (Nat × Nat × Nat) := none
deriving DecidableEq, Repr

/-- `h:m:s`, each of one or two digits. -/
def timeOfToken (token : Text) : Option (Nat × Nat × Nat) :=
  match token.splitOn ':' with
  | [h, m, s] =>
    if [h, m, s].all (fun part => part ≠ [] ∧ part.length ≤ 2) then do
      let h ← Text.parseUnsigned 255 h
      let m ← Text.parseUnsigned 255 m
      let s ← Text.parseUnsigned 255 s
      return (h, m, s)
    else none
  | _ => none

/-- The three-letter month names, in order. -/
def monthNames : List Text :=
  ["jan", "feb", "mar", "apr", "may", "jun", "jul", "aug", "sep", "oct", "nov", "dec"].map
    String.toList

/-- The month whose name starts the token, counted from one. -/
def monthOfToken (token : Text) : Option Nat :=
  (monthNames.idxOf? (Text.toAsciiLowercase (token.take 3))).map (· + 1)

/-- One token goes to the first open field it fits. -/
def DateFields.take (fields : DateFields) (token : Text) : DateFields :=
  if token = [] then fields
  else match if fields.time.isNone then timeOfToken token else none with
    | some time => { fields with time := some time }
    | none =>
      if fields.day.isNone && 1 ≤ token.length && token.length ≤ 2 && token.all Char.isDigit then
        { fields with day := Text.parseUnsigned 255 token }
      else match if fields.month.isNone && 3 ≤ token.length then monthOfToken token else none with
        | some month => { fields with month := some month }
        | none =>
          if fields.year.isNone && 2 ≤ token.length && token.length ≤ 4 &&
              token.all Char.isDigit then
            { fields with year := Text.parseI64 token }
          else fields

/-! ## The civil date -/

/-- `is_leap_year`. -/
def isLeapYear (y : Int) : Bool := (y % 4 == 0 && y % 100 != 0) || y % 400 == 0

/-- The length of a month, counted from one. -/
def monthDays (year : Int) (month : Nat) : Nat :=
  [31, if isLeapYear year then 29 else 28, 31, 30, 31, 30, 31, 31, 30, 31, 30, 31].getD
    (month - 1) 0

/-- Two-digit years are in 1970..2069. -/
def fullYear (year : Int) : Int :=
  if 0 ≤ year ∧ year ≤ 69 then year + 2000
  else if 70 ≤ year ∧ year ≤ 99 then year + 1900
  else year

/-- Days from the Unix epoch to a civil date. -/
def daysFromCivil (year : Int) (month day : Nat) : Int :=
  let adjustedYear := year - if month ≤ 2 then 1 else 0
  let era := adjustedYear / 400
  let yearOfEra := adjustedYear - era * 400
  let shiftedMonth : Int := month + if month > 2 then -3 else 9
  let dayOfYear := (153 * shiftedMonth + 2) / 5 + day - 1
  let yearOfEraDay := yearOfEra * 365 + yearOfEra / 4 - yearOfEra / 100 + dayOfYear
  era * 146097 + yearOfEraDay - 719468

/-- A character that separates the tokens of a date. -/
def isDateSeparator (c : Char) : Bool := !(c.isAlphanum || c == ':')

/-- `parse_http_date`. -/
def parseHttpDate (s : Text) : Option SystemTime := do
  let fields := (s.splitOnP isDateSeparator).foldl DateFields.take {}
  let day ← fields.day
  let month ← fields.month
  let year ← fields.year
  let (hour, min, sec) ← fields.time
  let year := fullYear year
  if year < 1601 ∨ hour > 23 ∨ min > 59 ∨ sec > 59 then none
  else if day = 0 ∨ day > monthDays year month then none
  else
    let seconds := daysFromCivil year month day * 86400 + hour * 3600 + min * 60 + sec
    if 0 ≤ seconds then SystemTime.checkedAddSecs 0 seconds
    else SystemTime.checkedSubSecs 0 (-seconds)

example : parseHttpDate "Thu, 01 Jan 1970 00:00:00 GMT".toList = some 0 := by decide +kernel
example : parseHttpDate "09 Jun 21 10:18:14 GMT".toList =
    parseHttpDate "Wed, 09-Jun-2021 10:18:14 GMT".toList := by decide +kernel

end Omoikane.Http
