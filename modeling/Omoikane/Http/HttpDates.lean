import Omoikane.Http.CivilDates

/-!
# Dates in header fields

`HttpDate.imfFixdate` writes a date the way header fields do.  Split at what is not a letter, a digit or
a colon, it has seven pieces, and each goes to the field that it was written from.  From any other text
`parseHttpDate` reads the numbers of a date too, or nothing.
-/

namespace Omoikane.Http

open Base

/-! ## Digits -/

/-- The last digits of a number, as many as the width. -/
def padded : Nat → Nat → Text
  | 0, _ => []
  | width + 1, n => padded width (n / 10) ++ [Nat.digitChar (n % 10)]

@[simp] theorem length_padded (width n : Nat) : (padded width n).length = width := by
  induction width generalizing n with
  | zero => rfl
  | succ width ih => rw [padded, List.length_append, ih, List.length_singleton]

theorem digitChar_facts {n : Nat} (h : n < 10) :
    (Nat.digitChar n).isDigit = true ∧ Text.hexValue (Nat.digitChar n) = n := by
  interval_cases n <;> exact ⟨rfl, rfl⟩

theorem isDigit_padded (width n : Nat) : ∀ c ∈ padded width n, c.isDigit = true := by
  induction width generalizing n with
  | zero => exact fun _ hc => absurd hc List.not_mem_nil
  | succ width ih =>
    intro c hc
    rw [padded, List.mem_append, List.mem_singleton] at hc
    rcases hc with hc | rfl
    · exact ih _ c hc
    · exact (digitChar_facts (Nat.mod_lt n (by decide))).1

theorem ofDigits_padded (width n : Nat) : Text.ofDigits 10 (padded width n) = n % 10 ^ width := by
  induction width generalizing n with
  | zero => rw [Nat.pow_zero, Nat.mod_one]; rfl
  | succ width ih =>
    rw [padded, Text.ofDigits_concat, ih, (digitChar_facts (Nat.mod_lt n (by decide))).2,
      Nat.pow_succ', Nat.mod_mul]
    omega

theorem isNumeral_padded {width n : Nat} (hwidth : 0 < width) (h : n < 10 ^ width) :
    Text.IsNumeral (padded width n) n where
  ne_nil := List.ne_nil_of_length_pos (by rwa [length_padded])
  isDigit := isDigit_padded width n
  value := by rw [ofDigits_padded, Nat.mod_eq_of_lt h]

/-! ## Writing -/

inductive Weekday where
  | mon | tue | wed | thu | fri | sat | sun
deriving DecidableEq, Repr

def Weekday.name : Weekday → Text
  | .mon => "Mon".toList
  | .tue => "Tue".toList
  | .wed => "Wed".toList
  | .thu => "Thu".toList
  | .fri => "Fri".toList
  | .sat => "Sat".toList
  | .sun => "Sun".toList

/-- The name of a month, counted from one. -/
def monthName (month : Nat) : Text :=
  (["Jan", "Feb", "Mar", "Apr", "May", "Jun", "Jul", "Aug", "Sep", "Oct", "Nov", "Dec"].getD
    (month - 1) "").toList

namespace HttpDate

variable (date : HttpDate)

/-- The time of day. -/
def timeText : Text :=
  padded 2 date.hour ++ ':' :: (padded 2 date.minute ++ ':' :: padded 2 date.second)

/-- An IMF-fixdate. -/
def imfFixdate (weekday : Weekday) : Text :=
  weekday.name ++ ',' :: ' ' :: (padded 2 date.day ++ ' ' :: (monthName date.month ++ ' ' ::
    (padded 4 date.year ++ ' ' :: (date.timeText ++ ' ' :: "GMT".toList))))

end HttpDate

theorem isDateSeparator_of_isDigit {c : Char} (h : c.isDigit = true) : isDateSeparator c = false := by
  rw [isDateSeparator, Char.isAlphanum, h, Bool.or_true, Bool.true_or, Bool.not_true]

theorem not_separator_padded (width n : Nat) : ∀ c ∈ padded width n, isDateSeparator c = false :=
  fun c hc => isDateSeparator_of_isDigit (isDigit_padded width n c hc)

theorem not_separator_monthName {month : Nat} (h : 1 ≤ month ∧ month ≤ 12) :
    ∀ c ∈ monthName month, isDateSeparator c = false := by
  obtain ⟨hlow, hhigh⟩ := h
  interval_cases month <;> exact Text.forall_mem_of_all (by decide)

theorem HttpDate.not_separator_timeText (date : HttpDate) :
    ∀ c ∈ date.timeText, isDateSeparator c = false := by
  intro c hc
  rw [timeText, List.mem_append, List.mem_cons, List.mem_append, List.mem_cons] at hc
  rcases hc with hc | rfl | hc | rfl | hc
  · exact not_separator_padded _ _ c hc
  · rfl
  · exact not_separator_padded _ _ c hc
  · rfl
  · exact not_separator_padded _ _ c hc

/-- The pieces of a date. -/
theorem HttpDate.pieces_imfFixdate (date : HttpDate) (weekday : Weekday) :
    (date.imfFixdate weekday).splitOnP isDateSeparator =
      [weekday.name, [], padded 2 date.day, monthName date.month, padded 4 date.year, date.timeText,
        "GMT".toList] := by
  have hweekday : ∀ c ∈ weekday.name, isDateSeparator c = false := by
    cases weekday <;> exact Text.forall_mem_of_all (by decide)
  have hzone : ∀ c ∈ "GMT".toList, isDateSeparator c = false :=
    Text.forall_mem_of_all (by decide)
  rw [imfFixdate, List.splitOnP_append_cons_of_forall_mem hweekday ',' rfl,
    List.splitOnP_cons_eq_if_modifyHead, if_pos (show isDateSeparator ' ' = true from rfl),
    List.splitOnP_append_cons_of_forall_mem (not_separator_padded _ _) ' ' rfl,
    List.splitOnP_append_cons_of_forall_mem (not_separator_monthName date.month_range) ' ' rfl,
    List.splitOnP_append_cons_of_forall_mem (not_separator_padded _ _) ' ' rfl,
    List.splitOnP_append_cons_of_forall_mem date.not_separator_timeText ' ' rfl,
    List.splitOnP_eq_singleton hzone]

/-! ## Reading -/

/-- A token without a colon is not a time. -/
theorem timeOfToken_eq_none {token : Text} (h : ':' ∉ token) : timeOfToken token = none := by
  have hsplit : token.splitOn ':' = [token] :=
    List.splitOnP_eq_singleton fun c hc => beq_eq_false_iff_ne.mpr fun heq => h (heq ▸ hc)
  rw [timeOfToken, hsplit]

theorem colon_not_mem_padded (width n : Nat) : ':' ∉ padded width n := fun hmem =>
  absurd (isDigit_padded width n _ hmem) (by decide)

theorem HttpDate.timeOfToken_timeText (date : HttpDate) :
    timeOfToken date.timeText = some (date.hour, date.minute, date.second) := by
  have hcolon : ∀ n, ∀ c ∈ padded 2 n, (c == ':') = false := fun n c hc =>
    beq_eq_false_iff_ne.mpr fun heq => colon_not_mem_padded 2 n (heq ▸ hc)
  have hsplit : date.timeText.splitOn ':' =
      [padded 2 date.hour, padded 2 date.minute, padded 2 date.second] := by
    rw [timeText, List.splitOn, List.splitOnP_append_cons_of_forall_mem (hcolon _) ':' rfl,
      List.splitOnP_append_cons_of_forall_mem (hcolon _) ':' rfl, List.splitOnP_eq_singleton (hcolon _)]
  have hparse : ∀ n ≤ 59, Text.parseUnsigned 255 (padded 2 n) = some n := fun n hn =>
    (isNumeral_padded (by decide) (by omega)).parseUnsigned (by omega)
  have htime := date.time_range
  have hparts : [padded 2 date.hour, padded 2 date.minute, padded 2 date.second].all
      (fun part => part ≠ [] ∧ part.length ≤ 2) = true := by
    simp [← List.length_eq_zero_iff]
  rw [timeOfToken, hsplit]
  dsimp only
  rw [if_pos hparts, hparse _ (by omega), hparse _ htime.2.1, hparse _ htime.2.2]
  rfl

/-- The text is a day as long as no day has been found. -/
theorem take_day {day : Nat} (h : day < 100) :
    DateFields.take {} (padded 2 day) = { day := some day } := by
  have hparse : Text.parseUnsigned 255 (padded 2 day) = some day :=
    (isNumeral_padded (by decide) h).parseUnsigned (by omega)
  have hne : padded 2 day ≠ [] := (isNumeral_padded (by decide) h).ne_nil
  have hdigits : (padded 2 day).all Char.isDigit = true := List.all_eq_true.mpr (isDigit_padded 2 day)
  simp [DateFields.take, hne, timeOfToken_eq_none (colon_not_mem_padded 2 day), hdigits, hparse]

theorem take_month (day : Nat) {month : Nat} (h : 1 ≤ month ∧ month ≤ 12) :
    DateFields.take { day := some day } (monthName month) =
      { day := some day, month := some month } := by
  obtain ⟨hlow, hhigh⟩ := h
  interval_cases month <;> rfl

/-- The text is a year once there is a day. -/
theorem take_year (day month : Nat) {year : Nat} (h : year < 10000) :
    DateFields.take { day := some day, month := some month } (padded 4 year) =
      { day := some day, month := some month, year := some (year : Int) } := by
  have hnumeral : Text.IsNumeral (padded 4 year) year := isNumeral_padded (by decide) h
  have hparse : Text.parseI64 (padded 4 year) = some (year : Int) :=
    Text.parseI64_eq_some.mpr ⟨.unsigned hnumeral, by rw [FitsI64]; omega⟩
  have hdigits : (padded 4 year).all Char.isDigit = true := List.all_eq_true.mpr hnumeral.isDigit
  simp [DateFields.take, hnumeral.ne_nil, timeOfToken_eq_none (colon_not_mem_padded 4 year), hdigits,
    hparse]

theorem HttpDate.take_time (date : HttpDate) (fields : DateFields) (h : fields.time = none) :
    fields.take date.timeText = { fields with time := some (date.hour, date.minute, date.second) } := by
  have hne : date.timeText ≠ [] := by simp [timeText]
  simp [DateFields.take, hne, h, date.timeOfToken_timeText]

/-- The numbers of a date are the fields that have been found. -/
structure HttpDate.Fills (date : HttpDate) (fields : DateFields) : Prop where
  day : fields.day = some date.day
  month : fields.month = some date.month
  year : fields.year.map fullYear = some (date.year : Int)
  time : fields.time = some (date.hour, date.minute, date.second)

theorem fullYear_of_le {year : Int} (h : 100 ≤ year) : fullYear year = year := by
  rw [fullYear, if_neg (by omega), if_neg (by omega)]

theorem HttpDate.fills_imfFixdate (date : HttpDate) (weekday : Weekday) :
    date.Fills (((date.imfFixdate weekday).splitOnP isDateSeparator).foldl DateFields.take {}) := by
  have hyear := date.year_range
  have hday := date.day_range
  have hle := monthDays_le date.year date.month_range
  have hweekday : DateFields.take {} weekday.name = {} := by cases weekday <;> rfl
  rw [pieces_imfFixdate, List.foldl_cons, hweekday, List.foldl_cons, List.foldl_cons]
  rw [show DateFields.take {} [] = {} from rfl, take_day (by omega), List.foldl_cons,
    take_month _ date.month_range, List.foldl_cons, take_year _ _ (by omega), List.foldl_cons,
    date.take_time _ rfl]
  exact ⟨rfl, rfl, congrArg some (fullYear_of_le (by omega)), rfl⟩

/-! ## Any text -/

/-- What the fields have been read from keeps them small. -/
structure DateFields.Small (fields : DateFields) : Prop where
  year : ∀ year ∈ fields.year, 0 ≤ year ∧ year ≤ 9999
  month : ∀ month ∈ fields.month, 1 ≤ month ∧ month ≤ 12

theorem monthOfToken_range {token : Text} {month : Nat} (h : monthOfToken token = some month) :
    1 ≤ month ∧ month ≤ 12 := by
  obtain ⟨index, hindex, rfl⟩ := Option.map_eq_some_iff.mp h
  have hlt : index < monthNames.length := by
    obtain ⟨hlt, -⟩ := List.idxOf?_eq_some_iff.mp hindex
    exact hlt
  have hlength : monthNames.length = 12 := rfl
  omega

theorem parseI64_small {token : Text} {year : Int} (hdigits : ∀ c ∈ token, c.isDigit = true)
    (hlength : token.length ≤ 4) (h : Text.parseI64 token = some year) : 0 ≤ year ∧ year ≤ 9999 := by
  have hsign : ∀ c ∈ token, c ≠ '+' ∧ c ≠ '-' := fun c hc => by
    constructor <;> (rintro rfl; exact absurd (hdigits _ hc) (by decide))
  cases (Text.parseI64_eq_some.mp h).1 with
  | @unsigned _ n hnumeral =>
    have hlt := Text.ofDigits_lt hdigits
    have hpow := Nat.pow_le_pow_right (show 0 < 10 by decide) hlength
    rw [hnumeral.value] at hlt
    omega
  | positive => exact absurd rfl (hsign _ List.mem_cons_self).1
  | negative => exact absurd rfl (hsign _ List.mem_cons_self).2

/-- A token leaves the fields small. -/
theorem DateFields.Small.take {fields : DateFields} (h : fields.Small) (token : Text) :
    (fields.take token).Small := by
  rw [DateFields.take]
  split
  · exact h
  · split
    · exact ⟨h.year, h.month⟩
    · split
      · exact ⟨h.year, h.month⟩
      · split
        next month hmonth =>
          refine ⟨h.year, fun other hother => ?_⟩
          split at hmonth
          · rw [← Option.some.inj hother]
            exact monthOfToken_range hmonth
          · cases hmonth
        next =>
          split
          next hyear =>
            simp only [Bool.and_eq_true, decide_eq_true_eq, List.all_eq_true] at hyear
            exact ⟨fun year hy => parseI64_small hyear.2 hyear.1.2 hy, h.month⟩
          next => exact h

theorem DateFields.small_foldl (tokens : List Text) (fields : DateFields) (h : fields.Small) :
    (tokens.foldl DateFields.take fields).Small := by
  induction tokens generalizing fields with
  | nil => exact h
  | cons token tokens ih => exact ih _ (h.take token)

/-- The fields that are found in a text. -/
def dateFields (s : Text) : DateFields := (s.splitOnP isDateSeparator).foldl DateFields.take {}

theorem dateFields_small (s : Text) : (dateFields s).Small :=
  DateFields.small_foldl _ _ ⟨fun _ h => (Option.not_mem_none _ h).elim,
    fun _ h => (Option.not_mem_none _ h).elim⟩

/-- The instant of a date, before or after the epoch. -/
theorem HttpDate.systemTime_instant (date : HttpDate) :
    (if 0 ≤ date.instant then SystemTime.checkedAddSecs 0 date.instant
      else SystemTime.checkedSubSecs 0 (-date.instant)) = some (date.instant * nanosPerSecond) := by
  obtain ⟨hlow, hhigh⟩ := date.instant_range
  have hdiv : date.instant * nanosPerSecond / nanosPerSecond = date.instant :=
    Int.mul_ediv_cancel _ (by decide)
  split
  · rw [SystemTime.checkedAddSecs, zero_add, hdiv]
    exact if_pos (show date.instant < (2 : Int) ^ 63 by omega)
  · rw [SystemTime.checkedSubSecs, neg_mul, zero_sub, neg_neg, hdiv]
    exact if_pos (show (-2 ^ 63 : Int) ≤ date.instant by omega)

/-- The fields of a date give its instant. -/
theorem HttpDate.Fills.parseHttpDate {date : HttpDate} {s : Text} (h : date.Fills (dateFields s)) :
    parseHttpDate s = some (date.instant * nanosPerSecond) := by
  obtain ⟨hday, hmonth, hyear, htime⟩ := h
  obtain ⟨year, hfound, hfull⟩ := Option.map_eq_some_iff.mp hyear
  have hyearRange := date.year_range
  have hdayRange := date.day_range
  have htimeRange := date.time_range
  rw [dateFields] at hday hmonth hfound htime
  rw [Http.parseHttpDate, hday, hmonth, hfound, htime]
  simp only [Option.bind_eq_bind, Option.bind_some, hfull]
  rw [if_neg (by omega), if_neg (by omega), ← date.instant_eq]
  exact date.systemTime_instant

/-- Whatever the text is, there is nothing, or the fields are those of a date. -/
theorem parseHttpDate_eq_none_or (s : Text) :
    parseHttpDate s = none ∨ ∃ date : HttpDate, date.Fills (dateFields s) := by
  have hsmall := dateFields_small s
  rw [parseHttpDate, ← dateFields]
  generalize dateFields s = fields at hsmall ⊢
  obtain ⟨day, month, year, time⟩ := fields
  cases day with
  | none => exact .inl rfl
  | some day =>
  cases month with
  | none => exact .inl rfl
  | some month =>
  cases year with
  | none => exact .inl rfl
  | some year =>
  cases time with
  | none => exact .inl rfl
  | some time =>
    obtain ⟨hour, min, sec⟩ := time
    simp only [Option.bind_eq_bind, Option.bind_some]
    split
    · exact .inl rfl
    · split
      · exact .inl rfl
      · next hyear hday =>
          have hsmallYear := hsmall.year year rfl
          have hfull : 1601 ≤ fullYear year ∧ fullYear year ≤ 9999 := by
            refine ⟨by omega, ?_⟩
            rw [fullYear]
            split
            · omega
            · split <;> omega
          have hcast : ((fullYear year).toNat : Int) = fullYear year := Int.toNat_of_nonneg (by omega)
          refine .inr ⟨⟨(fullYear year).toNat, month, day, hour, min, sec, by omega,
            hsmall.month month rfl, by rw [hcast]; omega, by omega⟩, ?_⟩
          exact ⟨rfl, rfl, congrArg some hcast.symm, rfl⟩

/-- A date in a header field is read as the instant that the calendar gives it, and a text that is none is
read as nothing or as a date of the calendar, whose day is in its month.  The seconds are computed without
an overflow, and later dates have later instants. -/
theorem httpDates_read :
    (∀ (date : HttpDate) (weekday : Weekday),
      parseHttpDate (date.imfFixdate weekday) = some (date.instant * nanosPerSecond)) ∧
    (∀ s, parseHttpDate s = none ∨ ∃ date : HttpDate, date.Fills (dateFields s) ∧
      parseHttpDate s = some (date.instant * nanosPerSecond)) ∧
    (∀ date : HttpDate, secondsI64 date.year date.month date.day date.hour date.minute date.second =
      ⟨date.instant, true⟩) ∧
    ∀ earlier later : HttpDate, earlier.fields < later.fields ↔ earlier.instant < later.instant := by
  refine ⟨fun date weekday => (date.fills_imfFixdate weekday).parseHttpDate, fun s => ?_,
    HttpDate.secondsI64_eq, fun _ _ => HttpDate.fields_lt_iff⟩
  rcases parseHttpDate_eq_none_or s with hnone | ⟨date, hdate⟩
  · exact .inl hnone
  · exact .inr ⟨date, hdate, hdate.parseHttpDate⟩

end Omoikane.Http
