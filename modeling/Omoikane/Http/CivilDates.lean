import Omoikane.Base.Numerals
import Omoikane.Http.CookieDate

/-!
# Civil dates

The days of the Gregorian calendar, counted from the first of January 1601: a year has a day more when
it is a leap year, and the days of a year are those of its months.  `daysFromCivil` computes the same
number from a year that begins in March.  The last section follows the computation in integers of 64
bits, whose division rounds towards zero.
-/

namespace Omoikane.Http

open Base

/-! ## Counting days -/

/-- The leap years among the years from 1601, of which there are `count`. -/
def leapYears (count : Nat) : Nat := (List.range' 1601 count).countP fun year : Nat => isLeapYear year

/-- The days from the first of January 1601 to that of another year. -/
def daysBeforeYear (year : Nat) : Nat := 365 * (year - 1601) + leapYears (year - 1601)

/-- The days of a year before a month. -/
def daysBeforeMonth (year month : Nat) : Nat :=
  ((List.range' 1 (month - 1)).map (monthDays year)).sum

/-- The days from the first of January 1601 to a date. -/
def civilDays (year month day : Nat) : Nat :=
  daysBeforeYear year + daysBeforeMonth year month + (day - 1)

theorem isLeapYear_natCast (year : Nat) :
    isLeapYear year = decide (year % 4 = 0 ∧ year % 100 ≠ 0 ∨ year % 400 = 0) := by
  rw [Bool.eq_iff_iff]
  simp only [isLeapYear, Bool.or_eq_true, Bool.and_eq_true, beq_iff_eq, bne_iff_ne, decide_eq_true_eq]
  omega

theorem leapYears_succ (count : Nat) :
    leapYears (count + 1) = leapYears count + if isLeapYear (1601 + count : Nat) then 1 else 0 := by
  rw [leapYears, List.range'_1_concat, List.countP_append, List.countP_singleton]
  rfl

/-- Every fourth year, without every hundredth, with every four hundredth. -/
theorem leapYears_eq (count : Nat) :
    leapYears count + (1600 + count) / 100 + 388 = (1600 + count) / 4 + (1600 + count) / 400 := by
  induction count with
  | zero => rfl
  | succ count ih =>
    rw [leapYears_succ, isLeapYear_natCast]
    split
    next hleap => rw [decide_eq_true_eq] at hleap; omega
    next hleap => rw [decide_eq_true_eq] at hleap; omega

/-- With a leap day or without, the months from March on have the lengths that the formula counts. -/
theorem daysBeforeMonth_eq (year : Nat) {month : Nat} (h : 1 ≤ month ∧ month ≤ 12) :
    (daysBeforeMonth year month : Int) = (153 * (month + if month > 2 then -3 else 9) + 2) / 5 +
      if month ≤ 2 then -306 else 59 + if isLeapYear year then 1 else 0 := by
  obtain ⟨hlow, hhigh⟩ := h
  cases hleap : isLeapYear year <;> interval_cases month <;>
    simp [daysBeforeMonth, monthDays, hleap, List.range']

theorem civilDays_epoch : civilDays 1970 1 1 = 134774 := by decide +kernel

/-- The formula counts the days from the first of January 1970. -/
theorem daysFromCivil_eq {year month : Nat} (day : Nat) (hyear : 1601 ≤ year)
    (hmonth : 1 ≤ month ∧ month ≤ 12) (hday : 1 ≤ day) :
    daysFromCivil year month day = (civilDays year month day : Int) - civilDays 1970 1 1 := by
  have hleap := leapYears_eq (year - 1601)
  have hbefore := daysBeforeMonth_eq year hmonth
  rw [isLeapYear_natCast] at hbefore
  rw [daysFromCivil, civilDays_epoch, civilDays, daysBeforeYear]
  by_cases hjanuary : month ≤ 2
  · rw [if_pos hjanuary, if_neg (by omega)] at hbefore ⊢
    omega
  · rw [if_neg hjanuary, if_pos (by omega)] at hbefore ⊢
    split at hbefore
    next hyes => rw [decide_eq_true_eq] at hyes; omega
    next hno => rw [decide_eq_true_eq] at hno; omega

/-! ## Dates -/

/-- A date from 1601 to 9999, with a time of day. -/
structure HttpDate where
  year : Nat
  month : Nat
  day : Nat
  hour : Nat
  minute : Nat
  second : Nat
  year_range : 1601 ≤ year ∧ year ≤ 9999
  month_range : 1 ≤ month ∧ month ≤ 12
  day_range : 1 ≤ day ∧ day ≤ monthDays year month
  time_range : hour ≤ 23 ∧ minute ≤ 59 ∧ second ≤ 59

namespace HttpDate

variable (date : HttpDate) {earlier later : HttpDate}

/-- The days from the first of January 1601. -/
def days : Nat := civilDays date.year date.month date.day

def secondOfDay : Nat := date.hour * 3600 + date.minute * 60 + date.second

/-- The seconds since the first of January 1970. -/
def instant : Int := ((date.days : Int) - civilDays 1970 1 1) * 86400 + date.secondOfDay

/-- The numbers of a date, the most significant one first. -/
def fields : List Nat :=
  [date.year, date.month, date.day, date.hour, date.minute, date.second]

theorem secondOfDay_lt : date.secondOfDay < 86400 := by
  have h := date.time_range
  rw [secondOfDay]
  omega

end HttpDate

theorem daysBeforeYear_succ {year : Nat} (h : 1601 ≤ year) :
    daysBeforeYear (year + 1) = daysBeforeYear year + 365 + if isLeapYear year then 1 else 0 := by
  obtain ⟨count, rfl⟩ := Nat.exists_eq_add_of_le h
  rw [daysBeforeYear, daysBeforeYear, Nat.add_assoc, Nat.add_sub_cancel_left, leapYears_succ,
    Nat.add_sub_cancel_left]
  omega

theorem daysBeforeYear_mono {year year' : Nat} (h : year ≤ year') :
    daysBeforeYear year ≤ daysBeforeYear year' := by
  have hcount : year - 1601 ≤ year' - 1601 := Nat.sub_le_sub_right h 1601
  have hyears : (List.range' 1601 (year - 1601)).Sublist (List.range' 1601 (year' - 1601)) :=
    List.range'_sublist_right.mpr hcount
  have hleap := hyears.countP_le (p := fun year : Nat => isLeapYear year)
  rw [daysBeforeYear, daysBeforeYear, leapYears, leapYears]
  omega

theorem daysBeforeMonth_succ (year : Nat) {month : Nat} (h : 1 ≤ month) :
    daysBeforeMonth year (month + 1) = daysBeforeMonth year month + monthDays year month := by
  obtain ⟨count, rfl⟩ := Nat.exists_eq_add_of_le h
  rw [daysBeforeMonth, daysBeforeMonth, Nat.add_sub_cancel, Nat.add_sub_cancel_left, Nat.add_comm 1,
    List.range'_1_concat, List.map_append, List.sum_append]
  simp [Nat.add_comm]

theorem daysBeforeMonth_mono (year : Nat) {month month' : Nat} (h : month ≤ month') :
    daysBeforeMonth year month ≤ daysBeforeMonth year month' := by
  have hcount : month - 1 ≤ month' - 1 := Nat.sub_le_sub_right h 1
  have hmonths : (List.range' 1 (month - 1)).Sublist (List.range' 1 (month' - 1)) :=
    List.range'_sublist_right.mpr hcount
  exact (hmonths.map _).sum_le_sum fun _ _ => Nat.zero_le _

/-- The months are the year. -/
theorem daysBeforeMonth_end (year : Nat) :
    daysBeforeMonth year 13 = 365 + if isLeapYear year then 1 else 0 := by
  cases h : isLeapYear year <;> simp [daysBeforeMonth, monthDays, h, List.range']

namespace HttpDate

variable (date : HttpDate) {earlier later : HttpDate}

/-- A day is before the next month. -/
theorem days_lt_month :
    date.days < daysBeforeYear date.year + daysBeforeMonth date.year (date.month + 1) := by
  have hday := date.day_range
  rw [daysBeforeMonth_succ _ date.month_range.1, days, civilDays]
  omega

/-- A day is before the next year. -/
theorem days_lt_year : date.days < daysBeforeYear (date.year + 1) := by
  have hmonth := date.days_lt_month
  have hend := daysBeforeMonth_mono date.year (Nat.add_le_add_right date.month_range.2 1)
  rw [daysBeforeMonth_end] at hend
  rw [daysBeforeYear_succ date.year_range.1]
  omega

theorem days_lt_of_year (h : earlier.year < later.year) : earlier.days < later.days :=
  calc earlier.days < daysBeforeYear (earlier.year + 1) := earlier.days_lt_year
    _ ≤ daysBeforeYear later.year := daysBeforeYear_mono h
    _ ≤ later.days := by rw [days, civilDays]; omega

theorem days_lt_of_month (hyear : earlier.year = later.year) (h : earlier.month < later.month) :
    earlier.days < later.days :=
  calc earlier.days < daysBeforeYear earlier.year + daysBeforeMonth earlier.year (earlier.month + 1) :=
        earlier.days_lt_month
    _ ≤ daysBeforeYear later.year + daysBeforeMonth later.year later.month := by
        rw [hyear]
        exact Nat.add_le_add_left (daysBeforeMonth_mono _ h) _
    _ ≤ later.days := by rw [days, civilDays]; omega

theorem instant_lt_of_days (h : earlier.days < later.days) : earlier.instant < later.instant := by
  have hsecond := earlier.secondOfDay_lt
  rw [instant, instant]
  omega

theorem instant_lt_of_fields (h : earlier.fields < later.fields) : earlier.instant < later.instant := by
  simp only [fields, List.cons_lt_cons_iff, List.lt_irrefl, and_false, or_false] at h
  rcases h with hyear | ⟨hyear, hmonth | ⟨hmonth, hday | ⟨hday, htime⟩⟩⟩
  · exact instant_lt_of_days (days_lt_of_year hyear)
  · exact instant_lt_of_days (days_lt_of_month hyear hmonth)
  · have hfirst := earlier.day_range.1
    refine instant_lt_of_days ?_
    rw [days, days, hyear, hmonth, civilDays, civilDays]
    omega
  · have htimes := earlier.time_range
    have htimes' := later.time_range
    rw [instant, instant, days, days, hyear, hmonth, hday, secondOfDay, secondOfDay]
    omega

/-- Instants have the order of their dates. -/
theorem fields_lt_iff : earlier.fields < later.fields ↔ earlier.instant < later.instant := by
  refine ⟨instant_lt_of_fields, fun h => ?_⟩
  rcases lt_trichotomy earlier.fields later.fields with hlt | heq | hgt
  · exact hlt
  · simp only [fields, List.cons.injEq] at heq
    obtain ⟨hyear, hmonth, hday, hhour, hminute, hsecond, -⟩ := heq
    rw [instant, instant, days, days, secondOfDay, secondOfDay, hyear, hmonth, hday, hhour, hminute,
      hsecond] at h
    exact absurd h (lt_irrefl _)
  · exact absurd h (lt_asymm (instant_lt_of_fields hgt))

end HttpDate

/-! ## Integers of 64 bits -/

/-- `daysFromCivil`, step by step. -/
def daysFromCivilI64 (year : Int) (month day : Nat) : Machine Int := do
  let adjustedYear ← i64 (year - if month ≤ 2 then 1 else 0)
  let era ← i64 (adjustedYear / 400)
  let eraYear ← i64 (era * 400)
  let yearOfEra ← i64 (adjustedYear - eraYear)
  let shiftedMonth ← i64 (month + if month > 2 then -3 else 9)
  let fifths ← i64 (153 * shiftedMonth)
  let fifths ← i64 (fifths + 2)
  let monthDay ← i64 (fifths.tdiv 5)
  let dayOfYear ← i64 (monthDay + day)
  let dayOfYear ← i64 (dayOfYear - 1)
  let yearOfEraDay ← i64 (yearOfEra * 365)
  let leapDays ← i64 (yearOfEra.tdiv 4)
  let yearOfEraDay ← i64 (yearOfEraDay + leapDays)
  let centuries ← i64 (yearOfEra.tdiv 100)
  let yearOfEraDay ← i64 (yearOfEraDay - centuries)
  let yearOfEraDay ← i64 (yearOfEraDay + dayOfYear)
  let eraDay ← i64 (era * 146097)
  let days ← i64 (eraDay + yearOfEraDay)
  i64 (days - 719468)

/-- The seconds that `parseHttpDate` adds, step by step. -/
def secondsI64 (year : Int) (month day hour min sec : Nat) : Machine Int := do
  let days ← daysFromCivilI64 year month day
  let seconds ← i64 (days * 86400)
  let hourSeconds ← i64 (hour * 3600)
  let seconds ← i64 (seconds + hourSeconds)
  let minSeconds ← i64 (min * 60)
  let seconds ← i64 (seconds + minSeconds)
  i64 (seconds + sec)

/-- Every step of the formula fits, and nothing negative is divided towards zero. -/
theorem daysFromCivilI64_eq {year : Int} {month day : Nat} (hyear : 1601 ≤ year ∧ year ≤ 9999)
    (hmonth : 1 ≤ month ∧ month ≤ 12) (hday : 1 ≤ day ∧ day ≤ 31) :
    daysFromCivilI64 year month day = ⟨daysFromCivil year month day, true⟩ := by
  rw [daysFromCivilI64, daysFromCivil]
  generalize hadjusted : year - (if month ≤ 2 then 1 else 0) = adjustedYear
  generalize hshifted : (month : Int) + (if month > 2 then -3 else 9) = shiftedMonth
  have hadjustedRange : 1600 ≤ adjustedYear ∧ adjustedYear ≤ 9999 := by split at hadjusted <;> omega
  have hshiftedRange : 0 ≤ shiftedMonth ∧ shiftedMonth ≤ 11 := by split at hshifted <;> omega
  clear hadjusted hshifted
  generalize hera : adjustedYear / 400 = era
  generalize hyearOfEra : adjustedYear - era * 400 = yearOfEra
  generalize hmonthDay : (153 * shiftedMonth + 2) / 5 = monthDay
  have heraRange : 0 ≤ yearOfEra ∧ yearOfEra < 400 ∧ 0 ≤ era ∧ era ≤ 25 := by omega
  simp (disch := ((try rw [FitsI64]); omega)) only [Int.tdiv_eq_ediv_of_nonneg, i64_of_fits,
    Machine.mk_bind, hera, hyearOfEra, hmonthDay]

theorem monthDays_le (year : Int) {month : Nat} (h : 1 ≤ month ∧ month ≤ 12) :
    monthDays year month ≤ 31 := by
  obtain ⟨hlow, hhigh⟩ := h
  cases hleap : isLeapYear year <;> interval_cases month <;> simp [monthDays, hleap]

namespace HttpDate

variable (date : HttpDate)

/-- The instant from what the formula gives. -/
theorem instant_eq : date.instant = daysFromCivil date.year date.month date.day * 86400 +
    date.hour * 3600 + date.minute * 60 + date.second := by
  rw [daysFromCivil_eq _ date.year_range.1 date.month_range date.day_range.1, instant, days, secondOfDay]
  push_cast
  omega

theorem instant_range : -2 ^ 40 ≤ date.instant ∧ date.instant < 2 ^ 40 := by
  have hyear := date.year_range
  have hleap : leapYears (date.year + 1 - 1601) ≤ date.year + 1 - 1601 := by
    have hle := List.countP_le_length (p := fun year : Nat => isLeapYear year)
      (l := List.range' 1601 (date.year + 1 - 1601))
    rwa [List.length_range'] at hle
  have hday := date.days_lt_year
  have hsecond := date.secondOfDay_lt
  rw [daysBeforeYear] at hday
  rw [instant, civilDays_epoch]
  omega

/-- The seconds that are computed are those of the calendar, with no step out of range. -/
theorem secondsI64_eq : secondsI64 date.year date.month date.day date.hour date.minute date.second =
    ⟨date.instant, true⟩ := by
  have hyear := date.year_range
  have hday := date.day_range
  have hle := monthDays_le date.year date.month_range
  have htime := date.time_range
  have hrange := date.instant_range
  rw [secondsI64, daysFromCivilI64_eq (by omega) date.month_range (by omega), Machine.mk_bind]
  rw [instant_eq] at hrange ⊢
  simp (disch := (rw [FitsI64]; omega)) only [i64_of_fits, Machine.mk_bind]

end HttpDate

end Omoikane.Http
