import Fusor.Calendar.Gregorian

/-!
# Civil dates and day numbers

The conversions count years from March on in eras of four hundred years.
Every operation on 64-bit integers is checked, so that a result is also the
absence of an overflow.
-/

namespace Fusor.Runtime.Date

open Calendar

/-- A result of 64-bit arithmetic. -/
def i64 (value : Int) : Option Int :=
  if -2 ^ 63 ≤ value ∧ value < 2 ^ 63 then some value else none

def i32 (value : Int) : Option Int :=
  if -2 ^ 31 ≤ value ∧ value < 2 ^ 31 then some value else none

def u8 (value : Int) : Option Nat :=
  if 0 ≤ value ∧ value < 2 ^ 8 then some value.toNat else none

def daysFromCivil (year : Int) (month date : Nat) : Option Int := do
  let year ← i64 (year - if month ≤ 2 then 1 else 0)
  let era := year / 400
  let eraYears ← i64 (era * 400)
  let yearOfEra ← i64 (year - eraYears)
  let shiftedMonth ← i64 (month + if month > 2 then -3 else 9)
  let monthDays ← i64 (153 * shiftedMonth)
  let monthDays ← i64 (monthDays + 2)
  let dayOfYear ← i64 (monthDays.tdiv 5 + date)
  let dayOfYear ← i64 (dayOfYear - 1)
  let dayOfEra ← i64 (yearOfEra * 365)
  let dayOfEra ← i64 (dayOfEra + yearOfEra.tdiv 4)
  let dayOfEra ← i64 (dayOfEra - yearOfEra.tdiv 100)
  let dayOfEra ← i64 (dayOfEra + dayOfYear)
  let days ← i64 (era * 146097)
  let days ← i64 (days + dayOfEra)
  i64 (days - 719468)

def civilFromDays (days : Int) : Option (Int × Nat × Nat) := do
  let shifted ← i64 (days + 719468)
  let era := shifted / 146097
  let eraDays ← i64 (era * 146097)
  let dayOfEra ← i64 (shifted - eraDays)
  let yearDays ← i64 (dayOfEra - dayOfEra.tdiv 1460)
  let yearDays ← i64 (yearDays + dayOfEra.tdiv 36524)
  let yearDays ← i64 (yearDays - dayOfEra.tdiv 146096)
  let yearOfEra := yearDays.tdiv 365
  let eraYears ← i64 (era * 400)
  let year ← i64 (yearOfEra + eraYears)
  let yearDays ← i64 (365 * yearOfEra)
  let yearDays ← i64 (yearDays + yearOfEra.tdiv 4)
  let yearDays ← i64 (yearDays - yearOfEra.tdiv 100)
  let dayOfYear ← i64 (dayOfEra - yearDays)
  let fifths ← i64 (5 * dayOfYear)
  let fifths ← i64 (fifths + 2)
  let shiftedMonth := fifths.tdiv 153
  let monthDays ← i64 (153 * shiftedMonth)
  let monthDays ← i64 (monthDays + 2)
  let date ← i64 (dayOfYear - monthDays.tdiv 5)
  let date ← i64 (date + 1)
  let month ← i64 (shiftedMonth + if shiftedMonth < 10 then 3 else -9)
  let year ← i64 (year + if month ≤ 2 then 1 else 0)
  let year ← i32 year
  let month ← u8 month
  let date ← u8 date
  some (year, month, date)

section Checked

variable {β : Type} {value : Int}

theorem i64_eq (low : -2 ^ 63 ≤ value) (high : value < 2 ^ 63) :
    i64 value = some value :=
  if_pos ⟨low, high⟩

theorem i64_bind (low : -2 ^ 63 ≤ value) (high : value < 2 ^ 63)
    (rest : Int → Option β) : (i64 value >>= rest) = rest value := by
  rw [i64_eq low high, Option.bind_eq_bind, Option.bind_some]

theorem u8_bind (low : 0 ≤ value) (high : value < 2 ^ 8)
    (rest : Nat → Option β) : (u8 value >>= rest) = rest value.toNat := by
  rw [u8, if_pos ⟨low, high⟩, Option.bind_eq_bind, Option.bind_some]

end Checked

section Days

/-- The day number without checks. -/
def civilDays (year : Int) (month date : Nat) : Int :=
  let shiftedYear := year - if month ≤ 2 then 1 else 0
  let shiftedMonth : Int := month + if month > 2 then -3 else 9
  365 * shiftedYear + shiftedYear / 4 - shiftedYear / 100 + shiftedYear / 400 +
    (153 * shiftedMonth + 2) / 5 + date - 719469

/-- The steps after the shift of year and month. -/
theorem daysFromCivil_steps {era yearOfEra month date : Int}
    (eraLow : -2 ^ 32 ≤ era) (eraHigh : era < 2 ^ 32)
    (yearLow : 0 ≤ yearOfEra) (yearHigh : yearOfEra < 400)
    (monthLow : 0 ≤ month) (monthHigh : month < 2 ^ 33)
    (dateLow : 0 ≤ date) (dateHigh : date < 2 ^ 32) :
    (do
      let monthDays ← i64 (153 * month)
      let monthDays ← i64 (monthDays + 2)
      let dayOfYear ← i64 (monthDays.tdiv 5 + date)
      let dayOfYear ← i64 (dayOfYear - 1)
      let dayOfEra ← i64 (yearOfEra * 365)
      let dayOfEra ← i64 (dayOfEra + yearOfEra.tdiv 4)
      let dayOfEra ← i64 (dayOfEra - yearOfEra.tdiv 100)
      let dayOfEra ← i64 (dayOfEra + dayOfYear)
      let days ← i64 (era * 146097)
      let days ← i64 (days + dayOfEra)
      i64 (days - 719468)) =
      some (146097 * era + 365 * yearOfEra + yearOfEra / 4 - yearOfEra / 100 +
        (153 * month + 2) / 5 + date - 719469) := by
  rw [i64_bind (by omega) (by omega), i64_bind (by omega) (by omega),
    Int.tdiv_eq_ediv_of_nonneg (by omega), Int.tdiv_eq_ediv_of_nonneg yearLow,
    Int.tdiv_eq_ediv_of_nonneg yearLow]
  have monthDays : 0 ≤ (153 * month + 2) / 5 ∧
      (153 * month + 2) / 5 < 2 ^ 40 := by
    omega
  generalize (153 * month + 2) / 5 = days at monthDays
  rw [i64_bind (by omega) (by omega), i64_bind (by omega) (by omega),
    i64_bind (by omega) (by omega), i64_bind (by omega) (by omega),
    i64_bind (by omega) (by omega), i64_bind (by omega) (by omega),
    i64_bind (by omega) (by omega), i64_bind (by omega) (by omega),
    i64_eq (by omega) (by omega), Option.some.injEq]
  omega

theorem daysFromCivil_eq {year : Int} (low : -2 ^ 31 ≤ year)
    (high : year < 2 ^ 31) {month date : Nat} (monthSmall : month < 2 ^ 32)
    (dateSmall : date < 2 ^ 32) :
    daysFromCivil year month date = some (civilDays year month date) := by
  unfold daysFromCivil civilDays
  have beforeRange : 0 ≤ (if month ≤ 2 then (1 : Int) else 0) ∧
      (if month ≤ 2 then (1 : Int) else 0) ≤ 1 := by
    split <;> decide
  have monthRange : 0 ≤ (month : Int) + (if month > 2 then (-3 : Int) else 9) ∧
      (month : Int) + (if month > 2 then (-3 : Int) else 9) < 2 ^ 33 := by
    split <;> constructor <;> omega
  generalize (if month ≤ 2 then (1 : Int) else 0) = before at beforeRange
  generalize (month : Int) + (if month > 2 then (-3 : Int) else 9) = shifted
    at monthRange
  obtain ⟨beforeLow, beforeHigh⟩ := beforeRange
  have yearLow : -2 ^ 32 ≤ year - before := by omega
  have yearHigh : year - before < 2 ^ 32 := by omega
  generalize year - before = shiftedYear at yearLow yearHigh
  rw [i64_bind (by omega) (by omega), i64_bind (by omega) (by omega),
    i64_bind (by omega) (by omega), i64_bind (by omega) (by omega)]
  refine (daysFromCivil_steps (by omega) (by omega) (by omega) (by omega)
    monthRange.1 monthRange.2 (Int.natCast_nonneg date) (by omega)).trans ?_
  rw [Option.some.injEq]
  dsimp only
  omega

/-- Through March to December a month starts after as many days as a fifth of
its number of hundred and fifty-three. -/
theorem monthStart_eq (year : Int) {month : Nat} (first : 1 ≤ month)
    (last : month ≤ 12) :
    monthStart year month =
      if month ≤ 2 then 31 * ((month : Int) - 1)
      else (153 * (month - 3) + 2) / 5 + 59 + (yearLength year - 365) := by
  unfold yearLength monthStart
  by_cases leap : IsLeap year
  · interval_cases month <;>
      simp [List.range_succ, monthLength, leap]
  · interval_cases month <;>
      simp [List.range_succ, monthLength, leap]

/-- The conversion counts days by the leap-year rule. -/
theorem civilDays_eq (year : Int) {month : Nat} (first : 1 ≤ month)
    (last : month ≤ 12) (date : Nat) :
    civilDays year month date = dayNumber year month date := by
  have step := leapDays_succ year
  unfold civilDays dayNumber
  rw [yearStart_eq, monthStart_eq year first last]
  unfold leapDays at step ⊢
  by_cases early : month ≤ 2
  · have late : ¬ month > 2 := by omega
    rw [if_pos early, if_pos early, if_neg late]
    dsimp only
    omega
  · have late : month > 2 := by omega
    rw [if_neg early, if_neg early, if_pos late]
    dsimp only
    rw [add_sub_cancel_right] at step
    omega

end Days

section Eras

/-- A day of an era lies in a century, a run of four years, a year of it and
on a day.  Only a leap year, which is last in its run, has a last day more. -/
structure EraParts (dayOfEra century run year day : Int) : Prop where
  sum : dayOfEra = 36524 * century + 1461 * run + 365 * year + day
  centuryLow : 0 ≤ century
  centuryHigh : century ≤ 3
  runLow : 0 ≤ run
  runHigh : run ≤ 24
  yearLow : 0 ≤ year
  yearHigh : year ≤ 3
  dayLow : 0 ≤ day
  dayHigh : day ≤ 364 ∨ day = 365 ∧ year = 3 ∧ (run ≤ 23 ∨ century = 3)

theorem exists_eraParts {dayOfEra : Int} (low : 0 ≤ dayOfEra)
    (high : dayOfEra < 146097) :
    ∃ century run year day, EraParts dayOfEra century run year day := by
  by_cases final : dayOfEra = 146096
  · exact ⟨3, 24, 3, 365, by omega, by omega, by omega, by omega, by omega,
      by omega, by omega, by omega, .inr ⟨rfl, rfl, .inr rfl⟩⟩
  · by_cases leap : dayOfEra % 36524 % 1461 = 1460
    · exact ⟨dayOfEra / 36524, dayOfEra % 36524 / 1461, 3, 365, by omega,
        by omega, by omega, by omega, by omega, by omega, by omega, by omega,
        .inr ⟨rfl, rfl, .inl (by omega)⟩⟩
    · exact ⟨dayOfEra / 36524, dayOfEra % 36524 / 1461,
        dayOfEra % 36524 % 1461 / 365, dayOfEra % 36524 % 1461 % 365, by omega,
        by omega, by omega, by omega, by omega, by omega, by omega, by omega,
        .inl (by omega)⟩

variable {dayOfEra century run year day : Int}

/-- The estimate finds the year of an era. -/
theorem EraParts.yearOfEra (parts : EraParts dayOfEra century run year day) :
    (dayOfEra - dayOfEra / 1460 + dayOfEra / 36524 - dayOfEra / 146096) / 365 =
      100 * century + 4 * run + year := by
  obtain ⟨sum, centuryLow, centuryHigh, runLow, runHigh, yearLow, yearHigh,
    dayLow, dayHigh⟩ := parts
  -- The last day of an era raises both corrections, which cancel.
  have centuries : dayOfEra / 36524 - dayOfEra / 146096 = century := by
    by_cases final : dayOfEra = 146096
    · have last : century = 3 := by omega
      rw [final, last]
      decide
    · have none : dayOfEra / 146096 = 0 := by omega
      have here : dayOfEra / 36524 = century := by omega
      rw [none, here, sub_zero]
  by_cases wide : 1460 ≤ 24 * century + run + 365 * year + day
  · have runs : dayOfEra / 1460 = 25 * century + run + 1 := by omega
    omega
  · have runs : dayOfEra / 1460 = 25 * century + run := by omega
    omega

theorem EraParts.dayOfYear (parts : EraParts dayOfEra century run year day) :
    dayOfEra - (365 * (100 * century + 4 * run + year) +
      (100 * century + 4 * run + year) / 4 -
      (100 * century + 4 * run + year) / 100) = day := by
  obtain ⟨sum, _, _, runLow, runHigh, yearLow, yearHigh, _, _⟩ := parts
  have fours : (100 * century + 4 * run + year) / 4 = 25 * century + run := by
    omega
  have hundreds : (100 * century + 4 * run + year) / 100 = century := by
    omega
  rw [fours, hundreds, sum]
  ring

theorem EraParts.day_le (parts : EraParts dayOfEra century run year day) :
    day ≤ 365 := by
  rcases parts.dayHigh with early | last
  · exact Int.le_trans early (by decide)
  · exact Int.le_of_eq last.1

/-- The last day of a year of 366 days comes before a leap year. -/
theorem EraParts.leap (parts : EraParts dayOfEra century run year day)
    (era : Int) :
    day ≤ 364 ∨
      day = 365 ∧ IsLeap (100 * century + 4 * run + year + era * 400 + 1) := by
  have runLow := parts.runLow
  have runHigh := parts.runHigh
  refine parts.dayHigh.imp_right fun ⟨last, final, short⟩ => ⟨last, ?_⟩
  unfold IsLeap
  omega

theorem EraParts.yearQuotients
    (parts : EraParts dayOfEra century run year day) (era : Int) :
    (100 * century + 4 * run + year + era * 400) / 4 =
        25 * century + run + 100 * era ∧
      (100 * century + 4 * run + year + era * 400) / 100 =
        century + 4 * era ∧
      (100 * century + 4 * run + year + era * 400) / 400 = era := by
  obtain ⟨_, centuryLow, centuryHigh, runLow, runHigh, yearLow, yearHigh, _,
    _⟩ := parts
  refine ⟨?_, ?_, ?_⟩
  · omega
  · omega
  · omega

/-- The year of an era is one of its four hundred years. -/
theorem EraParts.yearRange (parts : EraParts dayOfEra century run year day) :
    0 ≤ 100 * century + 4 * run + year ∧
      100 * century + 4 * run + year < 400 := by
  obtain ⟨_, centuryLow, centuryHigh, runLow, runHigh, yearLow, yearHigh, _,
    _⟩ := parts
  constructor
  · omega
  · omega

end Eras

section Months

/-- The month of a day of a year that starts in March, and the day in it. -/
structure MonthParts (day month date : Int) : Prop where
  sum : day = (153 * month + 2) / 5 + date - 1
  monthLow : 0 ≤ month
  monthHigh : month ≤ 11
  dateLow : 1 ≤ date
  dateHigh : date ≤ 31
  next : month ≤ 10 → day < (153 * (month + 1) + 2) / 5

theorem monthParts {day : Int} (low : 0 ≤ day) (high : day ≤ 365) :
    MonthParts day ((5 * day + 2) / 153)
      (day - (153 * ((5 * day + 2) / 153) + 2) / 5 + 1) := by
  have monthLow : 0 ≤ (5 * day + 2) / 153 := by omega
  have monthHigh : (5 * day + 2) / 153 ≤ 11 := by omega
  constructor
  · omega
  · exact monthLow
  · exact monthHigh
  · omega
  · generalize same : (5 * day + 2) / 153 = month at monthLow monthHigh
    interval_cases month <;> omega
  · intro _
    generalize same : (5 * day + 2) / 153 = month at monthLow monthHigh
    interval_cases month <;> omega

/-- The calendar month of a month counted from March. -/
def calendarMonth (month : Int) : Int :=
  month + if month < 10 then 3 else -9

variable {day month date year : Int}

/-- A day within a year that starts in March is a date of the calendar. -/
theorem MonthParts.valid (parts : MonthParts day month date)
    (short : day ≤ 364 ∨ day = 365 ∧ IsLeap (year + 1)) :
    ValidDate (year + if calendarMonth month ≤ 2 then 1 else 0)
      (calendarMonth month).toNat date.toNat := by
  obtain ⟨sum, monthLow, monthHigh, dateLow, dateHigh, next⟩ := parts
  unfold calendarMonth
  constructor
  · split <;> omega
  · split <;> omega
  · omega
  · rw [Int.toNat_of_nonneg (by omega)]
    interval_cases month <;> simp [monthLength] <;> try omega
    rcases short with early | ⟨last, leap⟩
    · split <;> omega
    · rw [if_pos leap]
      omega

end Months

section Inverse

/-- The steps from the year of the era on. -/
def civilTail (era dayOfEra yearOfEra : Int) : Option (Int × Nat × Nat) := do
  let eraYears ← i64 (era * 400)
  let year ← i64 (yearOfEra + eraYears)
  let yearDays ← i64 (365 * yearOfEra)
  let yearDays ← i64 (yearDays + yearOfEra.tdiv 4)
  let yearDays ← i64 (yearDays - yearOfEra.tdiv 100)
  let dayOfYear ← i64 (dayOfEra - yearDays)
  let fifths ← i64 (5 * dayOfYear)
  let fifths ← i64 (fifths + 2)
  let shiftedMonth := fifths.tdiv 153
  let monthDays ← i64 (153 * shiftedMonth)
  let monthDays ← i64 (monthDays + 2)
  let date ← i64 (dayOfYear - monthDays.tdiv 5)
  let date ← i64 (date + 1)
  let month ← i64 (shiftedMonth + if shiftedMonth < 10 then 3 else -9)
  let year ← i64 (year + if month ≤ 2 then 1 else 0)
  let year ← i32 year
  let month ← u8 month
  let date ← u8 date
  some (year, month, date)

theorem civilFromDays_eq_tail {days era dayOfEra : Int} (low : -2 ^ 62 ≤ days)
    (high : days < 2 ^ 62) (eraSame : (days + 719468) / 146097 = era)
    (daySame : days + 719468 - era * 146097 = dayOfEra) :
    civilFromDays days = civilTail era dayOfEra
      ((dayOfEra - dayOfEra / 1460 + dayOfEra / 36524 - dayOfEra / 146096) /
        365) := by
  unfold civilFromDays
  rw [i64_bind (by omega) (by omega)]
  dsimp only
  rw [eraSame, i64_bind (by omega) (by omega), daySame,
    i64_bind (by omega) (by omega)]
  have dayLow : 0 ≤ dayOfEra := by omega
  have dayHigh : dayOfEra < 146097 := by omega
  clear eraSame daySame low high
  rw [Int.tdiv_eq_ediv_of_nonneg dayLow, Int.tdiv_eq_ediv_of_nonneg dayLow,
    Int.tdiv_eq_ediv_of_nonneg dayLow, i64_bind (by omega) (by omega),
    i64_bind (by omega) (by omega), i64_bind (by omega) (by omega),
    Int.tdiv_eq_ediv_of_nonneg (by omega)]
  rfl

theorem civilTail_eq {era yearOfEra dayOfEra day : Int}
    (eraLow : -2 ^ 47 ≤ era) (eraHigh : era < 2 ^ 47)
    (yearLow : 0 ≤ yearOfEra) (yearHigh : yearOfEra < 400)
    (dayLow : 0 ≤ day) (dayHigh : day ≤ 365)
    (remainder : dayOfEra -
      (365 * yearOfEra + yearOfEra / 4 - yearOfEra / 100) = day) :
    civilTail era dayOfEra yearOfEra =
      (i32 (yearOfEra + era * 400 +
        if calendarMonth ((5 * day + 2) / 153) ≤ 2 then 1 else 0)).map
        (fun year : Int => (year, (calendarMonth ((5 * day + 2) / 153)).toNat,
          (day - (153 * ((5 * day + 2) / 153) + 2) / 5 + 1).toNat)) := by
  unfold civilTail
  obtain ⟨sum, monthLow, monthHigh, dateLow, dateHigh, _⟩ :=
    monthParts dayLow dayHigh
  have monthRange : 1 ≤ calendarMonth ((5 * day + 2) / 153) ∧
      calendarMonth ((5 * day + 2) / 153) ≤ 12 := by
    unfold calendarMonth
    split <;> omega
  rw [i64_bind (by omega) (by omega), i64_bind (by omega) (by omega),
    i64_bind (by omega) (by omega), Int.tdiv_eq_ediv_of_nonneg yearLow,
    Int.tdiv_eq_ediv_of_nonneg yearLow, i64_bind (by omega) (by omega),
    i64_bind (by omega) (by omega), remainder, i64_bind (by omega) (by omega),
    i64_bind (by omega) (by omega), i64_bind (by omega) (by omega)]
  dsimp only
  rw [Int.tdiv_eq_ediv_of_nonneg (by omega)]
  generalize (5 * day + 2) / 153 = shiftedMonth at *
  rw [i64_bind (by omega) (by omega), i64_bind (by omega) (by omega),
    Int.tdiv_eq_ediv_of_nonneg (by omega), i64_bind (by omega) (by omega),
    i64_bind (by omega) (by omega)]
  change (i64 (calendarMonth shiftedMonth) >>= _) = _
  generalize calendarMonth shiftedMonth = month at *
  have leapRange : 0 ≤ (if month ≤ 2 then (1 : Int) else 0) ∧
      (if month ≤ 2 then (1 : Int) else 0) ≤ 1 := by
    split <;> decide
  rw [i64_bind (by omega) (by omega)]
  generalize (if month ≤ 2 then (1 : Int) else 0) = leap at leapRange
  rw [i64_bind (by omega) (by omega)]
  cases i32 (yearOfEra + era * 400 + leap) with
  | none => rfl
  | some year =>
      change (u8 month >>= _) = _
      rw [u8_bind (by omega) (by omega), u8_bind (by omega) (by omega)]
      rfl

/-- A month counted from March is the calendar month shifted back. -/
theorem calendarMonth_shifted {month : Int} (low : 0 ≤ month)
    (high : month ≤ 11) :
    (((calendarMonth month).toNat : Nat) : Int) +
      (if (calendarMonth month).toNat > 2 then -3 else 9) = month ∧
    ((calendarMonth month).toNat ≤ 2 ↔ calendarMonth month ≤ 2) := by
  unfold calendarMonth
  constructor
  · split <;> split <;> omega
  · split <;> omega

theorem dayNumber_of_day {year day : Int} (dayLow : 0 ≤ day)
    (dayHigh : day ≤ 365)
    (valid : ValidDate
      (year + if calendarMonth ((5 * day + 2) / 153) ≤ 2 then 1 else 0)
      (calendarMonth ((5 * day + 2) / 153)).toNat
      (day - (153 * ((5 * day + 2) / 153) + 2) / 5 + 1).toNat) :
    dayNumber (year + if calendarMonth ((5 * day + 2) / 153) ≤ 2 then 1 else 0)
      (calendarMonth ((5 * day + 2) / 153)).toNat
      (day - (153 * ((5 * day + 2) / 153) + 2) / 5 + 1).toNat =
      365 * year + year / 4 - year / 100 + year / 400 + day - 719468 := by
  obtain ⟨sum, monthLow, monthHigh, dateLow, _, _⟩ := monthParts dayLow dayHigh
  have shifted := calendarMonth_shifted monthLow monthHigh
  rw [← civilDays_eq _ valid.firstMonth valid.lastMonth]
  unfold civilDays
  rw [shifted.1, if_congr shifted.2 rfl rfl, add_sub_cancel_right,
    Int.toNat_of_nonneg (by omega)]
  dsimp only
  omega

/-- The date of a day number, if its year fits. -/
theorem civilFromDays_eq {days : Int} (low : -2 ^ 62 ≤ days)
    (high : days < 2 ^ 62) :
    ∃ year month date, ValidDate year month date ∧
      dayNumber year month date = days ∧
      civilFromDays days = (i32 year).map fun year => (year, month, date) := by
  obtain ⟨era, eraSame⟩ : ∃ era, (days + 719468) / 146097 = era := ⟨_, rfl⟩
  obtain ⟨dayOfEra, daySame⟩ :
    ∃ dayOfEra, days + 719468 - era * 146097 = dayOfEra := ⟨_, rfl⟩
  obtain ⟨century, run, year, day, parts⟩ := exists_eraParts
    (show 0 ≤ dayOfEra by omega) (by omega)
  have tail := civilFromDays_eq_tail low high eraSame daySame
  rw [parts.yearOfEra] at tail
  have valid := (monthParts parts.dayLow parts.day_le).valid (parts.leap era)
  refine ⟨_, _, _, valid, ?_, ?_⟩
  · obtain ⟨fours, hundreds, eras⟩ := parts.yearQuotients era
    have sum := parts.sum
    rw [dayNumber_of_day parts.dayLow parts.day_le valid, fours, hundreds, eras]
    clear tail valid fours hundreds eras parts
    omega
  · rw [tail]
    exact civilTail_eq (by omega) (by omega) parts.yearRange.1
      parts.yearRange.2 parts.dayLow parts.day_le parts.dayOfYear

end Inverse

section Conversions

/-- A year that the conversion returns. -/
def FitsI32 (year : Int) : Prop :=
  -2 ^ 31 ≤ year ∧ year < 2 ^ 31

theorem yearLength_le (year : Int) : yearLength year ≤ 366 := by
  unfold yearLength
  split <;> decide

/-- A year is near the day number of its dates. -/
theorem year_near {year : Int} {month date : Nat}
    (valid : ValidDate year month date) :
    365 * year - 2 ^ 20 - |year| ≤ dayNumber year month date ∧
      dayNumber year month date ≤ 365 * year + 2 ^ 20 + |year| := by
  have inside := valid.inYear
  have start := yearStart_eq year
  have length := yearLength_le year
  unfold leapDays at start
  rcases abs_cases year with ⟨same, sign⟩ | ⟨same, sign⟩
  · omega
  · omega

theorem dayNumber_range {year : Int} {month date : Nat}
    (valid : ValidDate year month date) (fits : FitsI32 year) :
    -2 ^ 41 ≤ dayNumber year month date ∧
      dayNumber year month date < 2 ^ 41 := by
  have near := year_near valid
  obtain ⟨low, high⟩ := fits
  have bound : |year| ≤ 2 ^ 31 := abs_le.mpr ⟨low, by omega⟩
  constructor
  · omega
  · omega

theorem i32_eq {year : Int} (fits : FitsI32 year) : i32 year = some year :=
  if_pos fits

/-- Dates and day numbers determine each other in order, and nothing
overflows on the way. -/
theorem civil_inverse :
    (∀ year month date, FitsI32 year → ValidDate year month date →
      daysFromCivil year month date = some (dayNumber year month date) ∧
        civilFromDays (dayNumber year month date) =
          some (year, month, date)) ∧
    (∀ days, dayNumber (-2 ^ 31) 1 1 ≤ days →
      days ≤ dayNumber (2 ^ 31 - 1) 12 31 →
        ∃ year month date, civilFromDays days = some (year, month, date) ∧
          FitsI32 year ∧ ValidDate year month date ∧
            daysFromCivil year month date = some days) ∧
    (∀ year month date otherYear otherMonth otherDate,
      ValidDate year month date → ValidDate otherYear otherMonth otherDate →
        (dayNumber year month date <
            dayNumber otherYear otherMonth otherDate ↔
          Before (year, month, date) (otherYear, otherMonth, otherDate))) ∧
    (∀ year month date, |year| ≤ 1000000 → month < 2 ^ 32 → date < 2 ^ 32 →
      (daysFromCivil year month date).isSome) ∧
    (∀ days, |days| ≤ 400000000 → (civilFromDays days).isSome) := by
  have forward : ∀ year month date, FitsI32 year → ValidDate year month date →
      daysFromCivil year month date = some (dayNumber year month date) := by
    intro year month date fits valid
    have last := valid.lastDate
    have short : monthLength year month ≤ 31 := by
      unfold monthLength
      split <;> try split
      all_goals decide
    have monthBound := valid.lastMonth
    rw [daysFromCivil_eq fits.1 fits.2 (by omega) (by omega),
      civilDays_eq year valid.firstMonth valid.lastMonth]
  refine ⟨?_, ?_, ?_, ?_, ?_⟩
  · intro year month date fits valid
    refine ⟨forward year month date fits valid, ?_⟩
    have range := dayNumber_range valid fits
    obtain ⟨otherYear, otherMonth, otherDate, other, same, computed⟩ :=
      civilFromDays_eq (show -2 ^ 62 ≤ dayNumber year month date by omega)
        (by omega)
    have equal := dayNumber_injective other valid same
    rw [Prod.mk.injEq, Prod.mk.injEq] at equal
    rw [computed, equal.1, equal.2.1, equal.2.2, i32_eq fits]
    rfl
  · intro days low high
    have first : ValidDate (-2 ^ 31) 1 1 := by
      constructor <;> decide
    have last : ValidDate (2 ^ 31 - 1) 12 31 := by
      constructor <;> decide
    have lowRange := dayNumber_range first (by constructor <;> decide)
    have highRange := dayNumber_range last (by constructor <;> decide)
    obtain ⟨year, month, date, valid, same, computed⟩ :=
      civilFromDays_eq (show -2 ^ 62 ≤ days by omega) (by omega)
    have fits : FitsI32 year := by
      constructor
      · by_contra early
        have less := dayNumber_lt valid first (.inl (by omega))
        omega
      · by_contra late
        have less := dayNumber_lt last valid (.inl (by
          dsimp only
          omega))
        omega
    refine ⟨year, month, date, ?_, fits, valid, ?_⟩
    · rw [computed, i32_eq fits]
      rfl
    · rw [forward year month date fits valid, same]
  · intro year month date otherYear otherMonth otherDate valid other
    exact dayNumber_lt_iff valid other
  · intro year month date bound monthSmall dateSmall
    rw [abs_le] at bound
    rw [daysFromCivil_eq (by omega) (by omega) monthSmall dateSmall]
    rfl
  · intro days bound
    rw [abs_le] at bound
    obtain ⟨year, month, date, valid, same, computed⟩ :=
      civilFromDays_eq (show -2 ^ 62 ≤ days by omega) (by omega)
    have near := year_near valid
    have fits : FitsI32 year := by
      rcases abs_cases year with ⟨size, sign⟩ | ⟨size, sign⟩
      · constructor <;> omega
      · constructor <;> omega
    rw [computed, i32_eq fits]
    rfl

theorem civil_inverse_leapDay :
    daysFromCivil 2000 2 29 = some (dayNumber 2000 2 29) ∧
      civilFromDays (dayNumber 2000 2 29) = some (2000, 2, 29) := by
  apply civil_inverse.1 2000 2 29
  · constructor <;> decide
  · constructor <;> decide

end Conversions

end Fusor.Runtime.Date
