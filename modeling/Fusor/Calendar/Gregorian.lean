import Mathlib.Tactic

/-!
# The proleptic Gregorian calendar

Every fourth year is a leap year, but not every hundredth, and yet every four
hundredth.  Days are counted from the start of 1970 through whole years, whole
months and days, in both directions.
-/

namespace Fusor.Calendar

def IsLeap (year : Int) : Prop :=
  year % 4 = 0 ∧ (year % 100 ≠ 0 ∨ year % 400 = 0)

instance (year : Int) : Decidable (IsLeap year) :=
  inferInstanceAs (Decidable (_ ∧ _))

def yearLength (year : Int) : Int :=
  if IsLeap year then 366 else 365

def monthLength (year : Int) : Nat → Int
  | 2 => if IsLeap year then 29 else 28
  | 4 => 30
  | 6 => 30
  | 9 => 30
  | 11 => 30
  | _ => 31

structure ValidDate (year : Int) (month date : Nat) : Prop where
  firstMonth : 1 ≤ month
  lastMonth : month ≤ 12
  firstDate : 1 ≤ date
  lastDate : (date : Int) ≤ monthLength year month

/-- The days of so many years from a year on. -/
def yearsLength (year : Int) (count : Nat) : Int :=
  ((List.range count).map fun offset : Nat => yearLength (year + offset)).sum

/-- The day on which a year starts. -/
def yearStart (year : Int) : Int :=
  if 1970 ≤ year then yearsLength 1970 (year - 1970).toNat
  else -yearsLength year (1970 - year).toNat

/-- The days of a year before a month. -/
def monthStart (year : Int) (month : Nat) : Int :=
  ((List.range (month - 1)).map fun index : Nat => monthLength year (index + 1)).sum

/-- The day number of a date. -/
def dayNumber (year : Int) (month date : Nat) : Int :=
  yearStart year + monthStart year month + (date - 1)

section Years

theorem yearsLength_succ (year : Int) (count : Nat) :
    yearsLength year (count + 1) =
      yearsLength year count + yearLength (year + count) := by
  rw [yearsLength, List.range_succ, List.map_append, List.sum_append,
    List.map_singleton, List.sum_singleton]
  rfl

theorem yearsLength_succ' (year : Int) (count : Nat) :
    yearsLength year (count + 1) =
      yearLength year + yearsLength (year + 1) count := by
  rw [yearsLength, List.range_succ_eq_map, List.map_cons, List.map_map,
    List.sum_cons, yearsLength]
  have same : ((fun offset : Nat => yearLength (year + offset)) ∘ Nat.succ) =
      fun offset : Nat => yearLength (year + 1 + offset) := by
    funext offset
    change yearLength (year + ((offset + 1 : Nat) : Int)) = _
    rw [Nat.cast_add, Nat.cast_one, add_assoc, add_comm (1 : Int)]
  rw [same, Nat.cast_zero, add_zero]

/-- The next year starts when a year is over. -/
theorem yearStart_succ (year : Int) :
    yearStart (year + 1) = yearStart year + yearLength year := by
  unfold yearStart
  by_cases late : 1970 ≤ year
  · obtain ⟨count, same⟩ := Int.eq_ofNat_of_zero_le (Int.sub_nonneg.mpr late)
    have next : (year + 1 - 1970).toNat = count + 1 := by omega
    have here : (year - 1970).toNat = count := by omega
    rw [if_pos (by omega), if_pos late, next, here, yearsLength_succ,
      show (1970 : Int) + count = year by omega]
  · by_cases last : year = 1969
    · rw [last]
      decide
    · obtain ⟨count, same⟩ := Int.eq_ofNat_of_zero_le
        (show 0 ≤ 1969 - year by omega)
      have here : (1970 - year).toNat = count + 1 := by omega
      have next : (1970 - (year + 1)).toNat = count := by omega
      rw [if_neg (by omega), if_neg late, next, here, yearsLength_succ']
      omega

/-- The leap days before a year, by the leap-year rule. -/
def leapDays (year : Int) : Int :=
  (year - 1) / 4 - (year - 1) / 100 + (year - 1) / 400

theorem leapDays_succ (year : Int) :
    365 + leapDays (year + 1) = leapDays year + yearLength year := by
  unfold leapDays yearLength
  rw [add_sub_cancel_right]
  by_cases leap : IsLeap year
  · rw [if_pos leap]
    unfold IsLeap at leap
    omega
  · rw [if_neg leap]
    unfold IsLeap at leap
    omega

/-- The start of a year in closed form. -/
theorem yearStart_eq (year : Int) :
    yearStart year = 365 * (year - 1) + leapDays year - 719162 := by
  induction year using Int.inductionOn' (b := 1970) with
  | zero => decide
  | succ year _ induction =>
      have step := leapDays_succ year
      rw [yearStart_succ, induction]
      omega
  | pred year _ induction =>
      have step := leapDays_succ (year - 1)
      have start := yearStart_succ (year - 1)
      rw [sub_add_cancel] at step start
      omega

theorem yearStart_lt {first second : Int} (less : first < second) :
    yearStart first + yearLength first ≤ yearStart second := by
  rw [← yearStart_succ, yearStart_eq, yearStart_eq]
  unfold leapDays
  omega

end Years

section Months

variable {year : Int} {month date : Nat}

theorem monthLength_pos (year : Int) (month : Nat) :
    1 ≤ monthLength year month := by
  unfold monthLength
  split <;> try split
  all_goals decide

theorem monthStart_succ (year : Int) (month : Nat) (first : 1 ≤ month) :
    monthStart year (month + 1) =
      monthStart year month + monthLength year month := by
  obtain ⟨before, same⟩ := Nat.exists_eq_add_of_le' first
  rw [same, monthStart, Nat.add_sub_cancel, List.range_succ, List.map_append,
    List.sum_append, List.map_singleton, List.sum_singleton, monthStart,
    Nat.add_sub_cancel]

theorem monthStart_nonneg (year : Int) (month : Nat) :
    0 ≤ monthStart year month := by
  apply List.sum_nonneg
  intro length member
  obtain ⟨index, _, same⟩ := List.mem_map.mp member
  have positive := monthLength_pos year (index + 1)
  omega

/-- A later month starts when an earlier one is over. -/
theorem monthStart_lt (year : Int) {first second : Nat} (start : 1 ≤ first)
    (less : first < second) :
    monthStart year first + monthLength year first ≤
      monthStart year second := by
  induction second with
  | zero => exact absurd less (Nat.not_lt_zero _)
  | succ second induction =>
      rcases Nat.lt_succ_iff_lt_or_eq.mp less with earlier | same
      · have before := induction earlier
        have positive := monthLength_pos year second
        rw [monthStart_succ year second (by omega)]
        omega
      · rw [← same, monthStart_succ year first start]

/-- Twelve months are a year. -/
theorem monthStart_thirteen (year : Int) :
    monthStart year 13 = yearLength year := by
  have unfolded : monthStart year 13 = ((List.range 12).map fun index : Nat =>
      monthLength year (index + 1)).sum := rfl
  rw [unfolded, yearLength]
  simp only [List.range_succ, List.range_zero, List.nil_append,
    List.cons_append, List.map_cons, List.map_nil, List.sum_cons, List.sum_nil,
    monthLength]
  by_cases leap : IsLeap year
  · rw [if_pos leap, if_pos leap]
    rfl
  · rw [if_neg leap, if_neg leap]
    rfl

end Months

section Dates

variable {year : Int} {month date : Nat}

/-- A date lies in its month. -/
theorem ValidDate.inMonth (valid : ValidDate year month date) :
    dayNumber year month date <
      yearStart year + monthStart year month + monthLength year month := by
  have last := valid.lastDate
  unfold dayNumber
  omega

/-- A date lies in its year. -/
theorem ValidDate.inYear (valid : ValidDate year month date) :
    yearStart year ≤ dayNumber year month date ∧
      dayNumber year month date < yearStart year + yearLength year := by
  have first := valid.firstDate
  have start := monthStart_nonneg year month
  have inside := valid.inMonth
  have ended : monthStart year month + monthLength year month ≤
      monthStart year 13 :=
    monthStart_lt year valid.firstMonth (Nat.lt_succ_of_le valid.lastMonth)
  rw [monthStart_thirteen] at ended
  constructor
  · unfold dayNumber
    omega
  · omega

/-- The order of dates. -/
def Before (first second : Int × Nat × Nat) : Prop :=
  first.1 < second.1 ∨ first.1 = second.1 ∧
    (first.2.1 < second.2.1 ∨ first.2.1 = second.2.1 ∧
      first.2.2 < second.2.2)

theorem before_or_after (first second : Int × Nat × Nat) :
    Before first second ∨ first = second ∨ Before second first := by
  obtain ⟨year, month, date⟩ := first
  obtain ⟨otherYear, otherMonth, otherDate⟩ := second
  unfold Before
  rw [Prod.mk.injEq, Prod.mk.injEq]
  dsimp only
  omega

variable {otherYear : Int} {otherMonth otherDate : Nat}

/-- Later dates have larger numbers. -/
theorem dayNumber_lt (valid : ValidDate year month date)
    (other : ValidDate otherYear otherMonth otherDate)
    (before : Before (year, month, date) (otherYear, otherMonth, otherDate)) :
    dayNumber year month date < dayNumber otherYear otherMonth otherDate := by
  rcases before with years | ⟨sameYear, months | ⟨sameMonth, dates⟩⟩
  · dsimp only at years
    have inside := valid.inYear
    have later := other.inYear
    have start := yearStart_lt years
    omega
  · dsimp only at sameYear months
    have inside := valid.inMonth
    have start := monthStart_lt year valid.firstMonth months
    have first := other.firstDate
    rw [← sameYear]
    unfold dayNumber at inside ⊢
    omega
  · dsimp only at sameYear sameMonth dates
    rw [← sameYear, ← sameMonth]
    unfold dayNumber
    omega

theorem dayNumber_lt_iff (valid : ValidDate year month date)
    (other : ValidDate otherYear otherMonth otherDate) :
    dayNumber year month date < dayNumber otherYear otherMonth otherDate ↔
      Before (year, month, date) (otherYear, otherMonth, otherDate) := by
  constructor
  · intro less
    rcases before_or_after (year, month, date)
      (otherYear, otherMonth, otherDate) with before | same | after
    · exact before
    · cases same
      exact absurd less (lt_irrefl _)
    · exact absurd less (lt_asymm (dayNumber_lt other valid after))
  · exact dayNumber_lt valid other

/-- A number belongs to one date. -/
theorem dayNumber_injective (valid : ValidDate year month date)
    (other : ValidDate otherYear otherMonth otherDate)
    (same : dayNumber year month date =
      dayNumber otherYear otherMonth otherDate) :
    (year, month, date) = (otherYear, otherMonth, otherDate) := by
  rcases before_or_after (year, month, date)
    (otherYear, otherMonth, otherDate) with before | equal | after
  · exact absurd same (ne_of_lt (dayNumber_lt valid other before))
  · exact equal
  · exact absurd same (ne_of_gt (dayNumber_lt other valid after))

end Dates

end Fusor.Calendar
