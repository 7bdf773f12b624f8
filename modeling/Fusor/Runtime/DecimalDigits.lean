import Fusor.Runtime.DecimalScaling

/-!
# Fixed and significant digits

Fixed rendering writes the rounded integer with its point.  It drops the sign
of every value that rounds to zero, not only of zero itself.  Significant
digits are searched from an estimated exponent on, and the search ends at the
decade of the value or, when rounding fills that decade, at the next one.
-/

namespace Fusor.Runtime.Decimal

open Arith

/-- The digits of a natural number as text. -/
def numberText (number : Nat) : List Char :=
  (numeral 10 number).map JsBigInt.digitChar

theorem Holds.toStringRadix {integer : JsBigInt} {number : Nat}
    (holds : Holds integer number) (small : number < 2 ^ 4000) :
    integer.toStringRadix 10 = .ok (numberText number) := by
  rcases @JsBigInt.toStringRadix_eq integer 10 (by decide) holds.small with
    ⟨least, _⟩ | ⟨_, text⟩
  · rw [holds.value] at least
    exact absurd least (inside small).2
  · rw [text, JsBigInt.numeralText_eq (by decide), holds.value,
      if_neg (Int.not_lt.mpr (Int.natCast_nonneg _)), Int.natAbs_natCast]
    rfl

theorem Holds.isZero {integer : JsBigInt} {number : Nat}
    (holds : Holds integer number) :
    integer.isZero = decide (number = 0) := by
  rw [JsBigInt.isZero_eq_decide, holds.value, Bool.eq_iff_iff,
    decide_eq_true_iff, decide_eq_true_iff, Int.natCast_eq_zero]

/-! ## Fixed digits -/

/-- A number of fractional units with its point. -/
def fixedNumeral (fractionDigits number : Nat) : List Char :=
  numberText (number / 10 ^ fractionDigits) ++
    if fractionDigits > 0 then
      '.' :: (lastDigits 10 fractionDigits number).map JsBigInt.digitChar
    else
      []

/-- The fixed text of a value: the nearest number of fractional units, the
larger of two, after the sign of a value below zero. -/
def IsFixedText (value : Binary64) (fractionDigits : Nat)
    (text : List Char) : Prop :=
  ∃ number : Nat,
    ClosestLarger (fun integer : Int => (integer : ℚ) / 10 ^ fractionDigits)
      |value.toRat| number ∧
    text = (if value.toRat < 0 then ['-'] else []) ++
      fixedNumeral fractionDigits number

theorem padded_numberText (fractionDigits number : Nat) :
    (if (numberText number).length ≤ fractionDigits then
        List.replicate (fractionDigits + 1 - (numberText number).length) '0' ++
          numberText number
      else numberText number) =
      numberText (number / 10 ^ fractionDigits) ++
        (lastDigits 10 fractionDigits number).map JsBigInt.digitChar := by
  have padded := congrArg (List.map JsBigInt.digitChar)
    (@padded_numeral 10 (by decide) fractionDigits number)
  rw [List.map_append, List.map_append, List.map_replicate] at padded
  have length : (numberText number).length = (numeral 10 number).length :=
    List.length_map _
  rw [length]
  by_cases few : (numeral 10 number).length ≤ fractionDigits
  · rw [if_pos few]
    exact padded
  · rw [if_neg few]
    rw [Nat.sub_eq_zero_of_le (by omega), List.replicate_zero,
      List.nil_append] at padded
    exact padded

theorem exactFixed_spec {value : Binary64} (finite : value.isFinite = true)
    {fractionDigits : Nat} (bounded : fractionDigits ≤ 100) :
    ∃ number : Nat,
      RoundedHalfUp (|value.toRat| * 10 ^ fractionDigits) number ∧
      exactFixed value fractionDigits =
        .ok ((if value.msb = true ∧ number ≠ 0 then ['-'] else []) ++
          fixedNumeral fractionDigits number) := by
  obtain ⟨significand, exponent, parts, decomposed⟩ := decompose_spec finite
  have least := decomposed.exponentLeast
  have greatest := decomposed.exponentGreatest
  obtain ⟨scaled, number, computed, holds, small, rounds⟩ :=
    @scaleAndRound_spec significand exponent fractionDigits
      ⟨decomposed.significandSmall, by omega, by omega⟩
  rw [← decomposed.magnitude, zpow_natCast] at rounds
  refine ⟨number, rounds, ?_⟩
  have last : ((lastDigits 10 fractionDigits number).map
      JsBigInt.digitChar).length = fractionDigits := by
    rw [List.length_map, length_lastDigits]
  unfold exactFixed
  simp only [parts, computed, Support.ok_bind, holds.toStringRadix small,
    padded_numberText, holds.isZero]
  rw [List.length_append, last, Nat.add_sub_cancel, List.take_left',
    List.drop_left', fixedNumeral, List.append_assoc]
  · congr 2
    cases value.msb with
    | true =>
        by_cases zero : number = 0
        · simp [zero]
        · simp [zero]
    | false => simp
  · rfl
  · rfl

/-- A value that rounds to zero. -/
theorem rounded_zero_iff {value : ℚ} {number : Nat} (nonneg : 0 ≤ value)
    (rounds : RoundedHalfUp value number) :
    number = 0 ↔ value < 1 / 2 := by
  constructor
  · intro zero
    have upper := rounds.upper
    rw [zero] at upper
    simpa using upper
  · intro below
    have zero : RoundedHalfUp value 0 := by
      constructor
      · rw [Int.cast_zero]
        linarith
      · rw [Int.cast_zero]
        linarith
    exact_mod_cast rounds.unique zero

theorem closest_fixed {value : ℚ} {fractionDigits : Nat} {number : Int}
    (rounds : RoundedHalfUp (value * 10 ^ fractionDigits) number) :
    ClosestLarger (fun integer : Int => (integer : ℚ) / 10 ^ fractionDigits)
      value number := by
  have positive : (0 : ℚ) < (10 ^ fractionDigits)⁻¹ := by positivity
  have multiples := @RoundedHalfUp.closest_multiple ℚ _ _ _ number value
    (10 ^ fractionDigits)⁻¹ positive (by rwa [div_inv_eq_mul])
  exact multiples

theorem closest_fixed_unique {value : ℚ} {fractionDigits : Nat}
    {first second : Int}
    (one : ClosestLarger
      (fun integer : Int => (integer : ℚ) / 10 ^ fractionDigits) value first)
    (two : ClosestLarger
      (fun integer : Int => (integer : ℚ) / 10 ^ fractionDigits) value second) :
    first = second := by
  have positive : (0 : ℚ) < 10 ^ fractionDigits := by positivity
  have same := le_antisymm (one second).1 (two first).1
  have below := (two first).2 same
  have above := (one second).2 same.symm
  have equal := le_antisymm below above
  simp only at equal
  rw [div_left_inj' positive.ne'] at equal
  exact_mod_cast equal

/-- The text is right unless the sign of a small value is lost. -/
theorem exactFixed_iff {value : Binary64} (finite : value.isFinite = true)
    {fractionDigits : Nat} (bounded : fractionDigits ≤ 100) :
    ∃ text, exactFixed value fractionDigits = .ok text ∧
      (IsFixedText value fractionDigits text ↔
        ¬ (value.toRat < 0 ∧
          |value.toRat| * 10 ^ fractionDigits < 1 / 2)) := by
  obtain ⟨number, rounds, run⟩ := exactFixed_spec finite bounded
  have nonneg : 0 ≤ |value.toRat| * 10 ^ fractionDigits := by positivity
  have zero := rounded_zero_iff nonneg rounds
  refine ⟨_, run, ?_⟩
  constructor
  · intro fixed lost
    obtain ⟨other, closest, text⟩ := fixed
    have same := closest_fixed_unique closest (closest_fixed rounds)
    have equal : other = number := by exact_mod_cast same
    have none : ¬ (value.msb = true ∧ number ≠ 0) :=
      fun present => present.2 (zero.mpr lost.2)
    rw [if_neg none, if_pos lost.1, equal] at text
    have lengths := congrArg List.length text
    rw [List.length_append, List.length_append] at lengths
    simp only [List.length_cons, List.length_nil] at lengths
    omega
  · intro kept
    refine ⟨number, closest_fixed rounds, ?_⟩
    congr 1
    by_cases negative : value.toRat < 0
    · have sign := (toRat_neg_iff value).mp negative
      have nonzero : number ≠ 0 := fun none => kept ⟨negative, zero.mp none⟩
      rw [if_pos negative, if_pos ⟨sign.1, nonzero⟩]
    · rw [if_neg negative, if_neg]
      intro present
      apply negative
      refine (toRat_neg_iff value).mpr ⟨present.1, ?_⟩
      intro empty
      apply present.2
      rw [zero, empty, abs_zero, zero_mul]
      norm_num

/-! ## Significant digits -/

/-- The digits and the exponent of the closest number with this precision,
the larger of two. -/
def IsSignificant (value : Binary64) (precision : Nat)
    (result : DecimalDigits) : Prop :=
  result.negative = value.msb ∧ result.digits.length = precision ∧
    ∃ chosen : Scientific 10 precision,
      result.digits = numberText chosen.digits ∧
        result.exponent = chosen.exponent ∧
        ClosestLarger (Scientific.value ℚ) |value.toRat| chosen

theorem length_numberText {number count : Nat} (some : 0 < count)
    (full : 10 ^ (count - 1) ≤ number) (short : number < 10 ^ count) :
    (numberText number).length = count := by
  rw [numberText, List.length_map]
  exact length_numeral (by decide) some full short

/-- A number of `count` places rounds to `count` digits or to the next power
of ten. -/
theorem rounded_places {value : ℚ} {number count : Nat} (some : 0 < count)
    (lower : (10 : ℚ) ^ (count - 1) ≤ value) (upper : value < 10 ^ count)
    (rounds : RoundedHalfUp value number) :
    10 ^ (count - 1) ≤ number ∧
      (number < 10 ^ count ∧ (numberText number).length = count ∨
        number = 10 ^ count ∧ (numberText number).length = count + 1) := by
  have full : ((10 ^ (count - 1) : Nat) : Int) ≤ number := by
    apply rounds.le_of_le
    rw [Int.cast_natCast, Nat.cast_pow]
    exact lower
  have short : (number : Int) ≤ (10 ^ count : Nat) := by
    apply rounds.le_of_lt
    rw [Int.cast_natCast, Nat.cast_pow]
    exact upper
  have full' : 10 ^ (count - 1) ≤ number := by exact_mod_cast full
  have short' : number ≤ 10 ^ count := by exact_mod_cast short
  refine ⟨full', ?_⟩
  rcases Nat.lt_or_eq_of_le short' with less | same
  · exact .inl ⟨less, length_numberText some full' less⟩
  · right
    refine ⟨same, length_numberText (Nat.succ_pos count) ?_ ?_⟩
    · rw [same]
      exact Nat.le_refl _
    · rw [same]
      exact Nat.pow_lt_pow_right (by decide) (Nat.lt_succ_self count)

/-- What the loop is about: a value in its decade. -/
structure Decade (value : Binary64) (significand : Nat)
    (exponent : Int) (precision : Nat) (decade : Int) : Prop where
  decomposed : Decomposed value significand exponent
  some : 0 < precision
  bounded : precision ≤ 101
  least : -358 ≤ decade
  greatest : decade ≤ 341
  lower : (10 : ℚ) ^ decade ≤ |value.toRat|
  upper : |value.toRat| < (10 : ℚ) ^ (decade + 1)

namespace Decade

variable {value : Binary64} {significand : Nat} {exponent : Int}
  {precision : Nat} {decade : Int}

/-- The value with its first `precision` digits before the point. -/
def shifted (value : Binary64) (precision : Nat) (decade : Int) : ℚ :=
  |value.toRat| * (10 : ℚ) ^ ((precision : Int) - 1 - decade)

theorem shifted_range
    (inside : Decade value significand exponent precision decade) :
    (10 : ℚ) ^ (precision - 1) ≤ shifted value precision decade ∧
      shifted value precision decade < 10 ^ precision := by
  have positive : (0 : ℚ) < (10 : ℚ) ^ ((precision : Int) - 1 - decade) := by
    positivity
  have some := inside.some
  have low : (10 : ℚ) ^ (precision - 1) =
      10 ^ decade * 10 ^ ((precision : Int) - 1 - decade) := by
    rw [← zpow_natCast, ← zpow_add₀ (by norm_num)]
    congr 1
    omega
  have high : (10 : ℚ) ^ precision =
      10 ^ (decade + 1) * 10 ^ ((precision : Int) - 1 - decade) := by
    rw [← zpow_natCast, ← zpow_add₀ (by norm_num)]
    congr 1
    omega
  rw [low, high, shifted]
  exact ⟨mul_le_mul_of_nonneg_right inside.lower positive.le,
    mul_lt_mul_of_pos_right inside.upper positive⟩

/-- One attempt at an exponent that is not far off. -/
theorem attempt (inside : Decade value significand exponent precision decade)
    (current : Int) (near : decade - 2 ≤ current) (above : current ≤ decade + 1)
    (attempts : Nat) :
    ∃ number : Nat,
      RoundedHalfUp (shifted value precision decade *
        (10 : ℚ) ^ (decade - current)) number ∧
      correctExponent value.msb significand exponent precision (attempts + 1)
          current =
        if (numberText number).length = precision then
          .ok ⟨value.msb, numberText number, current⟩
        else
          correctExponent value.msb significand exponent precision attempts
            (current + ((numberText number).length - precision)) := by
  have least := inside.decomposed.exponentLeast
  have greatest := inside.decomposed.exponentGreatest
  have low := inside.least
  have high := inside.greatest
  have some := inside.some
  have bounded := inside.bounded
  obtain ⟨scaled, number, computed, holds, small, rounds⟩ :=
    @scaleAndRound_spec significand exponent ((precision : Int) - 1 - current)
      ⟨inside.decomposed.significandSmall, by omega, by omega⟩
  have same : shifted value precision decade * (10 : ℚ) ^ (decade - current) =
      |value.toRat| * (10 : ℚ) ^ ((precision : Int) - 1 - current) := by
    rw [shifted, mul_assoc, ← zpow_add₀ (by norm_num)]
    congr 2
    omega
  rw [← inside.decomposed.magnitude, ← same] at rounds
  refine ⟨number, rounds, ?_⟩
  rw [correctExponent]
  simp only [computed, holds.toStringRadix small, Support.ok_bind]

/-- The result of the search, from the integer the value rounds to. -/
def Found (value : Binary64) (precision : Nat) (decade : Int)
    (result : DecimalDigits) : Prop :=
  ∃ number : Nat,
    RoundedHalfUp (shifted value precision decade) number ∧
      (number < 10 ^ precision ∧
          result = ⟨value.msb, numberText number, decade⟩ ∨
        number = 10 ^ precision ∧
          result = ⟨value.msb, numberText (10 ^ (precision - 1)),
            decade + 1⟩)

/-- The value is in the upper half below the next power of ten. -/
theorem rounds_next
    (inside : Decade value significand exponent precision decade)
    (close : (10 : ℚ) ^ precision - 1 / 2 ≤ shifted value precision decade) :
    RoundedHalfUp (shifted value precision decade)
      ((10 ^ precision : Nat) : Int) := by
  have upper := inside.shifted_range.2
  constructor
  · rw [Int.cast_natCast, Nat.cast_pow]
    exact close
  · rw [Int.cast_natCast, Nat.cast_pow]
    exact upper.trans (lt_add_of_pos_right _ one_half_pos)

theorem search_next
    (inside : Decade value significand exponent precision decade)
    (close : (10 : ℚ) ^ precision - 1 / 2 ≤ shifted value precision decade)
    (attempts : Nat) :
    ∃ result, correctExponent value.msb significand exponent precision
        (attempts + 1) (decade + 1) = .ok result ∧
      Found value precision decade result := by
  have some := inside.some
  have upper := inside.shifted_range.2
  obtain ⟨number, rounds, run⟩ := inside.attempt (decade + 1)
    (by omega) (by omega) attempts
  have power : (10 : ℚ) ^ precision = 10 * 10 ^ (precision - 1) := by
    rw [← pow_succ']
    congr 1
    omega
  have tenth : (10 : ℚ) ^ (decade - (decade + 1)) = 1 / 10 := by
    rw [sub_add_cancel_left, zpow_neg_one, one_div]
  rw [tenth] at rounds
  have chosen : RoundedHalfUp (shifted value precision decade * (1 / 10))
      ((10 ^ (precision - 1) : Nat) : Int) := by
    rw [power] at close upper
    constructor
    · rw [Int.cast_natCast, Nat.cast_pow, Nat.cast_ofNat]
      linarith
    · rw [Int.cast_natCast, Nat.cast_pow, Nat.cast_ofNat]
      linarith
  have same : number = 10 ^ (precision - 1) := by
    exact_mod_cast rounds.unique chosen
  have length := length_numberText some (Nat.le_refl (10 ^ (precision - 1)))
    (Nat.pow_lt_pow_right (by decide) (by omega))
  rw [same, if_pos length] at run
  exact ⟨_, run, _, inside.rounds_next close, .inr ⟨rfl, rfl⟩⟩

theorem search_decade
    (inside : Decade value significand exponent precision decade)
    (attempts : Nat) :
    ∃ result, correctExponent value.msb significand exponent precision
        (attempts + 2) decade = .ok result ∧
      Found value precision decade result := by
  have range := inside.shifted_range
  obtain ⟨number, rounds, run⟩ := inside.attempt decade
    (by omega) (by omega) (attempts + 1)
  rw [sub_self, zpow_zero, mul_one] at rounds
  obtain ⟨_, ⟨short, length⟩ | ⟨full, length⟩⟩ :=
    rounded_places inside.some range.1 range.2 rounds
  · rw [if_pos length] at run
    exact ⟨_, run, number, rounds, .inl ⟨short, rfl⟩⟩
  · have lower := rounds.lower
    rw [full, Int.cast_natCast, Nat.cast_pow, Nat.cast_ofNat] at lower
    rw [length, if_neg (by omega)] at run
    have next : decade + (((precision + 1 : Nat) : Int) - precision) =
        decade + 1 := by omega
    rw [run, next]
    exact inside.search_next lower attempts

/-- Below the decade, the count of digits tells how far. -/
theorem search_below
    (inside : Decade value significand exponent precision decade)
    {distance : Nat} (far : 0 < distance) (near : distance ≤ 2)
    (attempts : Nat) :
    ∃ result, correctExponent value.msb significand exponent precision
        (attempts + 3) (decade - distance) = .ok result ∧
      Found value precision decade result := by
  have some := inside.some
  have range := inside.shifted_range
  obtain ⟨number, rounds, run⟩ := inside.attempt
    (decade - distance) (by omega) (by omega) (attempts + 2)
  rw [sub_sub_cancel, zpow_natCast] at rounds
  have positive : (0 : ℚ) < 10 ^ distance := by positivity
  have lower : (10 : ℚ) ^ (precision + distance - 1) ≤
      shifted value precision decade * 10 ^ distance := by
    have exponents : precision + distance - 1 = precision - 1 + distance := by
      omega
    rw [exponents, pow_add]
    exact mul_le_mul_of_nonneg_right range.1 positive.le
  have upper : shifted value precision decade * 10 ^ distance <
      (10 : ℚ) ^ (precision + distance) := by
    rw [pow_add]
    exact mul_lt_mul_of_pos_right range.2 positive
  obtain ⟨_, ⟨short, length⟩ | ⟨full, length⟩⟩ :=
    rounded_places (by omega) lower upper rounds
  · rw [length, if_neg (by omega)] at run
    have next : decade - (distance : Int) +
        (((precision + distance : Nat) : Int) - precision) = decade := by
      omega
    rw [run, next]
    exact inside.search_decade attempts
  · rw [length, if_neg (by omega)] at run
    have next : decade - (distance : Int) +
        (((precision + distance + 1 : Nat) : Int) - precision) =
          decade + 1 := by
      omega
    rw [run, next]
    apply inside.search_next _ (attempts + 1)
    have close := rounds.lower
    rw [full, Int.cast_natCast, Nat.cast_pow, Nat.cast_ofNat, pow_add] at close
    have wide : (1 : ℚ) ≤ 10 ^ distance := one_le_pow₀ (by norm_num)
    have scaled : ((10 : ℚ) ^ precision - 1 / 2) * 10 ^ distance ≤
        shifted value precision decade * 10 ^ distance := by
      linarith
    exact le_of_mul_le_mul_right scaled positive

theorem search (inside : Decade value significand exponent precision decade)
    {start : Int} (lower : decade - 2 ≤ start) (upper : start ≤ decade) :
    ∃ result, correctExponent value.msb significand exponent precision 4
        start = .ok result ∧ Found value precision decade result := by
  by_cases same : start = decade
  · rw [same]
    exact inside.search_decade 2
  · have distance : start = decade - ((decade - start).toNat : Int) := by
      omega
    rw [distance]
    exact inside.search_below (by omega) (by omega) 1

/-- What the search finds is the closest number of this precision. -/
theorem found_significant
    (inside : Decade value significand exponent precision decade)
    {result : DecimalDigits} (found : Found value precision decade result) :
    IsSignificant value precision result := by
  have some := inside.some
  obtain ⟨number, rounds, cases⟩ := found
  have half : RoundedHalfUp (|value.toRat| /
      ((10 : Nat) : ℚ) ^ (decade - precision + 1)) number := by
    have opposite : (precision : Int) - 1 - decade =
        -(decade - precision + 1) := by omega
    rw [shifted, opposite, zpow_neg, ← div_eq_mul_inv] at rounds
    rwa [Nat.cast_ofNat]
  have low : ((10 : Nat) : ℚ) ^ decade ≤ |value.toRat| := by
    rw [Nat.cast_ofNat]
    exact inside.lower
  have full := (rounded_places some inside.shifted_range.1
    inside.shifted_range.2 rounds).1
  rcases cases with ⟨short, rfl⟩ | ⟨next, rfl⟩
  · refine ⟨rfl, length_numberText some full short,
      ⟨number, decade, full, short⟩, rfl, rfl, ?_⟩
    apply Scientific.closest (by decide) some low half
    rw [Scientific.value, Int.cast_natCast]
  · have less : 10 ^ (precision - 1) < 10 ^ precision :=
      Nat.pow_lt_pow_right (by decide) (by omega)
    refine ⟨rfl, length_numberText some (Nat.le_refl _) less,
      ⟨10 ^ (precision - 1), decade + 1, Nat.le_refl _, less⟩, rfl, rfl, ?_⟩
    apply Scientific.closest (by decide) some low half
    have ten : ((10 : Nat) : ℚ) ≠ 0 := by norm_num
    rw [Scientific.value, next, Int.cast_natCast, Nat.cast_pow, Nat.cast_pow,
      ← zpow_natCast, ← zpow_natCast, ← zpow_add₀ ten, ← zpow_add₀ ten]
    have exponents : ((precision - 1 : Nat) : Int) +
        (decade + 1 - precision + 1) =
          (precision : Int) + (decade - precision + 1) := by omega
    exact congrArg (fun power : Int => ((10 : Nat) : ℚ) ^ power) exponents

end Decade

/-- Every finite value but zero lies in a decade of moderate exponent. -/
theorem decade_of_decomposed {value : Binary64} {significand : Nat}
    {exponent : Int} {precision : Nat}
    (decomposed : Decomposed value significand exponent)
    (nonzero : value.toRat ≠ 0) (some : 0 < precision)
    (bounded : precision ≤ 101) :
    Decade value significand exponent precision
      (Int.log 10 |value.toRat|) := by
  have positive : 0 < |value.toRat| := abs_pos.mpr nonzero
  have lower : (10 : ℚ) ^ Int.log 10 |value.toRat| ≤ |value.toRat| :=
    Int.zpow_log_le_self (by decide) positive
  have upper : |value.toRat| < (10 : ℚ) ^ (Int.log 10 |value.toRat| + 1) :=
    Int.lt_zpow_succ_log_self (by decide) |value.toRat|
  have least := decomposed.exponentLeast
  have greatest := decomposed.exponentGreatest
  have filled : 1 ≤ significand := by
    have zero := decomposed.significand_eq_zero_iff
    have apart : significand ≠ 0 := fun none => nonzero (zero.mp none)
    omega
  refine ⟨decomposed, some, bounded, ?_, ?_, lower, upper⟩
  · have power : (2 : ℚ) ^ (-1074 : Int) ≤ |value.toRat| := by
      rw [decomposed.magnitude]
      calc (2 : ℚ) ^ (-1074 : Int) ≤ 2 ^ exponent :=
            zpow_le_zpow_right₀ one_le_two least
        _ = 1 * 2 ^ exponent := (one_mul _).symm
        _ ≤ significand * 2 ^ exponent := by
            apply mul_le_mul_of_nonneg_right _ (by positivity)
            exact_mod_cast filled
    have small : (10 : ℚ) ^ (-358 : Int) ≤ 2 ^ (-1074 : Int) := by
      have eight : (2 : ℚ) ^ (-1074 : Int) = (2 ^ 3) ^ (-358 : Int) := by
        rw [← zpow_natCast, ← zpow_mul]
        rfl
      rw [eight, zpow_neg, zpow_neg]
      apply inv_anti₀
      · positivity
      · apply zpow_le_zpow_left₀
        · decide
        · norm_num
        · norm_num
    have order : (-358 : Int) < Int.log 10 |value.toRat| + 1 := by
      apply (zpow_lt_zpow_iff_right₀ (by norm_num : (1 : ℚ) < 10)).mp
      exact lt_of_le_of_lt (small.trans power) upper
    omega
  · have power : |value.toRat| < (2 : ℚ) ^ (1024 : Int) := by
      rw [decomposed.magnitude]
      calc (significand : ℚ) * 2 ^ exponent < 2 ^ (53 : Int) * 2 ^ exponent := by
            apply mul_lt_mul_of_pos_right _ (by positivity)
            have small := decomposed.significandSmall
            rw [show ((53 : Int)) = ((53 : Nat) : Int) from rfl, zpow_natCast]
            exact_mod_cast small
        _ = 2 ^ (53 + exponent) := (zpow_add₀ two_ne_zero _ _).symm
        _ ≤ 2 ^ (1024 : Int) :=
            zpow_le_zpow_right₀ one_le_two (by omega)
    have large : (2 : ℚ) ^ (1024 : Int) ≤ 10 ^ (342 : Int) := by
      calc (2 : ℚ) ^ (1024 : Int) ≤ 2 ^ (3 * 342 : Int) :=
            zpow_le_zpow_right₀ one_le_two (by norm_num)
        _ = (2 ^ (3 : Int)) ^ (342 : Int) := zpow_mul _ _ _
        _ ≤ 10 ^ (342 : Int) := by
            apply zpow_le_zpow_left₀
            · decide
            · positivity
            · norm_num
    have order : Int.log 10 |value.toRat| < 342 := by
      apply (zpow_lt_zpow_iff_right₀ (by norm_num : (1 : ℚ) < 10)).mp
      exact lt_of_le_of_lt lower (lt_of_lt_of_le power large)
    omega

theorem exactSignificant_spec {value : Binary64}
    (finite : value.isFinite = true) (nonzero : value.toRat ≠ 0)
    {precision : Nat} (some : 0 < precision) (bounded : precision ≤ 101)
    {estimate : Nat → Int → Int}
    (close : ∀ significand exponent,
      decompose value = (value.msb, significand, exponent) →
        |estimate significand exponent - Int.log 10 (|value.toRat|)| ≤ 1) :
    ∃ result, exactSignificant estimate value precision = .ok result ∧
      IsSignificant value precision result := by
  obtain ⟨significand, exponent, parts, decomposed⟩ := decompose_spec finite
  have inside := decade_of_decomposed decomposed nonzero some bounded
  have estimated := abs_le.mp (close significand exponent parts)
  have filled : ¬ significand = 0 := by
    rw [decomposed.significand_eq_zero_iff]
    exact nonzero
  obtain ⟨result, run, found⟩ := @Decade.search _ _ _ _ _ inside
    (estimate significand exponent - 1) (by omega) (by omega)
  refine ⟨result, ?_, inside.found_significant found⟩
  unfold exactSignificant
  simp only [parts, if_neg filled]
  exact run

/-- Fixed rendering is right unless the sign of a small value is lost, and
significant digits are right for every estimate that is off by at most one. -/
theorem exactDecimal_correct_iff (value : Binary64)
    (finite : value.isFinite = true) :
    (∀ fractionDigits, fractionDigits ≤ 100 →
      ∃ text, exactFixed value fractionDigits = .ok text ∧
        (IsFixedText value fractionDigits text ↔
          ¬ (value.toRat < 0 ∧
            |value.toRat| * 10 ^ fractionDigits < 1 / 2))) ∧
    ∀ (estimateDecimalExponent : Nat → Int → Int) (precision : Nat),
      1 ≤ precision → precision ≤ 101 → value.toRat ≠ 0 →
      (∀ significand exponent,
        decompose value = (value.msb, significand, exponent) →
          |estimateDecimalExponent significand exponent -
            Int.log 10 (|value.toRat|)| ≤ 1) →
      ∃ result,
        exactSignificant estimateDecimalExponent value precision =
          .ok result ∧ IsSignificant value precision result := by
  constructor
  · intro fractionDigits bounded
    exact exactFixed_iff finite bounded
  · intro estimate precision some bounded nonzero close
    exact exactSignificant_spec finite nonzero some bounded close

/-- The bits of 1.5. -/
theorem exactDecimal_correct_sample :
    (∃ text, exactFixed 0x3ff8000000000000#64 0 = .ok text ∧
      IsFixedText 0x3ff8000000000000#64 0 text) ∧
    ∃ result,
      exactSignificant (fun _ _ => 0) 0x3ff8000000000000#64 2 = .ok result ∧
        IsSignificant 0x3ff8000000000000#64 2 result := by
  have finite : Binary64.isFinite 0x3ff8000000000000#64 = true := by decide
  obtain ⟨significand, exponent, parts, decomposed⟩ := decompose_spec finite
  have computed : decompose 0x3ff8000000000000#64 =
      (false, 6755399441055744, -52) := by decide
  have magnitude : |Binary64.toRat 0x3ff8000000000000#64| = 3 / 2 := by
    rw [computed] at parts
    injection parts with _ rest
    injection rest with same power
    rw [decomposed.magnitude, ← same, ← power]
    norm_num
  have log : Int.log 10 (3 / 2 : ℚ) = 0 := by
    have floor : ⌊(3 / 2 : ℚ)⌋₊ = 1 := by
      rw [Nat.floor_eq_iff (by norm_num)]
      norm_num
    rw [Int.log_of_one_le_right 10 (by norm_num), floor]
    rfl
  obtain ⟨fixed, significant⟩ :=
    exactDecimal_correct_iff 0x3ff8000000000000#64 finite
  constructor
  · obtain ⟨text, run, correct⟩ := fixed 0 (by decide)
    refine ⟨text, run, correct.mpr ?_⟩
    rw [magnitude]
    norm_num
  · apply significant (fun _ _ => 0) 2 (by decide) (by decide)
    · intro zero
      rw [zero] at magnitude
      norm_num at magnitude
    · intro significand exponent _
      rw [magnitude, log]
      decide

/-- The bits of -0.25, rendered without fraction digits. -/
theorem exactFixed_loses_sign :
    ∃ text, exactFixed 0xbfd0000000000000#64 0 = .ok text ∧
      text = ['0'] ∧ ¬ IsFixedText 0xbfd0000000000000#64 0 text := by
  refine ⟨['0'], by decide +kernel, rfl, ?_⟩
  have finite : Binary64.isFinite 0xbfd0000000000000#64 = true := by decide
  obtain ⟨significand, exponent, parts, decomposed⟩ := decompose_spec finite
  have computed : decompose 0xbfd0000000000000#64 =
      (true, 4503599627370496, -54) := by decide
  have magnitude : |Binary64.toRat 0xbfd0000000000000#64| = 1 / 4 := by
    rw [computed] at parts
    injection parts with _ rest
    injection rest with same power
    rw [decomposed.magnitude, ← same, ← power]
    norm_num
  have negative : Binary64.toRat 0xbfd0000000000000#64 < 0 := by
    apply (toRat_neg_iff _).mpr
    refine ⟨by decide, ?_⟩
    intro zero
    rw [zero] at magnitude
    norm_num at magnitude
  intro fixed
  obtain ⟨number, _, text⟩ := fixed
  rw [if_pos negative] at text
  cases text

end Fusor.Runtime.Decimal
