import Mathlib.Data.Int.Log
import Mathlib.Tactic
import Fusor.Arith.Numerals

/-!
# Rounding halves upwards

A number is rounded to the nearest integer, and upwards from the middle.  The
same choice is made among the multiples of a unit, and among the numbers with
a fixed count of digits in some base: the number lies in one decade, where
those numbers are the multiples of one unit.
-/

namespace Fusor.Arith

variable {K : Type*} [Field K] [LinearOrder K] [IsStrictOrderedRing K]

/-- The value is as close to the target as any, and the largest such value. -/
def ClosestLarger {ι : Type*} (value : ι → K) (target : K) (chosen : ι) :
    Prop :=
  ∀ other, |value chosen - target| ≤ |value other - target| ∧
    (|value other - target| = |value chosen - target| →
      value other ≤ value chosen)

structure RoundedHalfUp (number : K) (rounded : Int) : Prop where
  lower : (rounded : K) - 1 / 2 ≤ number
  upper : number < rounded + 1 / 2

namespace RoundedHalfUp

variable {number : K} {rounded : Int}

theorem le_of_lt {bound : Int} (half : RoundedHalfUp number rounded)
    (below : number < bound) : rounded ≤ bound := by
  by_contra above
  have step : (bound : K) + 1 ≤ rounded := by
    exact_mod_cast Int.not_le.mp above
  have lower := half.lower
  linarith

theorem le_of_le {bound : Int} (half : RoundedHalfUp number rounded)
    (above : (bound : K) ≤ number) : bound ≤ rounded := by
  by_contra below
  have step : (rounded : K) + 1 ≤ bound := by
    exact_mod_cast Int.not_le.mp below
  have upper := half.upper
  linarith

theorem unique {other : Int} (half : RoundedHalfUp number rounded)
    (second : RoundedHalfUp number other) : rounded = other := by
  have first := half.lower
  have last := half.upper
  have lower := second.lower
  have upper := second.upper
  have below : (rounded : K) < other + 1 := by linarith
  have above : (other : K) < rounded + 1 := by linarith
  have below' : rounded < other + 1 := by exact_mod_cast below
  have above' : other < rounded + 1 := by exact_mod_cast above
  omega

theorem closest (half : RoundedHalfUp number rounded) :
    ClosestLarger (fun integer : Int => (integer : K)) number rounded := by
  intro other
  have lower := half.lower
  have upper := half.upper
  rcases Int.lt_trichotomy other rounded with below | same | above
  · have step : (other : K) + 1 ≤ rounded := by exact_mod_cast below
    have far : |(other : K) - number| = number - other := by
      rw [abs_sub_comm]
      apply abs_of_nonneg
      linarith
    constructor
    · rw [far, abs_le]
      constructor <;> linarith
    · intro _
      linarith
  · rw [same]
    exact ⟨le_rfl, fun _ => le_rfl⟩
  · have step : (rounded : K) + 1 ≤ other := by exact_mod_cast above
    have far : |(other : K) - number| = other - number := by
      apply abs_of_nonneg
      linarith
    have nearer : |(rounded : K) - number| < other - number := by
      rw [abs_lt]
      constructor <;> linarith
    constructor
    · rw [far]
      exact nearer.le
    · intro tie
      rw [far] at tie
      exact absurd tie.symm (ne_of_lt nearer)

/-- The choice among the multiples of a unit. -/
theorem closest_multiple {target unit : K} (positive : 0 < unit)
    (half : RoundedHalfUp (target / unit) rounded) :
    ClosestLarger (fun integer : Int => (integer : K) * unit) target
      rounded := by
  have scaled : ∀ integer : Int, |(integer : K) * unit - target| =
      |(integer : K) - target / unit| * unit := by
    intro integer
    have product : (integer : K) * unit - target =
        ((integer : K) - target / unit) * unit := by
      rw [sub_mul, div_mul_cancel₀ target positive.ne']
    rw [product, abs_mul, abs_of_pos positive]
  intro other
  obtain ⟨nearest, larger⟩ := half.closest other
  simp only [scaled]
  constructor
  · exact mul_le_mul_of_nonneg_right nearest positive.le
  · intro tie
    have same := mul_right_cancel₀ positive.ne' tie
    exact mul_le_mul_of_nonneg_right (larger same) positive.le

end RoundedHalfUp

/-- Doubling the remainder of a division tells how its quotient rounds. -/
theorem roundedHalfUp_div {dividend divisor : Nat} (positive : 0 < divisor) :
    RoundedHalfUp ((dividend : K) / divisor)
      ((dividend / divisor +
        if dividend % divisor * 2 < divisor then 0 else 1 : Nat) : Int) := by
  have divided := Nat.div_add_mod dividend divisor
  have small := Nat.mod_lt dividend positive
  have wide : (0 : K) < divisor := Nat.cast_pos.mpr positive
  have value : (dividend : K) / divisor =
      (dividend / divisor : Nat) + (dividend % divisor : Nat) / divisor := by
    have cast : (dividend : K) = divisor * (dividend / divisor : Nat) +
        (dividend % divisor : Nat) := by exact_mod_cast divided.symm
    rw [eq_comm, ← sub_eq_zero]
    field_simp
    linarith
  rw [value]
  by_cases below : dividend % divisor * 2 < divisor
  · rw [if_pos below, Nat.add_zero]
    have small : ((dividend % divisor : Nat) : K) / divisor < 1 / 2 := by
      rw [div_lt_div_iff₀ wide two_pos, one_mul]
      exact_mod_cast below
    have nonneg : 0 ≤ ((dividend % divisor : Nat) : K) / divisor :=
      div_nonneg (Nat.cast_nonneg _) wide.le
    constructor
    · rw [Int.cast_natCast]
      linarith
    · rw [Int.cast_natCast]
      linarith
  · rw [if_neg below]
    have large : 1 / 2 ≤ ((dividend % divisor : Nat) : K) / divisor := by
      rw [div_le_div_iff₀ two_pos wide, one_mul]
      exact_mod_cast Nat.le_of_not_lt below
    have less : ((dividend % divisor : Nat) : K) / divisor < 1 := by
      rw [div_lt_one wide]
      exact_mod_cast small
    constructor
    · rw [Int.cast_natCast, Nat.cast_succ]
      linarith
    · rw [Int.cast_natCast, Nat.cast_succ]
      linarith

/-! ## Numbers with a fixed count of digits -/

section Digits

variable {base precision : Nat}

/-- A number of `precision` digits, with the exponent of its first digit. -/
structure Scientific (base precision : Nat) where
  digits : Nat
  exponent : Int
  full : base ^ (precision - 1) ≤ digits
  short : digits < base ^ precision

def Scientific.value (K : Type*) [Field K]
    (number : Scientific base precision) : K :=
  number.digits * (base : K) ^ (number.exponent - precision + 1)

/-- In the decade of the target, rounding to the unit of its last digit is the
best choice among all numbers with this count of digits. -/
theorem Scientific.closest (proper : 1 < base) (some : 0 < precision)
    {target : K} {exponent : Int} (lower : (base : K) ^ exponent ≤ target)
    {rounded : Int}
    (half : RoundedHalfUp
      (target / (base : K) ^ (exponent - precision + 1)) rounded)
    {chosen : Scientific base precision}
    (same : chosen.value K =
      rounded * (base : K) ^ (exponent - precision + 1)) :
    ClosestLarger (Scientific.value K) target chosen := by
  have positive : (0 : K) < base := by
    exact_mod_cast Nat.lt_trans Nat.zero_lt_one proper
  have unit : (0 : K) < (base : K) ^ (exponent - precision + 1) :=
    zpow_pos positive _
  have multiples := half.closest_multiple unit
  intro other
  rw [same]
  by_cases below : other.exponent < exponent
  · -- such a number is below the first number of the decade
    have start : (base : K) ^ exponent =
        ((base ^ (precision - 1) : Nat) : Int) *
          (base : K) ^ (exponent - precision + 1) := by
      rw [Int.cast_natCast, Nat.cast_pow, ← zpow_natCast,
        ← zpow_add₀ positive.ne']
      congr 1
      omega
    have beneath : other.value K < (base : K) ^ exponent := by
      have digits : (other.digits : K) < (base : K) ^ (precision : Int) := by
        rw [zpow_natCast]
        exact_mod_cast other.short
      calc other.value K
          < (base : K) ^ (precision : Int) *
              (base : K) ^ (other.exponent - precision + 1) :=
            mul_lt_mul_of_pos_right digits (zpow_pos positive _)
        _ = (base : K) ^ (other.exponent + 1) := by
            rw [← zpow_add₀ positive.ne']
            congr 1
            omega
        _ ≤ (base : K) ^ exponent := by
            apply zpow_le_zpow_right₀
            · exact_mod_cast proper.le
            · exact below
    have nearest := (multiples ((base ^ (precision - 1) : Nat) : Int)).1
    simp only [← start] at nearest
    have first : |(base : K) ^ exponent - target| =
        target - (base : K) ^ exponent := by
      rw [abs_sub_comm]
      exact abs_of_nonneg (sub_nonneg.mpr lower)
    have far : |other.value K - target| = target - other.value K := by
      rw [abs_sub_comm]
      apply abs_of_nonneg
      linarith
    rw [first] at nearest
    constructor
    · rw [far]
      linarith
    · intro tie
      rw [far] at tie
      linarith
  · -- all other numbers are multiples of the unit
    have multiple : other.value K =
        ((other.digits * base ^ (other.exponent - exponent).toNat : Nat) :
            Int) * (base : K) ^ (exponent - precision + 1) := by
      rw [Int.cast_natCast, Nat.cast_mul, Nat.cast_pow, ← zpow_natCast,
        mul_assoc, ← zpow_add₀ positive.ne', Scientific.value]
      congr 2
      omega
    rw [multiple]
    exact multiples _

end Digits

end Fusor.Arith
