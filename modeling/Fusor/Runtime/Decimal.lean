import Fusor.Arith.HalfUp
import Fusor.Runtime.BigIntDivision
import Fusor.Runtime.BigIntFloat
import Fusor.Runtime.BigIntText

/-!
# Exact decimal rendering of numbers

A finite number is scaled by powers of ten and of two in exact integers and
rounded once.  The estimate of the decimal exponent is a floating-point
computation and stays a parameter.  Texts are lists of characters, and
reserving memory is taken to succeed.
-/

namespace Fusor.Runtime

open Arith

structure DecimalDigits where
  negative : Bool
  digits : List Char
  exponent : Int
  deriving DecidableEq

namespace Decimal

def decompose (value : Binary64) : Bool × Nat × Int :=
  let fraction := value.toNat % 2 ^ 52
  if value.biasedExponent = 0 then
    (value.msb, fraction, -1074)
  else
    (value.msb, fraction ||| 2 ^ 52, value.biasedExponent - 1075)

def scaleAndRound (significand : Nat) (exponent scale : Int) :
    Except BigIntError JsBigInt := do
  let numerator := JsBigInt.fromU64 significand
  let denominator := JsBigInt.fromI32 1
  let power ← (JsBigInt.fromI32 10).pow (JsBigInt.fromU64 scale.natAbs)
  let numerator ←
    (if scale ≥ 0 then numerator.mul power else .ok numerator)
  let denominator ←
    (if scale ≥ 0 then .ok denominator else denominator.mul power)
  let numerator ←
    (if exponent ≥ 0 then numerator.shl exponent.natAbs else .ok numerator)
  let denominator ←
    (if exponent ≥ 0 then .ok denominator
      else denominator.shl exponent.natAbs)
  let (quotient, remainder) ← numerator.divRem denominator
  let doubled ← remainder.shl 1
  if doubled.cmp denominator ≠ .lt then
    quotient.add (JsBigInt.fromI32 1)
  else
    .ok quotient

def exactFixed (value : Binary64) (fractionDigits : Nat) :
    Except BigIntError (List Char) := do
  let (negative, significand, exponent) := decompose value
  let scaled ← scaleAndRound significand exponent fractionDigits
  let digits ← scaled.toStringRadix 10
  let digits :=
    if digits.length ≤ fractionDigits then
      List.replicate (fractionDigits + 1 - digits.length) '0' ++ digits
    else
      digits
  let sign :=
    if negative && scaled.isZero then []
    else if negative then ['-']
    else []
  let split := digits.length - fractionDigits
  let fraction :=
    if fractionDigits > 0 then '.' :: digits.drop split else []
  .ok (sign ++ digits.take split ++ fraction)

/-- The loop that corrects the exponent, with the attempts left. -/
def correctExponent (negative : Bool) (significand : Nat) (exponent : Int)
    (precision : Nat) : Nat → Int → Except BigIntError DecimalDigits
  | 0, _ => .error .resultTooLarge
  | attempts + 1, decimalExponent => do
      let scale : Int := precision - 1 - decimalExponent
      let scaled ← scaleAndRound significand exponent scale
      let digits ← scaled.toStringRadix 10
      if digits.length = precision then
        .ok ⟨negative, digits, decimalExponent⟩
      else
        correctExponent negative significand exponent precision attempts
          (decimalExponent + (digits.length - precision))

def exactSignificant (estimateDecimalExponent : Nat → Int → Int)
    (value : Binary64) (precision : Nat) : Except BigIntError DecimalDigits :=
  let (negative, significand, exponent) := decompose value
  if significand = 0 then
    .ok ⟨negative, List.replicate precision '0', 0⟩
  else
    correctExponent negative significand exponent precision 4
      (estimateDecimalExponent significand exponent - 1)

end Decimal

/-- The number that the bits of a finite value stand for. -/
def Binary64.toRat (value : Binary64) : ℚ :=
  value.exactUnits / 2 ^ 1074

namespace Decimal

/-! ## Decomposition -/

theorem magnitude_units (value : Binary64) :
    |value.toRat| = units value.magnitudeBits / 2 ^ 1074 := by
  have scale : (0 : ℚ) < 2 ^ 1074 := by positivity
  have numerator : |(value.exactUnits : ℚ)| = units value.magnitudeBits := by
    unfold Binary64.exactUnits
    split
    · rw [Int.cast_neg, abs_neg, Int.cast_natCast, Nat.abs_cast]
    · rw [Int.cast_natCast, Nat.abs_cast]
  rw [Binary64.toRat, abs_div, abs_of_pos scale, numerator]

/-- The significand and the exponent of a value denote its magnitude. -/
structure Decomposed (value : Binary64) (significand : Nat)
    (exponent : Int) : Prop where
  magnitude : |value.toRat| = significand * (2 : ℚ) ^ exponent
  significandSmall : significand < 2 ^ 53
  exponentLeast : -1074 ≤ exponent
  exponentGreatest : exponent ≤ 971

theorem decompose_spec {value : Binary64} (finite : value.isFinite = true) :
    ∃ significand exponent,
      decompose value = (value.msb, significand, exponent) ∧
        Decomposed value significand exponent := by
  have fraction := Nat.mod_lt value.toNat (show 0 < 2 ^ 52 by decide)
  have field : value.biasedExponent ≠ 2047 := by
    simpa [Binary64.isFinite] using finite
  have small : value.biasedExponent < 2 ^ 11 := Nat.mod_lt _ (by decide)
  by_cases subnormal : value.biasedExponent = 0
  · refine ⟨value.toNat % 2 ^ 52, -1074, if_pos subnormal, ?_, by omega,
      le_rfl, by decide⟩
    have below : value.magnitudeBits = value.toNat % 2 ^ 52 := by
      rw [JsBigInt.magnitudeBits_eq, subnormal, Nat.zero_mul, Nat.zero_add]
    have plain : units value.magnitudeBits = value.toNat % 2 ^ 52 := by
      rw [below, units, if_pos (Nat.div_eq_of_lt fraction),
        Nat.mod_eq_of_lt fraction]
    have least : (-1074 : Int) = -((1074 : Nat) : Int) := by omega
    rw [magnitude_units, plain, div_eq_mul_inv, least, zpow_neg, zpow_natCast]
  · refine ⟨value.toNat % 2 ^ 52 ||| 2 ^ 52, value.biasedExponent - 1075,
      if_neg subnormal, ?_, ?_, by omega, by omega⟩
    · have bits := JsBigInt.units_magnitudeBits subnormal
      rw [JsBigInt.or_two_pow, magnitude_units, bits]
      have shifted : (value.biasedExponent : Int) - 1075 =
          ((value.biasedExponent - 1 : Nat) : Int) - (1074 : Nat) := by omega
      rw [shifted, zpow_sub₀ two_ne_zero, zpow_natCast, zpow_natCast,
        Nat.cast_mul, Nat.cast_pow, Nat.cast_ofNat, mul_div_assoc]
    · rw [JsBigInt.or_two_pow]
      omega

theorem Decomposed.significand_eq_zero_iff {value : Binary64}
    {significand : Nat} {exponent : Int}
    (decomposed : Decomposed value significand exponent) :
    significand = 0 ↔ value.toRat = 0 := by
  have power : (2 : ℚ) ^ exponent ≠ 0 := zpow_ne_zero _ two_ne_zero
  rw [← abs_eq_zero, decomposed.magnitude, mul_eq_zero]
  simp only [power, or_false, Nat.cast_eq_zero]

theorem toRat_neg_iff (value : Binary64) :
    value.toRat < 0 ↔ value.msb = true ∧ value.toRat ≠ 0 := by
  have scale : (0 : ℚ) < 2 ^ 1074 := by positivity
  have nonneg : (0 : ℚ) ≤ units value.magnitudeBits := Nat.cast_nonneg _
  unfold Binary64.toRat Binary64.exactUnits
  cases value.msb with
  | true =>
      simp only [if_true, true_and, Int.cast_neg, Int.cast_natCast, neg_div,
        neg_lt_zero, ne_eq, neg_eq_zero]
      constructor
      · intro positive
        exact positive.ne'
      · intro nonzero
        exact lt_of_le_of_ne (div_nonneg nonneg scale.le) (Ne.symm nonzero)
  | false =>
      simp only [Bool.false_eq_true, if_false, false_and, iff_false,
        Int.cast_natCast, not_lt]
      exact div_nonneg nonneg scale.le

end Decimal

end Fusor.Runtime
