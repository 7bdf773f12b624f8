import Fusor.Runtime.Decimal

/-!
# Scaling by powers of ten

All intermediate integers stay far below the limit of the big integers, so no
step fails, and the result is the exact quotient with halves rounded upwards.
-/

namespace Fusor.Runtime.Decimal

open Arith

/-- A natural number of at most 4000 bits, in the form the operations take. -/
structure Holds (integer : JsBigInt) (number : Nat) : Prop where
  value : integer.val = number
  small : integer.limbs.length ≤ maxLimbs

theorem inside {number : Nat} (small : number < 2 ^ 4000) :
    ¬ JsBigInt.Oversized number ∧ (number : Int) ≠ JsBigInt.minimum := by
  have negative := JsBigInt.minimum_neg
  have exponent : 4000 ≤ 32 * maxLimbs - 1 := by decide
  have power : (2 : Int) ^ 4000 ≤ -JsBigInt.minimum := by
    rw [JsBigInt.minimum, neg_neg]
    exact pow_le_pow_right₀ one_le_two exponent
  have bound : (number : Int) < 2 ^ 4000 := by exact_mod_cast small
  rw [JsBigInt.not_oversized_iff]
  generalize (2 : Int) ^ 4000 = limit at power bound
  omega

theorem ten_pow_lt {count : Nat} (bounded : count ≤ 600) :
    10 ^ count < 2 ^ 2401 := by
  calc 10 ^ count ≤ (2 ^ 4) ^ count :=
        Nat.pow_le_pow_left (by decide) count
    _ = 2 ^ (4 * count) := (Nat.pow_mul 2 4 count).symm
    _ < 2 ^ 2401 := Nat.pow_lt_pow_right (by decide) (by omega)

/-- Any integer with this value has the one normalized form. -/
theorem holds_of_val {integer : JsBigInt} {number : Nat}
    (value : integer.val = number) (small : number < 2 ^ 4000) :
    Holds integer number := by
  obtain ⟨other, same, short⟩ :=
    (JsBigInt.represented_iff number).mpr (inside small).1
  have limbs := (JsBigInt.limbs_eq_iff integer other).mpr
    (value.trans same.symm)
  refine ⟨value, ?_⟩
  rw [limbs]
  exact short

theorem holds_fromU64 {number : Nat} (small : number < 2 ^ 64) :
    Holds (JsBigInt.fromU64 number) number := by
  apply holds_of_val (JsBigInt.val_fromU64 small)
  exact Nat.lt_trans small (Nat.pow_lt_pow_right (by decide) (by decide))

theorem holds_fromI32 {number : Nat} (small : number < 2 ^ 31) :
    Holds (JsBigInt.fromI32 number) number :=
  ⟨JsBigInt.val_fromI32 small, JsBigInt.length_fromI32 number⟩

theorem holds_of_exact {result : Except BigIntError JsBigInt} {number : Nat}
    (exact : JsBigInt.Exact result number) (small : number < 2 ^ 4000) :
    ∃ integer, result = .ok integer ∧ Holds integer number := by
  obtain ⟨integer, same, value, short⟩ := exact.succeeds (inside small).1
  exact ⟨integer, same, value, short⟩

section Operations

variable {left right : JsBigInt} {first second : Nat}

theorem Holds.mul (leftHolds : Holds left first)
    (rightHolds : Holds right second) (small : first * second < 2 ^ 4000) :
    ∃ integer, left.mul right = .ok integer ∧
      Holds integer (first * second) := by
  have value : left.val * right.val = (first * second : Nat) := by
    rw [leftHolds.value, rightHolds.value, Nat.cast_mul]
  apply holds_of_exact _ small
  rw [← value]
  apply JsBigInt.mul_exact leftHolds.small rightHolds.small
  rw [value]
  exact (inside small).2

theorem Holds.shl (leftHolds : Holds left first) {count : Nat}
    (small : first * 2 ^ count < 2 ^ 4000) :
    ∃ integer, left.shl count = .ok integer ∧
      Holds integer (first * 2 ^ count) := by
  have value : left.val * 2 ^ count = (first * 2 ^ count : Nat) := by
    rw [leftHolds.value, Nat.cast_mul, Nat.cast_pow, Nat.cast_ofNat]
  apply holds_of_exact _ small
  rw [← value]
  exact left.shl_exact count

theorem Holds.add (leftHolds : Holds left first)
    (rightHolds : Holds right second) (small : first + second < 2 ^ 4000) :
    ∃ integer, left.add right = .ok integer ∧
      Holds integer (first + second) := by
  have value : left.val + right.val = (first + second : Nat) := by
    rw [leftHolds.value, rightHolds.value, Nat.cast_add]
  apply holds_of_exact _ small
  rw [← value]
  exact left.addWithSign_exact right false

theorem Holds.divRem (leftHolds : Holds left first)
    (rightHolds : Holds right second) (positive : 0 < second)
    (leftSmall : first < 2 ^ 4000) (rightSmall : second < 2 ^ 4000) :
    ∃ quotient remainder, left.divRem right = .ok (quotient, remainder) ∧
      Holds quotient (first / second) ∧ Holds remainder (first % second) := by
  have nonzero : right.val ≠ 0 := by
    rw [rightHolds.value]
    exact_mod_cast positive.ne'
  have divided : ∃ parts, left.divRem right = .ok parts := by
    by_cases zero : left.val = 0
    · rw [JsBigInt.divRem, JsBigInt.isZero_eq_decide,
        JsBigInt.isZero_eq_decide, decide_eq_false nonzero,
        decide_eq_true zero]
      exact ⟨_, rfl⟩
    · apply JsBigInt.divRem_succeeds leftHolds.small rightHolds.small zero
        nonzero
      · rw [leftHolds.value]
        exact (inside leftSmall).2
      · rw [rightHolds.value]
        exact (inside rightSmall).2
  obtain ⟨⟨quotient, remainder⟩, same⟩ := divided
  obtain ⟨⟨quotientValue, quotientSmall⟩, remainderValue, remainderShort⟩ :=
    JsBigInt.divRem_denotes same
  rw [leftHolds.value, rightHolds.value] at quotientValue remainderValue
  refine ⟨quotient, remainder, same, ⟨?_, quotientSmall⟩, ?_, remainderShort⟩
  · rw [quotientValue, Int.ofNat_tdiv]
  · rw [remainderValue, Int.ofNat_tmod]

theorem holds_ten_pow {count : Nat} (bounded : count ≤ 600) :
    ∃ integer, (JsBigInt.fromI32 10).pow (JsBigInt.fromU64 count) =
      .ok integer ∧ Holds integer (10 ^ count) := by
  have exponent := @holds_fromU64 count (by omega)
  have ten : (JsBigInt.fromI32 10).val = 10 :=
    @JsBigInt.val_fromI32 10 (by decide)
  have small : 10 ^ count < 2 ^ 4000 := Nat.lt_trans (ten_pow_lt bounded)
    (Nat.pow_lt_pow_right (by decide) (by decide))
  have natural : (JsBigInt.fromU64 count).toU64 = some count := by
    cases read : (JsBigInt.fromU64 count).toU64 with
    | none =>
        have large := JsBigInt.toU64_eq_none
          (by rw [exponent.value]; exact Int.natCast_nonneg _) read
        rw [exponent.value] at large
        omega
    | some other =>
        have value := JsBigInt.toU64_val read
        rw [exponent.value] at value
        have same : other = count := by omega
        rw [same]
  have nonneg : (JsBigInt.fromU64 count).isNegative = false := by
    rw [JsBigInt.isNegative_eq_decide, exponent.value]
    exact decide_eq_false (Int.not_lt.mpr (Int.natCast_nonneg _))
  have bound : JsBigInt.size (JsBigInt.fromI32 1).val *
      JsBigInt.size (JsBigInt.fromI32 10).val ^ count < -JsBigInt.minimum := by
    have least := (JsBigInt.not_oversized_iff _).mp (inside small).1
    have one : JsBigInt.size 1 = 1 := by decide
    have sizeTen : JsBigInt.size 10 = 10 := by decide
    rw [JsBigInt.val_one, ten, one, sizeTen, one_mul]
    exact_mod_cast least.2
  obtain ⟨integer, computed⟩ := JsBigInt.powLoop_succeeds
    (JsBigInt.length_fromI32 1) (JsBigInt.length_fromI32 10) bound
  have same : (JsBigInt.fromI32 10).pow (JsBigInt.fromU64 count) =
      .ok integer := by
    rw [JsBigInt.pow, nonneg, natural]
    exact computed
  refine ⟨integer, same, ?_⟩
  obtain ⟨value, short⟩ := JsBigInt.pow_denotes _ _ integer same
  refine ⟨?_, short⟩
  rw [value, ten, exponent.value, Int.toNat_natCast, Nat.cast_pow]
  rfl

end Operations

/-! ## The rounded quotient -/

/-- The numerator and the denominator of a scaled significand. -/
def scaledParts (significand : Nat) (exponent scale : Int) : Nat × Nat :=
  (significand * (if scale ≥ 0 then 10 ^ scale.natAbs else 1) *
      (if exponent ≥ 0 then 2 ^ exponent.natAbs else 1),
    (if scale ≥ 0 then 1 else 10 ^ scale.natAbs) *
      (if exponent ≥ 0 then 1 else 2 ^ exponent.natAbs))

theorem factor_zpow (base : Nat) (power : Int) :
    ((if power ≥ 0 then base ^ power.natAbs else 1 : Nat) : ℚ) /
        (if power ≥ 0 then 1 else base ^ power.natAbs : Nat) =
      (base : ℚ) ^ power := by
  by_cases nonneg : power ≥ 0
  · rw [if_pos nonneg, if_pos nonneg, Nat.cast_one, div_one, Nat.cast_pow,
      ← zpow_natCast, Int.natAbs_of_nonneg nonneg]
  · have opposite : ((power.natAbs : Nat) : Int) = -power := by omega
    rw [if_neg nonneg, if_neg nonneg, Nat.cast_one, Nat.cast_pow,
      ← zpow_natCast, opposite, zpow_neg, one_div, inv_inv]

theorem scaledParts_ratio (significand : Nat) (exponent scale : Int) :
    ((scaledParts significand exponent scale).1 : ℚ) /
        (scaledParts significand exponent scale).2 =
      significand * (2 : ℚ) ^ exponent * (10 : ℚ) ^ scale := by
  have two := factor_zpow 2 exponent
  have ten := factor_zpow 10 scale
  rw [Nat.cast_ofNat] at two ten
  rw [← two, ← ten, scaledParts, Nat.cast_mul, Nat.cast_mul, Nat.cast_mul]
  ring

structure Scalable (significand : Nat) (exponent scale : Int) : Prop where
  significandSmall : significand < 2 ^ 53
  exponentSmall : exponent.natAbs ≤ 1074
  scaleSmall : scale.natAbs ≤ 600

section Scaling

variable {significand : Nat} {exponent scale : Int}

theorem chosen_lt {condition : Prop} [Decidable condition] {base power : Nat}
    {limit : Nat} (bound : base ^ power < limit) (one : 1 < limit) :
    (if condition then base ^ power else 1) < limit ∧
      (if condition then 1 else base ^ power) < limit := by
  constructor
  · split
    · exact bound
    · exact one
  · split
    · exact one
    · exact bound

theorem product_lt {first second third fourth fifth : Nat}
    (firstSmall : first < 2 ^ third) (secondSmall : second < 2 ^ fourth)
    (fits : third + fourth ≤ fifth) : first * second < 2 ^ fifth := by
  calc first * second < 2 ^ third * 2 ^ fourth :=
        Nat.mul_lt_mul'' firstSmall secondSmall
    _ = 2 ^ (third + fourth) := (Nat.pow_add 2 third fourth).symm
    _ ≤ 2 ^ fifth := Nat.pow_le_pow_right (by decide) fits

/-- Every factor of the computation, with its size. -/
theorem Scalable.bounds (scalable : Scalable significand exponent scale) :
    significand * (if scale ≥ 0 then 10 ^ scale.natAbs else 1) < 2 ^ 2454 ∧
      (if scale ≥ 0 then 1 else 10 ^ scale.natAbs) < 2 ^ 2401 ∧
      (scaledParts significand exponent scale).1 < 2 ^ 3529 ∧
      (scaledParts significand exponent scale).2 < 2 ^ 3529 := by
  have one : ∀ bits, 0 < bits → 1 < 2 ^ bits :=
    fun bits some => Nat.one_lt_two_pow some.ne'
  have ten := @chosen_lt (scale ≥ 0) _ 10 scale.natAbs _
    (ten_pow_lt scalable.scaleSmall) (one _ (by decide))
  have two := @chosen_lt (exponent ≥ 0) _ 2 exponent.natAbs (2 ^ 1075)
    (Nat.pow_lt_pow_right (by decide)
      (Nat.lt_succ_of_le scalable.exponentSmall)) (one _ (by decide))
  have numerator := product_lt scalable.significandSmall ten.1
    (show 53 + 2401 ≤ 2454 by decide)
  refine ⟨numerator, ten.2, ?_, ?_⟩
  · exact product_lt numerator two.1 (show 2454 + 1075 ≤ 3529 by decide)
  · exact product_lt ten.2 two.2 (show 2401 + 1075 ≤ 3529 by decide)

theorem scaledParts_positive (significand : Nat) (exponent scale : Int) :
    0 < (scaledParts significand exponent scale).2 := by
  apply Nat.mul_pos
  · split
    · exact Nat.one_pos
    · exact Nat.pow_pos (by decide)
  · split
    · exact Nat.one_pos
    · exact Nat.pow_pos (by decide)

/-- The scaled value rounds without an error. -/
theorem scaleAndRound_spec (scalable : Scalable significand exponent scale) :
    ∃ integer rounded, scaleAndRound significand exponent scale =
        .ok integer ∧ Holds integer rounded ∧ rounded < 2 ^ 4000 ∧
      RoundedHalfUp
        (significand * (2 : ℚ) ^ exponent * (10 : ℚ) ^ scale) rounded := by
  obtain ⟨firstSmall, secondSmall, numeratorSmall, denominatorSmall⟩ :=
    scalable.bounds
  have positive := scaledParts_positive significand exponent scale
  have widen : ∀ {number bits : Nat}, number < 2 ^ bits → bits ≤ 4000 →
      number < 2 ^ 4000 := fun small fits =>
    Nat.lt_of_lt_of_le small (Nat.pow_le_pow_right (by decide) fits)
  have start := @holds_fromU64 significand (Nat.lt_trans
    scalable.significandSmall (Nat.pow_lt_pow_right (by decide) (by decide)))
  have one := @holds_fromI32 1 (by decide)
  obtain ⟨power, powered, powerHolds⟩ := holds_ten_pow scalable.scaleSmall
  have first : ∃ integer,
      (if scale ≥ 0 then (JsBigInt.fromU64 significand).mul power
        else .ok (JsBigInt.fromU64 significand)) = Except.ok integer ∧
      Holds integer
        (significand * (if scale ≥ 0 then 10 ^ scale.natAbs else 1)) := by
    by_cases nonneg : scale ≥ 0
    · simp only [if_pos nonneg] at firstSmall ⊢
      exact start.mul powerHolds (widen firstSmall (by decide))
    · simp only [if_neg nonneg, Nat.mul_one]
      exact ⟨_, rfl, start⟩
  have second : ∃ integer,
      (if scale ≥ 0 then .ok (JsBigInt.fromI32 1)
        else (JsBigInt.fromI32 1).mul power) = Except.ok integer ∧
      Holds integer (if scale ≥ 0 then 1 else 10 ^ scale.natAbs) := by
    by_cases nonneg : scale ≥ 0
    · simp only [if_pos nonneg]
      exact ⟨_, rfl, one⟩
    · simp only [if_neg nonneg] at secondSmall ⊢
      have product := one.mul powerHolds (by
        rw [Nat.one_mul]
        exact widen secondSmall (by decide))
      rwa [Nat.one_mul] at product
  obtain ⟨numerator, firstRun, firstHolds⟩ := first
  obtain ⟨denominator, secondRun, secondHolds⟩ := second
  have third : ∃ integer,
      (if exponent ≥ 0 then numerator.shl exponent.natAbs
        else .ok numerator) = Except.ok integer ∧
      Holds integer (scaledParts significand exponent scale).1 := by
    unfold scaledParts at numeratorSmall ⊢
    by_cases nonneg : exponent ≥ 0
    · simp only [if_pos nonneg] at numeratorSmall ⊢
      exact firstHolds.shl (widen numeratorSmall (by decide))
    · simp only [if_neg nonneg, Nat.mul_one]
      exact ⟨_, rfl, firstHolds⟩
  have fourth : ∃ integer,
      (if exponent ≥ 0 then .ok denominator
        else denominator.shl exponent.natAbs) = Except.ok integer ∧
      Holds integer (scaledParts significand exponent scale).2 := by
    unfold scaledParts at denominatorSmall ⊢
    by_cases nonneg : exponent ≥ 0
    · simp only [if_pos nonneg, Nat.mul_one]
      exact ⟨_, rfl, secondHolds⟩
    · simp only [if_neg nonneg] at denominatorSmall ⊢
      exact secondHolds.shl (widen denominatorSmall (by decide))
  obtain ⟨dividend, thirdRun, dividendHolds⟩ := third
  obtain ⟨divisor, fourthRun, divisorHolds⟩ := fourth
  have rounds := @roundedHalfUp_div ℚ _ _ _
    (scaledParts significand exponent scale).1 _ positive
  rw [scaledParts_ratio] at rounds
  generalize (scaledParts significand exponent scale).1 = top
    at numeratorSmall dividendHolds rounds
  generalize (scaledParts significand exponent scale).2 = bottom
    at denominatorSmall divisorHolds rounds positive
  obtain ⟨quotient, remainder, divided, quotientHolds, remainderHolds⟩ :=
    dividendHolds.divRem divisorHolds positive
      (widen numeratorSmall (by decide)) (widen denominatorSmall (by decide))
  have remainderSmall : top % bottom < 2 ^ 3529 :=
    Nat.lt_trans (Nat.mod_lt top positive) denominatorSmall
  have quotientSmall : top / bottom < 2 ^ 3529 :=
    Nat.lt_of_le_of_lt (Nat.div_le_self top bottom) numeratorSmall
  obtain ⟨doubled, fifthRun, doubledHolds⟩ := remainderHolds.shl
    (widen (product_lt remainderSmall (Nat.pow_lt_pow_right (by decide)
      (Nat.lt_succ_self 1)) (Nat.le_refl (3529 + 2))) (by decide))
  rw [pow_one] at doubledHolds
  have compared : (doubled.cmp divisor ≠ .lt) ↔
      ¬ top % bottom * 2 < bottom := by
    rw [JsBigInt.cmp_eq, doubledHolds.value, divisorHolds.value, ne_eq,
      compare_lt_iff_lt, Nat.cast_lt]
  have succSmall : top / bottom + 1 < 2 ^ 4000 := by
    have widened : 2 ^ 3529 < 2 ^ 4000 :=
      Nat.pow_lt_pow_right (by decide) (by decide)
    generalize 2 ^ 3529 = narrow at quotientSmall widened
    generalize 2 ^ 4000 = wide at widened ⊢
    omega
  obtain ⟨successor, sixthRun, successorHolds⟩ :=
    quotientHolds.add one succSmall
  have run : scaleAndRound significand exponent scale =
      if doubled.cmp divisor ≠ .lt then quotient.add (JsBigInt.fromI32 1)
      else .ok quotient := by
    simp only [scaleAndRound, powered, firstRun, secondRun, thirdRun,
      fourthRun, divided, fifthRun, Support.ok_bind]
  rw [run]
  by_cases below : top % bottom * 2 < bottom
  · rw [if_pos below] at rounds
    rw [if_neg (by rw [compared, not_not]; exact below)]
    exact ⟨quotient, _, rfl, quotientHolds, widen quotientSmall (by decide),
      rounds⟩
  · rw [if_neg below] at rounds
    rw [if_pos (compared.mpr below)]
    exact ⟨successor, _, sixthRun, successorHolds, succSmall, rounds⟩

end Scaling

end Fusor.Runtime.Decimal
