import Fusor.Runtime.BigIntBits

/-!
# The range of the integers

The admissible sizes hold a range that reaches one further below zero than
above.  Products and quotients are taken of magnitudes, so the least integer
of the range is out of their reach, as an operand and as a result.
-/

namespace Fusor.Runtime

open Arith

namespace JsBigInt

/-- The least integer of the admissible sizes. -/
def minimum : Int := -2 ^ (32 * maxLimbs - 1)

/-- Some integer of the admissible sizes has this value. -/
def Represented (integer : Int) : Prop :=
  ∃ value : JsBigInt, value.val = integer ∧ value.limbs.length ≤ maxLimbs

theorem minimum_neg : minimum < 0 := by
  have positive : (0 : Int) < 2 ^ (32 * maxLimbs - 1) := by positivity
  rw [minimum]
  omega

theorem oversized_iff (integer : Int) :
    Oversized integer ↔ integer < minimum ∨ -minimum ≤ integer := by
  rw [Oversized, minimum, neg_neg]

theorem not_oversized_iff (integer : Int) :
    ¬ Oversized integer ↔ minimum ≤ integer ∧ integer < -minimum := by
  rw [oversized_iff]
  omega

theorem range_of_length {integer : JsBigInt}
    (small : integer.limbs.length ≤ maxLimbs) :
    minimum ≤ integer.val ∧ integer.val < -minimum := by
  rw [minimum, neg_neg]
  exact integer.val_range_of_le small

theorem represented_iff (integer : Int) :
    Represented integer ↔ ¬ Oversized integer := by
  rw [not_oversized_iff]
  constructor
  · rintro ⟨value, rfl, small⟩
    exact range_of_length small
  · rintro ⟨lower, upper⟩
    rw [minimum, neg_neg] at upper
    have filled : 0 < maxLimbs := by decide
    have exact : Limbs.toInt (Limbs.ofInt 32 integer maxLimbs) = integer :=
      Limbs.toInt_ofInt (by decide) filled lower upper
    have nonempty : Limbs.ofInt 32 integer maxLimbs ≠ [] := by
      apply List.ne_nil_of_length_pos
      rw [Limbs.length_ofInt]
      exact filled
    have built := fromLimbs_exact nonempty exact
    cases made : fromLimbs (Limbs.ofInt 32 integer maxLimbs) with
    | ok value => exact ⟨value, built.denotes value made⟩
    | error error =>
        obtain ⟨_, outside⟩ := built.oversized error made
        rw [oversized_iff, minimum, neg_neg] at outside
        rw [minimum] at lower
        omega

/-- A result that fits is returned. -/
theorem Exact.succeeds {result : Except BigIntError JsBigInt} {integer : Int}
    (exact : Exact result integer) (inside : ¬ Oversized integer) :
    ∃ value, result = .ok value ∧ value.val = integer ∧
      value.limbs.length ≤ maxLimbs := by
  cases result with
  | ok value => exact ⟨value, rfl, exact.denotes value rfl⟩
  | error error => exact absurd (exact.oversized error rfl).2 inside

theorem Exact.of_ok {value : JsBigInt} {integer : Int}
    (same : value.val = integer) (small : value.limbs.length ≤ maxLimbs) :
    Exact (.ok value) integer := by
  constructor
  · rintro _ ⟨⟩
    exact ⟨same, small⟩
  · intro error impossible
    cases impossible

theorem Exact.of_error {error : BigIntError} {integer : Int}
    (size : error.isSize = true) (outside : Oversized integer) :
    Exact (.error error) integer := by
  constructor
  · intro value impossible
    cases impossible
  · rintro _ ⟨⟩
    exact ⟨size, outside⟩

/-- The magnitude is missing only for the least integer. -/
theorem magnitude_cases {integer : JsBigInt}
    (small : integer.limbs.length ≤ maxLimbs) :
    (integer.val = minimum ∧
      ∃ error, integer.magnitude = .error error ∧ error.isSize = true) ∨
      (integer.val ≠ minimum ∧ ∃ limbs, integer.magnitude = .ok limbs ∧
        limbs ≠ [] ∧ (Limbs.value limbs : Int) = |integer.val|) := by
  have range := range_of_length small
  have sign := integer.isNegative_iff
  have least := minimum_neg
  cases taken : integer.magnitude with
  | ok limbs =>
      refine .inr ⟨?_, limbs, rfl, magnitude_value taken⟩
      intro same
      rw [magnitude, Support.bind_eq_ok_iff] at taken
      obtain ⟨value, absolute, _⟩ := taken
      rw [abs, if_pos (sign.mpr (by omega))] at absolute
      have negated := integer.neg_exact.denotes value absolute
      have bound := range_of_length negated.2
      rw [negated.1, same] at bound
      omega
  | error error =>
      rw [magnitude, Support.bind_eq_error_iff] at taken
      rcases taken with failed | ⟨value, _, impossible⟩
      · by_cases negative : integer.isNegative = true
        · rw [abs, if_pos negative] at failed
          obtain ⟨size, outside⟩ := integer.neg_exact.oversized error failed
          rw [oversized_iff] at outside
          have below := sign.mp negative
          exact .inl ⟨by omega, error, rfl, size⟩
        · rw [abs, if_neg negative] at failed
          cases failed
      · cases impossible

theorem withSign_exact {magnitude : JsBigInt} {size : Int}
    (same : magnitude.val = size) (small : magnitude.limbs.length ≤ maxLimbs)
    (negative : Bool) :
    Exact (magnitude.withSign negative)
      (if negative then -size else size) := by
  cases negative with
  | true =>
      rw [withSign, if_pos rfl, if_pos rfl, ← same]
      exact magnitude.neg_exact
  | false => exact .of_ok same small

/-- A signed integer is out of range with its magnitude, unless it is the
least one. -/
theorem oversized_signed {size : Int} (outside : Oversized size)
    (negative : Bool)
    (apart : (if negative then -size else size) ≠ minimum) :
    Oversized (if negative then -size else size) := by
  have least := minimum_neg
  rw [oversized_iff] at outside ⊢
  cases negative with
  | true =>
      simp only [if_true] at apart ⊢
      omega
  | false =>
      simp only [Bool.false_eq_true, if_false] at apart ⊢
      omega

theorem oversized_minimum_mul {factor : Int} (nonzero : factor ≠ 0)
    (apart : minimum * factor ≠ minimum) : Oversized (minimum * factor) := by
  have least := minimum_neg
  rw [oversized_iff]
  rcases lt_or_gt_of_ne nonzero with negative | positive
  · right
    nlinarith
  · left
    have large : 2 ≤ factor := by
      by_contra small
      apply apart
      rw [show factor = 1 by omega, Int.mul_one]
    nlinarith

theorem product_exact (left right : List Limb) :
    Exact (fromLimbs (multiplyLoop right left
      (List.replicate (left.length + right.length + 1) 0)))
      (Limbs.value left * Limbs.value right) := by
  apply fromLimbs_exact
  · apply List.ne_nil_of_length_pos
    rw [length_multiplyLoop _ (by simp)]
    simp
  · exact multiplyLoop_toInt left right

theorem mul_of_ne_zero {left right : JsBigInt} (leftNonzero : left.val ≠ 0)
    (rightNonzero : right.val ≠ 0) :
    left.mul right = (left.magnitude >>= fun leftLimbs =>
      right.magnitude >>= fun rightLimbs =>
        fromLimbs (multiplyLoop rightLimbs leftLimbs
          (List.replicate (leftLimbs.length + rightLimbs.length + 1) 0)) >>=
        fun value => value.withSign (left.isNegative != right.isNegative)) := by
  rw [mul, isZero_eq_decide, isZero_eq_decide, decide_eq_false leftNonzero,
    decide_eq_false rightNonzero]
  rfl

theorem zero_mul_exact {left right : JsBigInt}
    (zero : left.val = 0 ∨ right.val = 0) :
    Exact (left.mul right) (left.val * right.val) := by
  have product : left.val * right.val = 0 := mul_eq_zero.mpr zero
  have taken : (left.isZero || right.isZero) = true := by
    rw [isZero_eq_decide, isZero_eq_decide, Bool.or_eq_true, decide_eq_true_iff,
      decide_eq_true_iff]
    exact zero
  rw [mul, if_pos taken, product]
  exact zero_exact

/-- Only the least integer is missing among the products. -/
theorem mul_exact {left right : JsBigInt}
    (leftSmall : left.limbs.length ≤ maxLimbs)
    (rightSmall : right.limbs.length ≤ maxLimbs)
    (apart : left.val * right.val ≠ minimum) :
    Exact (left.mul right) (left.val * right.val) := by
  by_cases zero : left.val = 0 ∨ right.val = 0
  · exact zero_mul_exact zero
  · rw [not_or] at zero
    rw [mul_of_ne_zero zero.1 zero.2]
    rcases magnitude_cases leftSmall with ⟨least, error, failed, size⟩ |
      ⟨_, leftLimbs, leftTaken, _, leftValue⟩
    · rw [failed]
      apply Exact.of_error size
      rw [least] at apart ⊢
      exact oversized_minimum_mul zero.2 apart
    · rcases magnitude_cases rightSmall with ⟨least, error, failed, size⟩ |
        ⟨_, rightLimbs, rightTaken, _, rightValue⟩
      · rw [leftTaken, failed]
        apply Exact.of_error size
        rw [least, Int.mul_comm] at apart ⊢
        exact oversized_minimum_mul zero.1 apart
      · rw [leftTaken, Support.ok_bind, rightTaken, Support.ok_bind]
        have product := product_exact leftLimbs rightLimbs
        rw [leftValue, rightValue] at product
        rw [← signed_abs_mul, ← isNegative_eq_decide,
          ← isNegative_eq_decide] at apart ⊢
        cases built : fromLimbs (multiplyLoop rightLimbs leftLimbs
            (List.replicate (leftLimbs.length + rightLimbs.length + 1) 0)) with
        | ok value =>
            have parts := product.denotes value built
            rw [Support.ok_bind]
            exact withSign_exact parts.1 parts.2 _
        | error error =>
            rw [Support.error_bind]
            obtain ⟨size, outside⟩ := product.oversized error built
            exact .of_error size (oversized_signed outside _ apart)

theorem not_oversized_minimum : ¬ Oversized minimum := by
  have least := minimum_neg
  rw [not_oversized_iff]
  omega

theorem mul_fails {left right : JsBigInt}
    (leftSmall : left.limbs.length ≤ maxLimbs)
    (rightSmall : right.limbs.length ≤ maxLimbs)
    (least : left.val * right.val = minimum) :
    ∃ error, left.mul right = .error error ∧ error.isSize = true := by
  have below := minimum_neg
  have leftNonzero : left.val ≠ 0 := by
    intro zero
    rw [zero, Int.zero_mul] at least
    omega
  have rightNonzero : right.val ≠ 0 := by
    intro zero
    rw [zero, Int.mul_zero] at least
    omega
  rw [mul_of_ne_zero leftNonzero rightNonzero]
  rcases magnitude_cases leftSmall with ⟨_, error, failed, size⟩ |
    ⟨_, leftLimbs, leftTaken, _, leftValue⟩
  · exact ⟨error, by rw [failed]; rfl, size⟩
  · rcases magnitude_cases rightSmall with ⟨_, error, failed, size⟩ |
      ⟨_, rightLimbs, rightTaken, _, rightValue⟩
    · exact ⟨error, by rw [leftTaken, failed]; rfl, size⟩
    · have product := product_exact leftLimbs rightLimbs
      rw [leftValue, rightValue, ← abs_mul, least, abs_of_neg below] at product
      rw [leftTaken, Support.ok_bind, rightTaken, Support.ok_bind]
      cases built : fromLimbs (multiplyLoop rightLimbs leftLimbs
          (List.replicate (leftLimbs.length + rightLimbs.length + 1) 0)) with
      | ok value =>
          have parts := product.denotes value built
          have range := range_of_length parts.2
          rw [parts.1] at range
          omega
      | error error =>
          refine ⟨error, ?_, (product.oversized error built).1⟩
          rw [Support.error_bind]

theorem divRem_of_ne_zero {left right : JsBigInt} (leftNonzero : left.val ≠ 0)
    (rightNonzero : right.val ≠ 0) :
    left.divRem right = (left.magnitude >>= fun dividend =>
      right.magnitude >>= fun divisor =>
        fromLimbs (divideMagnitudes dividend divisor).1 >>= fun quotient =>
        fromLimbs (divideMagnitudes dividend divisor).2 >>= fun remainder =>
        quotient.withSign (left.isNegative != right.isNegative) >>=
        fun signed => remainder.withSign left.isNegative >>= fun rest =>
          .ok (signed, rest)) := by
  rw [divRem, isZero_eq_decide, isZero_eq_decide, decide_eq_false leftNonzero,
    decide_eq_false rightNonzero]
  rfl

/-- The least integer cannot be divided, nor divide another integer. -/
theorem divRem_fails {left right : JsBigInt}
    (leftSmall : left.limbs.length ≤ maxLimbs)
    (rightSmall : right.limbs.length ≤ maxLimbs) (leftNonzero : left.val ≠ 0)
    (rightNonzero : right.val ≠ 0)
    (least : left.val = minimum ∨ right.val = minimum) :
    ∃ error, left.divRem right = .error error ∧ error.isSize = true := by
  rw [divRem_of_ne_zero leftNonzero rightNonzero]
  rcases magnitude_cases leftSmall with ⟨_, error, failed, size⟩ |
    ⟨leftApart, dividend, leftTaken, _, _⟩
  · exact ⟨error, by rw [failed]; rfl, size⟩
  · rcases magnitude_cases rightSmall with ⟨_, error, failed, size⟩ |
      ⟨rightApart, _, _, _, _⟩
    · exact ⟨error, by rw [leftTaken, failed]; rfl, size⟩
    · rcases least with same | same
      · exact absurd same leftApart
      · exact absurd same rightApart

theorem divRem_succeeds {left right : JsBigInt}
    (leftSmall : left.limbs.length ≤ maxLimbs)
    (rightSmall : right.limbs.length ≤ maxLimbs) (leftNonzero : left.val ≠ 0)
    (rightNonzero : right.val ≠ 0) (leftApart : left.val ≠ minimum)
    (rightApart : right.val ≠ minimum) :
    ∃ parts, left.divRem right = .ok parts := by
  have below := minimum_neg
  have range := range_of_length leftSmall
  rw [divRem_of_ne_zero leftNonzero rightNonzero]
  rcases magnitude_cases leftSmall with ⟨least, _⟩ |
    ⟨_, dividend, leftTaken, _, leftValue⟩
  · exact absurd least leftApart
  rcases magnitude_cases rightSmall with ⟨least, _⟩ |
    ⟨_, divisor, rightTaken, _, rightValue⟩
  · exact absurd least rightApart
  have positive : 0 < Limbs.value divisor := by
    have size := abs_pos.mpr rightNonzero
    omega
  obtain ⟨quotientFilled, remainderFilled, quotientExact, remainderExact⟩ :=
    @divideMagnitudes_toInt dividend divisor positive
  have magnitude : (Limbs.value dividend : Int) < -minimum := by
    rw [leftValue, abs_lt]
    omega
  have quotientLe : ((Limbs.value dividend : Int) / Limbs.value divisor) ≤
      Limbs.value dividend := Int.ediv_le_self _ (Int.natCast_nonneg _)
  have quotientNonneg : (0 : Int) ≤
      Limbs.value dividend / Limbs.value divisor :=
    Int.ediv_nonneg (Int.natCast_nonneg _) (Int.natCast_nonneg _)
  have remainderNonneg : (0 : Int) ≤
      Limbs.value dividend % Limbs.value divisor :=
    Int.emod_nonneg _ (by omega)
  have remainderLe : ((Limbs.value dividend : Int) % Limbs.value divisor) ≤
      Limbs.value dividend := by
    exact_mod_cast Nat.mod_le _ _
  obtain ⟨quotient, quotientMade, quotientValue, quotientSmall⟩ :=
    (fromLimbs_exact quotientFilled quotientExact).succeeds (by
      rw [not_oversized_iff]
      omega)
  obtain ⟨remainder, remainderMade, remainderValue, remainderSmall⟩ :=
    (fromLimbs_exact remainderFilled remainderExact).succeeds (by
      rw [not_oversized_iff]
      omega)
  obtain ⟨signed, signedMade, _⟩ := (withSign_exact quotientValue quotientSmall
    (left.isNegative != right.isNegative)).succeeds (by
      rw [not_oversized_iff]
      split <;> omega)
  obtain ⟨rest, restMade, _⟩ := (withSign_exact remainderValue remainderSmall
    left.isNegative).succeeds (by
      rw [not_oversized_iff]
      split <;> omega)
  refine ⟨(signed, rest), ?_⟩
  rw [leftTaken, Support.ok_bind, rightTaken, Support.ok_bind, quotientMade,
    Support.ok_bind, remainderMade, Support.ok_bind, signedMade,
    Support.ok_bind, restMade, Support.ok_bind]

/-- Integers that are not negative are read up to 64 bits. -/
theorem toU64_eq_none {integer : JsBigInt} (nonneg : 0 ≤ integer.val)
    (missing : integer.toU64 = none) : 2 ^ 64 ≤ integer.val := by
  by_contra below
  rw [Int.not_le] at below
  have sign : integer.isNegative = false := by
    rw [isNegative_eq_decide, decide_eq_false_iff_not]
    omega
  have short : integer.limbs.length ≤ 3 := by
    by_contra long
    rcases val_outside (show 0 < 3 by decide) (Nat.lt_of_not_le long) with
      outside | outside
    · omega
    · have huge : (2 : Int) ^ 64 ≤ 2 ^ (32 * 3 - 1) := by norm_num
      omega
  have value := val_of_nonneg sign
  have extension : integer.signExtension = 0 := by
    simp [signExtension, sign]
  have top : integer.limbs.length = 3 → integer.limb 2 = 0 := by
    intro three
    obtain ⟨first, second, third, limbs⟩ := List.length_eq_three.mp three
    rw [value, limbs] at below
    simp only [Limbs.value] at below
    have none : third.toNat = 0 := by omega
    rw [limb, limbs]
    exact BitVec.eq_of_toNat_eq none
  rw [toU64, sign, Bool.false_or, if_neg (by simpa using short)] at missing
  by_cases three : integer.limbs.length = 3
  · rw [top three] at missing
    simp at missing
  · rw [if_neg (by simp [three])] at missing
    cases missing

theorem toU64_lt {integer : JsBigInt} {natural : Nat}
    (taken : integer.toU64 = some natural) : natural < 2 ^ 64 := by
  unfold toU64 at taken
  split at taken
  · cases taken
  · split at taken
    · cases taken
    · rw [Option.some.injEq, or_shiftLeft_limb] at taken
      have low := (integer.limb 0).isLt
      have high := (integer.limb 1).isLt
      omega

/-- The size of an integer, at least one. -/
def size (integer : Int) : Int :=
  max 1 |integer|

theorem one_le_size (integer : Int) : 1 ≤ size integer :=
  le_max_left _ _

theorem abs_le_size (integer : Int) : |integer| ≤ size integer :=
  le_max_right _ _

theorem size_mul_le (left right : Int) :
    size (left * right) ≤ size left * size right := by
  apply max_le
  · exact one_le_mul_of_one_le_of_one_le (one_le_size left) (one_le_size right)
  · rw [abs_mul]
    exact mul_le_mul (abs_le_size left) (abs_le_size right) (abs_nonneg _)
      (by have := one_le_size left; omega)

theorem mulWhen_succeeds {wanted : Bool} {left right : JsBigInt}
    (leftSmall : left.limbs.length ≤ maxLimbs)
    (rightSmall : right.limbs.length ≤ maxLimbs)
    (bounded : wanted = true → size left.val * size right.val < -minimum) :
    ∃ value, mulWhen wanted left right = .ok value ∧
      value.limbs.length ≤ maxLimbs ∧
      value.val = if wanted then left.val * right.val else left.val := by
  cases wanted with
  | false => exact ⟨left, rfl, leftSmall, rfl⟩
  | true =>
      have product := abs_le_size (left.val * right.val)
      have grown := size_mul_le left.val right.val
      have inside := abs_lt.mp (lt_of_le_of_lt (product.trans grown)
        (bounded rfl))
      obtain ⟨value, made, exact, small⟩ := (mul_exact leftSmall rightSmall
        (by omega)).succeeds (by
          rw [not_oversized_iff]
          omega)
      refine ⟨value, ?_, small, exact⟩
      rw [mulWhen, if_pos rfl, promoteSizeError_eq_ok_iff]
      exact made

/-- Repeated squaring stays below the power it computes. -/
theorem powLoop_succeeds {remaining : Nat} {result base : JsBigInt}
    (resultSmall : result.limbs.length ≤ maxLimbs)
    (baseSmall : base.limbs.length ≤ maxLimbs)
    (bounded : size result.val * size base.val ^ remaining < -minimum) :
    ∃ value, powLoop remaining result base = .ok value := by
  induction remaining using Nat.strong_induction_on
    generalizing result base with
  | _ remaining induction =>
      rw [powLoop]
      by_cases positive : remaining > 0
      · rw [if_pos positive]
        have baseOne := one_le_size base.val
        have resultOne := one_le_size result.val
        have first : size base.val ≤ size base.val ^ remaining :=
          le_self_pow₀ baseOne (by omega)
        have once : size result.val * size base.val ≤
            size result.val * size base.val ^ remaining :=
          mul_le_mul_of_nonneg_left first (by omega)
        have power : 1 * size base.val ^ remaining ≤
            size result.val * size base.val ^ remaining :=
          mul_le_mul_of_nonneg_right resultOne (pow_nonneg (by omega) _)
        obtain ⟨nextResult, multiplied, nextSmall, nextValue⟩ :=
          @mulWhen_succeeds (decide (remaining &&& 1 = 1)) _ _ resultSmall
            baseSmall (fun _ => lt_of_le_of_lt once bounded)
        have twice : remaining / 2 > 0 →
            size base.val * size base.val ≤ size base.val ^ remaining := by
          intro more
          rw [← pow_two]
          exact pow_le_pow_right₀ baseOne (by omega)
        obtain ⟨nextBase, squared, squareSmall, squareValue⟩ :=
          @mulWhen_succeeds (decide (remaining >>> 1 > 0)) _ _ baseSmall
            baseSmall (fun more => by
              rw [decide_eq_true_iff, Nat.shiftRight_one] at more
              have bound := twice more
              omega)
        rw [multiplied, Support.ok_bind, squared, Support.ok_bind]
        apply induction _ (by rw [Nat.shiftRight_one]; omega) nextSmall
          squareSmall
        rw [Nat.shiftRight_one] at squareValue ⊢
        rw [Nat.and_one_is_mod] at nextValue
        refine lt_of_le_of_lt ?_ bounded
        have nextLe : size nextResult.val ≤
            size result.val * size base.val ^ (remaining % 2) := by
          rcases Nat.mod_two_eq_zero_or_one remaining with even | odd
          · rw [nextValue, even]
            simp
          · rw [nextValue, odd, pow_one]
            exact size_mul_le _ _
        have squareLe : size nextBase.val ^ (remaining / 2) ≤
            (size base.val ^ 2) ^ (remaining / 2) := by
          by_cases more : remaining / 2 > 0
          · rw [squareValue, decide_eq_true more, if_pos rfl, pow_two]
            apply pow_le_pow_left₀ _ (size_mul_le _ _)
            have one := one_le_size (base.val * base.val)
            omega
          · rw [show remaining / 2 = 0 by omega]
            simp
        have whole : size base.val ^ (remaining % 2) *
            (size base.val ^ 2) ^ (remaining / 2) =
              size base.val ^ remaining := by
          rw [← pow_mul, ← pow_add, Nat.mod_add_div]
        calc size nextResult.val * size nextBase.val ^ (remaining / 2)
            ≤ (size result.val * size base.val ^ (remaining % 2)) *
                (size base.val ^ 2) ^ (remaining / 2) :=
              mul_le_mul nextLe squareLe
                (pow_nonneg (by have := one_le_size nextBase.val; omega) _)
                (mul_nonneg (by omega) (pow_nonneg (by omega) _))
          _ = size result.val * size base.val ^ remaining := by
              rw [mul_assoc, whole]
      · rw [if_neg positive]
        exact ⟨result, rfl⟩

theorem mulWhen_ne_minimum {wanted : Bool} {left right value : JsBigInt}
    (leftSmall : left.limbs.length ≤ maxLimbs)
    (rightSmall : right.limbs.length ≤ maxLimbs) (apart : left.val ≠ minimum)
    (taken : mulWhen wanted left right = .ok value) : value.val ≠ minimum := by
  cases wanted with
  | false =>
      cases taken
      exact apart
  | true =>
      rw [mulWhen, if_pos rfl, promoteSizeError_eq_ok_iff] at taken
      intro least
      rw [(left.mul_denotes right value taken).1] at least
      obtain ⟨error, failed, _⟩ := mul_fails leftSmall rightSmall least
      rw [failed] at taken
      cases taken

/-- No power is the least integer. -/
theorem powLoop_ne_minimum {remaining : Nat} {result base value : JsBigInt}
    (resultSmall : result.limbs.length ≤ maxLimbs)
    (baseSmall : base.limbs.length ≤ maxLimbs) (apart : result.val ≠ minimum)
    (taken : powLoop remaining result base = .ok value) :
    value.val ≠ minimum := by
  induction remaining using Nat.strong_induction_on
    generalizing result base with
  | _ remaining induction =>
      rw [powLoop] at taken
      by_cases positive : remaining > 0
      · rw [if_pos positive, Support.bind_eq_ok_iff] at taken
        obtain ⟨nextResult, multiplied, taken⟩ := taken
        rw [Support.bind_eq_ok_iff] at taken
        obtain ⟨nextBase, squared, taken⟩ := taken
        exact induction _ (by rw [Nat.shiftRight_one]; omega)
          ((mulWhen_val multiplied).2 resultSmall)
          ((mulWhen_val squared).2 baseSmall)
          (mulWhen_ne_minimum resultSmall baseSmall apart multiplied) taken
      · rw [if_neg positive] at taken
        cases taken
        exact apart

end JsBigInt

end Fusor.Runtime
