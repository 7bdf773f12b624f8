import Fusor.Runtime.BigIntText

/-!
# When a size error is right

A size error should mean that the mathematical result has no admissible size.
The sums and shifts keep to that.  The operations on magnitudes fail on the
least integer, the power on exponents beyond 64 bits even of one and zero, and
the truncations on widths beyond the limit.
-/

namespace Fusor.Runtime

open Arith

namespace JsBigInt

/-- A size error comes only when no admissible size holds the result. -/
def Justified (result : Except BigIntError JsBigInt) (integer : Int) : Prop :=
  ∀ error, result = .error error → error.isSize = true →
    ¬ Represented integer

theorem Exact.justified {result : Except BigIntError JsBigInt} {integer : Int}
    (exact : Exact result integer) : Justified result integer := by
  intro error failed _
  rw [represented_iff, not_not]
  exact (exact.oversized error failed).2

theorem justified_ok {value : JsBigInt} {integer : Int} :
    Justified (.ok value) integer := by
  intro error impossible
  cases impossible

theorem not_justified {result : Except BigIntError JsBigInt} {integer : Int}
    (failed : ∃ error, result = .error error ∧ error.isSize = true)
    (inside : ¬ Oversized integer) : ¬ Justified result integer := by
  intro justified
  obtain ⟨error, same, size⟩ := failed
  exact justified error same size ((represented_iff integer).mpr inside)

theorem minimum_lt : minimum < -1 := by
  rw [minimum]
  exact neg_lt_neg (one_lt_pow₀ (by norm_num) (by decide))

/-- The power of a base of at least two is out of range for exponents beyond
64 bits. -/
theorem oversized_pow {base : Int} (large : 1 < |base|) {exponent : Nat}
    (high : 2 ^ 64 ≤ exponent) : Oversized (base ^ exponent) := by
  have grows : (2 : Int) ^ (32 * maxLimbs) ≤ |base| ^ exponent :=
    calc (2 : Int) ^ (32 * maxLimbs) ≤ 2 ^ exponent :=
          pow_le_pow_right₀ (by norm_num) (by
            have limit : 32 * maxLimbs ≤ 2 ^ 64 := by decide
            omega)
      _ ≤ |base| ^ exponent := pow_le_pow_left₀ (by norm_num) (by omega) _
  have double : (2 : Int) ^ (32 * maxLimbs) = 2 * -minimum := by
    rw [minimum, neg_neg, ← pow_succ']
    congr 1
  rw [← abs_pow, double] at grows
  have least := minimum_neg
  rw [oversized_iff]
  by_contra inside
  rw [not_or, Int.not_lt, Int.not_le] at inside
  have bounded := abs_le.mpr ⟨show - -minimum ≤ base ^ exponent by omega,
    inside.2.le⟩
  omega

section Magnitudes

variable {left right : JsBigInt} (leftSmall : left.limbs.length ≤ maxLimbs)
  (rightSmall : right.limbs.length ≤ maxLimbs)

include leftSmall rightSmall

theorem mul_justified_iff :
    Justified (left.mul right) (left.val * right.val) ↔
      left.val * right.val ≠ minimum := by
  constructor
  · intro justified least
    refine not_justified (mul_fails leftSmall rightSmall least) ?_ justified
    rw [least]
    exact not_oversized_minimum
  · intro apart
    exact (mul_exact leftSmall rightSmall apart).justified

/-- Quotient and remainder are in range unless the least integer is
negated. -/
theorem division_inside (nonzero : right.val ≠ 0)
    (apart : left.val = minimum → right.val ≠ -1) :
    ¬ Oversized (left.val.tdiv right.val) ∧
      ¬ Oversized (left.val.tmod right.val) := by
  have least := minimum_neg
  have leftRange := range_of_length leftSmall
  have rightRange := range_of_length rightSmall
  have quotient := Int.natAbs_tdiv left.val right.val
  have quotientLe := Int.natAbs_tdiv_le_natAbs left.val right.val
  have remainder := Int.natAbs_tmod left.val right.val
  have remainderLt := Nat.mod_lt left.val.natAbs (Int.natAbs_pos.mpr nonzero)
  rw [not_oversized_iff, not_oversized_iff]
  refine ⟨?_, by omega⟩
  by_cases lowest : left.val = minimum
  · by_cases one : right.val = 1
    · rw [one, Int.tdiv_one]
      omega
    · have other := apart lowest
      have half : left.val.natAbs / right.val.natAbs ≤ left.val.natAbs / 2 :=
        Nat.div_le_div_left (by omega) (by decide)
      change _ = left.val.natAbs / right.val.natAbs at quotient
      omega
  · omega

/-- A size error of the division comes only when one of its results has no
admissible size. -/
def DivisionJustified (left right : JsBigInt) : Prop :=
  ∀ error, left.divRem right = .error error → error.isSize = true →
    ¬ (Represented (left.val.tdiv right.val) ∧
      Represented (left.val.tmod right.val))

theorem division_justified_iff (nonzero : right.val ≠ 0) :
    DivisionJustified left right ↔
      (left.val = minimum → right.val = -1) ∧
        (right.val = minimum → left.val = 0) := by
  have least := minimum_neg
  have fails : left.val = minimum ∨ right.val = minimum → left.val ≠ 0 →
      (left.val = minimum → right.val ≠ -1) →
        ¬ DivisionJustified left right := by
    intro lowest filled apart justified
    obtain ⟨error, failed, size⟩ :=
      divRem_fails leftSmall rightSmall filled nonzero lowest
    have inside := division_inside leftSmall rightSmall nonzero apart
    rw [← represented_iff, ← represented_iff] at inside
    exact justified error failed size inside
  constructor
  · intro justified
    constructor
    · intro lowest
      by_contra other
      exact fails (.inl lowest) (by omega) (fun _ => other) justified
    · intro lowest
      by_contra filled
      refine fails (.inr lowest) filled ?_ justified
      intro _ one
      have below := minimum_lt
      omega
  · rintro ⟨leftCondition, rightCondition⟩ error failed size
    by_cases empty : left.val = 0
    · rw [divRem, isZero_eq_decide, isZero_eq_decide, decide_eq_false nonzero,
        decide_eq_true empty] at failed
      cases failed
    · have rightApart : right.val ≠ minimum :=
        fun lowest => empty (rightCondition lowest)
      by_cases lowest : left.val = minimum
      · rintro ⟨quotient, _⟩
        rw [represented_iff, not_oversized_iff, lowest, leftCondition lowest,
          Int.tdiv_neg, Int.tdiv_one] at quotient
        omega
      · obtain ⟨parts, divided⟩ := divRem_succeeds leftSmall rightSmall empty
          nonzero lowest rightApart
        rw [divided] at failed
        cases failed

theorem mul_error_size {error : BigIntError}
    (failed : left.mul right = .error error) : error.isSize = true := by
  by_cases least : left.val * right.val = minimum
  · obtain ⟨other, again, size⟩ := mul_fails leftSmall rightSmall least
    rw [failed] at again
    cases again
    exact size
  · exact ((mul_exact leftSmall rightSmall least).oversized error failed).1

theorem mulWhen_error_size {wanted : Bool} {error : BigIntError}
    (failed : mulWhen wanted left right = .error error) :
    error.isSize = true := by
  cases wanted with
  | false => cases failed
  | true =>
      rw [mulWhen, if_pos rfl] at failed
      cases product : left.mul right with
      | ok value =>
          rw [product] at failed
          cases failed
      | error other =>
          have size := mul_error_size leftSmall rightSmall product
          rw [product] at failed
          cases other with
          | tooLarge =>
              cases failed
              rfl
          | resultTooLarge =>
              cases failed
              rfl
          | _ => cases size

theorem powLoop_error_size {remaining : Nat} {error : BigIntError}
    (failed : powLoop remaining left right = .error error) :
    error.isSize = true := by
  induction remaining using Nat.strong_induction_on
    generalizing left right with
  | _ remaining induction =>
      rw [powLoop] at failed
      by_cases positive : remaining > 0
      · rw [if_pos positive, Support.bind_eq_error_iff] at failed
        rcases failed with first | ⟨result, multiplied, failed⟩
        · exact mulWhen_error_size leftSmall rightSmall first
        · rw [Support.bind_eq_error_iff] at failed
          rcases failed with second | ⟨base, squared, failed⟩
          · exact mulWhen_error_size rightSmall rightSmall second
          · exact induction _ (by rw [Nat.shiftRight_one]; omega)
              ((mulWhen_val multiplied).2 leftSmall)
              ((mulWhen_val squared).2 rightSmall) failed
      · rw [if_neg positive] at failed
        cases failed

omit rightSmall in
theorem pow_justified_iff (nonneg : 0 ≤ right.val) :
    Justified (left.pow right) (left.val ^ right.val.toNat) ↔
      (2 ^ 64 ≤ right.val → 1 < |left.val|) ∧
        left.val ^ right.val.toNat ≠ minimum := by
  have least := minimum_neg
  have sign : right.isNegative = false := by
    rw [isNegative_eq_decide, decide_eq_false_iff_not]
    omega
  rw [pow, sign, if_neg Bool.false_ne_true]
  cases read : right.toU64 with
  | none =>
      have high := toU64_eq_none nonneg read
      by_cases large : 1 < |left.val|
      · have outside := @oversized_pow _ large right.val.toNat (by omega)
        have apart : left.val ^ right.val.toNat ≠ minimum := by
          intro lowest
          rw [lowest] at outside
          exact not_oversized_minimum outside
        have justified : Justified (.error .resultTooLarge)
            (left.val ^ right.val.toNat) := by
          intro error _ _
          rw [represented_iff, not_not]
          exact outside
        simp [justified, large, apart]
      · have inside : ¬ Oversized (left.val ^ right.val.toNat) := by
          have bounded : |left.val ^ right.val.toNat| ≤ 1 := by
            rw [abs_pow]
            exact pow_le_one₀ (abs_nonneg _) (by omega)
          have above := minimum_lt
          rw [abs_le] at bounded
          rw [not_oversized_iff]
          omega
        have unjustified : ¬ Justified (.error .resultTooLarge)
            (left.val ^ right.val.toNat) :=
          not_justified ⟨_, rfl, rfl⟩ inside
        refine iff_of_false unjustified ?_
        intro condition
        exact large (condition.1 high)
  | some remaining =>
      have exponent := toU64_val read
      have low := toU64_lt read
      have oneLength := length_fromI32 1
      have oneValue : (fromI32 1).val = 1 := val_one
      rw [exponent, Int.toNat_natCast]
      have small : ¬ (2 : Int) ^ 64 ≤ remaining := by omega
      simp only [small, false_imp_iff, true_and]
      constructor
      · intro justified lowest
        refine not_justified ?_ ?_ justified
        · cases taken : powLoop remaining (fromI32 1) left with
          | ok value =>
              have parts := powLoop_denotes oneLength value taken
              rw [oneValue, Int.one_mul, lowest] at parts
              exact absurd parts.1 (powLoop_ne_minimum oneLength leftSmall
                (by rw [oneValue]; omega) taken)
          | error error =>
              exact ⟨error, rfl,
                powLoop_error_size oneLength leftSmall taken⟩
        · rw [lowest]
          exact not_oversized_minimum
      · intro apart error failed _
        rw [represented_iff, not_not]
        by_contra inside
        have bounded : |left.val ^ remaining| < -minimum := by
          rw [not_oversized_iff] at inside
          rw [abs_lt]
          omega
        have sized : size left.val ^ remaining < -minimum := by
          by_cases zero : left.val = 0
          · have one : size left.val = 1 := by
              rw [size, zero]
              rfl
            have above := minimum_lt
            rw [one, one_pow]
            omega
          · have same : size left.val = |left.val| :=
              max_eq_right (Int.one_le_abs zero)
            rw [same, ← abs_pow]
            exact bounded
        have unit : size (fromI32 1).val = 1 := by
          rw [oneValue]
          rfl
        obtain ⟨value, taken⟩ := @powLoop_succeeds remaining _ _ oneLength
          leftSmall (by rw [unit, one_mul]; exact sized)
        rw [taken] at failed
        cases failed

end Magnitudes

section Truncations

/-- The width of the admissible sizes in bits. -/
def maxBits : Nat := 32 * maxLimbs

theorem minimum_eq : minimum = -2 ^ (maxBits - 1) :=
  rfl

theorem truncateToBits_wide (integer : JsBigInt) {bits : Nat}
    (wide : maxBits < bits) :
    integer.truncateToBits bits = .error .tooLarge := by
  rw [maxBits] at wide
  rw [truncateToBits, if_pos (by omega)]

theorem truncateToBits_exact (integer : JsBigInt) {bits : Nat}
    (narrow : bits ≤ maxBits) :
    Exact (integer.truncateToBits bits) (integer.val % 2 ^ bits) := by
  rw [maxBits] at narrow
  rw [truncateToBits, if_neg (by omega)]
  exact integer.lowLimbs_exact bits

theorem two_pow_maxBits_le {bits : Nat} (wide : maxBits ≤ bits + 1) :
    -minimum ≤ 2 ^ bits := by
  rw [minimum_eq, neg_neg]
  exact pow_le_pow_right₀ (by norm_num) (by omega)

theorem two_pow_le_minimum {bits : Nat} (narrow : bits < maxBits) :
    2 ^ bits ≤ -minimum := by
  rw [minimum_eq, neg_neg]
  exact pow_le_pow_right₀ (by norm_num) (by omega)

variable {integer : JsBigInt} (small : integer.limbs.length ≤ maxLimbs)
  (bits : Nat)

include small

theorem asUintN_justified_iff :
    Justified (integer.asUintN bits) (integer.val % 2 ^ bits) ↔
      (maxBits < bits → integer.val < 0) := by
  have range := range_of_length small
  unfold asUintN
  by_cases none : bits = 0
  · rw [if_pos none]
    refine iff_of_true justified_ok ?_
    omega
  · rw [if_neg none]
    by_cases wide : maxBits < bits
    · rw [integer.truncateToBits_wide wide]
      have bound := two_pow_maxBits_le (show maxBits ≤ bits - 1 + 1 by omega)
      have double : (2 : Int) ^ bits = 2 * 2 ^ (bits - 1) := by
        rw [← pow_succ', Nat.sub_add_cancel (by omega)]
      constructor
      · intro justified _
        by_contra nonneg
        refine not_justified ⟨_, rfl, rfl⟩ ?_ justified
        rw [Int.emod_eq_of_lt (by omega) (by omega), not_oversized_iff]
        exact range
      · intro condition error _ _
        have negative := condition wide
        have residue : integer.val % 2 ^ bits = integer.val + 2 ^ bits := by
          rw [← Int.add_emod_right, Int.emod_eq_of_lt (by omega) (by omega)]
        rw [represented_iff, not_not, residue, oversized_iff]
        omega
    · refine iff_of_true ?_ (fun wider => absurd wider wide)
      exact (integer.truncateToBits_exact (by omega)).justified

/-- A signed residue is never larger than the integer. -/
theorem bmod_inside : ¬ Oversized (integer.val.bmod (2 ^ bits)) := by
  have range := range_of_length small
  have positive : 0 < 2 ^ bits := Nat.two_pow_pos bits
  have cast : ((2 ^ bits : Nat) : Int) = 2 ^ bits := by push_cast; rfl
  rw [not_oversized_iff]
  by_cases wide : maxBits < bits
  · have bound := two_pow_maxBits_le (show maxBits ≤ bits - 1 + 1 by omega)
    have double : (2 : Int) ^ bits = 2 * 2 ^ (bits - 1) := by
      rw [← pow_succ', Nat.sub_add_cancel (by omega)]
    rw [Int.bmod_eq_of_le (by rw [cast]; omega) (by rw [cast]; omega)]
    exact range
  · have lower := Int.le_bmod (x := integer.val) positive
    have upper := Int.bmod_lt (x := integer.val) positive
    rw [cast] at lower upper
    have bound : (2 : Int) ^ bits ≤ 2 * -minimum := by
      rw [minimum_eq, neg_neg, ← pow_succ']
      exact pow_le_pow_right₀ (by norm_num) (by
        have filled : 0 < maxBits := by decide
        omega)
    omega

omit small in
theorem asIntN_narrow {bits : Nat} (some : bits ≠ 0)
    (narrow : bits < maxBits) :
    ∃ truncated : JsBigInt, truncated.val = integer.val % 2 ^ bits ∧
      truncated.limbs.length ≤ maxLimbs ∧
      integer.asIntN bits =
        if integer.val.testBit (bits - 1) then
          (fromI32 1).shl bits >>= fun modulus => truncated.sub modulus
        else .ok truncated := by
  have positive : (0 : Int) < 2 ^ bits := by positivity
  have nonneg := Int.emod_nonneg integer.val (ne_of_gt positive)
  have below := Int.emod_lt_of_pos integer.val positive
  have bound := two_pow_le_minimum narrow
  have least := minimum_neg
  obtain ⟨truncated, cut, value, short⟩ :=
    (integer.truncateToBits_exact narrow.le).succeeds (by
      rw [not_oversized_iff]
      omega)
  refine ⟨truncated, value, short, ?_⟩
  have top : truncated.bit (bits - 1) = integer.val.testBit (bits - 1) := by
    have residue := toNat_emod_two_pow_testBit integer.val bits (bits - 1)
    rw [decide_eq_true (show bits - 1 < bits by omega), Bool.true_and]
      at residue
    rw [bit_eq, value, ← residue]
    conv_lhs => rw [← Int.toNat_of_nonneg nonneg]
    rfl
  rw [asIntN, if_neg some, cut, Support.ok_bind, top]

omit small in
/-- A width that leaves room for the modulus. -/
theorem asIntN_succeeds {bits : Nat} (room : bits + 1 < maxBits) :
    ∃ value, integer.asIntN bits = .ok value := by
  by_cases none : bits = 0
  · exact ⟨zero, by rw [asIntN, if_pos none]⟩
  · obtain ⟨truncated, value, short, taken⟩ :=
      @asIntN_narrow integer bits none (by omega)
    rw [taken]
    by_cases set : integer.val.testBit (bits - 1) = true
    · rw [if_pos set]
      have positive : (0 : Int) < 2 ^ bits := by positivity
      have nonneg := Int.emod_nonneg integer.val (ne_of_gt positive)
      have below := Int.emod_lt_of_pos integer.val positive
      have bound := two_pow_le_minimum (show bits + 1 < maxBits by omega)
      have double : (2 : Int) ^ (bits + 1) = 2 * 2 ^ bits := pow_succ' 2 bits
      have least := minimum_neg
      have one : (fromI32 1).val = 1 := val_one
      obtain ⟨modulus, shifted, modulusValue, _⟩ :=
        ((fromI32 1).shl_exact bits).succeeds (by
          rw [one, Int.one_mul, not_oversized_iff]
          omega)
      obtain ⟨difference, subtracted, _⟩ :=
        (truncated.addWithSign_exact modulus true).succeeds (by
          rw [if_pos rfl, value, modulusValue, one, Int.one_mul,
            not_oversized_iff]
          omega)
      refine ⟨difference, ?_⟩
      rw [shifted, Support.ok_bind]
      exact subtracted
    · exact ⟨truncated, if_neg set⟩

theorem asIntN_justified_iff :
    Justified (integer.asIntN bits) (integer.val.bmod (2 ^ bits)) ↔
      bits + 1 < maxBits ∨
        bits + 1 = maxBits ∧ integer.val.testBit (bits - 1) = false ∨
          bits = maxBits ∧ 0 ≤ integer.val := by
  have range := range_of_length small
  have inside := bmod_inside small bits
  have filled : 1 < maxBits := by decide
  by_cases room : bits + 1 < maxBits
  · obtain ⟨value, taken⟩ := @asIntN_succeeds integer bits room
    rw [taken]
    exact iff_of_true justified_ok (.inl room)
  by_cases last : bits + 1 = maxBits
  · obtain ⟨truncated, value, short, taken⟩ :=
      @asIntN_narrow integer bits (by omega) (by omega)
    rw [taken]
    by_cases set : integer.val.testBit (bits - 1) = true
    · rw [if_pos set]
      refine iff_of_false (not_justified ?_ inside) (by simp [set]; omega)
      have outside : ¬ ∃ modulus, (fromI32 1).shl bits = .ok modulus := by
        rintro ⟨modulus, shifted⟩
        have parts := ((fromI32 1).shl_exact bits).denotes modulus shifted
        have bound := two_pow_maxBits_le (show maxBits ≤ bits + 1 by omega)
        have one : (fromI32 1).val = 1 := val_one
        have modulusRange := range_of_length parts.2
        rw [parts.1, one, Int.one_mul] at modulusRange
        omega
      cases shifted : (fromI32 1).shl bits with
      | ok modulus => exact absurd ⟨modulus, shifted⟩ outside
      | error error =>
          exact ⟨error, rfl,
            (((fromI32 1).shl_exact bits).oversized error shifted).1⟩
    · rw [if_neg set]
      rw [Bool.not_eq_true] at set
      exact iff_of_true justified_ok (.inr (.inl ⟨last, set⟩))
  by_cases whole : bits = maxBits
  · have narrow := integer.truncateToBits_exact (Nat.le_of_eq whole)
    have bound := two_pow_maxBits_le (show maxBits ≤ bits - 1 + 1 by omega)
    have double : (2 : Int) ^ bits = 2 * 2 ^ (bits - 1) := by
      rw [← pow_succ', Nat.sub_add_cancel (by omega)]
    have half : (2 : Int) ^ (bits - 1) = -minimum := by
      rw [whole, minimum_eq, neg_neg]
    rw [asIntN, if_neg (by omega)]
    by_cases nonneg : 0 ≤ integer.val
    · rw [Int.emod_eq_of_lt nonneg (by omega)] at narrow
      obtain ⟨truncated, cut, value, _⟩ := narrow.succeeds (by
        rw [not_oversized_iff]
        exact range)
      have clear : truncated.bit (bits - 1) = false := by
        rw [← Bool.not_eq_true, bit_eq, value, testBit_top_iff nonneg (by
          rw [Nat.sub_add_cancel (by omega)]
          omega)]
        omega
      rw [cut, Support.ok_bind, clear, if_neg Bool.false_ne_true]
      exact iff_of_true justified_ok (.inr (.inr ⟨whole, nonneg⟩))
    · refine iff_of_false (not_justified ?_ inside) (by omega)
      have residue : integer.val % 2 ^ bits = integer.val + 2 ^ bits := by
        rw [← Int.add_emod_right, Int.emod_eq_of_lt (by omega) (by omega)]
      cases cut : integer.truncateToBits bits with
      | ok truncated =>
          have parts := narrow.denotes truncated cut
          have truncatedRange := range_of_length parts.2
          rw [parts.1, residue] at truncatedRange
          omega
      | error error =>
          exact ⟨error, rfl, (narrow.oversized error cut).1⟩
  · have wide : maxBits < bits := by omega
    rw [asIntN, if_neg (by omega), integer.truncateToBits_wide wide,
      Support.error_bind]
    refine iff_of_false (not_justified ⟨_, rfl, rfl⟩ inside) (by omega)

end Truncations

/-- A representable value is never too large to render. -/
def RenderingJustified (integer : JsBigInt) (radix : Nat) : Prop :=
  ∀ error, integer.toStringRadix radix = .error error →
    error.isSize = false

theorem rendering_justified_iff {integer : JsBigInt} {radix : Nat}
    (small : integer.limbs.length ≤ maxLimbs)
    (proper : 2 ≤ radix ∧ radix ≤ 36) :
    RenderingJustified integer radix ↔ integer.val ≠ minimum := by
  rcases toStringRadix_eq proper small with ⟨least, error, failed, size⟩ |
    ⟨apart, made⟩
  · refine iff_of_false ?_ (not_not.mpr least)
    intro justified
    rw [justified error failed] at size
    cases size
  · refine iff_of_true ?_ apart
    intro error failed
    rw [made] at failed
    cases failed

/-- For each operation, when its size errors are right. -/
theorem sizeErrors_justified_iff {left right : JsBigInt}
    (leftSmall : left.limbs.length ≤ maxLimbs)
    (rightSmall : right.limbs.length ≤ maxLimbs) (count : Nat) {radix : Nat}
    (proper : 2 ≤ radix ∧ radix ≤ 36) :
    Justified left.neg (-left.val) ∧
    Justified (left.add right) (left.val + right.val) ∧
    Justified (left.sub right) (left.val - right.val) ∧
    (Justified (left.mul right) (left.val * right.val) ↔
      left.val * right.val ≠ minimum) ∧
    (right.val ≠ 0 → (DivisionJustified left right ↔
      (left.val = minimum → right.val = -1) ∧
        (right.val = minimum → left.val = 0))) ∧
    (0 ≤ right.val →
      (Justified (left.pow right) (left.val ^ right.val.toNat) ↔
        (2 ^ 64 ≤ right.val → 1 < |left.val|) ∧
          left.val ^ right.val.toNat ≠ minimum)) ∧
    Justified (left.shl count) (left.val * 2 ^ count) ∧
    Justified (left.shr count) (left.val / 2 ^ count) ∧
    (Justified (left.asIntN count) (left.val.bmod (2 ^ count)) ↔
      count + 1 < maxBits ∨
        count + 1 = maxBits ∧ left.val.testBit (count - 1) = false ∨
          count = maxBits ∧ 0 ≤ left.val) ∧
    (Justified (left.asUintN count) (left.val % 2 ^ count) ↔
      (maxBits < count → left.val < 0)) ∧
    (RenderingJustified left radix ↔ left.val ≠ minimum) :=
  ⟨left.neg_exact.justified, (left.addWithSign_exact right false).justified,
    (left.addWithSign_exact right true).justified,
    mul_justified_iff leftSmall rightSmall,
    division_justified_iff leftSmall rightSmall,
    pow_justified_iff leftSmall, (left.shl_exact count).justified,
    (left.shr_exact count).justified, asIntN_justified_iff leftSmall count,
    asUintN_justified_iff leftSmall count,
    rendering_justified_iff leftSmall proper⟩

theorem sizeErrors_justified_iff_small :
    Justified ((fromI32 5).asUintN 64) ((fromI32 5).val % 2 ^ 64) ↔
      (maxBits < 64 → (fromI32 5).val < 0) :=
  (sizeErrors_justified_iff (length_fromI32 5) (length_fromI32 5) 64
    (show 2 ≤ 10 ∧ 10 ≤ 36 by decide)).2.2.2.2.2.2.2.2.2.1

theorem sizeErrors_fail_on_wide_truncation :
    ¬ Justified ((fromI32 5).asUintN (maxBits + 1))
      ((fromI32 5).val % 2 ^ (maxBits + 1)) := by
  rw [asUintN_justified_iff (length_fromI32 5)]
  intro condition
  have negative := condition (Nat.lt_succ_self maxBits)
  have positive : (fromI32 5).val = 5 := val_fromI32 (by decide)
  omega

end JsBigInt

end Fusor.Runtime
