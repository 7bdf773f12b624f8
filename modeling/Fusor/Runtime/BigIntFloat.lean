import Fusor.Arith.Rounding
import Fusor.Runtime.BigIntRange
import Fusor.Runtime.Value

/-!
# Integers and binary64

An integer is converted by the leading 54 bits of its magnitude and a flag for
the bits below them.  The floating-point operations of the conversion back are
taken exactly, in units of the least positive number.
-/

namespace Fusor.Runtime

open Arith

namespace Binary64

/-- The bits below the sign. -/
def magnitudeBits (bits : Binary64) : Nat :=
  bits.toNat % 2 ^ 63

def biasedExponent (bits : Binary64) : Nat :=
  bits.toNat / 2 ^ 52 % 2 ^ 11

def isFinite (bits : Binary64) : Bool :=
  bits.biasedExponent != 2047

/-- The number in units of the least positive one, where an infinity stands for
the power of two that is next. -/
def exactUnits (bits : Binary64) : Int :=
  if bits.msb then -(units bits.magnitudeBits : Nat)
  else (units bits.magnitudeBits : Nat)

/-- The number is equal to its truncation. -/
def isIntegral (bits : Binary64) : Bool :=
  units bits.magnitudeBits % 2 ^ 1074 == 0

/-- The bits of a magnitude with a sign. -/
def withSign (negative : Bool) (pattern : Nat) : Binary64 :=
  BitVec.ofNat 64 ((if negative then 2 ^ 63 else 0) + pattern)

def infinity (negative : Bool) : Binary64 :=
  if negative then 0xfff0000000000000#64 else 0x7ff0000000000000#64

theorem infinity_eq (negative : Bool) :
    infinity negative = withSign negative infinityBits := by
  cases negative <;> decide

end Binary64

namespace JsBigInt

def leadingZeros (limb : Limb) : Nat :=
  if limb = 0 then 32 else 31 - Nat.log2 limb.toNat

/-- The width of the first nonzero limb from the most significant end on, and
of all limbs below it. -/
def magnitudeBitLength : List Limb → Option Nat
  | [] => none
  | limb :: upper =>
      match magnitudeBitLength upper with
      | some length => some (length + 32)
      | none => if limb = 0 then none else some (32 - leadingZeros limb)

def magnitudeBit (limbs : List Limb) (index : Nat) : Nat :=
  ((limbs[index / 32]?.getD 0) >>> (index % 32) &&& 1).toNat

/-- One bit of the loop of `to_f64`: 54 bits are kept, the others only
noticed. -/
def takeBit (magnitude : List Limb) (exponent : Nat) (state : Nat × Bool)
    (offset : Nat) : Nat × Bool :=
  let bit := magnitudeBit magnitude (exponent - offset)
  if offset < 54 then (state.1 <<< 1 ||| bit, state.2)
  else if bit = 1 then (state.1, true)
  else state

/-- The 54 bits rounded to 53, half to even. -/
def roundSignificand (significand : Nat) (sticky : Bool) : Nat :=
  let rounded := significand >>> 1
  if significand &&& 1 = 1 ∧ (sticky = true ∨ rounded &&& 1 = 1) then
    rounded + 1
  else rounded

def joinBits (negative : Bool) (exponent rounded : Nat) : Binary64 :=
  BitVec.ofNat 64 ((if negative then 1 else 0) <<< 63 |||
    (exponent + 1023) <<< 52 ||| rounded &&& 2 ^ 52 - 1)

/-- The end of `to_f64`, with the carry of the rounding. -/
def assemble (negative : Bool) (exponent rounded : Nat) : Binary64 :=
  if rounded ≥ 2 ^ 53 then
    if exponent + 1 > 1023 then Binary64.infinity negative
    else joinBits negative (exponent + 1) (rounded >>> 1)
  else joinBits negative exponent rounded

def toF64 (integer : JsBigInt) : Binary64 :=
  if integer.isZero then 0#64
  else
    let negative := integer.isNegative
    match integer.magnitude with
    | .error _ => Binary64.infinity negative
    | .ok magnitude =>
        match magnitudeBitLength magnitude with
        | none => 0#64
        | some bitLength =>
            let exponent := bitLength - 1
            if exponent > 1023 then Binary64.infinity negative
            else
              let (significand, sticky) := (List.range bitLength).foldl
                (takeBit magnitude exponent) (0, false)
              let significand :=
                if bitLength < 54 then significand <<< (54 - bitLength)
                else significand
              assemble negative exponent (roundSignificand significand sticky)

def fromI64 (value : Int) : JsBigInt where
  limbs := normalize (Limbs.ofInt 32 value 2)
  normalized := normalize_normalized (by simp [Limbs.ofInt])

def fromU64 (value : Nat) : JsBigInt where
  limbs := normalize (Limbs.ofInt 32 value 2 ++ [0])
  normalized := normalize_normalized (by simp)

def fromF64 (bits : Binary64) : Except BigIntError JsBigInt :=
  if !bits.isFinite then .error .notFinite
  else if !bits.isIntegral then .error .notAnInteger
  else if units bits.magnitudeBits < 2 ^ 63 * 2 ^ 1074 then
    let exact : Nat := units bits.magnitudeBits / 2 ^ 1074
    .ok (fromI64 (if bits.msb then -exact else exact))
  else
    let significand := bits.toNat % 2 ^ 52 ||| 2 ^ 52
    let exponent : Int := bits.biasedExponent - 1023 - 52
    if exponent < 0 then .error .notAnInteger
    else do
      let scaled ← (fromU64 significand).shl exponent.toNat
      scaled.withSign bits.msb

section Leading

theorem log2_add_one_iff {number length : Nat} (positive : 0 < number) :
    length = Nat.log2 number + 1 ↔
      2 ^ (length - 1) ≤ number ∧ number < 2 ^ length ∧ 0 < length := by
  rw [Nat.log2_eq_log_two]
  constructor
  · rintro rfl
    exact ⟨Nat.pow_log_le_self 2 positive.ne',
      Nat.lt_pow_succ_log_self (by decide) number, Nat.succ_pos _⟩
  · rintro ⟨lower, upper, some⟩
    have same : Nat.log 2 number = length - 1 := by
      apply Nat.log_eq_of_pow_le_of_lt_pow lower
      rwa [Nat.sub_add_cancel some]
    omega

theorem magnitudeBitLength_eq (limbs : List Limb) :
    magnitudeBitLength limbs =
      if Limbs.value limbs = 0 then none
      else some (Nat.log2 (Limbs.value limbs) + 1) := by
  induction limbs with
  | nil => rfl
  | cons limb upper induction =>
      rw [magnitudeBitLength, induction]
      have bound := limb.isLt
      by_cases none : Limbs.value upper = 0
      · have whole : Limbs.value (limb :: upper) = limb.toNat := by
          rw [Limbs.value, none]
          omega
        rw [whole, if_pos none]
        by_cases zero : limb = 0
        · rw [zero]
          rfl
        · have positive : limb.toNat ≠ 0 := by
            intro same
            exact zero (BitVec.eq_of_toNat_eq same)
          have small : Nat.log2 limb.toNat < 32 :=
            (Nat.log2_lt positive).mpr bound
          simp only [if_neg zero, if_neg positive, leadingZeros]
          congr 1
          omega
      · have filled : Limbs.value (limb :: upper) ≠ 0 := by
          rw [Limbs.value]
          omega
        rw [if_neg none, if_neg filled]
        simp only [Option.some.injEq]
        apply (log2_add_one_iff (Nat.pos_of_ne_zero filled)).mpr
        obtain ⟨lower, above, _⟩ :=
          (log2_add_one_iff (Nat.pos_of_ne_zero none)).mp rfl
        have least := Nat.mul_le_mul_left (2 ^ 32) lower
        have most := Nat.mul_le_mul_left (2 ^ 32) (Nat.succ_le_of_lt above)
        generalize Nat.log2 (Limbs.value upper) = width at lower above least most
        have power : (2 : Nat) ^ (width + 1 + 32) = 2 ^ 32 * 2 ^ (width + 1) := by
          rw [Nat.pow_add, Nat.mul_comm]
        have half : (2 : Nat) ^ (width + 1 + 32 - 1) =
            2 ^ 32 * 2 ^ (width + 1 - 1) := by
          rw [← Nat.pow_add, Nat.add_sub_cancel, Nat.add_comm 32]
          rfl
        rw [power, half, Limbs.value]
        refine ⟨?_, ?_, Nat.succ_pos _⟩
        · omega
        · omega

theorem magnitudeBit_eq (limbs : List Limb) (index : Nat) :
    magnitudeBit limbs index = Limbs.value limbs / 2 ^ index % 2 := by
  have bit := Limbs.testBit_value (show 0 < 32 by decide) limbs index
  rw [magnitudeBit, BitVec.toNat_and, BitVec.toNat_ushiftRight]
  change _ &&& 1 = _
  rw [Nat.and_one_is_mod, Nat.shiftRight_eq_div_pow, ← Nat.toNat_testBit,
    ← Nat.toNat_testBit, bit, BitVec.getLsbD]

/-- A quotient by a power of two with one bit more. -/
theorem div_two_pow_pred (number : Nat) {count : Nat} (some : 0 < count) :
    number / 2 ^ (count - 1) =
      2 * (number / 2 ^ count) + number / 2 ^ (count - 1) % 2 := by
  have power : 2 ^ count = 2 ^ (count - 1) * 2 := by
    rw [← Nat.pow_succ, Nat.succ_eq_add_one, Nat.sub_add_cancel some]
  have halved : number / 2 ^ count = number / 2 ^ (count - 1) / 2 := by
    rw [power, Nat.div_div_eq_div_mul]
  omega

theorem shiftLeft_or_bit (number : Nat) {bit : Nat} (small : bit < 2) :
    number <<< 1 ||| bit = 2 * number + bit := by
  rw [Nat.shiftLeft_eq, Nat.mul_comm,
    ← Nat.two_pow_add_eq_or_of_lt (show bit < 2 ^ 1 from small), Nat.pow_one]

/-- The bits kept and noticed after some offsets. -/
theorem foldl_takeBit {limbs : List Limb} {length : Nat}
    (bounded : Limbs.value limbs < 2 ^ length) {count : Nat}
    (inside : count ≤ length) :
    (List.range count).foldl (takeBit limbs (length - 1)) (0, false) =
      (Limbs.value limbs / 2 ^ (length - min count 54),
        decide (Limbs.value limbs / 2 ^ (length - count) %
          2 ^ (count - 54) ≠ 0)) := by
  induction count with
  | zero =>
      simp [Nat.div_eq_of_lt bounded]
  | succ count induction =>
      rw [List.range_succ, List.foldl_append, induction (by omega)]
      have place : length - 1 - count = length - count - 1 := by omega
      have next := div_two_pow_pred (Limbs.value limbs)
        (show 0 < length - count by omega)
      have small := Nat.mod_lt (Limbs.value limbs / 2 ^ (length - count - 1))
        (show 0 < 2 by decide)
      have index : length - (count + 1) = length - count - 1 := by omega
      simp only [List.foldl_cons, List.foldl_nil, takeBit, magnitudeBit_eq,
        place]
      by_cases kept : count < 54
      · rw [if_pos kept, shiftLeft_or_bit _ small,
          Nat.min_eq_left (show count ≤ 54 by omega),
          Nat.min_eq_left (show count + 1 ≤ 54 by omega), ← next, index,
          Nat.sub_eq_zero_of_le (show count ≤ 54 by omega),
          Nat.sub_eq_zero_of_le (show count + 1 ≤ 54 by omega)]
        simp [Nat.mod_one]
      · rw [if_neg kept, Nat.min_eq_right (show 54 ≤ count by omega),
          Nat.min_eq_right (show 54 ≤ count + 1 by omega), index]
        have power : 2 ^ (count + 1 - 54) = 2 * 2 ^ (count - 54) := by
          rw [← Nat.pow_succ', Nat.succ_eq_add_one,
            Nat.sub_add_comm (by omega)]
        have residue : Limbs.value limbs / 2 ^ (length - count - 1) %
            2 ^ (count + 1 - 54) =
              2 * (Limbs.value limbs / 2 ^ (length - count) %
                2 ^ (count - 54)) +
                Limbs.value limbs / 2 ^ (length - count - 1) % 2 := by
          have halved : Limbs.value limbs / 2 ^ (length - count - 1) / 2 =
              Limbs.value limbs / 2 ^ (length - count) := by omega
          rw [power, Nat.mod_mul, halved, Nat.add_comm]
        rw [residue]
        by_cases set : Limbs.value limbs / 2 ^ (length - count - 1) % 2 = 1
        · rw [if_pos set, set]
          simp
        · rw [if_neg set, show Limbs.value limbs / 2 ^ (length - count - 1) %
            2 = 0 by omega]
          simp

/-- The significand that is rounded, and whether bits are left below. -/
theorem leading_bits {limbs : List Limb} {length : Nat}
    (bounded : Limbs.value limbs < 2 ^ length) :
    (List.range length).foldl (takeBit limbs (length - 1)) (0, false) =
      (Limbs.value limbs / 2 ^ (length - 54),
        decide (Limbs.value limbs % 2 ^ (length - 54) ≠ 0)) := by
  rw [foldl_takeBit bounded (Nat.le_refl length), Nat.sub_self, Nat.pow_zero,
    Nat.div_one]
  congr 2
  by_cases short : length ≤ 54
  · rw [Nat.min_eq_left short]
    simp [Nat.sub_eq_zero_of_le short]
  · rw [Nat.min_eq_right (by omega)]

end Leading

section Assembling

theorem joinBits_eq (negative : Bool) {exponent rounded : Nat}
    (finite : exponent ≤ 1023) (normal : 2 ^ 52 ≤ rounded)
    (fits : rounded < 2 ^ 53) :
    joinBits negative exponent rounded =
      Binary64.withSign negative (pack (exponent + 1022) rounded) := by
  have fraction : rounded &&& 2 ^ 52 - 1 = rounded - 2 ^ 52 := by
    rw [Nat.and_two_pow_sub_one_eq_mod]
    omega
  have low : (exponent + 1023) <<< 52 ||| rounded - 2 ^ 52 =
      (exponent + 1023) * 2 ^ 52 + (rounded - 2 ^ 52) := by
    rw [Nat.shiftLeft_eq, Nat.mul_comm,
      ← Nat.two_pow_add_eq_or_of_lt (by omega)]
  have high : ∀ sign : Nat, sign <<< 63 |||
      ((exponent + 1023) * 2 ^ 52 + (rounded - 2 ^ 52)) =
        sign * 2 ^ 63 + ((exponent + 1023) * 2 ^ 52 + (rounded - 2 ^ 52)) := by
    intro sign
    rw [Nat.shiftLeft_eq, Nat.mul_comm sign,
      ← Nat.two_pow_add_eq_or_of_lt (by omega)]
  rw [joinBits, Binary64.withSign, fraction, Nat.or_assoc, low, high, pack]
  apply congrArg (BitVec.ofNat 64)
  cases negative
  · simp only [Bool.false_eq_true, if_false]
    omega
  · simp only [if_true]
    omega

/-- The assembled bits are those of the rounded significand, with the carry
into the exponent. -/
theorem assemble_eq (negative : Bool) {exponent rounded : Nat}
    (finite : exponent ≤ 1023) (normal : 2 ^ 52 ≤ rounded)
    (fits : rounded ≤ 2 ^ 53) :
    assemble negative exponent rounded =
      Binary64.withSign negative (pack (exponent + 1022) rounded) := by
  unfold assemble
  by_cases carry : rounded ≥ 2 ^ 53
  · have full : rounded = 2 ^ 53 := by omega
    rw [if_pos carry, full]
    by_cases overflow : exponent + 1 > 1023
    · have last : exponent = 1023 := by omega
      rw [if_pos overflow, Binary64.infinity_eq, last]
      rfl
    · rw [if_neg overflow, Nat.shiftRight_one,
        joinBits_eq negative (by omega) (by norm_num) (by norm_num)]
      apply congrArg (Binary64.withSign negative)
      rw [pack, pack]
      omega
  · rw [if_neg carry, joinBits_eq negative finite normal (by omega)]

end Assembling

section Rounding

/-- The two cases of rounding 54 bits, given what lies below them. -/
theorem roundSignificand_eq (significand : Nat) (sticky : Bool) :
    roundSignificand significand sticky =
      significand / 2 +
        if significand % 2 = 1 ∧
          (sticky = true ∨ ¬ Even (significand / 2)) then 1 else 0 := by
  unfold roundSignificand
  simp only [Nat.shiftRight_one, Nat.and_one_is_mod, Nat.even_iff]
  by_cases up : significand % 2 = 1 ∧
      (sticky = true ∨ ¬ significand / 2 % 2 = 0)
  · rw [if_pos up, if_pos ⟨up.1, up.2.imp_right fun odd => by omega⟩]
  · rw [if_neg up, if_neg, Nat.add_zero]
    rintro ⟨set, below⟩
    exact up ⟨set, below.imp_right fun odd => by omega⟩

theorem roundSignificand_range {significand : Nat}
    (lower : 2 ^ 53 ≤ significand) (upper : significand < 2 ^ 54)
    (sticky : Bool) :
    2 ^ 52 ≤ roundSignificand significand sticky ∧
      roundSignificand significand sticky ≤ 2 ^ 53 := by
  rw [roundSignificand_eq]
  split <;> omega

/-- Rounding of 54 leading bits over a rest that is only noticed. -/
theorem roundsTo_significand {significand low gap scale exponent : Nat}
    {sticky : Bool} (lower : 2 ^ 53 ≤ significand)
    (upper : significand < 2 ^ 54) (finite : exponent ≤ 2045)
    (small : low < gap) (half : gap * scale * 2 = 2 ^ exponent)
    (noticed : sticky = decide (low ≠ 0)) {number : Nat}
    (split : number = significand * (gap * scale) + low * scale) :
    RoundsTo (number : Int)
      (pack exponent (roundSignificand significand sticky)) := by
  have positive : 0 < 2 ^ exponent := Nat.two_pow_pos exponent
  have scaled : 0 < scale := by
    by_contra none
    rw [Nat.eq_zero_of_not_pos none, Nat.mul_zero, Nat.zero_mul] at half
    omega
  have rest : low * scale < gap * scale := Nat.mul_lt_mul_of_pos_right small scaled
  have halves := Nat.div_add_mod significand 2
  have bit := Nat.mod_lt significand (show 0 < 2 by decide)
  have whole : number = significand / 2 * 2 ^ exponent +
      (significand % 2 * (gap * scale) + low * scale) := by
    rw [split, ← half]
    conv_lhs => rw [← halves]
    ring
  have power : ((2 ^ exponent : Nat) : Int) = 2 ^ exponent := by
    push_cast
    rfl
  have cases := @roundsTo_pack Int _ _ _ exponent (significand / 2) number
    ((significand % 2 * (gap * scale) + low * scale : Nat) : Int) (by omega)
    (.inr (by omega)) (by rw [pack, infinityBits]; omega)
    (by rw [whole]; push_cast; ring) (by positivity) (by
      rw [← power, ← half]
      norm_cast
      nlinarith)
  rw [← power, ← half] at cases
  have notice : sticky = true ↔ low ≠ 0 := by
    rw [noticed, decide_eq_true_iff]
  have left : low ≠ 0 → 0 < low * scale := fun some =>
    Nat.mul_pos (Nat.pos_of_ne_zero some) scaled
  rw [roundSignificand_eq]
  by_cases up : significand % 2 = 1 ∧ (sticky = true ∨ ¬ Even (significand / 2))
  · rw [if_pos up, pack_succ]
    apply cases.2
    rw [up.1, Nat.one_mul]
    by_cases some : low = 0
    · right
      refine ⟨?_, (up.2.resolve_left (by simp [notice, some]))⟩
      rw [some]
      push_cast
      ring
    · left
      have more := left some
      norm_cast
      omega
  · rw [if_neg up, Nat.add_zero]
    apply cases.1
    by_cases set : significand % 2 = 1
    · right
      rw [not_and, not_or, notice, not_not, not_not] at up
      obtain ⟨none, even⟩ := up set
      refine ⟨?_, even⟩
      rw [set, none]
      push_cast
      ring
    · left
      rw [show significand % 2 = 0 by omega]
      norm_cast
      omega

/-- The leading bits of a number that is not too large. -/
theorem roundsTo_leading {number length : Nat} (some : 0 < length)
    (lower : 2 ^ (length - 1) ≤ number) (upper : number < 2 ^ length)
    (finite : length ≤ 1024) {significand : Nat}
    (taken : significand = if length < 54 then
      (number / 2 ^ (length - 54)) <<< (54 - length)
      else number / 2 ^ (length - 54)) :
    2 ^ 53 ≤ significand ∧ significand < 2 ^ 54 ∧
      RoundsTo ((number * 2 ^ 1074 : Nat) : Int)
        (pack (length - 1 + 1022) (roundSignificand significand
          (decide (number % 2 ^ (length - 54) ≠ 0)))) := by
  by_cases short : length < 54
  · rw [if_pos short, Nat.sub_eq_zero_of_le short.le, Nat.pow_zero,
      Nat.div_one, Nat.shiftLeft_eq] at taken
    rw [Nat.sub_eq_zero_of_le short.le, Nat.pow_zero, Nat.mod_one]
    have least : 2 ^ (length - 1) * 2 ^ (54 - length) = 2 ^ 53 := by
      rw [← Nat.pow_add]
      congr 1
      omega
    have most : 2 ^ length * 2 ^ (54 - length) = 2 ^ 54 := by
      rw [← Nat.pow_add]
      congr 1
      omega
    have above := Nat.mul_le_mul_right (2 ^ (54 - length)) lower
    have below := Nat.mul_lt_mul_of_pos_right upper
      (Nat.two_pow_pos (54 - length))
    rw [least, ← taken] at above
    rw [most, ← taken] at below
    refine ⟨above, below, ?_⟩
    apply @roundsTo_significand significand 0 1 (2 ^ (1020 + length)) _ _ above
      below (by omega) (by decide) ?_ rfl
    · rw [taken, Nat.zero_mul, Nat.add_zero, Nat.one_mul, Nat.mul_assoc,
        ← Nat.pow_add]
      congr 2
      omega
    · rw [Nat.one_mul, ← Nat.pow_succ]
      congr 1
      omega
  · rw [if_neg short] at taken
    have least : 2 ^ (length - 1) = 2 ^ 53 * 2 ^ (length - 54) := by
      rw [← Nat.pow_add]
      congr 1
      omega
    have most : 2 ^ length = 2 ^ 54 * 2 ^ (length - 54) := by
      rw [← Nat.pow_add]
      congr 1
      omega
    have positive := Nat.two_pow_pos (length - 54)
    have above : 2 ^ 53 ≤ significand := by
      rw [taken, Nat.le_div_iff_mul_le positive, ← least]
      exact lower
    have below : significand < 2 ^ 54 := by
      rw [taken, Nat.div_lt_iff_lt_mul positive, ← most]
      exact upper
    refine ⟨above, below, ?_⟩
    apply @roundsTo_significand significand (number % 2 ^ (length - 54))
      (2 ^ (length - 54)) (2 ^ 1074) _ _ above below (by omega)
      (Nat.mod_lt _ positive) ?_ rfl
    · conv_lhs => rw [← Nat.div_add_mod number (2 ^ (length - 54)), ← taken]
      generalize 2 ^ 1074 = scale
      ring
    · rw [← Nat.pow_add, ← Nat.pow_succ]
      congr 1
      omega

end Rounding

theorem overflowThreshold_le_minimum : (2 : Int) ^ 1024 ≤ -minimum := by
  rw [minimum, neg_neg]
  exact pow_le_pow_right₀ (by norm_num) (by decide)

theorem roundsTo_large {integer : Int} (large : 2 ^ 1024 ≤ |integer|) :
    RoundsTo (|integer| * 2 ^ 1074) infinityBits := by
  apply roundsTo_infinityBits
  exact mul_le_mul_of_nonneg_right large (by positivity)

theorem magnitude_error {integer : JsBigInt} {error : BigIntError}
    (failed : integer.magnitude = .error error) :
    -minimum ≤ |integer.val| := by
  have least := minimum_neg
  rw [magnitude, Support.bind_eq_error_iff] at failed
  rcases failed with absolute | ⟨value, _, impossible⟩
  · rw [abs, isNegative_eq_decide] at absolute
    by_cases negative : integer.val < 0
    · rw [decide_eq_true negative, if_pos rfl] at absolute
      have outside := (integer.neg_exact.oversized error absolute).2
      rw [oversized_iff] at outside
      rw [abs_of_neg negative]
      omega
    · rw [decide_eq_false negative, if_neg Bool.false_ne_true] at absolute
      cases absolute
  · cases impossible

/-- The conversion rounds the magnitude and keeps the sign. -/
theorem toF64_roundsTo (integer : JsBigInt) :
    ∃ pattern, RoundsTo (|integer.val| * 2 ^ 1074) pattern ∧
      integer.toF64 =
        Binary64.withSign (decide (integer.val < 0)) pattern := by
  unfold toF64
  rw [isZero_eq_decide]
  by_cases zero : integer.val = 0
  · refine ⟨0, ?_, ?_⟩
    · have exact : |integer.val| * 2 ^ 1074 = (units 0 : Int) := by
        rw [zero, abs_zero, zero_mul]
        rfl
      rw [exact]
      exact roundsTo_units (Nat.zero_le _)
    · rw [decide_eq_true zero, if_pos rfl, zero]
      rfl
  · rw [decide_eq_false zero, if_neg Bool.false_ne_true]
    simp only [isNegative_eq_decide]
    cases taken : integer.magnitude with
    | error error =>
        refine ⟨infinityBits, roundsTo_large ?_, Binary64.infinity_eq _⟩
        exact overflowThreshold_le_minimum.trans (magnitude_error taken)
    | ok limbs =>
        obtain ⟨filled, value⟩ := magnitude_value taken
        have positive : 0 < Limbs.value limbs := by
          have size := abs_pos.mpr zero
          omega
        simp only [magnitudeBitLength_eq, if_neg positive.ne']
        obtain ⟨lower, upper, some⟩ := (log2_add_one_iff positive).mp rfl
        generalize Nat.log2 (Limbs.value limbs) + 1 = length at lower upper some
        by_cases large : length - 1 > 1023
        · rw [if_pos large]
          refine ⟨infinityBits, roundsTo_large ?_, Binary64.infinity_eq _⟩
          rw [← value]
          have grows : (2 : Int) ^ 1024 ≤ 2 ^ (length - 1) :=
            pow_le_pow_right₀ (by norm_num) (by omega)
          have cast : (2 : Int) ^ (length - 1) ≤ Limbs.value limbs := by
            exact_mod_cast lower
          exact grows.trans cast
        · rw [if_neg large, leading_bits upper]
          obtain ⟨above, below, rounds⟩ := roundsTo_leading some lower upper
            (by omega) rfl
          obtain ⟨least, most⟩ := roundSignificand_range above below
            (decide (Limbs.value limbs % 2 ^ (length - 54) ≠ 0))
          refine ⟨_, ?_, assemble_eq _ (by omega) least most⟩
          rw [← value]
          exact_mod_cast rounds

section Back

theorem val_fromI64 {value : Int} (lower : -2 ^ 63 ≤ value)
    (upper : value < 2 ^ 63) : (fromI64 value).val = value := by
  rw [val, fromI64, toInt_normalize]
  exact Limbs.toInt_ofInt (by decide) (by decide) lower upper

theorem val_fromU64 {value : Nat} (small : value < 2 ^ 64) :
    (fromU64 value).val = value := by
  rw [val, fromU64, toInt_normalize, toInt_append_zero]
  have limbs : Limbs.ofInt 32 (value : Int) 2 =
      [BitVec.ofInt 32 value, BitVec.ofInt 32 (value / 2 ^ 32)] := by
    simp [Limbs.ofInt, List.range_succ]
  rw [limbs]
  simp only [Limbs.value, BitVec.toNat_ofInt]
  omega

theorem magnitudeBits_eq (bits : Binary64) :
    bits.magnitudeBits =
      bits.biasedExponent * 2 ^ 52 + bits.toNat % 2 ^ 52 := by
  unfold Binary64.magnitudeBits Binary64.biasedExponent
  omega

theorem isZero_eq (bits : Binary64) :
    bits.isZero = decide (bits.magnitudeBits = 0) := by
  have mask : (0x7fffffffffffffff#64 : Binary64).toNat = 2 ^ 63 - 1 := by
    decide
  rw [Bool.eq_iff_iff, decide_eq_true_iff, Binary64.isZero, beq_iff_eq,
    ← BitVec.toNat_inj, BitVec.toNat_and, mask,
    Nat.and_two_pow_sub_one_eq_mod]
  rfl

theorem magnitudeBits_lt {bits : Binary64} (finite : bits.isFinite = true) :
    bits.magnitudeBits < infinityBits := by
  have field : bits.biasedExponent ≠ 2047 := by
    simpa [Binary64.isFinite] using finite
  have small : bits.biasedExponent < 2 ^ 11 := Nat.mod_lt _ (by decide)
  rw [magnitudeBits_eq, infinityBits]
  omega

theorem withSign_magnitudeBits (bits : Binary64) :
    Binary64.withSign bits.msb bits.magnitudeBits = bits := by
  have bound := bits.isLt
  apply BitVec.eq_of_toNat_eq
  rw [Binary64.withSign, BitVec.toNat_ofNat, Binary64.magnitudeBits,
    BitVec.msb_eq_decide]
  by_cases sign : 2 ^ (64 - 1) ≤ bits.toNat
  · rw [decide_eq_true sign, if_pos rfl]
    omega
  · rw [decide_eq_false sign, if_neg Bool.false_ne_true]
    omega

theorem units_magnitudeBits {bits : Binary64}
    (normal : bits.biasedExponent ≠ 0) :
    units bits.magnitudeBits =
      (2 ^ 52 + bits.toNat % 2 ^ 52) * 2 ^ (bits.biasedExponent - 1) := by
  have fraction := Nat.mod_lt bits.toNat (show 0 < 2 ^ 52 by decide)
  have packed : bits.magnitudeBits = pack (bits.biasedExponent - 1)
      (2 ^ 52 + bits.toNat % 2 ^ 52) := by
    rw [magnitudeBits_eq, pack]
    omega
  rw [packed, units_pack (by omega) (.inr (by omega))]

/-- A large number has an exponent of its own. -/
theorem biasedExponent_large {bits : Binary64}
    (large : 2 ^ 63 * 2 ^ 1074 ≤ units bits.magnitudeBits) :
    1075 ≤ bits.biasedExponent := by
  by_contra low
  have fraction := Nat.mod_lt bits.toNat (show 0 < 2 ^ 52 by decide)
  have below : bits.magnitudeBits < pack 1074 (2 ^ 52) := by
    rw [magnitudeBits_eq, pack]
    omega
  have bound := units_strictMono below
  rw [units_pack (by norm_num) (.inr (Nat.le_refl _))] at bound
  have order : 2 ^ 52 * 2 ^ 1074 ≤ 2 ^ 63 * 2 ^ 1074 :=
    Nat.mul_le_mul_right _ (by norm_num)
  omega

theorem or_two_pow (number : Nat) :
    number % 2 ^ 52 ||| 2 ^ 52 = 2 ^ 52 + number % 2 ^ 52 := by
  have small := Nat.mod_lt number (show 0 < 2 ^ 52 by decide)
  have joined := Nat.two_pow_add_eq_or_of_lt small 1
  rw [Nat.mul_one] at joined
  rw [Nat.or_comm, ← joined]

/-- An integral number is converted to the integer it denotes. -/
theorem fromF64_exact {bits : Binary64} (finite : bits.isFinite = true)
    (integral : bits.isIntegral = true) :
    ∃ value size, fromF64 bits = .ok value ∧
      units bits.magnitudeBits = size * 2 ^ 1074 ∧
      value.val = if bits.msb then -(size : Int) else size := by
  have divides : units bits.magnitudeBits % 2 ^ 1074 = 0 :=
    beq_iff_eq.mp integral
  unfold fromF64
  rw [finite, integral, Bool.not_true, if_neg Bool.false_ne_true,
    if_neg Bool.false_ne_true]
  by_cases small : units bits.magnitudeBits < 2 ^ 63 * 2 ^ 1074
  · rw [if_pos small]
    refine ⟨_, units bits.magnitudeBits / 2 ^ 1074, rfl, ?_, ?_⟩
    · exact (Nat.div_mul_cancel (Nat.dvd_of_mod_eq_zero divides)).symm
    · have bound : units bits.magnitudeBits / 2 ^ 1074 < 2 ^ 63 :=
        Nat.div_lt_of_lt_mul (by rw [Nat.mul_comm]; exact small)
      generalize units bits.magnitudeBits / 2 ^ 1074 = exact at bound
      apply val_fromI64
      · split <;> omega
      · split <;> omega
  · rw [if_neg small]
    have large := biasedExponent_large (Nat.le_of_not_lt small)
    have field : bits.biasedExponent < 2047 := by
      have below := magnitudeBits_lt finite
      rw [magnitudeBits_eq, infinityBits] at below
      omega
    have fraction := Nat.mod_lt bits.toNat (show 0 < 2 ^ 52 by decide)
    have magnitude := @val_fromU64 (2 ^ 52 + bits.toNat % 2 ^ 52) (by omega)
    have shift : ((bits.biasedExponent : Int) - 1023 - 52).toNat =
        bits.biasedExponent - 1075 := by omega
    have least := minimum_neg
    have cast : ((2 ^ 52 + bits.toNat % 2 ^ 52 : Nat) : Int) *
        2 ^ (bits.biasedExponent - 1075) < -minimum :=
      calc ((2 ^ 52 + bits.toNat % 2 ^ 52 : Nat) : Int) *
            2 ^ (bits.biasedExponent - 1075)
          < 2 ^ 53 * 2 ^ (bits.biasedExponent - 1075) := by
            apply mul_lt_mul_of_pos_right _ (by positivity)
            omega
        _ = 2 ^ (53 + (bits.biasedExponent - 1075)) := (pow_add _ _ _).symm
        _ ≤ 2 ^ 1024 := pow_le_pow_right₀ (by norm_num) (by omega)
        _ ≤ -minimum := overflowThreshold_le_minimum
    have nonneg : (0 : Int) ≤ ((2 ^ 52 + bits.toNat % 2 ^ 52 : Nat) : Int) *
        2 ^ (bits.biasedExponent - 1075) :=
      mul_nonneg (Int.natCast_nonneg _) (pow_nonneg (by decide) _)
    obtain ⟨scaled, shifted, scaledValue, short⟩ :=
      ((fromU64 (2 ^ 52 + bits.toNat % 2 ^ 52)).shl_exact
        (bits.biasedExponent - 1075)).succeeds (by
          rw [magnitude, not_oversized_iff]
          omega)
    rw [magnitude] at scaledValue
    obtain ⟨value, signed, exact, _⟩ :=
      (withSign_exact scaledValue short bits.msb).succeeds (by
        rw [not_oversized_iff]
        split <;> omega)
    refine ⟨value, (2 ^ 52 + bits.toNat % 2 ^ 52) *
      2 ^ (bits.biasedExponent - 1075), ?_, ?_, ?_⟩
    · simp only [or_two_pow]
      rw [if_neg (by omega), shift, shifted, Support.ok_bind, signed]
    · have power : bits.biasedExponent - 1 =
          bits.biasedExponent - 1075 + 1074 := by omega
      rewrite [units_magnitudeBits (by omega), power, Nat.pow_add]
      exact (Nat.mul_assoc _ _ _).symm
    · rw [exact]
      push_cast
      rfl

end Back

/-- The conversion to binary64 rounds the magnitude to the nearest number,
half to even, and an integral number is converted to an integer and back. -/
theorem toF64_correct :
    (∀ integer : JsBigInt, ∃ pattern,
      RoundsTo (|integer.val| * 2 ^ 1074) pattern ∧
        integer.toF64 =
          Binary64.withSign (decide (integer.val < 0)) pattern) ∧
    ∀ bits : Binary64, bits.isFinite = true → bits.isIntegral = true →
      ∃ integer, fromF64 bits = .ok integer ∧
        integer.toF64 = if bits.isZero then 0#64 else bits := by
  refine ⟨toF64_roundsTo, ?_⟩
  intro bits finite integral
  obtain ⟨value, size, converted, exact, signed⟩ :=
    fromF64_exact finite integral
  refine ⟨value, converted, ?_⟩
  obtain ⟨pattern, rounds, bitsOf⟩ := toF64_roundsTo value
  have magnitude : |value.val| * 2 ^ 1074 =
      (units bits.magnitudeBits : Int) := by
    rw [exact, signed, Nat.cast_mul, Nat.cast_pow, Nat.cast_ofNat]
    cases bits.msb
    · rw [if_neg Bool.false_ne_true, Nat.abs_cast]
    · rw [if_pos rfl, abs_neg, Nat.abs_cast]
  rw [magnitude] at rounds
  have same := rounds.unique (roundsTo_units (magnitudeBits_lt finite).le)
  rw [bitsOf, same]
  rw [isZero_eq]
  by_cases none : bits.magnitudeBits = 0
  · have empty : size = 0 := by
      rw [none] at exact
      exact (Nat.mul_eq_zero.mp exact.symm).resolve_right (by positivity)
    rw [decide_eq_true none, if_pos rfl, none, signed, empty]
    cases bits.msb <;> rfl
  · have filled : 0 < size := by
      by_contra empty
      rw [Nat.eq_zero_of_not_pos empty, Nat.zero_mul] at exact
      exact none (units_strictMono.injective exact)
    have sign : decide (value.val < 0) = bits.msb := by
      rw [signed]
      cases bits.msb
      · rw [if_neg Bool.false_ne_true, decide_eq_false_iff_not]
        omega
      · rw [if_pos rfl, decide_eq_true_iff]
        omega
    rw [decide_eq_false none, if_neg Bool.false_ne_true, sign,
      withSign_magnitudeBits]

theorem toF64_correct_three :
    ∃ integer, fromF64 0x4008000000000000#64 = .ok integer ∧
      integer.toF64 =
        if Binary64.isZero 0x4008000000000000#64 then 0#64
        else 0x4008000000000000#64 :=
  toF64_correct.2 0x4008000000000000#64 (by decide +kernel)
    (by decide +kernel)

end JsBigInt

end Fusor.Runtime
