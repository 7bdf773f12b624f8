import Fusor.Runtime.BigIntArithmetic

/-!
# Comparison, long division and powers

Magnitudes are compared from the most significant limb down, and divided one
bit at a time: after the bits above a position the partial quotient and the
remainder are those of the dividend shifted down to that position.
-/

namespace Fusor.Runtime

open Arith

namespace JsBigInt

/-- The limb at an index, read off the value. -/
theorem toNat_getElem?_getD (limbs : List Limb) (index : Nat) :
    (limbs[index]?.getD 0).toNat =
      Limbs.value limbs / 2 ^ (32 * index) % 2 ^ 32 := by
  induction limbs generalizing index with
  | nil => simp [Limbs.value]
  | cons limb limbs induction =>
      cases index with
      | zero =>
          rw [Limbs.value, Nat.mul_zero, Nat.pow_zero, Nat.div_one,
            Nat.add_mul_mod_self_left, Nat.mod_eq_of_lt limb.isLt]
          rfl
      | succ index =>
          rw [List.getElem?_cons_succ, induction, Limbs.value,
            Nat.mul_add_one, Nat.add_comm (32 * index), Nat.pow_add,
            ← Nat.div_div_eq_div_mul, Nat.add_mul_div_left _ _ (by decide),
            Nat.div_eq_of_lt limb.isLt, Nat.zero_add]

theorem value_mod_succ (limbs : List Limb) (index : Nat) :
    Limbs.value limbs % 2 ^ (32 * (index + 1)) =
      2 ^ (32 * index) * (limbs[index]?.getD 0).toNat +
        Limbs.value limbs % 2 ^ (32 * index) := by
  rw [toNat_getElem?_getD, Nat.mul_add_one, Nat.pow_add, Nat.mod_mul,
    Nat.add_comm]

theorem compareBelow_eq (left right : List Limb) (index : Nat) :
    compareBelow left right index =
      compare (Limbs.value left % 2 ^ (32 * index))
        (Limbs.value right % 2 ^ (32 * index)) := by
  induction index with
  | zero => simp [compareBelow, Nat.mod_one]
  | succ index induction =>
      have leftLow := Nat.mod_lt (Limbs.value left)
        (Nat.two_pow_pos (32 * index))
      have rightLow := Nat.mod_lt (Limbs.value right)
        (Nat.two_pow_pos (32 * index))
      rw [compareBelow, value_mod_succ, value_mod_succ, induction]
      generalize (left[index]?.getD 0).toNat = leftLimb
      generalize (right[index]?.getD 0).toNat = rightLimb
      generalize Limbs.value left % 2 ^ (32 * index) = leftRest at *
      generalize Limbs.value right % 2 ^ (32 * index) = rightRest at *
      rcases Nat.lt_trichotomy leftLimb rightLimb with below | same | above
      · have scaled := Nat.mul_le_mul_left (2 ^ (32 * index)) below
        rw [Nat.mul_succ] at scaled
        rw [Nat.compare_eq_lt.mpr below]
        exact (Nat.compare_eq_lt.mpr (by omega)).symm
      · subst same
        rw [Nat.compare_eq_eq.mpr rfl]
        rcases Nat.lt_trichotomy leftRest rightRest with below | same | above
        · rw [Nat.compare_eq_lt.mpr below, Nat.compare_eq_lt.mpr (by omega)]
        · rw [Nat.compare_eq_eq.mpr same, Nat.compare_eq_eq.mpr (by omega)]
        · rw [Nat.compare_eq_gt.mpr above, Nat.compare_eq_gt.mpr (by omega)]
      · have scaled := Nat.mul_le_mul_left (2 ^ (32 * index)) above
        rw [Nat.mul_succ] at scaled
        rw [Nat.compare_eq_gt.mpr above]
        exact (Nat.compare_eq_gt.mpr (by omega)).symm

theorem value_mod_of_le {limbs : List Limb} {count : Nat}
    (enough : limbs.length ≤ count) :
    Limbs.value limbs % 2 ^ (32 * count) = Limbs.value limbs :=
  Nat.mod_eq_of_lt (Nat.lt_of_lt_of_le (Limbs.value_lt limbs)
    (Nat.pow_le_pow_right (by decide) (Nat.mul_le_mul_left 32 enough)))

theorem compareMagnitudes_eq (left right : List Limb) :
    compareMagnitudes left right =
      compare (Limbs.value left) (Limbs.value right) := by
  rw [compareMagnitudes, compareBelow_eq,
    value_mod_of_le (Nat.le_max_left _ _),
    value_mod_of_le (Nat.le_max_right _ _)]

theorem length_subtractMagnitude (left right : List Limb) (borrow : Int) :
    (subtractMagnitude left right borrow).length = left.length := by
  induction left generalizing right borrow with
  | nil => rfl
  | cons limb limbs induction =>
      rw [subtractMagnitude]
      split <;> simp [induction]

theorem toNat_ofInt_of_range {integer : Int} (lower : 0 ≤ integer)
    (upper : integer < 2 ^ 32) :
    ((BitVec.ofInt 32 integer).toNat : Int) = integer := by
  rw [BitVec.toNat_ofInt]
  have exact : integer % (2 ^ 32 : Nat) = integer :=
    Int.emod_eq_of_lt lower (by exact_mod_cast upper)
  omega

theorem value_subtractMagnitude {left right : List Limb} {borrow : Int}
    (room : right.length ≤ left.length) (bit : borrow = 0 ∨ borrow = 1) :
    ∃ out : Int, (Limbs.value (subtractMagnitude left right borrow) : Int) =
      Limbs.value left - Limbs.value right - borrow +
        2 ^ (32 * left.length) * out := by
  induction left generalizing right borrow with
  | nil =>
      have empty : right = [] := List.eq_nil_of_length_eq_zero
        (Nat.le_zero.mp room)
      exact ⟨borrow, by simp [subtractMagnitude, Limbs.value, empty]⟩
  | cons limb limbs induction =>
      have leftBound := limb.isLt
      have rightBound := (right.headD 0).isLt
      have split : Limbs.value right =
          (right.headD 0).toNat + 2 ^ 32 * Limbs.value right.tail := by
        cases right with
        | nil => simp [Limbs.value]
        | cons other others => rfl
      have shorter : right.tail.length ≤ limbs.length := by
        simp only [List.length_cons] at room
        rw [List.length_tail]
        omega
      have power : (2 : Int) ^ (32 * (limbs.length + 1)) =
          2 ^ 32 * 2 ^ (32 * limbs.length) := by
        rw [Nat.mul_add_one, pow_add]
        ring
      rw [subtractMagnitude]
      rw [split, List.length_cons, power]
      by_cases borrowed :
          (limb.toNat : Int) - (right.headD 0).toNat - borrow < 0
      · obtain ⟨out, equation⟩ := induction shorter (.inr rfl)
        refine ⟨out, ?_⟩
        rw [if_pos borrowed]
        have digit := @toNat_ofInt_of_range
          ((limb.toNat : Int) - (right.headD 0).toNat - borrow + 2 ^ 32)
          (by omega) (by omega)
        simp only [Limbs.value, Nat.cast_add, Nat.cast_mul, Nat.cast_pow,
          Nat.cast_ofNat]
        linear_combination 2 ^ 32 * equation + digit
      · obtain ⟨out, equation⟩ := induction shorter (.inl rfl)
        refine ⟨out, ?_⟩
        rw [if_neg borrowed]
        have digit := @toNat_ofInt_of_range
          ((limb.toNat : Int) - (right.headD 0).toNat - borrow)
          (by omega) (by omega)
        simp only [Limbs.value, Nat.cast_add, Nat.cast_mul, Nat.cast_pow,
          Nat.cast_ofNat]
        linear_combination 2 ^ 32 * equation + digit

/-- Subtraction without a final borrow. -/
theorem value_subtractMagnitude_of_le {left right : List Limb}
    (room : right.length ≤ left.length)
    (ordered : Limbs.value right ≤ Limbs.value left) :
    Limbs.value (subtractMagnitude left right 0) =
      Limbs.value left - Limbs.value right := by
  obtain ⟨out, equation⟩ := value_subtractMagnitude room (.inl rfl)
  have leftBound : (Limbs.value left : Int) < 2 ^ (32 * left.length) := by
    exact_mod_cast Limbs.value_lt left
  have resultBound : (Limbs.value (subtractMagnitude left right 0) : Int) <
      2 ^ (32 * left.length) := by
    have bound := Limbs.value_lt (subtractMagnitude left right 0)
    rw [length_subtractMagnitude] at bound
    exact_mod_cast bound
  have settled : out = 0 := by
    by_contra nonzero
    rcases Int.lt_or_gt_of_ne nonzero with below | above
    · nlinarith
    · nlinarith
  subst settled
  omega

/-- A left shift joined with the bits shifted in. -/
theorem toNat_shiftLeft_or {limb carry : Limb} {bits : Nat}
    (small : bits < 32) (fits : carry.toNat < 2 ^ bits) :
    ((limb <<< bits) ||| carry).toNat + 2 ^ 32 * (limb >>> (32 - bits)).toNat =
      2 ^ bits * limb.toNat + carry.toNat := by
  have power : 2 ^ 32 = 2 ^ bits * 2 ^ (32 - bits) := by
    rw [← Nat.pow_add]
    congr 1
    omega
  have low : (2 ^ bits * limb.toNat) % 2 ^ 32 =
      2 ^ bits * (limb.toNat % 2 ^ (32 - bits)) := by
    rw [power, Nat.mul_mod_mul_left]
  rw [BitVec.toNat_or, BitVec.toNat_shiftLeft, Nat.shiftLeft_eq,
    Nat.mul_comm limb.toNat, low, ← Nat.two_pow_add_eq_or_of_lt fits,
    BitVec.toNat_ushiftRight, Nat.shiftRight_eq_div_pow, power]
  have halves := Nat.div_add_mod limb.toNat (2 ^ (32 - bits))
  linear_combination 2 ^ bits * halves

theorem length_shiftMagnitudeLeftOne (limbs : List Limb) (carry : Limb) :
    (shiftMagnitudeLeftOne limbs carry).length = limbs.length := by
  induction limbs generalizing carry with
  | nil => rfl
  | cons limb limbs induction => simp [shiftMagnitudeLeftOne, induction]

theorem value_shiftMagnitudeLeftOne {limbs : List Limb} {carry : Limb}
    (bit : carry.toNat < 2) :
    ∃ out, Limbs.value (shiftMagnitudeLeftOne limbs carry) +
      2 ^ (32 * limbs.length) * out = 2 * Limbs.value limbs + carry.toNat := by
  induction limbs generalizing carry with
  | nil =>
      exact ⟨carry.toNat, by simp [shiftMagnitudeLeftOne, Limbs.value]⟩
  | cons limb limbs induction =>
      have high : (limb >>> 31).toNat < 2 := by
        have bound := limb.isLt
        rw [BitVec.toNat_ushiftRight, Nat.shiftRight_eq_div_pow]
        omega
      obtain ⟨out, equation⟩ := induction high
      have digit := @toNat_shiftLeft_or limb carry 1 (by decide) bit
      refine ⟨out, ?_⟩
      simp only [shiftMagnitudeLeftOne, Limbs.value]
      rw [List.length_cons, Nat.mul_add_one, Nat.pow_add]
      linear_combination 2 ^ 32 * equation + digit

theorem and_one_eq_one_iff (limb : Limb) (offset : Nat) :
    limb >>> offset &&& 1 = 1 ↔ limb.getLsbD offset = true := by
  rw [← BitVec.toNat_inj, BitVec.toNat_and, BitVec.toNat_ushiftRight,
    show (1 : Limb).toNat = 1 from rfl, Nat.and_one_is_mod,
    Nat.shiftRight_eq_div_pow, BitVec.getLsbD, Nat.testBit_eq_decide_div_mod_eq,
    decide_eq_true_eq]

theorem value_modify_or (limbs : List Limb) (index offset : Nat)
    (small : offset < 32) (inside : index < limbs.length) (position : Nat) :
    (Limbs.value (limbs.modify index
        (· ||| (1 : Limb) <<< offset))).testBit position =
      ((Limbs.value limbs).testBit position ||
        decide (position = 32 * index + offset)) := by
  rw [Limbs.testBit_value (by decide), Limbs.testBit_value (by decide)]
  have digit := Nat.mod_lt position (show 0 < 32 by decide)
  by_cases here : position / 32 = index
  · have found : limbs[index]? = some limbs[index] :=
      List.getElem?_eq_getElem inside
    have target : position = 32 * index + offset ↔ position % 32 = offset := by
      omega
    rw [here, List.getElem?_modify]
    simp only [↓reduceIte, found, Option.map_eq_map, Option.map_some,
      Option.getD_some, BitVec.getLsbD_or, target]
    congr 1
    rw [BitVec.getLsbD_shiftLeft]
    by_cases same : position % 32 = offset
    · simp [same, small]
    · by_cases below : position % 32 < offset
      · simp [same, below]
      · have later : position % 32 - offset ≠ 0 := by omega
        simp [same, later]
  · have elsewhere : position ≠ 32 * index + offset := by omega
    rw [List.getElem?_modify]
    simp only [if_neg (Ne.symm here), Option.map_eq_map, Option.map_id_fun',
      id_eq, elsewhere, decide_false, Bool.or_false]

/-- Setting a bit below which the value is clear adds its weight. -/
theorem value_modify_add {limbs : List Limb} {bit high : Nat}
    (inside : bit / 32 < limbs.length)
    (clear : Limbs.value limbs = 2 ^ (bit + 1) * high) :
    Limbs.value (limbs.modify (bit / 32)
        (· ||| (1 : Limb) <<< (bit % 32))) =
      2 ^ bit * (2 * high + 1) := by
  have split : 2 ^ bit * (2 * high + 1) = 2 ^ (bit + 1) * high + 2 ^ bit := by
    rw [Nat.pow_succ]
    ring
  have lower : 2 ^ bit < 2 ^ (bit + 1) :=
    Nat.pow_lt_pow_right (by decide) (Nat.lt_succ_self bit)
  have here : 32 * (bit / 32) + bit % 32 = bit := Nat.div_add_mod bit 32
  apply Nat.eq_of_testBit_eq
  intro position
  rw [value_modify_or limbs _ _ (Nat.mod_lt bit (by decide)) inside, clear,
    split, Nat.testBit_two_pow_mul, Nat.testBit_two_pow_mul_add _ lower, here,
    Nat.testBit_two_pow]
  by_cases below : position < bit + 1
  · simp [below, Nat.not_le.mpr below, eq_comm]
  · have different : position ≠ bit := by omega
    simp [below, Nat.le_of_not_lt below, different]

theorem value_modify_one {limbs : List Limb} (filled : 0 < limbs.length)
    {half : Nat} (even : Limbs.value limbs = 2 * half) :
    Limbs.value (limbs.modify 0 (· ||| 1)) = 2 * half + 1 := by
  have set := @value_modify_add limbs 0 half (by simpa using filled)
    (by simpa using even)
  simpa using set

/-- The state of the division after the bits above a position. -/
structure Divided (dividend divisor : List Limb) (bit : Nat)
    (state : List Limb × List Limb) : Prop where
  quotientLength : state.1.length = dividend.length + 1
  remainderLength : state.2.length = divisor.length + dividend.length + 1
  quotient : ∃ partial_, Limbs.value state.1 = 2 ^ bit * partial_ ∧
    Limbs.value dividend / 2 ^ bit =
      partial_ * Limbs.value divisor + Limbs.value state.2
  remainder : Limbs.value state.2 < Limbs.value divisor

theorem bringDown_spec {dividend divisor : List Limb} {bit : Nat}
    {state : List Limb × List Limb}
    (divided : Divided dividend divisor (bit + 1) state) :
    (bringDown dividend bit state.2).length = state.2.length ∧
      Limbs.value (bringDown dividend bit state.2) =
        2 * Limbs.value state.2 + (Limbs.value dividend / 2 ^ bit) % 2 := by
  have length := length_shiftMagnitudeLeftOne state.2 0
  obtain ⟨out, equation⟩ :=
    @value_shiftMagnitudeLeftOne state.2 0 (by decide)
  have wide := divided.remainderLength
  have size : 2 * Limbs.value state.2 < 2 ^ (32 * state.2.length) := by
    have bound := Nat.lt_trans divided.remainder (Limbs.value_lt divisor)
    have room : 2 ^ (32 * divisor.length) * 2 ≤ 2 ^ (32 * state.2.length) := by
      rw [← Nat.pow_succ]
      exact Nat.pow_le_pow_right (by decide) (by omega)
    omega
  have settled : out = 0 := by
    by_contra carried
    have large := Nat.mul_le_mul_left (2 ^ (32 * state.2.length))
      (Nat.one_le_iff_ne_zero.mpr carried)
    simp only [show (0 : Limb).toNat = 0 from rfl] at equation
    omega
  subst settled
  have doubled : Limbs.value (shiftMagnitudeLeftOne state.2 0) =
      2 * Limbs.value state.2 := by
    simpa using equation
  have test : (dividend[bit / 32]?.getD 0) >>> (bit % 32) &&& 1 = 1 ↔
      (Limbs.value dividend / 2 ^ bit) % 2 = 1 := by
    rw [and_one_eq_one_iff, ← Limbs.testBit_value (by decide),
      Nat.testBit_eq_decide_div_mod_eq, decide_eq_true_eq]
  by_cases set : (Limbs.value dividend / 2 ^ bit) % 2 = 1
  · simp only [bringDown, test.mpr set, set, ↓reduceIte]
    exact ⟨by rw [List.length_modify, length],
      value_modify_one (by omega) doubled⟩
  · have clear : (Limbs.value dividend / 2 ^ bit) % 2 = 0 := by omega
    have unset := mt test.mp set
    simp only [bringDown, unset, clear, ↓reduceIte]
    exact ⟨length, doubled⟩

theorem divideBit_divided {dividend divisor : List Limb} {bit : Nat}
    {state : List Limb × List Limb} (inside : bit < dividend.length * 32)
    (divided : Divided dividend divisor (bit + 1) state) :
    Divided dividend divisor bit (divideBit dividend divisor bit state) := by
  have remainderSpec := bringDown_spec divided
  obtain ⟨quotientLength, remainderLength, ⟨high, clear, equation⟩, small⟩ :=
    divided
  have halves : Limbs.value dividend / 2 ^ bit =
      2 * (Limbs.value dividend / 2 ^ (bit + 1)) +
        (Limbs.value dividend / 2 ^ bit) % 2 := by
    rw [Nat.pow_succ, ← Nat.div_div_eq_div_mul]
    omega
  unfold divideBit
  generalize bringDown dividend bit state.2 = remainder at remainderSpec ⊢
  obtain ⟨length, remainderValue⟩ := remainderSpec
  have product : (2 * high + 1) * Limbs.value divisor =
      2 * (high * Limbs.value divisor) + Limbs.value divisor := by ring
  have evenProduct : 2 * high * Limbs.value divisor =
      2 * (high * Limbs.value divisor) := by ring
  simp only [compareMagnitudes_eq]
  by_cases fits : compare (Limbs.value remainder) (Limbs.value divisor) ≠ .lt
  · have ordered : Limbs.value divisor ≤ Limbs.value remainder := by
      rwa [ne_eq, Nat.compare_eq_lt, Nat.not_lt] at fits
    have difference := value_subtractMagnitude_of_le
      (show divisor.length ≤ remainder.length by omega) ordered
    rw [if_pos fits]
    refine ⟨?_, ?_, ⟨2 * high + 1, ?_, ?_⟩, ?_⟩
    · rw [List.length_modify]
      exact quotientLength
    · rw [length_subtractMagnitude, length]
      exact remainderLength
    · exact value_modify_add (by omega) clear
    · simp only [difference]
      omega
    · simp only [difference]
      omega
  · have below : Limbs.value remainder < Limbs.value divisor := by
      rwa [ne_eq, not_not, Nat.compare_eq_lt] at fits
    rw [if_neg fits]
    refine ⟨quotientLength, length.trans remainderLength,
      ⟨2 * high, ?_, ?_⟩, below⟩
    · rw [clear, Nat.pow_succ]
      ring
    · simp only
      omega

theorem divideLoop_divided {dividend divisor : List Limb} {bit : Nat}
    {state : List Limb × List Limb} (inside : bit ≤ dividend.length * 32)
    (divided : Divided dividend divisor bit state) :
    Divided dividend divisor 0 (divideLoop dividend divisor bit state) := by
  induction bit generalizing state with
  | zero => exact divided
  | succ bit induction =>
      rw [divideLoop]
      exact induction (by omega) (divideBit_divided (by omega) divided)

theorem toInt_append_zero (limbs : List Limb) :
    Limbs.toInt (limbs ++ [0]) = Limbs.value limbs := by
  have sign : Limbs.negative (limbs ++ [(0 : Limb)]) = false := by
    simp [Limbs.negative]
  rw [Limbs.toInt, sign, Limbs.value_append]
  simp [Limbs.value]

/-- Long division yields quotient and remainder. -/
theorem divideMagnitudes_toInt {dividend divisor : List Limb}
    (positive : 0 < Limbs.value divisor) :
    let result := divideMagnitudes dividend divisor
    result.1 ≠ [] ∧ result.2 ≠ [] ∧
      Limbs.toInt result.1 = Limbs.value dividend / Limbs.value divisor ∧
      Limbs.toInt result.2 = Limbs.value dividend % Limbs.value divisor := by
  have start : Divided dividend divisor (dividend.length * 32)
      (List.replicate (dividend.length + 1) 0,
        List.replicate (divisor.length + dividend.length + 1) 0) := by
    refine ⟨by simp, by simp, ⟨0, ?_, ?_⟩, ?_⟩
    · rw [Limbs.value_replicate_zero, Nat.mul_zero]
    · rw [Limbs.value_replicate_zero, Nat.zero_mul, Nat.mul_comm]
      exact Nat.div_eq_of_lt (Limbs.value_lt dividend)
    · rwa [Limbs.value_replicate_zero]
  obtain ⟨_, _, ⟨quotient, exact, equation⟩, small⟩ :=
    divideLoop_divided (Nat.le_refl _) start
  simp only [divideMagnitudes]
  generalize divideLoop dividend divisor (dividend.length * 32)
    (List.replicate (dividend.length + 1) 0,
      List.replicate (divisor.length + dividend.length + 1) 0) = state at *
  rw [Nat.pow_zero, Nat.one_mul] at exact
  rw [Nat.pow_zero, Nat.div_one, ← exact] at equation
  have parts : Limbs.value dividend / Limbs.value divisor =
        Limbs.value state.1 ∧
      Limbs.value dividend % Limbs.value divisor = Limbs.value state.2 := by
    rw [equation, Nat.mul_comm]
    exact ⟨by rw [Nat.mul_add_div positive, Nat.div_eq_of_lt small,
        Nat.add_zero],
      by rw [Nat.mul_add_mod, Nat.mod_eq_of_lt small]⟩
  refine ⟨by simp, by simp, ?_, ?_⟩
  · rw [toInt_append_zero, ← parts.1]
    push_cast
    rfl
  · rw [toInt_append_zero, ← parts.2]
    push_cast
    rfl

theorem signed_tdiv (left right : Int) :
    (if decide (left < 0) != decide (right < 0) then -(|left| / |right|)
      else |left| / |right|) = left.tdiv right := by
  have division : ∀ size : Int, 0 ≤ size → ∀ other : Int,
      size / other = size.tdiv other := fun size nonneg other =>
    (Int.tdiv_eq_ediv_of_nonneg nonneg).symm
  rw [division |left| (abs_nonneg left)]
  rcases lt_or_ge left 0 with leftSign | leftSign <;>
    rcases lt_or_ge right 0 with rightSign | rightSign <;>
    simp [leftSign, rightSign, Int.not_lt.mpr, abs_of_neg, abs_of_nonneg,
      Int.neg_tdiv, Int.tdiv_neg]

theorem signed_tmod (left right : Int) :
    (if decide (left < 0) then -(|left| % |right|) else |left| % |right|) =
      left.tmod right := by
  have remainder : ∀ size : Int, 0 ≤ size → ∀ other : Int,
      size % other = size.tmod other := fun size nonneg other =>
    (Int.tmod_eq_emod_of_nonneg nonneg).symm
  rw [remainder |left| (abs_nonneg left)]
  rcases lt_or_ge left 0 with leftSign | leftSign <;>
    rcases lt_or_ge right 0 with rightSign | rightSign <;>
    simp [leftSign, rightSign, Int.not_lt.mpr, abs_of_neg, abs_of_nonneg,
      Int.neg_tmod, Int.tmod_neg]

theorem length_le_of_val_eq {left right : JsBigInt}
    (same : left.val = right.val) :
    right.limbs.length ≤ left.limbs.length := by
  by_contra longer
  obtain ⟨lower, upper⟩ := left.val_range
  have outside := val_outside left.limbs_length_pos (Nat.lt_of_not_le longer)
  rcases outside with below | above
  · linarith
  · linarith

/-- The representation is unique. -/
theorem limbs_eq_iff (left right : JsBigInt) :
    left.limbs = right.limbs ↔ left.val = right.val := by
  constructor
  · intro same
    rw [val, val, same]
  · intro same
    exact Limbs.eq_of_toInt_eq
      (Nat.le_antisymm (length_le_of_val_eq same.symm)
        (length_le_of_val_eq same)) same

theorem isZero_eq_decide (integer : JsBigInt) :
    integer.isZero = decide (integer.val = 0) := by
  rw [Bool.eq_iff_iff, isZero_iff, decide_eq_true_eq, ← val_zero,
    ← limbs_eq_iff]
  rfl

theorem divRem_denotes {left right quotient remainder : JsBigInt}
    (divided : left.divRem right = .ok (quotient, remainder)) :
    (quotient.val = left.val.tdiv right.val ∧
      quotient.limbs.length ≤ maxLimbs) ∧
      remainder.val = left.val.tmod right.val ∧
        remainder.limbs.length ≤ maxLimbs := by
  unfold divRem at divided
  rw [isZero_eq_decide, isZero_eq_decide] at divided
  by_cases rightZero : right.val = 0
  · simp [rightZero] at divided
  by_cases leftZero : left.val = 0
  · simp only [rightZero, leftZero, decide_true, decide_false,
      Bool.false_eq_true, ↓reduceIte, Except.ok.injEq, Prod.mk.injEq]
      at divided
    obtain ⟨rfl, rfl⟩ := divided
    rw [leftZero, Int.zero_tdiv, Int.zero_tmod]
    exact ⟨⟨val_zero, zero_length⟩, val_zero, zero_length⟩
  simp only [rightZero, leftZero, decide_false, Bool.false_eq_true,
    ↓reduceIte, Support.bind_eq_ok_iff, isNegative_eq_decide] at divided
  obtain ⟨dividend, leftTaken, divisor, rightTaken, plainQuotient,
    builtQuotient, plainRemainder, builtRemainder, signedQuotient,
    quotientSign, signedRemainder, remainderSign, finished⟩ := divided
  cases finished
  obtain ⟨_, leftValue⟩ := magnitude_value leftTaken
  obtain ⟨_, rightValue⟩ := magnitude_value rightTaken
  have positive : 0 < Limbs.value divisor := by
    have size := abs_pos.mpr rightZero
    omega
  obtain ⟨quotientFilled, remainderFilled, quotientExact, remainderExact⟩ :=
    @divideMagnitudes_toInt dividend divisor positive
  have quotientParts := fromLimbs_denotes quotientFilled quotientExact
    plainQuotient builtQuotient
  have remainderParts := fromLimbs_denotes remainderFilled remainderExact
    plainRemainder builtRemainder
  rw [leftValue, rightValue] at quotientParts remainderParts
  rw [← signed_tdiv, ← signed_tmod]
  exact ⟨signed_denotes quotientParts _ quotient quotientSign,
    signed_denotes remainderParts _ remainder remainderSign⟩

theorem compare_sub_right (left right shift : Int) :
    compare (left - shift) (right - shift) = compare left right := by
  rcases lt_trichotomy left right with below | same | above
  · rw [compare_lt_iff_lt.mpr below, compare_lt_iff_lt.mpr (by linarith)]
  · rw [compare_eq_iff_eq.mpr same, compare_eq_iff_eq.mpr (by rw [same])]
  · rw [compare_gt_iff_gt.mpr above, compare_gt_iff_gt.mpr (by linarith)]

theorem compare_natCast (left right : Nat) :
    compare (left : Int) right = compare left right := by
  rcases lt_trichotomy left right with below | same | above
  · rw [compare_lt_iff_lt.mpr below,
      compare_lt_iff_lt.mpr (by exact_mod_cast below)]
  · rw [compare_eq_iff_eq.mpr same, compare_eq_iff_eq.mpr (by rw [same])]
  · rw [compare_gt_iff_gt.mpr above,
      compare_gt_iff_gt.mpr (by exact_mod_cast above)]

/-- Among integers of one sign the longer one is further from zero. -/
theorem val_lt_of_length_lt {left right : JsBigInt}
    (shorter : left.limbs.length < right.limbs.length) :
    (0 ≤ right.val → left.val < right.val) ∧
      (right.val < 0 → right.val < left.val) := by
  obtain ⟨lower, upper⟩ := left.val_range
  have half : (0 : Int) < 2 ^ (32 * left.limbs.length - 1) := by positivity
  have outside := val_outside left.limbs_length_pos shorter
  constructor
  · intro nonneg
    rcases outside with below | above
    · linarith
    · linarith
  · intro negative
    rcases outside with below | above
    · linarith
    · linarith

theorem compareBelow_vals {left right : JsBigInt}
    (count : left.limbs.length = right.limbs.length)
    (sign : left.isNegative = right.isNegative) :
    compareBelow left.limbs right.limbs left.limbs.length =
      compare left.val right.val := by
  rw [isNegative_eq, isNegative_eq] at sign
  rw [compareBelow_eq, value_mod_of_le (Nat.le_refl _),
    value_mod_of_le (Nat.le_of_eq count.symm), val, val, Limbs.toInt,
    Limbs.toInt, sign, count, compare_sub_right, compare_natCast]

theorem cmp_of_same_sign {left right : JsBigInt}
    (same : left.isNegative = right.isNegative) :
    left.cmp right =
      match compare left.limbs.length right.limbs.length with
      | .eq => compareBelow left.limbs right.limbs left.limbs.length
      | ordering => if right.isNegative then ordering.swap else ordering := by
  rw [cmp, same]
  cases right.isNegative <;> rfl

theorem cmp_eq (left right : JsBigInt) :
    left.cmp right = compare left.val right.val := by
  have leftSign := left.isNegative_eq_decide
  have rightSign := right.isNegative_eq_decide
  by_cases same : left.isNegative = right.isNegative
  · have agreed : left.val < 0 ↔ right.val < 0 := by
      rwa [leftSign, rightSign, decide_eq_decide] at same
    rw [cmp_of_same_sign same]
    rcases Nat.lt_trichotomy left.limbs.length right.limbs.length with
      shorter | count | longer
    · obtain ⟨larger, smaller⟩ := val_lt_of_length_lt shorter
      rw [Nat.compare_eq_lt.mpr shorter, rightSign]
      by_cases negative : right.val < 0
      · simp only [negative, decide_true, ↓reduceIte]
        exact (compare_gt_iff_gt.mpr (smaller negative)).symm
      · simp only [negative, decide_false, Bool.false_eq_true, ↓reduceIte]
        exact (compare_lt_iff_lt.mpr (larger (by omega))).symm
    · rw [Nat.compare_eq_eq.mpr count]
      exact compareBelow_vals count same
    · obtain ⟨larger, smaller⟩ := val_lt_of_length_lt longer
      rw [Nat.compare_eq_gt.mpr longer, rightSign]
      by_cases negative : right.val < 0
      · simp only [negative, decide_true, ↓reduceIte]
        exact (compare_lt_iff_lt.mpr (smaller (agreed.mpr negative))).symm
      · simp only [negative, decide_false, Bool.false_eq_true, ↓reduceIte]
        exact (compare_gt_iff_gt.mpr (larger (by omega))).symm
  · rw [cmp]
    cases leftCase : left.isNegative with
    | false =>
        cases rightCase : right.isNegative with
        | false => exact absurd (leftCase.trans rightCase.symm) same
        | true =>
            rw [leftCase, eq_comm, decide_eq_false_iff_not] at leftSign
            rw [rightCase, eq_comm, decide_eq_true_eq] at rightSign
            exact (compare_gt_iff_gt.mpr (by omega)).symm
    | true =>
        cases rightCase : right.isNegative with
        | true => exact absurd (leftCase.trans rightCase.symm) same
        | false =>
            rw [leftCase, eq_comm, decide_eq_true_eq] at leftSign
            rw [rightCase, eq_comm, decide_eq_false_iff_not] at rightSign
            exact (compare_lt_iff_lt.mpr (by omega)).symm

theorem or_shiftLeft_limb (low high : Limb) :
    low.toNat ||| high.toNat <<< 32 = low.toNat + 2 ^ 32 * high.toNat := by
  rw [Nat.or_comm, Nat.shiftLeft_eq, Nat.mul_comm,
    ← Nat.two_pow_add_eq_or_of_lt low.isLt, Nat.add_comm]

theorem toU64_val {integer : JsBigInt} {natural : Nat}
    (taken : integer.toU64 = some natural) : integer.val = natural := by
  unfold toU64 at taken
  split at taken
  · cases taken
  rename_i admitted
  rw [Bool.or_eq_true, not_or, Bool.not_eq_true, decide_eq_true_eq] at admitted
  split at taken
  · cases taken
  rename_i fits
  have extension : integer.signExtension = 0 := by
    simp [signExtension, admitted.1]
  rw [Option.some.injEq, or_shiftLeft_limb] at taken
  rw [val_of_nonneg admitted.1, ← taken]
  unfold limb at taken fits ⊢
  rw [extension] at taken fits ⊢
  have short := admitted.2
  rcases equation : integer.limbs with _ | ⟨first, _ | ⟨second, _ | ⟨third,
    _ | _⟩⟩⟩
  · exact absurd equation integer.limbs_ne_nil
  · simp [Limbs.value]
  · simp [Limbs.value]
  · rw [equation] at fits
    have cleared : third = 0 := by simpa using fits
    simp [Limbs.value, cleared]
  · rw [equation] at short
    simp at short

theorem promoteSizeError_eq_ok_iff {α : Type} {result : Except BigIntError α}
    {value : α} :
    promoteSizeError result = .ok value ↔ result = .ok value := by
  rcases result with error | _
  · cases error <;> simp [promoteSizeError]
  · simp [promoteSizeError]

theorem mulWhen_val {wanted : Bool} {left right value : JsBigInt}
    (taken : mulWhen wanted left right = .ok value) :
    value.val = (if wanted then left.val * right.val else left.val) ∧
      (left.limbs.length ≤ maxLimbs → value.limbs.length ≤ maxLimbs) := by
  unfold mulWhen at taken
  split at taken
  · rename_i multiply
    rw [promoteSizeError_eq_ok_iff] at taken
    obtain ⟨exact, small⟩ := left.mul_denotes right value taken
    rw [if_pos multiply]
    exact ⟨exact, fun _ => small⟩
  · rename_i keep
    cases taken
    rw [if_neg keep]
    exact ⟨rfl, id⟩

theorem pow_halves (base : Int) (remaining : Nat) :
    base ^ remaining =
      (if remaining % 2 = 1 then base else 1) * (base * base) ^ (remaining / 2) := by
  have halves := Nat.div_add_mod remaining 2
  rcases Nat.mod_two_eq_zero_or_one remaining with even | odd
  · rw [even, Nat.add_zero] at halves
    rw [even, ← pow_two, ← pow_mul, halves]
    simp
  · rw [odd] at halves
    rw [if_pos odd, ← pow_two, ← pow_mul, ← pow_succ', halves]

/-- Repeated squaring: the result times the base to the remaining power stays
the same. -/
theorem powLoop_denotes {remaining : Nat} {result base : JsBigInt}
    (small : result.limbs.length ≤ maxLimbs) :
    Denotes (powLoop remaining result base)
      (result.val * base.val ^ remaining) := by
  induction remaining using Nat.strong_induction_on
    generalizing result base with
  | _ remaining induction =>
      intro value taken
      rw [powLoop] at taken
      split at taken
      · rename_i positive
        rw [Support.bind_eq_ok_iff] at taken
        obtain ⟨nextResult, multiplied, taken⟩ := taken
        rw [Support.bind_eq_ok_iff] at taken
        obtain ⟨nextBase, squared, taken⟩ := taken
        have resultParts := mulWhen_val multiplied
        have baseParts := mulWhen_val squared
        rw [Nat.shiftRight_one] at taken baseParts
        rw [Nat.and_one_is_mod] at resultParts
        have rest := induction (remaining / 2) (by omega)
          (resultParts.2 small) value taken
        refine ⟨?_, rest.2⟩
        rw [rest.1, resultParts.1, baseParts.1, pow_halves base.val remaining]
        by_cases last : remaining / 2 = 0
        · simp [last]
        · simp [Nat.pos_of_ne_zero last]
          split <;> ring
      · rename_i finished
        cases taken
        have none : remaining = 0 := by omega
        rw [none, pow_zero, Int.mul_one]
        exact ⟨rfl, small⟩

theorem pow_denotes (base exponent : JsBigInt) :
    Denotes (base.pow exponent) (base.val ^ exponent.val.toNat) := by
  intro value taken
  unfold pow at taken
  split at taken
  · cases taken
  · split at taken
    · cases taken
    · rename_i remaining read
      have exact := powLoop_denotes (by decide) value taken
      rw [toU64_val read, Int.toNat_natCast]
      have one : (fromI32 1).val = 1 := val_one
      rwa [one, Int.one_mul] at exact

end JsBigInt

end Fusor.Runtime
