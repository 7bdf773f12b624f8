import Fusor.Runtime.BigInt

/-!
# Exactness of the integer arithmetic

The carry loops compute their sums modulo the width of the result, which is
always wide enough for the mathematical value; products and quotients are
taken of magnitudes.
-/

namespace Fusor.Runtime

open Arith

namespace JsBigInt

theorem shiftRight_eq_one_iff (limb : Limb) :
    (limb >>> 31 == 1) = limb.msb := by
  have bound := limb.isLt
  rw [BitVec.msb_eq_decide, Bool.eq_iff_iff, beq_iff_eq, decide_eq_true_eq,
    ← BitVec.toNat_inj]
  simp only [BitVec.toNat_ushiftRight, Nat.shiftRight_eq_div_pow,
    show (1 : Limb).toNat = 1 from rfl]
  omega

theorem shiftRight_eq_zero_iff (limb : Limb) :
    (limb >>> 31 == 0) = !limb.msb := by
  have bound := limb.isLt
  rw [BitVec.msb_eq_decide, Bool.eq_iff_iff, beq_iff_eq, Bool.not_eq_true',
    decide_eq_false_iff_not, ← BitVec.toNat_inj]
  simp only [BitVec.toNat_ushiftRight, Nat.shiftRight_eq_div_pow,
    show (0 : Limb).toNat = 0 from rfl]
  omega

theorem redundantLimb_iff (top next : Limb) :
    redundantLimb top next = true ↔
      top = if next.msb then BitVec.allOnes 32 else 0 := by
  rw [redundantLimb, shiftRight_eq_one_iff, shiftRight_eq_zero_iff]
  cases next.msb <;> simp

theorem isNegative_eq (integer : JsBigInt) :
    integer.isNegative = Limbs.negative integer.limbs := by
  rw [isNegative, shiftRight_eq_one_iff, topLimb, Limbs.negative]
  cases integer.limbs.getLast? <;> simp

theorem limb_eq (integer : JsBigInt) (index : Nat) :
    integer.limb index = Limbs.limbAt integer.limbs index := by
  rw [limb, signExtension, isNegative_eq, Limbs.limbAt]

theorem window_eq (integer : JsBigInt) (width : Nat) :
    integer.window width = Limbs.extend integer.limbs width := by
  rw [window, Limbs.extend]
  apply List.map_congr_left
  intro index _
  exact integer.limb_eq index

theorem signExtension_eq (integer : JsBigInt) :
    integer.limbs ++ [integer.signExtension] =
      Limbs.extend integer.limbs (integer.limbs.length + 1) := by
  rw [Limbs.extend_succ, signExtension, isNegative_eq]

theorem limbs_ne_nil (integer : JsBigInt) : integer.limbs ≠ [] :=
  integer.normalized.1

theorem toInt_trimLimbs (limbs : List Limb) :
    Limbs.toInt (trimLimbs limbs).reverse = Limbs.toInt limbs.reverse := by
  induction limbs with
  | nil => rfl
  | cons top rest induction =>
      cases rest with
      | nil => rfl
      | cons next rest =>
          rw [trimLimbs]
          split
          · rename_i redundant
            have shorter : (next :: rest).reverse ≠ [] := by simp
            have sign : Limbs.negative (next :: rest).reverse = next.msb := by
              simp [Limbs.negative]
            have extended : (top :: next :: rest).reverse =
                Limbs.extend (next :: rest).reverse
                  ((next :: rest).reverse.length + 1) := by
              rw [Limbs.extend_succ, sign,
                ← (redundantLimb_iff top next).mp redundant,
                List.reverse_cons]
            rw [induction, extended,
              Limbs.toInt_extend (by decide) shorter (Nat.le_succ _)]
          · rfl

theorem toInt_normalize (limbs : List Limb) :
    Limbs.toInt (normalize limbs) = Limbs.toInt limbs := by
  rw [normalize, toInt_trimLimbs, List.reverse_reverse]

theorem val_range (integer : JsBigInt) :
    -2 ^ (32 * integer.limbs.length - 1) ≤ integer.val ∧
      integer.val < 2 ^ (32 * integer.limbs.length - 1) :=
  Limbs.toInt_range (by decide) integer.limbs_ne_nil

/-- Without a redundant limb the value needs all the limbs. -/
theorem val_outside {integer : JsBigInt} {width : Nat} (filled : 0 < width)
    (narrow : width < integer.limbs.length) :
    integer.val < -2 ^ (32 * width - 1) ∨
      2 ^ (32 * width - 1) ≤ integer.val := by
  by_contra inside
  rw [not_or, Int.not_lt, Int.not_le] at inside
  obtain ⟨top, next, rest, reversed⟩ : ∃ top next rest,
      integer.limbs.reverse = top :: next :: rest := by
    rcases equation : integer.limbs.reverse with _ | ⟨top, _ | ⟨next, rest⟩⟩
    · rw [List.reverse_eq_nil_iff] at equation
      exact absurd equation integer.limbs_ne_nil
    · have count := congrArg List.length equation
      simp only [List.length_reverse, List.length_cons, List.length_nil]
        at count
      omega
    · exact ⟨top, next, rest, rfl⟩
  obtain ⟨lower, isLower⟩ : ∃ lower, lower = (next :: rest).reverse := ⟨_, rfl⟩
  have limbs : integer.limbs = lower ++ [top] := by
    rw [← List.reverse_reverse integer.limbs, reversed, List.reverse_cons,
      isLower]
  have count : integer.limbs.length = lower.length + 1 := by simp [limbs]
  have lowerFilled : lower ≠ [] := by simp [isLower]
  have grows : (2 : Int) ^ (32 * width - 1) ≤ 2 ^ (32 * lower.length - 1) :=
    pow_le_pow_right₀ (by norm_num) (by omega)
  have residue : integer.val % 2 ^ (32 * lower.length) =
      Limbs.value lower := by
    have whole := Limbs.toInt_emod integer.limbs
    have divides : (2 : Int) ^ (32 * lower.length) ∣
        2 ^ (32 * integer.limbs.length) :=
      pow_dvd_pow 2 (by omega)
    have small : (Limbs.value lower : Int) < 2 ^ (32 * lower.length) := by
      exact_mod_cast Limbs.value_lt lower
    rw [val, ← Int.emod_emod_of_dvd _ divides, whole, limbs,
      Limbs.value_append]
    push_cast
    rw [Int.add_mul_emod_self_left]
    exact Int.emod_eq_of_lt (Int.natCast_nonneg _) small
  have same : Limbs.toInt lower = integer.val :=
    Limbs.toInt_eq_of_emod (by decide) lowerFilled residue
      (by linarith) (by linarith)
  have extended : Limbs.extend lower (lower.length + 1) = integer.limbs := by
    apply Limbs.eq_of_toInt_eq
    · rw [Limbs.length_extend, count]
    · rw [Limbs.toInt_extend (by decide) lowerFilled (Nat.le_succ _), same, val]
  have sign : Limbs.negative lower = next.msb := by
    simp [isLower, Limbs.negative]
  rw [Limbs.extend_succ, limbs, List.append_cancel_left_eq, List.cons.injEq,
    sign] at extended
  have redundant := (redundantLimb_iff top next).mpr extended.1.symm
  rw [integer.normalized.2 top next rest reversed] at redundant
  cases redundant

theorem limbs_length_pos (integer : JsBigInt) : 0 < integer.limbs.length :=
  List.length_pos_iff.mpr integer.limbs_ne_nil

/-- A value of the admissible size. -/
def Denotes (result : Except BigIntError JsBigInt) (integer : Int) : Prop :=
  ∀ value, result = .ok value →
    value.val = integer ∧ value.limbs.length ≤ maxLimbs

/-- The integer is outside the range of the admissible sizes. -/
def Oversized (integer : Int) : Prop :=
  integer < -2 ^ (32 * maxLimbs - 1) ∨ 2 ^ (32 * maxLimbs - 1) ≤ integer

/-- The integer, or a size error when no admissible size holds it. -/
structure Exact (result : Except BigIntError JsBigInt) (integer : Int) :
    Prop where
  denotes : Denotes result integer
  oversized : ∀ error, result = .error error →
    error.isSize = true ∧ Oversized integer

theorem fromLimbs_exact {limbs : List Limb} (filled : limbs ≠ [])
    {integer : Int} (exact : Limbs.toInt limbs = integer) :
    Exact (fromLimbs limbs) integer := by
  have value := (toInt_normalize limbs).trans exact
  simp only [fromLimbs, if_neg filled]
  by_cases large : (normalize limbs).length > maxLimbs
  · rw [if_pos large]
    constructor
    · intro value impossible
      cases impossible
    · rintro _ ⟨⟩
      have outside := @val_outside
        ⟨normalize limbs, normalize_normalized filled⟩ maxLimbs (by decide)
        large
      rw [val, value] at outside
      exact ⟨rfl, outside⟩
  · rw [if_neg large]
    constructor
    · intro _ built
      cases built
      exact ⟨value, Nat.le_of_not_lt large⟩
    · intro error impossible
      cases impossible

theorem fromLimbs_denotes {limbs : List Limb} (filled : limbs ≠ [])
    {integer : Int} (exact : Limbs.toInt limbs = integer) :
    Denotes (fromLimbs limbs) integer :=
  (fromLimbs_exact filled exact).denotes

theorem isNegative_iff (integer : JsBigInt) :
    integer.isNegative = true ↔ integer.val < 0 := by
  have small : (Limbs.value integer.limbs : Int) <
      2 ^ (32 * integer.limbs.length) := by
    exact_mod_cast Limbs.value_lt integer.limbs
  rw [isNegative_eq, val, Limbs.toInt]
  split
  · rename_i set
    simp only [set, true_iff]
    omega
  · rename_i clear
    simp [clear]

theorem val_of_nonneg {integer : JsBigInt}
    (nonneg : integer.isNegative = false) :
    integer.val = Limbs.value integer.limbs := by
  rw [isNegative_eq] at nonneg
  rw [val, Limbs.toInt, nonneg]
  simp

theorem val_ofSingle_small {limb : Limb} (clear : limb.msb = false) :
    (ofSingle limb).val = limb.toNat := by
  simp [val, ofSingle, Limbs.toInt, Limbs.negative, Limbs.value, clear]

theorem val_zero : zero.val = 0 := by
  rw [zero, val_ofSingle_small (by decide)]
  rfl

theorem val_one : (fromI32 1).val = 1 := by
  rw [fromI32, val_ofSingle_small (by decide)]
  rfl

theorem zero_length : zero.limbs.length ≤ maxLimbs := by
  decide

/-- The value of terms at successive limb positions. -/
def termsValue : List Nat → Nat
  | [] => 0
  | term :: terms => term + 2 ^ 32 * termsValue terms

theorem length_carryLoop (terms : List Nat) (carry : Nat) :
    (carryLoop terms carry).length = terms.length := by
  induction terms generalizing carry with
  | nil => rfl
  | cons term terms induction => simp [carryLoop, induction]

theorem value_carryLoop {terms : List Nat}
    (small : ∀ term ∈ terms, term ≤ 2 ^ 33) {carry : Nat} (bit : carry ≤ 2) :
    ∃ out, Limbs.value (carryLoop terms carry) +
      2 ^ (32 * terms.length) * out = termsValue terms + carry := by
  induction terms generalizing carry with
  | nil => exact ⟨carry, by simp [carryLoop, Limbs.value, termsValue]⟩
  | cons term terms induction =>
      have bound := small term (by simp)
      have exact : (term + carry) % 2 ^ 64 = term + carry :=
        Nat.mod_eq_of_lt (by omega)
      have next : (term + carry) / 2 ^ 32 ≤ 2 := by omega
      obtain ⟨out, equation⟩ := induction
        (fun other member => small other (List.mem_cons_of_mem _ member)) next
      refine ⟨out, ?_⟩
      have halves := Nat.div_add_mod (term + carry) (2 ^ 32)
      simp only [carryLoop, exact, Limbs.value, BitVec.toNat_ofNat, termsValue]
      rw [List.length_cons, Nat.mul_add_one, Nat.pow_add]
      calc
        (term + carry) % 2 ^ 32 + 2 ^ 32 *
              Limbs.value (carryLoop terms ((term + carry) / 2 ^ 32)) +
            2 ^ (32 * terms.length) * 2 ^ 32 * out =
          (term + carry) % 2 ^ 32 + 2 ^ 32 *
            (Limbs.value (carryLoop terms ((term + carry) / 2 ^ 32)) +
              2 ^ (32 * terms.length) * out) := by ring
        _ = term + 2 ^ 32 * termsValue terms + carry := by
          rw [equation]
          omega

theorem termsValue_map (indices : List Nat) (first second : Nat → Limb) :
    termsValue (indices.map fun index =>
        (first index).toNat + (second index).toNat) =
      Limbs.value (indices.map first) + Limbs.value (indices.map second) := by
  induction indices with
  | nil => rfl
  | cons index indices induction =>
      simp only [List.map_cons, termsValue, Limbs.value, induction]
      ring

theorem termsValue_toNat (limbs : List Limb) :
    termsValue (limbs.map BitVec.toNat) = Limbs.value limbs := by
  induction limbs with
  | nil => rfl
  | cons limb limbs induction =>
      simp only [List.map_cons, termsValue, Limbs.value, induction]

theorem value_complement (limbs : List Limb) :
    Limbs.value (limbs.map (~~~·)) + Limbs.value limbs + 1 =
      2 ^ (32 * limbs.length) := by
  induction limbs with
  | nil => rfl
  | cons limb limbs induction =>
      have bound := limb.isLt
      have low : (~~~limb).toNat + limb.toNat + 1 = 2 ^ 32 := by
        rw [BitVec.toNat_not]
        omega
      rw [List.map_cons, Limbs.value, Limbs.value, List.length_cons,
        Nat.mul_add_one, Nat.pow_add, ← induction]
      linarith

theorem two_pow_succ_limb {count : Nat} (filled : 0 < count) :
    (2 : Int) ^ (32 * (count + 1) - 1) =
      2 ^ 32 * 2 ^ (32 * count - 1) := by
  rw [← pow_add]
  congr 1
  omega

/-- The value in a window at least as wide as the integer. -/
theorem val_eq_extend (integer : JsBigInt) {width : Nat}
    (enough : integer.limbs.length ≤ width) :
    ∃ multiple : Int, integer.val =
      Limbs.value (Limbs.extend integer.limbs width) +
        2 ^ (32 * width) * multiple := by
  have extended := Limbs.toInt_extend (by decide) integer.limbs_ne_nil enough
  rw [val, ← extended, Limbs.toInt, Limbs.length_extend]
  split
  · exact ⟨-1, by ring⟩
  · exact ⟨0, by ring⟩

theorem val_range_of_le (integer : JsBigInt) {width : Nat}
    (enough : integer.limbs.length ≤ width) :
    -2 ^ (32 * width - 1) ≤ integer.val ∧
      integer.val < 2 ^ (32 * width - 1) := by
  obtain ⟨lower, upper⟩ := integer.val_range
  have grows : (2 : Int) ^ (32 * integer.limbs.length - 1) ≤
      2 ^ (32 * width - 1) :=
    pow_le_pow_right₀ (by norm_num) (by omega)
  constructor <;> linarith

/-- A carry loop over terms whose sum is the integer up to the width. -/
theorem carryLoop_exact {terms : List Nat} (filled : 0 < terms.length)
    (small : ∀ term ∈ terms, term ≤ 2 ^ 33) {carry : Nat} (bit : carry ≤ 2)
    {integer multiple : Int}
    (congruent : integer = termsValue terms + carry +
      2 ^ (32 * terms.length) * multiple)
    (lower : -2 ^ (32 * terms.length - 1) ≤ integer)
    (upper : integer < 2 ^ (32 * terms.length - 1)) :
    Exact (fromLimbs (carryLoop terms carry)) integer := by
  have count := length_carryLoop terms carry
  have nonempty : carryLoop terms carry ≠ [] :=
    List.ne_nil_of_length_pos (by omega)
  obtain ⟨out, sum⟩ := value_carryLoop small bit
  zify at sum
  refine fromLimbs_exact nonempty ?_
  refine @Limbs.toInt_eq_of_congruent 32 (by decide) _ nonempty _
    (out + multiple) ?_ (by rwa [count]) (by rwa [count])
  rw [count]
  linear_combination congruent - sum

theorem neg_exact (integer : JsBigInt) :
    Exact integer.neg (-integer.val) := by
  have filled := List.length_pos_iff.mpr integer.limbs_ne_nil
  obtain ⟨lower, upper⟩ := integer.val_range
  have room := two_pow_succ_limb filled
  have half : (0 : Int) < 2 ^ (32 * integer.limbs.length - 1) := by positivity
  obtain ⟨multiple, equation⟩ := integer.val_eq_extend
    (show integer.limbs.length ≤ integer.limbs.length + 1 by omega)
  have complement := value_complement
    (Limbs.extend integer.limbs (integer.limbs.length + 1))
  have terms : ((integer.window (integer.limbs.length + 1)).map fun limb =>
      (~~~limb).toNat) =
      ((Limbs.extend integer.limbs (integer.limbs.length + 1)).map
        (~~~·)).map BitVec.toNat := by
    rw [window_eq, List.map_map]
    rfl
  rw [neg, terms]
  refine @carryLoop_exact _ (by simp) ?_ _ (by decide) _ (-1 - multiple)
    ?_ ?_ ?_
  · intro term member
    obtain ⟨limb, _, rfl⟩ := List.mem_map.mp member
    have bound := limb.isLt
    omega
  · rw [termsValue_toNat]
    simp only [List.length_map, Limbs.length_extend] at complement ⊢
    zify at complement
    push_cast
    linear_combination -equation - complement
  · simp only [List.length_map, Limbs.length_extend]
    rw [room]
    linarith
  · simp only [List.length_map, Limbs.length_extend]
    rw [room]
    linarith

theorem extend_not (limbs : List Limb) (width : Nat) :
    (List.range width).map (fun index => ~~~Limbs.limbAt limbs index) =
      (Limbs.extend limbs width).map (~~~·) := by
  rw [Limbs.extend, List.map_map]
  rfl

theorem addWithSign_exact (left right : JsBigInt) (subtract : Bool) :
    Exact (left.addWithSign right subtract)
      (if subtract then left.val - right.val else left.val + right.val) := by
  obtain ⟨width, wide⟩ :
      ∃ width, width = max left.limbs.length right.limbs.length := ⟨_, rfl⟩
  have filled : 0 < width := by
    have nonempty := List.length_pos_iff.mpr left.limbs_ne_nil
    omega
  have leftRange := @val_range_of_le left width (by omega)
  have rightRange := @val_range_of_le right width (by omega)
  have room := two_pow_succ_limb filled
  have half : (0 : Int) < 2 ^ (32 * width - 1) := by positivity
  obtain ⟨leftMultiple, leftEquation⟩ :=
    left.val_eq_extend (show left.limbs.length ≤ width + 1 by omega)
  obtain ⟨rightMultiple, rightEquation⟩ :=
    right.val_eq_extend (show right.limbs.length ≤ width + 1 by omega)
  have complement := value_complement (Limbs.extend right.limbs (width + 1))
  rw [Limbs.length_extend] at complement
  have small : ∀ term ∈ (List.range (width + 1)).map fun index =>
      (left.limb index).toNat + (if subtract then ~~~right.limb index
        else right.limb index).toNat, term ≤ 2 ^ 33 := by
    intro term member
    obtain ⟨index, _, rfl⟩ := List.mem_map.mp member
    have leftBound := (left.limb index).isLt
    have rightBound := (if subtract then ~~~right.limb index
      else right.limb index).isLt
    omega
  have count : ((List.range (width + 1)).map fun index =>
      (left.limb index).toNat + (if subtract then ~~~right.limb index
        else right.limb index).toNat).length = width + 1 := by
    simp
  rw [addWithSign, ← wide]
  cases subtract with
  | false =>
      refine @carryLoop_exact _ (by omega) small _ (by decide) _
        (leftMultiple + rightMultiple) ?_ ?_ ?_
      · rw [count]
        simp only [Bool.false_eq_true, ↓reduceIte, limb_eq]
        rw [termsValue_map]
        unfold Limbs.extend at leftEquation rightEquation
        push_cast
        linear_combination leftEquation + rightEquation
      · rw [count, room]
        simp only [Bool.false_eq_true, ↓reduceIte]
        linarith
      · rw [count, room]
        simp only [Bool.false_eq_true, ↓reduceIte]
        linarith
  | true =>
      refine @carryLoop_exact _ (by omega) small _ (by decide) _
        (leftMultiple - 1 - rightMultiple) ?_ ?_ ?_
      · rw [count]
        simp only [↓reduceIte, limb_eq]
        rw [termsValue_map, extend_not]
        unfold Limbs.extend at leftEquation rightEquation complement ⊢
        zify at complement
        push_cast
        linear_combination leftEquation - rightEquation - complement
      · rw [count, room]
        simp only [↓reduceIte]
        linarith
      · rw [count, room]
        simp only [↓reduceIte]
        linarith

theorem length_propagate (product : List Limb) (carry : Nat) :
    (propagate product carry).length = product.length := by
  induction product generalizing carry with
  | nil => cases carry <;> rfl
  | cons current product induction =>
      cases carry with
      | zero => rfl
      | succ carry => simp [propagate, induction]

theorem value_propagate {product : List Limb} {carry : Nat}
    (small : carry < 2 ^ 32) :
    ∃ out, Limbs.value (propagate product carry) +
      2 ^ (32 * product.length) * out = Limbs.value product + carry := by
  induction product generalizing carry with
  | nil => exact ⟨carry, by cases carry <;> simp [propagate, Limbs.value]⟩
  | cons current product induction =>
      cases carry with
      | zero => exact ⟨0, by simp [propagate]⟩
      | succ carry =>
          have bound := current.isLt
          have exact : (current.toNat + (carry + 1)) % 2 ^ 64 =
              current.toNat + (carry + 1) := Nat.mod_eq_of_lt (by omega)
          obtain ⟨out, equation⟩ := @induction
            ((current.toNat + (carry + 1)) / 2 ^ 32) (by omega)
          have halves := Nat.div_add_mod (current.toNat + (carry + 1)) (2 ^ 32)
          refine ⟨out, ?_⟩
          simp only [propagate, exact, Limbs.value, BitVec.toNat_ofNat]
          rw [List.length_cons, Nat.mul_add_one, Nat.pow_add]
          linear_combination 2 ^ 32 * equation + halves

theorem length_multiplyAdd (left : Limb) {rights product : List Limb}
    (room : rights.length ≤ product.length) (carry : Nat) :
    (multiplyAdd left rights product carry).length = product.length := by
  induction rights generalizing product carry with
  | nil => exact length_propagate product carry
  | cons right rights induction =>
      cases product with
      | nil => simp at room
      | cons current product =>
          simp only [List.length_cons, Nat.add_le_add_iff_right] at room
          simp [multiplyAdd, induction room]

theorem multiplyAdd_sum_lt (current left right : Limb) {carry : Nat}
    (small : carry < 2 ^ 32) :
    current.toNat + left.toNat * right.toNat + carry < 2 ^ 64 := by
  have currentBound := current.isLt
  have product : left.toNat * right.toNat ≤ (2 ^ 32 - 1) * (2 ^ 32 - 1) :=
    Nat.mul_le_mul (by have := left.isLt; omega) (by have := right.isLt; omega)
  omega

theorem value_multiplyAdd (left : Limb) {rights product : List Limb}
    (room : rights.length ≤ product.length) {carry : Nat}
    (small : carry < 2 ^ 32) :
    ∃ out, Limbs.value (multiplyAdd left rights product carry) +
        2 ^ (32 * product.length) * out =
      Limbs.value product + left.toNat * Limbs.value rights + carry := by
  induction rights generalizing product carry with
  | nil =>
      obtain ⟨out, equation⟩ := @value_propagate product carry small
      exact ⟨out, by simpa [multiplyAdd, Limbs.value] using equation⟩
  | cons right rights induction =>
      cases product with
      | nil => simp at room
      | cons current product =>
          simp only [List.length_cons, Nat.add_le_add_iff_right] at room
          have bound := multiplyAdd_sum_lt current left right small
          have exact := Nat.mod_eq_of_lt bound
          obtain ⟨out, equation⟩ := @induction product room
            ((current.toNat + left.toNat * right.toNat + carry) / 2 ^ 32)
            (by omega)
          have halves := Nat.div_add_mod
            (current.toNat + left.toNat * right.toNat + carry) (2 ^ 32)
          refine ⟨out, ?_⟩
          simp only [multiplyAdd, exact, Limbs.value, BitVec.toNat_ofNat]
          rw [List.length_cons, Nat.mul_add_one, Nat.pow_add]
          linear_combination 2 ^ 32 * equation + halves

theorem length_multiplyLoop (right : List Limb) {lefts product : List Limb}
    (room : lefts.length + right.length ≤ product.length) :
    (multiplyLoop right lefts product).length = product.length := by
  induction lefts generalizing product with
  | nil => rfl
  | cons left lefts induction =>
      simp only [List.length_cons] at room
      have count : (if left = 0 then product
          else multiplyAdd left right product 0).length = product.length := by
        split
        · rfl
        · exact length_multiplyAdd left (by omega) 0
      rw [multiplyLoop]
      split
      · rename_i emptied
        rw [emptied, List.length_nil] at count
        omega
      · rename_i lowest upper filled
        rw [filled, List.length_cons] at count
        rw [List.length_cons, induction (by omega)]
        exact count

theorem value_multiplyLoop (right : List Limb) {lefts product : List Limb}
    (room : lefts.length + right.length ≤ product.length) :
    ∃ out, Limbs.value (multiplyLoop right lefts product) +
        2 ^ (32 * product.length) * out =
      Limbs.value product + Limbs.value lefts * Limbs.value right := by
  induction lefts generalizing product with
  | nil => exact ⟨0, by simp [multiplyLoop, Limbs.value]⟩
  | cons left lefts induction =>
      simp only [List.length_cons] at room
      have count : (if left = 0 then product
          else multiplyAdd left right product 0).length = product.length := by
        split
        · rfl
        · exact length_multiplyAdd left (by omega) 0
      have row : ∃ out, Limbs.value (if left = 0 then product
            else multiplyAdd left right product 0) +
          2 ^ (32 * product.length) * out =
            Limbs.value product + left.toNat * Limbs.value right := by
        split
        · rename_i zero
          exact ⟨0, by simp [zero]⟩
        · exact value_multiplyAdd left (by omega) (by decide)
      obtain ⟨rowOut, rowEquation⟩ := row
      rw [multiplyLoop]
      split
      · rename_i emptied
        rw [emptied, List.length_nil] at count
        omega
      · rename_i lowest upper filled
        rw [filled] at rowEquation
        rw [filled, List.length_cons] at count
        obtain ⟨out, equation⟩ := @induction upper (by omega)
        refine ⟨out + rowOut, ?_⟩
        rw [← count, Nat.mul_add_one, Nat.pow_add] at rowEquation ⊢
        simp only [Limbs.value] at rowEquation ⊢
        linear_combination 2 ^ 32 * equation + rowEquation

/-- The magnitude limbs hold the absolute value. -/
theorem magnitude_value {integer : JsBigInt} {limbs : List Limb}
    (taken : integer.magnitude = .ok limbs) :
    limbs ≠ [] ∧ (Limbs.value limbs : Int) = |integer.val| := by
  rw [magnitude, Support.bind_eq_ok_iff] at taken
  obtain ⟨value, absolute, same⟩ := taken
  cases same
  refine ⟨value.limbs_ne_nil, ?_⟩
  unfold abs at absolute
  split at absolute
  · rename_i negative
    have sign := integer.isNegative_iff.mp negative
    obtain ⟨exact, _⟩ := integer.neg_exact.denotes value absolute
    have nonneg : value.isNegative = false := by
      rw [← Bool.not_eq_true, isNegative_iff, exact]
      omega
    rw [← val_of_nonneg nonneg, exact, abs_of_neg sign]
  · rename_i nonneg
    cases absolute
    have sign := nonneg
    rw [isNegative_iff] at sign
    rw [← val_of_nonneg (by simpa using nonneg), abs_of_nonneg (by omega)]

theorem toInt_of_small {limbs : List Limb} (filled : limbs ≠ [])
    (small : Limbs.value limbs < 2 ^ (32 * limbs.length - 1)) :
    Limbs.toInt limbs = Limbs.value limbs := by
  have clear : Limbs.negative limbs = false := by
    rw [← Bool.not_eq_true, Limbs.negative_iff (by decide) filled]
    omega
  simp [Limbs.toInt, clear]

theorem isZero_iff (integer : JsBigInt) :
    integer.isZero = true ↔ integer.limbs = [0] := by
  simp [isZero]

theorem val_of_isZero {integer : JsBigInt} (zero : integer.isZero = true) :
    integer.val = 0 := by
  rw [val, (integer.isZero_iff).mp zero]
  rfl

theorem multiplyLoop_toInt (left right : List Limb) :
    Limbs.toInt (multiplyLoop right left
        (List.replicate (left.length + right.length + 1) 0)) =
      Limbs.value left * Limbs.value right := by
  have count := @length_multiplyLoop right left
    (List.replicate (left.length + right.length + 1) 0) (by simp)
  obtain ⟨out, equation⟩ := @value_multiplyLoop right left
    (List.replicate (left.length + right.length + 1) 0) (by simp)
  rw [List.length_replicate] at count equation
  rw [Limbs.value_replicate_zero, Nat.zero_add] at equation
  have size : Limbs.value left * Limbs.value right <
      2 ^ (32 * (left.length + right.length)) := by
    rw [Nat.mul_add, Nat.pow_add]
    exact Nat.mul_lt_mul'' (Limbs.value_lt left) (Limbs.value_lt right)
  have wider : 2 ^ (32 * (left.length + right.length)) ≤
      2 ^ (32 * (left.length + right.length + 1) - 1) :=
    Nat.pow_le_pow_right (by decide) (by omega)
  have widest : 2 ^ (32 * (left.length + right.length + 1) - 1) ≤
      2 ^ (32 * (left.length + right.length + 1)) :=
    Nat.pow_le_pow_right (by decide) (by omega)
  have settled : out = 0 := by
    by_contra carried
    have large := Nat.mul_le_mul_left
      (2 ^ (32 * (left.length + right.length + 1)))
      (Nat.one_le_iff_ne_zero.mpr carried)
    omega
  rw [settled, Nat.mul_zero, Nat.add_zero] at equation
  rw [toInt_of_small (List.ne_nil_of_length_pos (by omega)) (by
    rw [count, equation]
    omega), equation]
  push_cast
  rfl

theorem isNegative_eq_decide (integer : JsBigInt) :
    integer.isNegative = decide (integer.val < 0) := by
  rw [Bool.eq_iff_iff, isNegative_iff, decide_eq_true_eq]

theorem signed_abs_mul (left right : Int) :
    (if decide (left < 0) != decide (right < 0) then -(|left| * |right|)
      else |left| * |right|) = left * right := by
  rcases lt_or_ge left 0 with leftSign | leftSign <;>
    rcases lt_or_ge right 0 with rightSign | rightSign <;>
    simp [leftSign, rightSign, Int.not_lt.mpr, abs_of_neg, abs_of_nonneg]

/-- A magnitude with the sign put back. -/
theorem signed_denotes {magnitude : JsBigInt} {size : Int}
    (exact : magnitude.val = size ∧ magnitude.limbs.length ≤ maxLimbs)
    (negative : Bool) :
    Denotes (magnitude.withSign negative)
      (if negative then -size else size) := by
  cases negative with
  | true =>
      simp only [withSign, ↓reduceIte, ← exact.1]
      exact magnitude.neg_exact.denotes
  | false =>
      rintro value ⟨⟩
      exact exact

theorem mul_denotes (left right : JsBigInt) :
    Denotes (left.mul right) (left.val * right.val) := by
  intro value multiplied
  unfold mul at multiplied
  split at multiplied
  · rename_i zero
    cases multiplied
    refine ⟨?_, zero_length⟩
    rw [val_zero]
    rw [Bool.or_eq_true] at zero
    rcases zero with leftZero | rightZero
    · rw [val_of_isZero leftZero, Int.zero_mul]
    · rw [val_of_isZero rightZero, Int.mul_zero]
  · rw [Support.bind_eq_ok_iff] at multiplied
    obtain ⟨leftLimbs, leftTaken, multiplied⟩ := multiplied
    rw [Support.bind_eq_ok_iff] at multiplied
    obtain ⟨rightLimbs, rightTaken, multiplied⟩ := multiplied
    rw [Support.bind_eq_ok_iff] at multiplied
    obtain ⟨product, built, signed⟩ := multiplied
    obtain ⟨_, leftValue⟩ := magnitude_value leftTaken
    obtain ⟨_, rightValue⟩ := magnitude_value rightTaken
    have nonempty : multiplyLoop rightLimbs leftLimbs
        (List.replicate (leftLimbs.length + rightLimbs.length + 1) 0) ≠ [] := by
      apply List.ne_nil_of_length_pos
      rw [length_multiplyLoop _ (by simp)]
      simp
    have exact := fromLimbs_denotes nonempty
      (multiplyLoop_toInt leftLimbs rightLimbs) product built
    rw [leftValue, rightValue] at exact
    rw [← signed_abs_mul, ← isNegative_eq_decide, ← isNegative_eq_decide]
    exact signed_denotes exact _ value signed

end JsBigInt

end Fusor.Runtime
