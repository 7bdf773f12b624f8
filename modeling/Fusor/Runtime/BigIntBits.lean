import Fusor.Runtime.BigIntDivision

/-!
# Bit operations on integers

The bit operations are followed bit by bit on the infinite sign extension:
every list of limbs they build holds the bits of the mathematical result, and
the bits of that result are constant from the top bit of the list on.
-/

namespace Fusor.Runtime

open Arith

namespace JsBigInt

theorem testBit_val (integer : JsBigInt) (index : Nat) :
    integer.val.testBit index =
      (integer.limb (index / 32)).getLsbD (index % 32) := by
  rw [val, Limbs.testBit_toInt (by decide), limb_eq]

theorem testBit_val_of_le (integer : JsBigInt) {index : Nat}
    (beyond : 32 * integer.limbs.length - 1 ≤ index) :
    integer.val.testBit index = integer.isNegative := by
  rw [val, Limbs.testBit_toInt_of_le (by decide) integer.limbs_ne_nil beyond,
    isNegative_eq]

theorem bitwise_denotes {operation : Limb → Limb → Limb}
    {combine : Bool → Bool → Bool}
    (limbwise : ∀ left right index, index < 32 →
      (operation left right).getLsbD index =
        combine (left.getLsbD index) (right.getLsbD index))
    {left right : JsBigInt} {integer : Int}
    (bits : ∀ index, integer.testBit index =
      combine (left.val.testBit index) (right.val.testBit index)) :
    Denotes (bitwise operation left right) integer := by
  have leftCount := left.limbs_length_pos
  obtain ⟨width, wide⟩ :
      ∃ width, width = max left.limbs.length right.limbs.length := ⟨_, rfl⟩
  rw [bitwise, ← wide]
  have count : ((List.range width).map fun index =>
      operation (left.limb index) (right.limb index)).length = width := by
    simp
  have filled : ((List.range width).map fun index =>
      operation (left.limb index) (right.limb index)) ≠ [] :=
    List.ne_nil_of_length_pos (by omega)
  apply fromLimbs_denotes filled
  apply Limbs.toInt_eq_of_testBit (by decide) filled
  · intro index inside
    rw [count] at inside
    have position : index / 32 < width := Nat.div_lt_of_lt_mul inside
    rw [bits, testBit_val, testBit_val,
      ← limbwise _ _ _ (Nat.mod_lt index (by decide))]
    simp [position]
  · intro index beyond
    rw [count] at beyond ⊢
    rw [bits, bits, testBit_val_of_le left (by omega),
      testBit_val_of_le right (by omega), testBit_val_of_le left (by omega),
      testBit_val_of_le right (by omega)]

theorem bitand_denotes (left right : JsBigInt) :
    Denotes (left.bitand right) (Int.land left.val right.val) :=
  bitwise_denotes (fun _ _ _ _ => BitVec.getLsbD_and)
    (fun index => Int.testBit_land left.val right.val index)

theorem bitor_denotes (left right : JsBigInt) :
    Denotes (left.bitor right) (Int.lor left.val right.val) :=
  bitwise_denotes (fun _ _ _ _ => BitVec.getLsbD_or)
    (fun index => Int.testBit_lor left.val right.val index)

theorem bitxor_denotes (left right : JsBigInt) :
    Denotes (left.bitxor right) (Int.xor left.val right.val) :=
  bitwise_denotes (fun _ _ _ _ => BitVec.getLsbD_xor)
    (fun index => Int.testBit_lxor left.val right.val index)

theorem not_denotes (integer : JsBigInt) :
    Denotes integer.not (Int.lnot integer.val) := by
  have filled : integer.limbs.map (~~~·) ≠ [] := by
    simpa using integer.limbs_ne_nil
  apply fromLimbs_denotes filled
  apply Limbs.toInt_eq_of_testBit (by decide) filled
  · intro index inside
    rw [List.length_map] at inside
    have position : index / 32 < integer.limbs.length :=
      Nat.div_lt_of_lt_mul inside
    have offset := Nat.mod_lt index (show 0 < 32 by decide)
    rw [Int.testBit_lnot, testBit_val, limb]
    simp [position, offset]
  · intro index beyond
    rw [List.length_map] at beyond ⊢
    rw [Int.testBit_lnot, Int.testBit_lnot, testBit_val_of_le integer beyond,
      testBit_val_of_le integer (Nat.le_refl _)]

theorem length_shiftLeftLoop (bits : Nat) (limbs : List Limb) (carry : Limb) :
    (shiftLeftLoop bits limbs carry).length = limbs.length := by
  induction limbs generalizing carry with
  | nil => rfl
  | cons limb limbs induction =>
      rw [shiftLeftLoop]
      split <;> simp [induction]

theorem value_shiftLeftLoop {bits : Nat} (small : bits < 32)
    {limbs : List Limb} {carry : Limb} (fits : carry.toNat < 2 ^ bits) :
    ∃ out, Limbs.value (shiftLeftLoop bits limbs carry) +
        2 ^ (32 * limbs.length) * out =
      2 ^ bits * Limbs.value limbs + carry.toNat := by
  induction limbs generalizing carry with
  | nil => exact ⟨carry.toNat, by simp [shiftLeftLoop, Limbs.value]⟩
  | cons limb limbs induction =>
      rw [shiftLeftLoop, List.length_cons, Nat.mul_add_one, Nat.pow_add]
      split
      · rename_i whole
        subst whole
        obtain ⟨out, equation⟩ := induction fits
        have none : carry.toNat = 0 := by omega
        refine ⟨out, ?_⟩
        rw [none] at equation ⊢
        simp only [Limbs.value]
        linear_combination 2 ^ 32 * equation
      · have high : (limb >>> (32 - bits)).toNat < 2 ^ bits := by
          have bound := limb.isLt
          rw [BitVec.toNat_ushiftRight, Nat.shiftRight_eq_div_pow]
          apply Nat.div_lt_of_lt_mul
          rw [← Nat.pow_add, Nat.sub_add_cancel (Nat.le_of_lt small)]
          exact bound
        obtain ⟨out, equation⟩ := induction high
        have digit := @toNat_shiftLeft_or limb carry bits small fits
        refine ⟨out, ?_⟩
        simp only [Limbs.value]
        linear_combination 2 ^ 32 * equation + digit

theorem shiftLeft_exact (integer : JsBigInt) (count : Nat) :
    Exact (fromLimbs (List.replicate (count / 32) 0 ++
      shiftLeftLoop (count % 32) (integer.limbs ++ [integer.signExtension]) 0))
      (integer.val * 2 ^ count) := by
  rw [signExtension_eq]
  have filled : List.replicate (count / 32) (0 : Limb) ++ shiftLeftLoop
      (count % 32) (Limbs.extend integer.limbs (integer.limbs.length + 1)) 0 ≠
      [] := by
    apply List.ne_nil_of_length_pos
    rw [List.length_append, length_shiftLeftLoop, Limbs.length_extend]
    omega
  refine fromLimbs_exact filled ?_
  obtain ⟨out, equation⟩ := @value_shiftLeftLoop (count % 32)
    (Nat.mod_lt count (by decide))
    (Limbs.extend integer.limbs (integer.limbs.length + 1)) 0
    (Nat.two_pow_pos _)
  obtain ⟨multiple, extended⟩ := integer.val_eq_extend
    (show integer.limbs.length ≤ integer.limbs.length + 1 by omega)
  have length : (List.replicate (count / 32) (0 : Limb) ++ shiftLeftLoop
      (count % 32) (Limbs.extend integer.limbs (integer.limbs.length + 1))
      0).length = count / 32 + (integer.limbs.length + 1) := by
    rw [List.length_append, List.length_replicate, length_shiftLeftLoop,
      Limbs.length_extend]
  have power : (2 : Int) ^ count = 2 ^ (32 * (count / 32)) * 2 ^ (count % 32) := by
    rw [← pow_add, Nat.div_add_mod]
  obtain ⟨lower, upper⟩ := integer.val_range
  have nonempty := integer.limbs_length_pos
  have weight : (0 : Int) ≤ 2 ^ count := by positivity
  have room : (2 : Int) ^ (32 * integer.limbs.length - 1) * 2 ^ count ≤
      2 ^ (32 * (count / 32 + (integer.limbs.length + 1)) - 1) := by
    rw [← pow_add]
    exact pow_le_pow_right₀ (by norm_num) (by omega)
  apply @Limbs.toInt_eq_of_congruent _ (by decide) _ filled _
    (out + 2 ^ (count % 32) * multiple)
  · rw [length, Limbs.value_append, Limbs.value_replicate_zero,
      List.length_replicate, Nat.mul_add, pow_add, power]
    rw [Limbs.length_extend] at equation
    simp only [show (0 : Limb).toNat = 0 from rfl, Nat.add_zero] at equation
    zify at equation
    push_cast
    linear_combination 2 ^ (32 * (count / 32)) * 2 ^ (count % 32) * extended -
      2 ^ (32 * (count / 32)) * equation
  · rw [length]
    have scaled := mul_le_mul_of_nonneg_right lower weight
    linarith
  · rw [length]
    have scaled := mul_lt_mul_of_pos_right upper
      (show (0 : Int) < 2 ^ count by positivity)
    linarith

theorem promoteSizeError_exact {result : Except BigIntError JsBigInt}
    {integer : Int} (exact : Exact result integer) :
    Exact (promoteSizeError result) integer := by
  cases result with
  | ok value => exact exact
  | error error =>
      constructor
      · intro value taken
        rw [promoteSizeError_eq_ok_iff] at taken
        cases taken
      · intro promoted same
        obtain ⟨size, outside⟩ := exact.oversized error rfl
        refine ⟨?_, outside⟩
        cases error with
        | tooLarge =>
            cases same
            rfl
        | resultTooLarge =>
            cases same
            rfl
        | _ => cases size

theorem zero_exact : Exact (.ok zero) 0 := by
  constructor
  · intro value same
    cases same
    exact ⟨val_zero, zero_length⟩
  · intro error impossible
    cases impossible

/-- A nonzero integer shifted beyond the limit. -/
theorem oversized_mul_two_pow {integer : Int} (nonzero : integer ≠ 0)
    {count : Nat} (far : 32 * maxLimbs - 1 < count) :
    Oversized (integer * 2 ^ count) := by
  have grows : (2 : Int) ^ (32 * maxLimbs - 1) < 2 ^ count :=
    pow_lt_pow_right₀ (by norm_num) far
  have positive : (0 : Int) < 2 ^ count := by positivity
  rcases lt_or_gt_of_ne nonzero with negative | above
  · left
    have scaled := mul_le_mul_of_nonneg_right
      (show integer ≤ -1 by omega) positive.le
    linarith
  · right
    have scaled := mul_le_mul_of_nonneg_right
      (show 1 ≤ integer by omega) positive.le
    linarith

theorem shl_exact (integer : JsBigInt) (count : Nat) :
    Exact (integer.shl count) (integer.val * 2 ^ count) := by
  unfold shl
  by_cases none : integer.val = 0
  · rw [isZero_eq_decide, decide_eq_true none, if_pos rfl, none, Int.zero_mul]
    exact zero_exact
  · rw [isZero_eq_decide, decide_eq_false none, if_neg Bool.false_ne_true]
    by_cases far : count / 32 > maxLimbs
    · rw [if_pos far]
      constructor
      · intro value impossible
        cases impossible
      · rintro _ ⟨⟩
        exact ⟨rfl, oversized_mul_two_pow none (by omega)⟩
    · rw [if_neg far]
      exact promoteSizeError_exact (integer.shiftLeft_exact count)

theorem getLsbD_shiftRight_or {current next : Limb} {bits index : Nat}
    (small : bits < 32) (inside : index < 32) :
    ((current >>> bits) ||| (next <<< (32 - bits))).getLsbD index =
      if bits + index < 32 then current.getLsbD (bits + index)
      else next.getLsbD (bits + index - 32) := by
  rw [BitVec.getLsbD_or, BitVec.getLsbD_ushiftRight, BitVec.getLsbD_shiftLeft]
  by_cases low : bits + index < 32
  · have shifted : index < 32 - bits := by omega
    simp [low, shifted]
  · have outside : 32 ≤ bits + index := by omega
    have shifted : ¬ index < 32 - bits := by omega
    have offset : index - (32 - bits) = bits + index - 32 := by omega
    simp [low, inside, shifted, offset, BitVec.getLsbD_of_ge _ _ outside]

theorem shr_exact (integer : JsBigInt) (count : Nat) :
    Exact (integer.shr count) (integer.val / 2 ^ count) := by
  have filled := integer.limbs_length_pos
  have split := Nat.div_add_mod count 32
  have offset := Nat.mod_lt count (show 0 < 32 by decide)
  unfold shr
  by_cases beyond : count / 32 ≥ integer.limbs.length
  · rw [if_pos beyond]
    apply fromLimbs_exact (by simp)
    apply Limbs.toInt_eq_of_testBit (by decide) (by simp)
    · intro index inside
      simp only [List.length_singleton, Nat.mul_one] at inside
      rw [testBit_ediv_two_pow, testBit_val_of_le integer (by omega),
        Nat.div_eq_of_lt inside, Nat.mod_eq_of_lt inside, signExtension]
      cases integer.isNegative with
      | false => exact BitVec.getLsbD_zero
      | true => exact BitVec.getLsbD_allOnes.trans (decide_eq_true inside)
    · intro index above
      rw [testBit_ediv_two_pow, testBit_ediv_two_pow,
        testBit_val_of_le integer (by omega),
        testBit_val_of_le integer (by omega)]
  · rw [if_neg beyond]
    have length : ((List.range (integer.limbs.length - count / 32)).map
        fun index =>
          let current := integer.limb (count / 32 + index)
          if count % 32 = 0 then
            current
          else
            (current >>> (count % 32)) |||
              (integer.limb (count / 32 + index + 1) <<<
                (32 - count % 32))).length =
        integer.limbs.length - count / 32 := by
      simp
    have nonempty := List.ne_nil_of_length_pos
      (Nat.lt_of_lt_of_eq (show 0 < integer.limbs.length - count / 32 by omega)
        length.symm)
    apply fromLimbs_exact nonempty
    apply Limbs.toInt_eq_of_testBit (by decide) nonempty
    · intro index inside
      rw [length] at inside
      have position : index / 32 < integer.limbs.length - count / 32 :=
        Nat.div_lt_of_lt_mul inside
      have small := Nat.mod_lt index (show 0 < 32 by decide)
      have place := Nat.div_add_mod index 32
      rw [testBit_ediv_two_pow, testBit_val]
      simp only [List.getElem?_map, List.getElem?_range position,
        Option.map_some, Option.getD_some]
      by_cases whole : count % 32 = 0
      · have quotient : (count + index) / 32 = count / 32 + index / 32 := by
          omega
        have rest : (count + index) % 32 = index % 32 := by omega
        rw [if_pos whole, quotient, rest]
      · rw [if_neg whole, getLsbD_shiftRight_or offset small]
        split
        · have quotient : (count + index) / 32 = count / 32 + index / 32 := by
            omega
          have rest : (count + index) % 32 = count % 32 + index % 32 := by
            omega
          rw [quotient, rest]
        · have quotient :
              (count + index) / 32 = count / 32 + index / 32 + 1 := by
            omega
          have rest :
              (count + index) % 32 = count % 32 + index % 32 - 32 := by
            omega
          rw [quotient, rest]
    · intro index above
      rw [length] at above ⊢
      rw [testBit_ediv_two_pow, testBit_ediv_two_pow,
        testBit_val_of_le integer (by omega),
        testBit_val_of_le integer (by omega)]

theorem getLsbD_lowLimbs (integer : JsBigInt) (bits index : Nat) :
    ((integer.lowLimbs bits)[index / 32]?.getD 0).getLsbD (index % 32) =
      (decide (index < bits) && integer.val.testBit index) := by
  have place := Nat.div_add_mod index 32
  have offset := Nat.mod_lt index (show 0 < 32 by decide)
  have width := Nat.div_add_mod bits 32
  have count : (integer.window ((bits + 31) / 32)).length =
      (bits + 31) / 32 := by
    simp [window]
  have read : ∀ position, position < (bits + 31) / 32 →
      (integer.window ((bits + 31) / 32))[position]? =
        some (integer.limb position) := by
    intro position inside
    simp [window, inside]
  rw [testBit_val]
  by_cases inside : index / 32 < (bits + 31) / 32
  · by_cases whole : bits % 32 = 0
    · have below : index < bits := by omega
      simp [lowLimbs, whole, read _ inside, below]
    · rw [lowLimbs, if_pos whole, List.getElem?_modify, count, read _ inside]
      by_cases last : (bits + 31) / 32 - 1 = index / 32
      · have mask : (BitVec.allOnes 32 >>> (32 - bits % 32)).getLsbD
            (index % 32) = decide (index < bits) := by
          rw [BitVec.getLsbD_ushiftRight, BitVec.getLsbD_allOnes,
            decide_eq_decide]
          omega
        simp only [last, ↓reduceIte, Option.map_eq_map, Option.map_some,
          Option.getD_some]
        rw [BitVec.getLsbD_and, mask, Bool.and_comm]
      · have below : index < bits := by omega
        simp [last, below]
  · have above : ¬ index < bits := by omega
    have missing : (integer.lowLimbs bits)[index / 32]? = none := by
      rw [List.getElem?_eq_none_iff, lowLimbs]
      split
      · rw [List.length_modify, count]
        omega
      · rw [count]
        omega
    simp [missing, above]

theorem lowLimbs_exact (integer : JsBigInt) (bits : Nat) :
    Exact (fromLimbs (integer.lowLimbs bits ++ [0]))
      (integer.val % 2 ^ bits) := by
  refine fromLimbs_exact (by simp) ?_
  have nonneg : 0 ≤ integer.val % 2 ^ bits :=
    Int.emod_nonneg _ (by positivity)
  rw [toInt_append_zero, ← Int.toNat_of_nonneg nonneg]
  congr 1
  apply Nat.eq_of_testBit_eq
  intro index
  rw [toNat_emod_two_pow_testBit, Limbs.testBit_value (by decide),
    getLsbD_lowLimbs]

theorem truncateToBits_denotes (integer : JsBigInt) (bits : Nat) :
    Denotes (integer.truncateToBits bits) (integer.val % 2 ^ bits) := by
  intro value truncated
  unfold truncateToBits at truncated
  split at truncated
  · cases truncated
  · exact (integer.lowLimbs_exact bits).denotes value truncated

theorem bit_eq (integer : JsBigInt) (index : Nat) :
    integer.bit index = integer.val.testBit index := by
  rw [bit, Bool.eq_iff_iff, beq_iff_eq, and_one_eq_one_iff, testBit_val]

/-- The top bit of a residue tells the halves of its range apart. -/
theorem testBit_top_iff {residue : Int} {bits : Nat} (nonneg : 0 ≤ residue)
    (small : residue < 2 ^ (bits + 1)) :
    residue.testBit bits = true ↔ 2 ^ bits ≤ residue := by
  obtain ⟨natural, rfl⟩ := Int.eq_ofNat_of_zero_le nonneg
  have bound : natural < 2 ^ (bits + 1) := by exact_mod_cast small
  have cast : ((2 : Int) ^ bits ≤ (natural : Int)) ↔ 2 ^ bits ≤ natural := by
    norm_cast
  rw [cast]
  change natural.testBit bits = true ↔ _
  constructor
  · exact Nat.ge_two_pow_of_testBit
  · intro large
    exact Nat.testBit_of_two_pow_le_and_two_pow_add_one_gt large bound

theorem asUintN_denotes (integer : JsBigInt) (bits : Nat) :
    Denotes (integer.asUintN bits) (integer.val % 2 ^ bits) := by
  unfold asUintN
  split
  · rename_i none
    rintro value ⟨⟩
    rw [none, pow_zero, Int.emod_one]
    exact ⟨val_zero, zero_length⟩
  · exact integer.truncateToBits_denotes bits

theorem asIntN_denotes (integer : JsBigInt) (bits : Nat) :
    Denotes (integer.asIntN bits) (integer.val.bmod (2 ^ bits)) := by
  intro value taken
  unfold asIntN at taken
  split at taken
  · rename_i none
    cases taken
    rw [none]
    exact ⟨by simp [val_zero, Int.bmod], zero_length⟩
  rename_i some
  obtain ⟨below, rfl⟩ : ∃ below, bits = below + 1 :=
    Nat.exists_eq_succ_of_ne_zero some
  rw [Support.bind_eq_ok_iff] at taken
  obtain ⟨truncated, cut, taken⟩ := taken
  obtain ⟨exact, length⟩ := integer.truncateToBits_denotes _ truncated cut
  have positive : (0 : Int) < 2 ^ (below + 1) := by positivity
  have nonneg := Int.emod_nonneg integer.val (ne_of_gt positive)
  have small := Int.emod_lt_of_pos integer.val positive
  have double : (2 : Int) ^ (below + 1) = 2 * 2 ^ below := by
    rw [pow_succ]
    ring
  have top := testBit_top_iff nonneg small
  rw [Nat.add_sub_cancel, bit_eq, exact] at taken
  rw [Int.bmod]
  push_cast
  split at taken
  · rename_i set
    rw [Support.bind_eq_ok_iff] at taken
    obtain ⟨modulus, shifted, taken⟩ := taken
    obtain ⟨modulusExact, _⟩ := ((fromI32 1).shl_exact _).denotes modulus shifted
    obtain ⟨difference, fits⟩ :=
      (truncated.addWithSign_exact modulus true).denotes value taken
    have one : (fromI32 1).val = 1 := val_one
    refine ⟨?_, fits⟩
    rw [if_pos rfl, exact, modulusExact, one, Int.one_mul] at difference
    have large := top.mp set
    rw [if_neg (by omega), difference]
  · rename_i clear
    cases taken
    have low := mt top.mpr clear
    rw [if_pos (by omega), exact]
    exact ⟨rfl, length⟩

/-- Every operation returns the mathematical result, in its one normalized
form and within the limit, or an error. -/
theorem arithmetic_exact (left right : JsBigInt) (count : Nat) :
    Denotes left.neg (-left.val) ∧
    Denotes (left.add right) (left.val + right.val) ∧
    Denotes (left.sub right) (left.val - right.val) ∧
    Denotes (left.mul right) (left.val * right.val) ∧
    (∀ quotient remainder, left.divRem right = .ok (quotient, remainder) →
      right.val ≠ 0 ∧
        (quotient.val = left.val.tdiv right.val ∧
          quotient.limbs.length ≤ maxLimbs) ∧
        remainder.val = left.val.tmod right.val ∧
          remainder.limbs.length ≤ maxLimbs) ∧
    (∀ power, left.pow right = .ok power → 0 ≤ right.val) ∧
    Denotes (left.pow right) (left.val ^ right.val.toNat) ∧
    Denotes (left.bitand right) (Int.land left.val right.val) ∧
    Denotes (left.bitor right) (Int.lor left.val right.val) ∧
    Denotes (left.bitxor right) (Int.xor left.val right.val) ∧
    Denotes left.not (Int.lnot left.val) ∧
    Denotes (left.shl count) (left.val * 2 ^ count) ∧
    Denotes (left.shr count) (left.val / 2 ^ count) ∧
    Denotes (left.asIntN count) (left.val.bmod (2 ^ count)) ∧
    Denotes (left.asUintN count) (left.val % 2 ^ count) ∧
    left.cmp right = compare left.val right.val ∧
    (left.limbs = right.limbs ↔ left.val = right.val) := by
  refine ⟨left.neg_exact.denotes, (left.addWithSign_exact right false).denotes,
    (left.addWithSign_exact right true).denotes, left.mul_denotes right, ?_, ?_,
    left.pow_denotes right, left.bitand_denotes right,
    left.bitor_denotes right, left.bitxor_denotes right, left.not_denotes,
    (left.shl_exact count).denotes, (left.shr_exact count).denotes,
    left.asIntN_denotes count, left.asUintN_denotes count,
    left.cmp_eq right, left.limbs_eq_iff right⟩
  · intro quotient remainder divided
    refine ⟨?_, divRem_denotes divided⟩
    intro none
    rw [divRem, isZero_eq_decide, none] at divided
    simp at divided
  · intro power taken
    by_contra negative
    rw [pow, isNegative_eq_decide] at taken
    simp [Int.not_le.mp negative] at taken

end JsBigInt

end Fusor.Runtime
