import Mathlib.Data.Int.Bitwise
import Mathlib.Tactic

/-!
# Little-endian two's-complement limbs

A list of words of one width denotes a natural number, least significant word
first, and an integer whose sign is the top bit of the last word.  Such a
list is determined modulo a power of two by its bits, and by its value once
the integer is known to be in range.
-/

namespace Fusor.Arith

section Bits

theorem testBit_ediv_two_pow (integer : Int) (count index : Nat) :
    (integer / 2 ^ count).testBit index = integer.testBit (count + index) := by
  have shifted : integer / 2 ^ count = integer >>> count := by
    rw [Int.shiftRight_eq_div_pow]
    norm_cast
  rw [shifted]
  cases integer with
  | ofNat natural =>
      change (natural >>> count).testBit index = natural.testBit (count + index)
      rw [Nat.testBit_shiftRight]
  | negSucc natural =>
      change (!(natural >>> count).testBit index) =
        !natural.testBit (count + index)
      rw [Nat.testBit_shiftRight]

theorem toNat_emod_two_pow_testBit (integer : Int) (width index : Nat) :
    (integer % 2 ^ width).toNat.testBit index =
      (decide (index < width) && integer.testBit index) := by
  cases integer with
  | ofNat natural =>
      have cast : (Int.ofNat natural % 2 ^ width).toNat =
          natural % 2 ^ width := by
        have norm : (Int.ofNat natural : Int) % 2 ^ width =
            ((natural % 2 ^ width : Nat) : Int) := by
          push_cast
          rfl
        rw [norm, Int.toNat_natCast]
      rw [cast, Nat.testBit_mod_two_pow]
      rfl
  | negSucc natural =>
      have positive : 0 < 2 ^ width := Nat.two_pow_pos width
      have small := Nat.mod_lt natural positive
      have cast : (Int.negSucc natural % 2 ^ width).toNat =
          2 ^ width - (natural % 2 ^ width + 1) := by
        have norm : (Int.negSucc natural : Int) % 2 ^ width =
            2 ^ width - (natural % 2 ^ width + 1) := by
          have positiveInt : (0 : Int) < 2 ^ width := by positivity
          rw [Int.negSucc_emod natural positiveInt]
          ring
        rw [norm]
        have back : (2 ^ width - (natural % 2 ^ width + 1) : Int) =
            ((2 ^ width - (natural % 2 ^ width + 1) : Nat) : Int) := by
          push_cast [Nat.succ_le_of_lt small]
          ring
        rw [back, Int.toNat_natCast]
      rw [cast, Nat.testBit_two_pow_sub_succ small, Nat.testBit_mod_two_pow]
      change _ = (decide (index < width) && !natural.testBit index)
      by_cases below : index < width <;> simp [below]

/-- The low bits of an integer determine its residue. -/
theorem emod_two_pow_eq_of_testBit {integer : Int} {width natural : Nat}
    (small : natural < 2 ^ width)
    (bits : ∀ index, index < width →
      natural.testBit index = integer.testBit index) :
    integer % 2 ^ width = natural := by
  have nonneg : 0 ≤ integer % 2 ^ width :=
    Int.emod_nonneg _ (by positivity)
  have same : (integer % 2 ^ width).toNat = natural := by
    apply Nat.eq_of_testBit_eq
    intro index
    rw [toNat_emod_two_pow_testBit]
    by_cases below : index < width
    · simp [below, bits index below]
    · have large : natural < 2 ^ index :=
        Nat.lt_of_lt_of_le small
          (Nat.pow_le_pow_right (by decide) (Nat.le_of_not_lt below))
      simp [below, Nat.testBit_lt_two_pow large]
  omega

theorem testBit_eventually (integer : Int) :
    ∃ bound, ∀ index, bound ≤ index →
      integer.testBit index = decide (integer < 0) := by
  cases integer with
  | ofNat natural =>
      refine ⟨natural, fun index large => ?_⟩
      have small : natural < 2 ^ index :=
        Nat.lt_of_lt_of_le Nat.lt_two_pow_self
          (Nat.pow_le_pow_right (by decide) large)
      change natural.testBit index = _
      rw [Nat.testBit_lt_two_pow small]
      simp
  | negSucc natural =>
      refine ⟨natural, fun index large => ?_⟩
      have small : natural < 2 ^ index :=
        Nat.lt_of_lt_of_le Nat.lt_two_pow_self
          (Nat.pow_le_pow_right (by decide) large)
      change (!natural.testBit index) = _
      rw [Nat.testBit_lt_two_pow small]
      simp [Int.negSucc_lt_zero]

/-- An integer is determined by the bits of its infinite expansion. -/
theorem eq_of_testBit_eq {first second : Int}
    (bits : ∀ index, first.testBit index = second.testBit index) :
    first = second := by
  obtain ⟨firstBound, firstSign⟩ := testBit_eventually first
  obtain ⟨secondBound, secondSign⟩ := testBit_eventually second
  have sign := bits (max firstBound secondBound)
  rw [firstSign _ (le_max_left _ _), secondSign _ (le_max_right _ _),
    decide_eq_decide] at sign
  cases first with
  | ofNat left =>
      cases second with
      | ofNat right => exact congrArg Int.ofNat (Nat.eq_of_testBit_eq bits)
      | negSucc right =>
          exact absurd (sign.mpr (Int.negSucc_lt_zero right)) (by simp)
  | negSucc left =>
      cases second with
      | ofNat right =>
          exact absurd (sign.mp (Int.negSucc_lt_zero left)) (by simp)
      | negSucc right =>
          apply congrArg Int.negSucc
          apply Nat.eq_of_testBit_eq
          intro index
          exact Bool.not_inj (bits index)

end Bits

namespace Limbs

variable {w : Nat}

/-- The unsigned value of a list of limbs. -/
def value : List (BitVec w) → Nat
  | [] => 0
  | limb :: limbs => limb.toNat + 2 ^ w * value limbs

/-- The top bit of the most significant limb. -/
def negative (limbs : List (BitVec w)) : Bool :=
  limbs.getLast?.any BitVec.msb

/-- The two's-complement value of a list of limbs. -/
def toInt (limbs : List (BitVec w)) : Int :=
  value limbs - if negative limbs then 2 ^ (w * limbs.length) else 0

/-- A limb of the infinite sign extension. -/
def limbAt (limbs : List (BitVec w)) (index : Nat) : BitVec w :=
  limbs[index]?.getD (if negative limbs then BitVec.allOnes w else 0)

/-- The first limbs of the infinite sign extension. -/
def extend (limbs : List (BitVec w)) (count : Nat) : List (BitVec w) :=
  (List.range count).map (limbAt limbs)

@[simp]
theorem length_extend (limbs : List (BitVec w)) (count : Nat) :
    (extend limbs count).length = count := by
  simp [extend]

theorem value_lt (limbs : List (BitVec w)) :
    value limbs < 2 ^ (w * limbs.length) := by
  induction limbs with
  | nil => simp [value]
  | cons limb limbs induction =>
      have bound := limb.isLt
      rw [value, List.length_cons, Nat.mul_add_one, Nat.pow_add,
        Nat.mul_comm (2 ^ (w * limbs.length))]
      have scaled : 2 ^ w * (value limbs + 1) ≤
          2 ^ w * 2 ^ (w * limbs.length) :=
        Nat.mul_le_mul_left _ induction
      rw [Nat.mul_add_one] at scaled
      omega

theorem value_append (first second : List (BitVec w)) :
    value (first ++ second) =
      value first + 2 ^ (w * first.length) * value second := by
  induction first with
  | nil => simp [value]
  | cons limb limbs induction =>
      rw [List.cons_append, value, value, induction, List.length_cons,
        Nat.mul_add_one, Nat.pow_add]
      ring

theorem value_replicate_zero (count : Nat) :
    value (List.replicate count (0 : BitVec w)) = 0 := by
  induction count with
  | zero => rfl
  | succ count induction => rw [List.replicate_succ, value, induction]; simp

theorem testBit_value (positive : 0 < w) (limbs : List (BitVec w))
    (index : Nat) :
    (value limbs).testBit index =
      (limbs[index / w]?.getD 0).getLsbD (index % w) := by
  induction limbs generalizing index with
  | nil => simp [value]
  | cons limb limbs induction =>
      rw [value, Nat.add_comm, Nat.testBit_two_pow_mul_add _ limb.isLt]
      by_cases below : index < w
      · rw [if_pos below, Nat.div_eq_of_lt below, Nat.mod_eq_of_lt below]
        rfl
      · have large := Nat.le_of_not_lt below
        rw [if_neg below, induction, ← Nat.mod_eq_sub_mod large,
          Nat.div_eq_sub_div positive large, List.getElem?_cons_succ]

theorem getLast?_eq_getElem? (limbs : List (BitVec w)) :
    limbs.getLast? = limbs[limbs.length - 1]? :=
  List.getLast?_eq_getElem?

theorem length_mul_pos (positive : 0 < w) {limbs : List (BitVec w)}
    (filled : limbs ≠ []) : 0 < w * limbs.length :=
  Nat.mul_pos positive (List.length_pos_iff.mpr filled)

theorem negative_eq_testBit (positive : 0 < w) {limbs : List (BitVec w)}
    (filled : limbs ≠ []) :
    negative limbs = (value limbs).testBit (w * limbs.length - 1) := by
  have count := List.length_pos_iff.mpr filled
  have split : w * limbs.length - 1 = w * (limbs.length - 1) + (w - 1) := by
    rw [Nat.mul_sub_one]
    have large : w ≤ w * limbs.length := Nat.le_mul_of_pos_right w count
    omega
  have quotient : (w * limbs.length - 1) / w = limbs.length - 1 := by
    rw [split, Nat.mul_add_div positive, Nat.div_eq_of_lt (by omega)]
    omega
  have rest : (w * limbs.length - 1) % w = w - 1 := by
    rw [split, Nat.mul_add_mod, Nat.mod_eq_of_lt (by omega)]
  rw [testBit_value positive, quotient, rest, negative, getLast?_eq_getElem?]
  cases limbs[limbs.length - 1]? with
  | none => simp
  | some top => simp [BitVec.msb_eq_getLsbD_last]

theorem negative_iff (positive : 0 < w) {limbs : List (BitVec w)}
    (filled : limbs ≠ []) :
    negative limbs = true ↔
      2 ^ (w * limbs.length - 1) ≤ value limbs := by
  rw [negative_eq_testBit positive filled]
  constructor
  · intro set
    exact Nat.ge_two_pow_of_testBit set
  · intro large
    apply Nat.testBit_of_two_pow_le_and_two_pow_add_one_gt large
    have width := length_mul_pos positive filled
    rw [Nat.sub_add_cancel width]
    exact value_lt limbs

theorem two_pow_pred (positive : 0 < w) {limbs : List (BitVec w)}
    (filled : limbs ≠ []) :
    (2 : Int) ^ (w * limbs.length) = 2 * 2 ^ (w * limbs.length - 1) := by
  have width := length_mul_pos positive filled
  obtain ⟨rest, equation⟩ := Nat.exists_eq_succ_of_ne_zero
    (Nat.ne_of_gt width)
  rw [equation, Nat.succ_sub_one, pow_succ]
  ring

/-- An integer in range is the value of the limbs that hold its residue. -/
theorem toInt_eq_of_emod (positive : 0 < w) {limbs : List (BitVec w)}
    (filled : limbs ≠ []) {integer : Int}
    (residue : integer % 2 ^ (w * limbs.length) = value limbs)
    (lower : -2 ^ (w * limbs.length - 1) ≤ integer)
    (upper : integer < 2 ^ (w * limbs.length - 1)) :
    toInt limbs = integer := by
  have double := two_pow_pred positive filled
  have sign := negative_iff positive filled
  have half : (0 : Int) < 2 ^ (w * limbs.length - 1) := by positivity
  have cast : ((2 ^ (w * limbs.length - 1) : Nat) : Int) =
      2 ^ (w * limbs.length - 1) := by
    push_cast
    rfl
  rcases Int.le_total 0 integer with nonneg | nonpos
  · rw [Int.emod_eq_of_lt nonneg (by omega)] at residue
    have positiveSign : negative limbs = false := by
      rw [← Bool.not_eq_true, sign]
      omega
    rw [toInt, positiveSign]
    simp only [Bool.false_eq_true, ↓reduceIte]
    omega
  · by_cases zero : integer = 0
    · subst zero
      rw [Int.zero_emod] at residue
      have positiveSign : negative limbs = false := by
        rw [← Bool.not_eq_true, sign]
        have large : 0 < 2 ^ (w * limbs.length - 1) := Nat.two_pow_pos _
        omega
      rw [toInt, positiveSign, ← residue]
      rfl
    · have wrapped : integer % 2 ^ (w * limbs.length) =
          integer + 2 ^ (w * limbs.length) := by
        rw [← Int.add_emod_right,
          Int.emod_eq_of_lt (by omega) (by omega)]
      have negativeSign : negative limbs = true := by
        rw [sign]
        omega
      rw [toInt, negativeSign]
      simp only [↓reduceIte]
      omega

theorem toInt_range (positive : 0 < w) {limbs : List (BitVec w)}
    (filled : limbs ≠ []) :
    -2 ^ (w * limbs.length - 1) ≤ toInt limbs ∧
      toInt limbs < 2 ^ (w * limbs.length - 1) := by
  have double := two_pow_pred positive filled
  have sign := negative_iff positive filled
  have small : (value limbs : Int) < 2 ^ (w * limbs.length) := by
    exact_mod_cast value_lt limbs
  have cast : ((2 ^ (w * limbs.length - 1) : Nat) : Int) =
      2 ^ (w * limbs.length - 1) := by
    push_cast
    rfl
  unfold toInt
  split
  · rename_i set
    have large := sign.mp set
    omega
  · rename_i clear
    rw [sign] at clear
    omega

theorem limbAt_of_lt {limbs : List (BitVec w)} {index : Nat}
    (inside : index < limbs.length) :
    limbAt limbs index = limbs[index]?.getD 0 := by
  simp [limbAt, List.getElem?_eq_getElem inside]

theorem testBit_toInt (positive : 0 < w) (limbs : List (BitVec w))
    (index : Nat) :
    (toInt limbs).testBit index =
      (limbAt limbs (index / w)).getLsbD (index % w) := by
  have bound := value_lt limbs
  have bits := testBit_value positive limbs index
  unfold toInt limbAt
  by_cases sign : negative limbs = true
  · rw [if_pos sign, if_pos sign]
    have cast : (value limbs : Int) - 2 ^ (w * limbs.length) =
        Int.negSucc (2 ^ (w * limbs.length) - (value limbs + 1)) := by
      rw [Int.negSucc_eq]
      push_cast [Nat.succ_le_of_lt bound]
      ring
    rw [cast]
    change (!(2 ^ (w * limbs.length) - (value limbs + 1)).testBit index) = _
    rw [Nat.testBit_two_pow_sub_succ bound, bits]
    by_cases inside : index < w * limbs.length
    · have position : index / w < limbs.length :=
        Nat.div_lt_of_lt_mul inside
      simp [inside, List.getElem?_eq_getElem position]
    · have position : limbs.length ≤ index / w :=
        (Nat.le_div_iff_mul_le positive).mpr (by
          rw [Nat.mul_comm]
          exact Nat.le_of_not_lt inside)
      have offset := Nat.mod_lt index positive
      simp [inside, List.getElem?_eq_none position, offset]
  · rw [if_neg sign, if_neg sign, Int.sub_zero]
    exact bits

theorem toInt_emod (limbs : List (BitVec w)) :
    toInt limbs % 2 ^ (w * limbs.length) = value limbs := by
  have small : (value limbs : Int) < 2 ^ (w * limbs.length) := by
    exact_mod_cast value_lt limbs
  have plain := Int.emod_eq_of_lt (Int.natCast_nonneg _) small
  unfold toInt
  split
  · rw [Int.sub_emod_right]
    exact plain
  · rw [Int.sub_zero]
    exact plain

theorem toInt_eq_of_congruent (positive : 0 < w) {limbs : List (BitVec w)}
    (filled : limbs ≠ []) {integer multiple : Int}
    (congruent : integer =
      value limbs + 2 ^ (w * limbs.length) * multiple)
    (lower : -2 ^ (w * limbs.length - 1) ≤ integer)
    (upper : integer < 2 ^ (w * limbs.length - 1)) :
    toInt limbs = integer := by
  refine toInt_eq_of_emod positive filled ?_ lower upper
  have small : (value limbs : Int) < 2 ^ (w * limbs.length) := by
    exact_mod_cast value_lt limbs
  rw [congruent, Int.add_mul_emod_self_left]
  exact Int.emod_eq_of_lt (Int.natCast_nonneg _) small

/-- From the top bit on every bit is the sign. -/
theorem testBit_toInt_of_le (positive : 0 < w) {limbs : List (BitVec w)}
    (filled : limbs ≠ []) {index : Nat}
    (beyond : w * limbs.length - 1 ≤ index) :
    (toInt limbs).testBit index = negative limbs := by
  have width := length_mul_pos positive filled
  by_cases top : index = w * limbs.length - 1
  · have position : index / w < limbs.length :=
      Nat.div_lt_of_lt_mul (by omega)
    rw [testBit_toInt positive, negative_eq_testBit positive filled,
      limbAt_of_lt position, testBit_value positive, top]
  · have position : limbs.length ≤ index / w :=
      (Nat.le_div_iff_mul_le positive).mpr (by
        rw [Nat.mul_comm]
        omega)
    have offset := Nat.mod_lt index positive
    rw [testBit_toInt positive, limbAt, List.getElem?_eq_none position]
    cases negative limbs <;> simp [offset]

/-- An integer whose bits are constant from the top bit on is the value of
the limbs that hold its lower bits. -/
theorem toInt_eq_of_testBit (positive : 0 < w) {limbs : List (BitVec w)}
    (filled : limbs ≠ []) {integer : Int}
    (bits : ∀ index, index < w * limbs.length →
      (limbs[index / w]?.getD 0).getLsbD (index % w) =
        integer.testBit index)
    (settled : ∀ index, w * limbs.length - 1 ≤ index →
      integer.testBit index = integer.testBit (w * limbs.length - 1)) :
    toInt limbs = integer := by
  have width := length_mul_pos positive filled
  apply eq_of_testBit_eq
  intro index
  by_cases inside : index < w * limbs.length
  · have position : index / w < limbs.length := Nat.div_lt_of_lt_mul inside
    rw [testBit_toInt positive, limbAt_of_lt position, bits index inside]
  · rw [testBit_toInt_of_le positive filled (by omega),
      settled index (by omega), negative_eq_testBit positive filled,
      testBit_value positive, bits _ (by omega)]

/-- Sign extension keeps the value. -/
theorem toInt_extend (positive : 0 < w) {limbs : List (BitVec w)}
    (filled : limbs ≠ []) {count : Nat} (enough : limbs.length ≤ count) :
    toInt (extend limbs count) = toInt limbs := by
  have nonempty := List.length_pos_iff.mpr filled
  have larger := Nat.mul_le_mul_left w enough
  have extended : extend limbs count ≠ [] := by
    apply List.ne_nil_of_length_pos
    rw [length_extend]
    omega
  refine toInt_eq_of_testBit positive extended ?_ ?_
  · intro index inside
    rw [length_extend] at inside
    have position : index / w < count := Nat.div_lt_of_lt_mul inside
    rw [testBit_toInt positive]
    simp [extend, position]
  · intro index beyond
    rw [length_extend] at beyond ⊢
    rw [testBit_toInt_of_le positive filled (by omega),
      testBit_toInt_of_le positive filled (by omega)]

theorem extend_succ (limbs : List (BitVec w)) :
    extend limbs (limbs.length + 1) =
      limbs ++ [if negative limbs then BitVec.allOnes w else 0] := by
  rw [extend, List.range_succ, List.map_append]
  congr 1
  · apply List.ext_getElem?
    intro index
    by_cases inside : index < limbs.length
    · simp [limbAt, inside]
    · simp [inside]
  · simp [limbAt]

theorem eq_of_value_eq {first second : List (BitVec w)}
    (count : first.length = second.length)
    (same : value first = value second) : first = second := by
  induction first generalizing second with
  | nil =>
      cases second with
      | nil => rfl
      | cons _ _ => cases count
  | cons limb limbs induction =>
      cases second with
      | nil => cases count
      | cons other others =>
          have low : limb.toNat = other.toNat := by
            have residues := congrArg (· % 2 ^ w) same
            simpa [value, Nat.mod_eq_of_lt limb.isLt,
              Nat.mod_eq_of_lt other.isLt] using residues
          have high : value limbs = value others := by
            simp only [value, low] at same
            exact Nat.eq_of_mul_eq_mul_left (Nat.two_pow_pos w)
              (Nat.add_left_cancel same)
          rw [BitVec.eq_of_toNat_eq low,
            induction (Nat.succ.inj count) high]

theorem eq_of_toInt_eq {first second : List (BitVec w)}
    (count : first.length = second.length)
    (same : toInt first = toInt second) : first = second := by
  apply eq_of_value_eq count
  have firstValue := toInt_emod first
  have secondValue := toInt_emod second
  rw [same, count, secondValue] at firstValue
  exact_mod_cast firstValue.symm

/-- The limbs of an integer taken at a width. -/
def ofInt (w : Nat) (integer : Int) (width : Nat) : List (BitVec w) :=
  (List.range width).map fun index =>
    BitVec.ofInt w (integer / 2 ^ (w * index))

theorem length_ofInt (integer : Int) (width : Nat) :
    (ofInt w integer width).length = width := by
  simp [ofInt]

theorem toInt_ofInt (positive : 0 < w) {integer : Int} {width : Nat}
    (filled : 0 < width) (lower : -2 ^ (w * width - 1) ≤ integer)
    (upper : integer < 2 ^ (w * width - 1)) :
    toInt (ofInt w integer width) = integer := by
  have length := @length_ofInt w integer width
  have nonempty : ofInt w integer width ≠ [] :=
    List.ne_nil_of_length_pos (by omega)
  refine toInt_eq_of_emod positive nonempty ?_ (by rwa [length])
    (by rwa [length])
  have small := value_lt (ofInt w integer width)
  rw [length] at small ⊢
  apply emod_two_pow_eq_of_testBit small
  intro index inside
  have place := Nat.div_add_mod index w
  have position : index / w < width := Nat.div_lt_of_lt_mul inside
  have offset := Nat.mod_lt index positive
  rw [testBit_value positive, ofInt, List.getElem?_map,
    List.getElem?_range position, Option.map_some, Option.getD_some,
    BitVec.getLsbD, BitVec.toNat_ofInt]
  have cast : ((2 ^ w : Nat) : Int) = 2 ^ w := by push_cast; rfl
  rw [cast, toNat_emod_two_pow_testBit, testBit_ediv_two_pow, place,
    decide_eq_true offset, Bool.true_and]

end Limbs

end Fusor.Arith
