import Fusor.Runtime.Arena
import Fusor.Runtime.BigInt
import Fusor.Runtime.JsString

/-!
# Stored values and their equalities

Numbers are small integers or binary64 bit patterns and compare as binary64.
Strings compare by the units their iterator delivers, integers by their limbs,
symbols by identity and heap values by their arena identity.
-/

namespace Fusor.Runtime

/-- A binary64 number as its bits. -/
abbrev Binary64 := BitVec 64

namespace Binary64

def isNaN (bits : Binary64) : Bool :=
  bits &&& 0x7ff0000000000000#64 == 0x7ff0000000000000#64 &&
    bits &&& 0x000fffffffffffff#64 != 0#64

def isZero (bits : Binary64) : Bool :=
  bits &&& 0x7fffffffffffffff#64 == 0#64

/-- The comparison of floating-point numbers. -/
def equals (left right : Binary64) : Bool :=
  !left.isNaN && !right.isNaN &&
    (left == right || left.isZero && right.isZero)

/-- The bits of `f64::NAN`. -/
def nan : Binary64 := 0x7ff8000000000000#64

/-- The number with the value of a signed 32-bit integer. -/
def fromI32 (integer : BitVec 32) : Binary64 :=
  let size := integer.toInt.natAbs
  if size = 0 then 0#64
  else
    let exponent := Nat.log2 size
    BitVec.ofNat 64 ((if integer.msb then 2 ^ 63 else 0) +
      2 ^ 52 * (exponent + 1023) + (size - 2 ^ exponent) * 2 ^ (52 - exponent))

/-- The integer part, as far as it fits 32 bits. -/
def truncate (bits : Binary64) : Int :=
  let exponent := (bits >>> 52).toNat % 2 ^ 11
  let fraction := 2 ^ 52 + (bits &&& 0x000fffffffffffff#64).toNat
  let size : Nat := if exponent < 1023 then 0
    else if exponent > 1075 then 2 ^ 32
    else fraction / 2 ^ (1075 - exponent)
  if bits.msb then -size else size

theorem not_isNaN_of_isZero {bits : Binary64} (zero : bits.isZero = true) :
    bits.isNaN = false := by
  rw [isZero, beq_iff_eq] at zero
  have masked : bits &&& 0x7ff0000000000000#64 = 0#64 := by
    have narrower : (0x7ff0000000000000#64 : Binary64) =
        0x7fffffffffffffff#64 &&& 0x7ff0000000000000#64 := by decide
    rw [narrower, ← BitVec.and_assoc, zero]
    simp
  rw [isNaN, masked]
  rfl

theorem equals_zero (bits : Binary64) :
    bits.equals 0#64 = bits.isZero := by
  cases zero : bits.isZero with
  | true =>
      rw [equals, not_isNaN_of_isZero zero, zero]
      simp [show isNaN 0#64 = false from rfl, show isZero 0#64 = true from rfl]
  | false =>
      have different : bits ≠ 0#64 := by
        rintro rfl
        simp [isZero] at zero
      simp [equals, zero, different]

end Binary64

inductive JsNumber where
  | int (value : BitVec 32)
  | float (bits : Binary64)
  deriving DecidableEq

namespace JsNumber

def asF64 : JsNumber → Binary64
  | int value => Binary64.fromI32 value
  | float bits => bits

/-- An integer when the bits survive the round trip, which no number outside
the range of the integers and no zero of negative sign does. -/
def fromF64 (bits : Binary64) : JsNumber :=
  let integer := BitVec.ofInt 32 bits.truncate
  if !bits.isNaN && decide (-2 ^ 31 ≤ bits.truncate) &&
      decide (bits.truncate ≤ 2 ^ 31 - 1) &&
      bits == Binary64.fromI32 integer then
    int integer
  else
    float bits

def strictEquals (left right : JsNumber) : Bool :=
  left.asF64.equals right.asF64

def sameValue (left right : JsNumber) : Bool :=
  if left.asF64.isNaN then right.asF64.isNaN
  else if left.asF64.equals 0#64 && right.asF64.equals 0#64 then
    left.asF64 == right.asF64
  else left.asF64.equals right.asF64

def sameValueZero (left right : JsNumber) : Bool :=
  left.asF64.equals right.asF64 || left.asF64.isNaN && right.asF64.isNaN

/-- Two numbers are the same when both are not a number or their bits are
equal. -/
theorem sameValue_iff (left right : JsNumber) :
    left.sameValue right = true ↔
      left.asF64.isNaN = true ∧ right.asF64.isNaN = true ∨
        left.asF64 = right.asF64 := by
  unfold sameValue
  rw [Binary64.equals_zero, Binary64.equals_zero]
  by_cases leftNaN : left.asF64.isNaN
  · rw [if_pos leftNaN]
    constructor
    · intro rightNaN
      exact .inl ⟨leftNaN, rightNaN⟩
    · rintro (both | same)
      · exact both.2
      · rw [← same]
        exact leftNaN
  · rw [if_neg leftNaN]
    by_cases zeros : (left.asF64.isZero && right.asF64.isZero) = true
    · simp [zeros, leftNaN]
    · rw [if_neg zeros]
      have separate : (left.asF64.isZero && right.asF64.isZero) = false := by
        simpa using zeros
      simp only [Binary64.equals, separate, Bool.or_false, leftNaN]
      constructor
      · intro equal
        right
        simpa using (Bool.and_eq_true_iff.mp equal).2
      · rintro (both | same)
        · exact absurd both.1 (by simp)
        · simp [← same, leftNaN]

end JsNumber

/-- A string the iterator reads to its end. -/
structure Text where
  string : JsString
  formed : string.WellFormed
  readable : string.codeUnits = .ok string.content

namespace Text

def codeUnits (text : Text) : List UInt16 :=
  match text.string.codeUnits with
  | .ok units => units
  | .error _ => []

theorem codeUnits_eq (text : Text) :
    text.codeUnits = text.string.content := by
  rw [codeUnits, text.readable]

def equals (left right : Text) : Bool :=
  left.string.len == right.string.len && left.codeUnits == right.codeUnits

theorem equals_iff (left right : Text) :
    left.equals right = true ↔ left.codeUnits = right.codeUnits := by
  rw [equals, Bool.and_eq_true, beq_iff_eq, beq_iff_eq]
  constructor
  · exact And.right
  · intro same
    refine ⟨?_, same⟩
    rw [left.formed.len_eq, right.formed.len_eq, ← codeUnits_eq,
      ← codeUnits_eq, same]

end Text

inductive StoredValue where
  | undefined
  | null
  | boolean (value : Bool)
  | number (value : JsNumber)
  | bigInt (value : JsBigInt)
  | string (value : Text)
  | symbol (atom : Nat)
  | function (id : ArenaId)
  | object (id : ArenaId)

namespace StoredValue

def strictEquals : StoredValue → StoredValue → Bool
  | undefined, undefined => true
  | null, null => true
  | boolean left, boolean right => left == right
  | number left, number right => left.strictEquals right
  | bigInt left, bigInt right => left.limbs == right.limbs
  | string left, string right => left.equals right
  | symbol left, symbol right => left == right
  | function left, function right => left == right
  | object left, object right => left == right
  | _, _ => false

def sameValue : StoredValue → StoredValue → Bool
  | number left, number right => left.sameValue right
  | left, right => left.strictEquals right

def sameValueZero : StoredValue → StoredValue → Bool
  | number left, number right => left.sameValueZero right
  | left, right => left.strictEquals right

/-- What `SameValue` looks at: the value with its representation removed. -/
def observation : StoredValue → Nat × List Nat
  | undefined => (0, [])
  | null => (1, [])
  | boolean value => (2, [if value then 1 else 0])
  | number value =>
      (3, [if value.asF64.isNaN then Binary64.nan.toNat
        else value.asF64.toNat])
  | bigInt value => (4, value.limbs.map BitVec.toNat)
  | string value => (5, value.codeUnits.map UInt16.toNat)
  | symbol atom => (6, [atom])
  | function id => (7, [id.runtime, id.index, id.generation])
  | object id => (8, [id.runtime, id.index, id.generation])

theorem map_toNat_inj {w : Nat} {left right : List (BitVec w)} :
    left.map BitVec.toNat = right.map BitVec.toNat ↔ left = right :=
  (List.map_injective_iff.mpr fun _ _ => BitVec.eq_of_toNat_eq).eq_iff

theorem map_unit_inj {left right : List UInt16} :
    left.map UInt16.toNat = right.map UInt16.toNat ↔ left = right :=
  (List.map_injective_iff.mpr fun _ _ => UInt16.toNat_inj.mp).eq_iff

theorem arenaId_eq_iff (left right : ArenaId) :
    left = right ↔ left.runtime = right.runtime ∧ left.index = right.index ∧
      left.generation = right.generation := by
  cases left
  cases right
  simp

theorem boolean_eq_iff (left right : Bool) :
    (if left then 1 else 0) = (if right then 1 else 0) ↔ left = right := by
  cases left <;> cases right <;> simp

theorem nanBits_eq_iff {left right : Binary64} :
    (if left.isNaN then Binary64.nan.toNat else left.toNat) =
        (if right.isNaN then Binary64.nan.toNat else right.toNat) ↔
      left.isNaN = true ∧ right.isNaN = true ∨ left = right := by
  have nan : Binary64.nan.isNaN = true := by decide
  by_cases leftNaN : left.isNaN
  · by_cases rightNaN : right.isNaN
    · simp [leftNaN, rightNaN]
    · have different : left ≠ right := by
        rintro rfl
        exact rightNaN leftNaN
      rw [if_pos leftNaN, if_neg rightNaN, BitVec.toNat_inj]
      constructor
      · rintro rfl
        exact absurd nan rightNaN
      · rintro (both | same)
        · exact absurd both.2 rightNaN
        · exact absurd same different
  · by_cases rightNaN : right.isNaN
    · have different : left ≠ right := by
        rintro rfl
        exact leftNaN rightNaN
      rw [if_neg leftNaN, if_pos rightNaN, BitVec.toNat_inj]
      constructor
      · rintro rfl
        exact absurd nan leftNaN
      · rintro (both | same)
        · exact absurd both.1 leftNaN
        · exact absurd same different
    · simp [leftNaN, rightNaN, BitVec.toNat_inj]

theorem sameValue_iff (left right : StoredValue) :
    left.sameValue right = true ↔ left.observation = right.observation := by
  cases left <;> cases right <;>
    simp [sameValue, strictEquals, observation, map_toNat_inj, map_unit_inj,
      Text.equals_iff, JsNumber.sameValue_iff, nanBits_eq_iff, arenaId_eq_iff,
      boolean_eq_iff]

end StoredValue

end Fusor.Runtime
