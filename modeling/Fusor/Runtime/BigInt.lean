import Fusor.Arith.Limbs
import Fusor.Support.Result

/-!
# Arbitrary-precision integers

A `JsBigInt` holds two's-complement limbs of 32 bits, least significant first,
without a redundant sign limb.  Sums of limbs are taken in 64 bits.
Reserving memory is taken to succeed.
-/

namespace Fusor.Runtime

open Arith

def limbBits : Nat := 32

abbrev Limb := BitVec 32

def maxLimbs : Nat := 1024 * 1024 / limbBits

inductive BigIntError where
  | tooLarge
  | resultTooLarge
  | notAnInteger
  | notFinite
  | invalidLiteral
  | divisionByZero
  | negativeExponent
  | invalidRadix
  deriving DecidableEq

/-- The error says that a result is too large. -/
def BigIntError.isSize : BigIntError → Bool
  | tooLarge => true
  | resultTooLarge => true
  | _ => false

/-- The leading limb only repeats the sign bit of the next one. -/
def redundantLimb (top next : Limb) : Bool :=
  (top == 0 && next >>> 31 == 0) ||
    (top == BitVec.allOnes 32 && next >>> 31 == 1)

/-- Drops redundant limbs from the most significant end, which comes first. -/
def trimLimbs : List Limb → List Limb
  | top :: next :: rest =>
      if redundantLimb top next then trimLimbs (next :: rest)
      else top :: next :: rest
  | limbs => limbs

def normalize (limbs : List Limb) : List Limb :=
  (trimLimbs limbs.reverse).reverse

/-- At least one limb, and no redundant one. -/
def Normalized (limbs : List Limb) : Prop :=
  limbs ≠ [] ∧ ∀ top next rest, limbs.reverse = top :: next :: rest →
    redundantLimb top next = false

theorem trimLimbs_ne_nil {limbs : List Limb} (filled : limbs ≠ []) :
    trimLimbs limbs ≠ [] := by
  induction limbs with
  | nil => exact filled
  | cons top rest induction =>
      cases rest with
      | nil => simp [trimLimbs]
      | cons next rest =>
          rw [trimLimbs]
          split
          · exact induction (by simp)
          · simp

theorem trimLimbs_irredundant (limbs : List Limb) :
    ∀ top next rest, trimLimbs limbs = top :: next :: rest →
      redundantLimb top next = false := by
  induction limbs with
  | nil =>
      intro top next rest same
      simp [trimLimbs] at same
  | cons first others induction =>
      intro top next rest same
      cases others with
      | nil => simp [trimLimbs] at same
      | cons second others =>
          rw [trimLimbs] at same
          split at same
          · exact induction top next rest same
          · rename_i kept
            cases same
            simpa using kept

theorem normalize_normalized {limbs : List Limb} (filled : limbs ≠ []) :
    Normalized (normalize limbs) := by
  refine ⟨?_, ?_⟩
  · simpa [normalize] using trimLimbs_ne_nil (by simpa using filled)
  · intro top next rest same
    rw [normalize, List.reverse_reverse] at same
    exact trimLimbs_irredundant _ top next rest same

structure JsBigInt where
  limbs : List Limb
  normalized : Normalized limbs

namespace JsBigInt

def ofSingle (limb : Limb) : JsBigInt where
  limbs := [limb]
  normalized := ⟨by simp, by simp⟩

def zero : JsBigInt :=
  ofSingle 0

def fromI32 (value : Int) : JsBigInt :=
  ofSingle (BitVec.ofInt 32 value)

def fromLimbs (limbs : List Limb) : Except BigIntError JsBigInt :=
  let filled := if limbs = [] then [0] else limbs
  have nonempty : filled ≠ [] := by
    simp only [filled]
    split <;> simp_all
  if (normalize filled).length > maxLimbs then
    .error .tooLarge
  else
    .ok ⟨normalize filled, normalize_normalized nonempty⟩

def isZero (integer : JsBigInt) : Bool :=
  integer.limbs == [0]

def topLimb (integer : JsBigInt) : Limb :=
  integer.limbs.getLast?.getD 0

def isNegative (integer : JsBigInt) : Bool :=
  integer.topLimb >>> 31 == 1

def signExtension (integer : JsBigInt) : Limb :=
  if integer.isNegative then BitVec.allOnes 32 else 0

def limb (integer : JsBigInt) (index : Nat) : Limb :=
  integer.limbs[index]?.getD integer.signExtension

/-- The limbs with indices below the width. -/
def window (integer : JsBigInt) (width : Nat) : List Limb :=
  (List.range width).map integer.limb

/-- Adds a carry to each term and passes its high half on. -/
def carryLoop : List Nat → Nat → List Limb
  | [], _ => []
  | term :: terms, carry =>
      let sum := (term + carry) % 2 ^ 64
      BitVec.ofNat 32 sum :: carryLoop terms (sum / 2 ^ 32)

def neg (integer : JsBigInt) : Except BigIntError JsBigInt :=
  fromLimbs (carryLoop
    ((integer.window (integer.limbs.length + 1)).map fun limb =>
      (~~~limb).toNat) 1)

def abs (integer : JsBigInt) : Except BigIntError JsBigInt :=
  if integer.isNegative then integer.neg else .ok integer

def addWithSign (left right : JsBigInt) (subtract : Bool) :
    Except BigIntError JsBigInt :=
  let width := max left.limbs.length right.limbs.length + 1
  fromLimbs (carryLoop
    ((List.range width).map fun index =>
      (left.limb index).toNat +
        (if subtract then ~~~right.limb index else right.limb index).toNat)
    (if subtract then 1 else 0))

def add (left right : JsBigInt) : Except BigIntError JsBigInt :=
  left.addWithSign right false

def sub (left right : JsBigInt) : Except BigIntError JsBigInt :=
  left.addWithSign right true

/-- Adds the rest of a carry to the upper limbs of the product. -/
def propagate : List Limb → Nat → List Limb
  | [], _ => []
  | product, 0 => product
  | current :: product, carry + 1 =>
      let sum := (current.toNat + (carry + 1)) % 2 ^ 64
      BitVec.ofNat 32 sum :: propagate product (sum / 2 ^ 32)

/-- Adds a multiple of the right operand to the product. -/
def multiplyAdd (left : Limb) : List Limb → List Limb → Nat → List Limb
  | [], product, carry => propagate product carry
  | _ :: _, [], _ => []
  | right :: rights, current :: product, carry =>
      let sum := (current.toNat + left.toNat * right.toNat + carry) % 2 ^ 64
      BitVec.ofNat 32 sum :: multiplyAdd left rights product (sum / 2 ^ 32)

/-- Each limb of the left operand works on the product from its own position
on. -/
def multiplyLoop (right : List Limb) : List Limb → List Limb → List Limb
  | [], product => product
  | left :: lefts, product =>
      match if left = 0 then product else multiplyAdd left right product 0 with
      | [] => []
      | lowest :: upper => lowest :: multiplyLoop right lefts upper

def magnitude (integer : JsBigInt) : Except BigIntError (List Limb) := do
  let value ← integer.abs
  .ok value.limbs

def withSign (magnitude : JsBigInt) (negative : Bool) :
    Except BigIntError JsBigInt :=
  if negative then magnitude.neg else .ok magnitude

def mul (left right : JsBigInt) : Except BigIntError JsBigInt := do
  if left.isZero || right.isZero then
    .ok zero
  else
    let negative := left.isNegative != right.isNegative
    let leftLimbs ← left.magnitude
    let rightLimbs ← right.magnitude
    let product := multiplyLoop rightLimbs leftLimbs
      (List.replicate (leftLimbs.length + rightLimbs.length + 1) 0)
    let value ← fromLimbs product
    value.withSign negative

def shiftMagnitudeLeftOne : List Limb → Limb → List Limb
  | [], _ => []
  | limb :: limbs, carry =>
      ((limb <<< 1) ||| carry) :: shiftMagnitudeLeftOne limbs (limb >>> 31)

/-- Compares the limbs below the index, the most significant first. -/
def compareBelow (left right : List Limb) : Nat → Ordering
  | 0 => .eq
  | index + 1 =>
      match compare (left[index]?.getD 0).toNat (right[index]?.getD 0).toNat with
      | .eq => compareBelow left right index
      | ordering => ordering

def compareMagnitudes (left right : List Limb) : Ordering :=
  compareBelow left right (max left.length right.length)

def subtractMagnitude : List Limb → List Limb → Int → List Limb
  | [], _, _ => []
  | limb :: limbs, right, borrow =>
      let difference : Int := limb.toNat - (right.headD 0).toNat - borrow
      if difference < 0 then
        BitVec.ofInt 32 (difference + 2 ^ 32) ::
          subtractMagnitude limbs right.tail 1
      else
        BitVec.ofInt 32 difference :: subtractMagnitude limbs right.tail 0

/-- The remainder doubled, with a bit of the dividend brought down. -/
def bringDown (dividend : List Limb) (bit : Nat) (remainder : List Limb) :
    List Limb :=
  let shifted := shiftMagnitudeLeftOne remainder 0
  if (dividend[bit / 32]?.getD 0) >>> (bit % 32) &&& 1 = 1 then
    shifted.modify 0 (· ||| 1)
  else
    shifted

/-- One bit of the long division: the quotient and the remainder. -/
def divideBit (dividend divisor : List Limb) (bit : Nat)
    (state : List Limb × List Limb) : List Limb × List Limb :=
  let remainder := bringDown dividend bit state.2
  if compareMagnitudes remainder divisor ≠ .lt then
    (state.1.modify (bit / 32) (· ||| (1 : Limb) <<< (bit % 32)),
      subtractMagnitude remainder divisor 0)
  else
    (state.1, remainder)

def divideLoop (dividend divisor : List Limb) :
    Nat → List Limb × List Limb → List Limb × List Limb
  | 0, state => state
  | bit + 1, state =>
      divideLoop dividend divisor bit (divideBit dividend divisor bit state)

def divideMagnitudes (dividend divisor : List Limb) :
    List Limb × List Limb :=
  let (quotient, remainder) := divideLoop dividend divisor
    (dividend.length * 32)
    (List.replicate (dividend.length + 1) 0,
      List.replicate (divisor.length + dividend.length + 1) 0)
  (quotient ++ [0], remainder ++ [0])

def divRem (left right : JsBigInt) :
    Except BigIntError (JsBigInt × JsBigInt) := do
  if right.isZero then
    .error .divisionByZero
  else if left.isZero then
    .ok (zero, zero)
  else
    let dividend ← left.magnitude
    let divisor ← right.magnitude
    let (quotientLimbs, remainderLimbs) := divideMagnitudes dividend divisor
    let quotient ← fromLimbs quotientLimbs
    let remainder ← fromLimbs remainderLimbs
    let quotient ← quotient.withSign (left.isNegative != right.isNegative)
    let remainder ← remainder.withSign left.isNegative
    .ok (quotient, remainder)

def promoteSizeError {α : Type} :
    Except BigIntError α → Except BigIntError α
  | .error .tooLarge => .error .resultTooLarge
  | result => result

def toU64 (integer : JsBigInt) : Option Nat :=
  if integer.isNegative || integer.limbs.length > 3 then
    none
  else if integer.limbs.length == 3 && integer.limb 2 != 0 then
    none
  else
    some ((integer.limb 0).toNat ||| (integer.limb 1).toNat <<< 32)

/-- A step of the power, taken or left out. -/
def mulWhen (wanted : Bool) (left right : JsBigInt) :
    Except BigIntError JsBigInt :=
  if wanted then promoteSizeError (left.mul right) else .ok left

def powLoop (remaining : Nat) (result base : JsBigInt) :
    Except BigIntError JsBigInt :=
  if remaining > 0 then do
    let result ← mulWhen (remaining &&& 1 = 1) result base
    let base ← mulWhen (remaining >>> 1 > 0) base base
    powLoop (remaining >>> 1) result base
  else
    .ok result
termination_by remaining
decreasing_by
  rw [Nat.shiftRight_one]
  omega

def pow (base exponent : JsBigInt) : Except BigIntError JsBigInt :=
  if exponent.isNegative then
    .error .negativeExponent
  else
    match exponent.toU64 with
    | none => .error .resultTooLarge
    | some remaining => powLoop remaining (fromI32 1) base

def bitwise (operation : Limb → Limb → Limb) (left right : JsBigInt) :
    Except BigIntError JsBigInt :=
  fromLimbs ((List.range (max left.limbs.length right.limbs.length)).map
    fun index => operation (left.limb index) (right.limb index))

def bitand (left right : JsBigInt) : Except BigIntError JsBigInt :=
  bitwise (· &&& ·) left right

def bitor (left right : JsBigInt) : Except BigIntError JsBigInt :=
  bitwise (· ||| ·) left right

def bitxor (left right : JsBigInt) : Except BigIntError JsBigInt :=
  bitwise (· ^^^ ·) left right

def not (integer : JsBigInt) : Except BigIntError JsBigInt :=
  fromLimbs (integer.limbs.map (~~~·))

/-- Shifts limbs left by less than a limb; the last limb given is the sign
extension. -/
def shiftLeftLoop (bits : Nat) : List Limb → Limb → List Limb
  | [], _ => []
  | limb :: limbs, carry =>
      if bits = 0 then
        limb :: shiftLeftLoop bits limbs carry
      else
        ((limb <<< bits) ||| carry) ::
          shiftLeftLoop bits limbs (limb >>> (32 - bits))

def shl (integer : JsBigInt) (count : Nat) : Except BigIntError JsBigInt :=
  if integer.isZero then
    .ok zero
  else if count / 32 > maxLimbs then
    .error .resultTooLarge
  else
    promoteSizeError (fromLimbs (List.replicate (count / 32) 0 ++
      shiftLeftLoop (count % 32) (integer.limbs ++ [integer.signExtension]) 0))

def shr (integer : JsBigInt) (count : Nat) : Except BigIntError JsBigInt :=
  if count / 32 ≥ integer.limbs.length then
    fromLimbs [integer.signExtension]
  else
    fromLimbs ((List.range (integer.limbs.length - count / 32)).map
      fun index =>
        let current := integer.limb (count / 32 + index)
        if count % 32 = 0 then
          current
        else
          (current >>> (count % 32)) |||
            (integer.limb (count / 32 + index + 1) <<< (32 - count % 32)))

/-- The inherent form of the order. -/
def cmp (left right : JsBigInt) : Ordering :=
  match left.isNegative, right.isNegative with
  | true, false => .lt
  | false, true => .gt
  | negative, _ =>
      match compare left.limbs.length right.limbs.length with
      | .eq => compareBelow left.limbs right.limbs left.limbs.length
      | ordering => if negative then ordering.swap else ordering

/-- The limbs of the low bits, the last one masked. -/
def lowLimbs (integer : JsBigInt) (bits : Nat) : List Limb :=
  let limbs := integer.window ((bits + 31) / 32)
  if bits % 32 ≠ 0 then
    limbs.modify (limbs.length - 1)
      (· &&& (BitVec.allOnes 32 >>> (32 - bits % 32)))
  else
    limbs

def truncateToBits (integer : JsBigInt) (bits : Nat) :
    Except BigIntError JsBigInt :=
  if (bits + 31) / 32 > maxLimbs then
    .error .tooLarge
  else
    fromLimbs (integer.lowLimbs bits ++ [0])

def bit (integer : JsBigInt) (index : Nat) : Bool :=
  (integer.limb (index / 32) >>> (index % 32)) &&& 1 == 1

def asIntN (integer : JsBigInt) (bits : Nat) : Except BigIntError JsBigInt :=
  if bits = 0 then
    .ok zero
  else do
    let truncated ← integer.truncateToBits bits
    if truncated.bit (bits - 1) then
      let modulus ← (fromI32 1).shl bits
      truncated.sub modulus
    else
      .ok truncated

def asUintN (integer : JsBigInt) (bits : Nat) : Except BigIntError JsBigInt :=
  if bits = 0 then .ok zero else integer.truncateToBits bits

/-- The integer denoted by the limbs. -/
def val (integer : JsBigInt) : Int :=
  Limbs.toInt integer.limbs

end JsBigInt

end Fusor.Runtime
