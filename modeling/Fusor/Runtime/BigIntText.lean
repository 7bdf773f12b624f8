import Fusor.Arith.Numerals
import Fusor.Runtime.BigIntRange

/-!
# Texts of the integers

Rendering divides the magnitude by the radix until nothing is left.  Parsing
multiplies by the radix and adds a digit, and applies the sign last.
-/

namespace Fusor.Runtime

open Arith

namespace JsBigInt

/-- Drops zero limbs from the most significant end, which comes first. -/
def trimZeroLimbs : List Limb → List Limb
  | top :: next :: rest =>
      if top = 0 then trimZeroLimbs (next :: rest) else top :: next :: rest
  | limbs => limbs

def normalizeMagnitude (limbs : List Limb) : List Limb :=
  (trimZeroLimbs limbs.reverse).reverse

/-- Divides in place from the most significant limb on, and returns the
remainder. -/
def divideMagnitudeBySmall (divisor : Nat) : List Limb → List Limb × Nat
  | [] => ([], 0)
  | limb :: upper =>
      let (quotient, remainder) := divideMagnitudeBySmall divisor upper
      let current := limb.toNat ||| remainder <<< 32
      (BitVec.ofNat 32 (current / divisor) :: quotient, current % divisor)

def digitChar (digit : Nat) : Char :=
  if digit < 10 then Char.ofNat (48 + digit)
  else if digit < 36 then Char.ofNat (87 + digit)
  else '?'

theorem toNat_or_shiftLeft (limb : Limb) (remainder : Nat) :
    limb.toNat ||| remainder <<< 32 = limb.toNat + 2 ^ 32 * remainder := by
  rw [Nat.or_comm, Nat.shiftLeft_eq, Nat.mul_comm,
    ← Nat.two_pow_add_eq_or_of_lt limb.isLt, Nat.add_comm]

theorem divideMagnitudeBySmall_value {divisor : Nat} (positive : 0 < divisor)
    (limbs : List Limb) :
    Limbs.value (divideMagnitudeBySmall divisor limbs).1 =
        Limbs.value limbs / divisor ∧
      (divideMagnitudeBySmall divisor limbs).2 =
        Limbs.value limbs % divisor := by
  induction limbs with
  | nil =>
      simp [divideMagnitudeBySmall, Limbs.value]
  | cons limb upper induction =>
      obtain ⟨quotient, remainder⟩ := induction
      have below := Nat.mod_lt (Limbs.value upper) positive
      have limbBound := limb.isLt
      have whole := Nat.div_add_mod (Limbs.value upper) divisor
      have current : limb.toNat + 2 ^ 32 * (Limbs.value upper % divisor) <
          2 ^ 32 * divisor := by
        omega
      have small : (limb.toNat + 2 ^ 32 * (Limbs.value upper % divisor)) /
          divisor < 2 ^ 32 :=
        Nat.div_lt_of_lt_mul (by rw [Nat.mul_comm divisor]; exact current)
      have split : limb.toNat + 2 ^ 32 * Limbs.value upper =
          limb.toNat + 2 ^ 32 * (Limbs.value upper % divisor) +
            divisor * (2 ^ 32 * (Limbs.value upper / divisor)) := by
        rw [Nat.mul_left_comm]
        omega
      rw [divideMagnitudeBySmall]
      simp only [remainder, toNat_or_shiftLeft, Limbs.value, quotient,
        BitVec.toNat_ofNat, Nat.mod_eq_of_lt small]
      rw [split, Nat.add_mul_div_left _ _ positive, Nat.add_mul_mod_self_left]
      exact ⟨rfl, rfl⟩

theorem value_trimZeroLimbs (limbs : List Limb) :
    Limbs.value (trimZeroLimbs limbs).reverse = Limbs.value limbs.reverse := by
  induction limbs with
  | nil => rfl
  | cons top rest induction =>
      cases rest with
      | nil => rfl
      | cons next rest =>
          rw [trimZeroLimbs]
          by_cases zero : top = 0
          · have split : (top :: next :: rest).reverse =
                (next :: rest).reverse ++ [top] := List.reverse_cons
            rw [if_pos zero, induction, split, Limbs.value_append, zero]
            simp [Limbs.value]
          · rw [if_neg zero]

theorem value_normalizeMagnitude (limbs : List Limb) :
    Limbs.value (normalizeMagnitude limbs) = Limbs.value limbs := by
  rw [normalizeMagnitude, value_trimZeroLimbs, List.reverse_reverse]

theorem all_zero_iff (limbs : List Limb) :
    limbs.all (· == 0) = true ↔ Limbs.value limbs = 0 := by
  induction limbs with
  | nil => simp [Limbs.value]
  | cons limb limbs induction =>
      rw [List.all_cons, Bool.and_eq_true, induction, beq_iff_eq, Limbs.value,
        ← BitVec.toNat_inj]
      have zero : (0 : Limb).toNat = 0 := rfl
      rw [zero]
      omega

/-- One more digit of the loop of `to_string_radix`. -/
def divideOnce (radix : Nat) (magnitude : List Limb) : List Limb :=
  normalizeMagnitude (divideMagnitudeBySmall radix magnitude).1

theorem value_divideOnce {radix : Nat} (positive : 0 < radix)
    (magnitude : List Limb) :
    Limbs.value (divideOnce radix magnitude) =
      Limbs.value magnitude / radix := by
  rw [divideOnce, value_normalizeMagnitude,
    (divideMagnitudeBySmall_value positive magnitude).1]

/-- The digits from the least significant one on. -/
def renderLoop (radix : Nat) (proper : 2 ≤ radix) (magnitude : List Limb)
    (digits : List Char) : List Char :=
  if magnitude.all (· == 0) then digits
  else
    renderLoop radix proper (divideOnce radix magnitude)
      (digits ++ [digitChar (divideMagnitudeBySmall radix magnitude).2])
  termination_by Limbs.value magnitude
  decreasing_by
    rename_i left
    rw [Bool.not_eq_true, ← Bool.not_eq_true, all_zero_iff] at left
    rw [value_divideOnce (by omega)]
    exact Nat.div_lt_self (Nat.pos_of_ne_zero left) (by omega)

def toStringRadix (integer : JsBigInt) (radix : Nat) :
    Except BigIntError (List Char) :=
  if proper : 2 ≤ radix ∧ radix ≤ 36 then
    if integer.isZero then .ok ['0']
    else do
      let magnitude ← integer.magnitude
      let digits := renderLoop radix proper.1 (normalizeMagnitude magnitude) []
      .ok ((if integer.isNegative then ['-'] else []) ++ digits.reverse)
  else .error .invalidRadix

/-- The value of an ASCII digit or letter. -/
def digitValue (character : Char) : Option Nat :=
  let code := character.toNat
  if 48 ≤ code ∧ code ≤ 57 then some (code - 48)
  else if 97 ≤ code ∧ code ≤ 122 then some (code - 87)
  else if 65 ≤ code ∧ code ≤ 90 then some (code - 55)
  else none

def toDigit (character : Char) (radix : Nat) : Option Nat :=
  (digitValue character).bind fun digit =>
    if digit < radix then some digit else none

/-- Code points with the property `White_Space`. -/
def isWhitespace (character : Char) : Bool :=
  let code := character.toNat
  decide (9 ≤ code ∧ code ≤ 13) || code == 0x20 || code == 0x85 ||
    code == 0xa0 || code == 0x1680 ||
    decide (0x2000 ≤ code ∧ code ≤ 0x200a) || code == 0x2028 ||
    code == 0x2029 || code == 0x202f || code == 0x205f || code == 0x3000

def isEcmascriptWhitespace (character : Char) : Bool :=
  [9, 10, 11, 12, 13, 0x20, 0xa0, 0xfeff].contains character.toNat ||
    isWhitespace character

def trimMatches (pattern : Char → Bool) (text : List Char) : List Char :=
  ((text.dropWhile pattern).reverse.dropWhile pattern).reverse

def splitSign : List Char → Bool × Bool × List Char
  | '-' :: rest => (true, true, rest)
  | '+' :: rest => (false, true, rest)
  | text => (false, false, text)

def detectRadixPrefix : List Char → Nat × List Char
  | '0' :: 'x' :: rest => (16, rest)
  | '0' :: 'X' :: rest => (16, rest)
  | '0' :: 'o' :: rest => (8, rest)
  | '0' :: 'O' :: rest => (8, rest)
  | '0' :: 'b' :: rest => (2, rest)
  | '0' :: 'B' :: rest => (2, rest)
  | text => (10, text)

/-- One more digit of the value read so far. -/
def appendDigit (radix : Nat) (value : JsBigInt) (character : Char) :
    Except BigIntError JsBigInt :=
  match toDigit character radix with
  | none => .error .invalidLiteral
  | some digit => do
      let scaled ← value.mul (fromI32 radix)
      scaled.add (fromI32 digit)

def parseDigits (radix : Nat) (digits : List Char) (negative : Bool) :
    Except BigIntError JsBigInt := do
  let value ← digits.foldlM (appendDigit radix) zero
  value.withSign negative

def fromStrRadix (text : List Char) (radix : Nat) :
    Except BigIntError JsBigInt :=
  if 2 ≤ radix ∧ radix ≤ 36 then
    let trimmed := trimMatches isEcmascriptWhitespace text
    if trimmed = [] then .ok zero
    else
      let (negative, explicitSign, unsigned) := splitSign trimmed
      let (found, digits) :=
        if radix = 10 then detectRadixPrefix unsigned else (radix, unsigned)
      if explicitSign ∧ found ≠ radix then .error .invalidLiteral
      else if digits = [] then .error .invalidLiteral
      else parseDigits found digits negative
  else .error .invalidRadix

section Digits

theorem digit_range {digit : Nat} (small : digit < 36) :
    (digitChar digit).toNat =
      if digit < 10 then 48 + digit else 87 + digit := by
  unfold digitChar
  interval_cases digit <;> rfl

theorem digitValue_digitChar {digit : Nat} (small : digit < 36) :
    digitValue (digitChar digit) = some digit := by
  unfold digitValue
  rw [digit_range small]
  by_cases decimal : digit < 10
  · rw [if_pos decimal]
    simp only
    rw [if_pos (by omega), Nat.add_sub_cancel_left]
  · rw [if_neg decimal]
    simp only
    rw [if_neg (by omega), if_pos (by omega), Nat.add_sub_cancel_left]

theorem toDigit_digitChar {digit radix : Nat} (small : digit < radix)
    (bounded : radix ≤ 36) : toDigit (digitChar digit) radix = some digit := by
  rw [toDigit, digitValue_digitChar (by omega), Option.bind_some,
    if_pos small]

theorem toDigit_eq_some {character : Char} {radix digit : Nat}
    (taken : toDigit character radix = some digit) :
    digitValue character = some digit ∧ digit < radix := by
  obtain ⟨found, value, kept⟩ := Option.bind_eq_some_iff.mp taken
  by_cases below : found < radix
  · rw [if_pos below] at kept
    cases kept
    exact ⟨value, below⟩
  · rw [if_neg below] at kept
    cases kept

end Digits

section Rendering

/-- The digits of the radices up to 36. -/
def alphabet : List Char :=
  ['0', '1', '2', '3', '4', '5', '6', '7', '8', '9', 'a', 'b', 'c', 'd', 'e',
    'f', 'g', 'h', 'i', 'j', 'k', 'l', 'm', 'n', 'o', 'p', 'q', 'r', 's', 't',
    'u', 'v', 'w', 'x', 'y', 'z']

/-- The canonical numeral of an integer. -/
def numeralText (radix : Nat) (integer : Int) : List Char :=
  (if integer < 0 then ['-'] else []) ++
    (numeral radix integer.natAbs).map fun digit => alphabet.getD digit '0'

theorem numeralText_eq {radix : Nat} (proper : 2 ≤ radix ∧ radix ≤ 36)
    (integer : Int) :
    numeralText radix integer = (if integer < 0 then ['-'] else []) ++
      (numeral radix integer.natAbs).map digitChar := by
  have letters : ∀ digit < 36, alphabet.getD digit '0' = digitChar digit := by
    decide
  have canonical : Canonical radix (numeral radix integer.natAbs) :=
    numeral_canonical (by omega) _
  rw [numeralText, List.map_congr_left]
  intro digit member
  have below := canonical.digit digit member
  exact letters digit (by omega)

theorem renderLoop_eq {radix : Nat} (proper : 2 ≤ radix)
    (magnitude : List Limb) (digits : List Char)
    (nonzero : Limbs.value magnitude ≠ 0) :
    renderLoop radix proper magnitude digits =
      digits ++ ((numeral radix (Limbs.value magnitude)).map digitChar).reverse := by
  induction magnitude, digits using renderLoop.induct radix proper with
  | case1 magnitude digits finished =>
      exact absurd ((all_zero_iff magnitude).mp finished) nonzero
  | case2 magnitude digits more induction =>
      have last := (divideMagnitudeBySmall_value (show 0 < radix by omega)
        magnitude).2
      have rest := value_divideOnce (show 0 < radix by omega) magnitude
      rw [renderLoop, if_neg more, last]
      by_cases small : Limbs.value magnitude < radix
      · have none : Limbs.value (divideOnce radix magnitude) = 0 := by
          rw [rest, Nat.div_eq_of_lt small]
        rw [renderLoop, if_pos ((all_zero_iff _).mpr none),
          numeral_of_lt small, Nat.mod_eq_of_lt small]
        rfl
      · have left : Limbs.value (divideOnce radix magnitude) ≠ 0 := by
          rw [rest]
          exact (Nat.div_pos (by omega) (by omega)).ne'
        rw [last] at induction
        rw [induction left, rest, numeral_step (show 1 < radix by omega)
          (Nat.le_of_not_lt small), List.map_append, List.reverse_append, List.append_assoc]
        rfl

/-- A text is rendered unless the magnitude is missing. -/
theorem toStringRadix_eq {integer : JsBigInt} {radix : Nat}
    (proper : 2 ≤ radix ∧ radix ≤ 36)
    (small : integer.limbs.length ≤ maxLimbs) :
    (integer.val = minimum ∧ ∃ error,
      integer.toStringRadix radix = .error error ∧ error.isSize = true) ∨
      (integer.val ≠ minimum ∧
        integer.toStringRadix radix = .ok (numeralText radix integer.val)) := by
  have least := minimum_neg
  rw [toStringRadix, dif_pos proper, isZero_eq_decide]
  by_cases zero : integer.val = 0
  · right
    refine ⟨by omega, ?_⟩
    rw [decide_eq_true zero, if_pos rfl, zero]
    rfl
  · rw [decide_eq_false zero, if_neg Bool.false_ne_true]
    rcases magnitude_cases small with ⟨same, error, failed, size⟩ |
      ⟨apart, limbs, taken, _, value⟩
    · left
      refine ⟨same, error, ?_, size⟩
      rw [failed, Support.error_bind]
    · right
      refine ⟨apart, ?_⟩
      have size : Limbs.value limbs = integer.val.natAbs := by
        rw [Int.abs_eq_natAbs] at value
        exact_mod_cast value
      rw [taken, Support.ok_bind, renderLoop_eq, value_normalizeMagnitude, size,
        List.nil_append]
      · simp only [List.reverse_reverse, isNegative_eq_decide,
          decide_eq_true_eq, numeralText_eq proper]
      · rw [value_normalizeMagnitude, size]
        exact Int.natAbs_ne_zero.mpr zero

end Rendering

section Parsing

theorem val_fromI32 {natural : Nat} (small : natural < 2 ^ 31) :
    (fromI32 natural).val = natural := by
  have value : (BitVec.ofInt 32 (natural : Int)).toNat = natural := by
    rw [BitVec.ofInt_natCast, BitVec.toNat_ofNat]
    exact Nat.mod_eq_of_lt (by omega)
  have clear : (BitVec.ofInt 32 (natural : Int)).msb = false := by
    rw [BitVec.msb_eq_decide, value, decide_eq_false_iff_not]
    omega
  rw [fromI32, val_ofSingle_small clear, value]

theorem length_fromI32 (integer : Int) :
    (fromI32 integer).limbs.length ≤ maxLimbs := by
  change 1 ≤ maxLimbs
  decide

theorem appendDigit_exact {radix digit : Nat} (bounded : radix ≤ 36)
    {value : JsBigInt} (nonneg : 0 ≤ value.val)
    (small : value.limbs.length ≤ maxLimbs) {character : Char}
    (read : toDigit character radix = some digit) :
    Exact (appendDigit radix value character) (value.val * radix + digit) := by
  have least := minimum_neg
  have below := (toDigit_eq_some read).2
  have radixValue := val_fromI32 (show radix < 2 ^ 31 by omega)
  have digitValue := val_fromI32 (show digit < 2 ^ 31 by omega)
  have scaledNonneg : 0 ≤ value.val * radix :=
    mul_nonneg nonneg (Int.natCast_nonneg radix)
  have product := mul_exact small (length_fromI32 radix) (by
    rw [radixValue]
    omega)
  rw [radixValue] at product
  rw [appendDigit, read]
  simp only
  cases multiplied : value.mul (fromI32 radix) with
  | ok scaled =>
      have parts := product.denotes scaled multiplied
      have sum := scaled.addWithSign_exact (fromI32 digit) false
      rw [parts.1, digitValue, if_neg Bool.false_ne_true] at sum
      rw [Support.ok_bind, add]
      exact sum
  | error error =>
      obtain ⟨size, outside⟩ := product.oversized error multiplied
      apply Exact.of_error size
      rw [oversized_iff] at outside ⊢
      omega

theorem appendDigit_invalid {radix : Nat} {value : JsBigInt} {character : Char}
    (invalid : toDigit character radix = none) :
    appendDigit radix value character = .error .invalidLiteral := by
  rw [appendDigit, invalid]

/-- What the digits denote once they are read. -/
theorem val_of_foldlM {radix : Nat} (bounded : radix ≤ 36)
    {digits : List Char} {value final : JsBigInt} (nonneg : 0 ≤ value.val)
    (small : value.limbs.length ≤ maxLimbs)
    (read : digits.foldlM (appendDigit radix) value = .ok final) :
    ∃ numbers, digits.mapM (toDigit · radix) = some numbers ∧
      final.val = readDigits radix value.val.toNat numbers ∧
      final.limbs.length ≤ maxLimbs := by
  induction digits generalizing value with
  | nil =>
      cases read
      exact ⟨[], rfl, (Int.toNat_of_nonneg nonneg).symm, small⟩
  | cons character digits induction =>
      rw [List.foldlM_cons, Support.bind_eq_ok_iff] at read
      obtain ⟨next, step, rest⟩ := read
      cases found : toDigit character radix with
      | none =>
          rw [appendDigit_invalid found] at step
          cases step
      | some digit =>
          have parts := (appendDigit_exact bounded nonneg small found).denotes
            next step
          have grown : 0 ≤ value.val * radix :=
            mul_nonneg nonneg (Int.natCast_nonneg radix)
          obtain ⟨numbers, mapped, exact, fits⟩ :=
            induction (by omega) parts.2 rest
          refine ⟨digit :: numbers, ?_, ?_, fits⟩
          · rw [List.mapM_cons, found, mapped]
            rfl
          · rw [exact, parts.1, readDigits_cons]
            congr 2
            rw [← Int.toNat_natCast (value.val.toNat * radix + digit)]
            push_cast
            rw [Int.toNat_of_nonneg nonneg]

/-- Digits whose value fits are read. -/
theorem foldlM_succeeds {radix : Nat} (proper : 0 < radix) (bounded : radix ≤ 36)
    {digits : List Char} {numbers : List Nat} {value : JsBigInt}
    (nonneg : 0 ≤ value.val) (small : value.limbs.length ≤ maxLimbs)
    (mapped : digits.mapM (toDigit · radix) = some numbers)
    (fits : (readDigits radix value.val.toNat numbers : Int) < -minimum) :
    ∃ final, digits.foldlM (appendDigit radix) value = .ok final := by
  have least := minimum_neg
  induction digits generalizing value numbers with
  | nil => exact ⟨value, rfl⟩
  | cons character digits induction =>
      rw [List.mapM_cons] at mapped
      obtain ⟨digit, found, mapped⟩ := Option.bind_eq_some_iff.mp mapped
      obtain ⟨others, rest, same⟩ := Option.bind_eq_some_iff.mp mapped
      cases same
      have natural : ((value.val.toNat * radix + digit : Nat) : Int) =
          value.val * radix + digit := by
        push_cast
        rw [Int.toNat_of_nonneg nonneg]
      rw [readDigits_cons] at fits
      have grown := le_readDigits proper (value.val.toNat * radix + digit)
        others
      have sum : 0 ≤ value.val * radix + digit := by omega
      obtain ⟨next, step, exact, short⟩ :=
        (appendDigit_exact bounded nonneg small found).succeeds (by
          rw [not_oversized_iff]
          omega)
      have start : next.val.toNat = value.val.toNat * radix + digit := by
        rw [exact, ← natural, Int.toNat_natCast]
      rw [← start] at fits
      obtain ⟨final, read⟩ := induction (by omega) short rest fits
      refine ⟨final, ?_⟩
      rw [List.foldlM_cons, step, Support.ok_bind, read]

theorem eq_of_val_eq {left right : JsBigInt} (same : left.val = right.val) :
    left = right := by
  have limbs := (left.limbs_eq_iff right).mpr same
  cases left
  cases right
  cases limbs
  rfl

/-- The signed value of digits. -/
def signedValue (radix : Nat) (numbers : List Nat) (negative : Bool) : Int :=
  if negative then -(readDigits radix 0 numbers : Int)
  else readDigits radix 0 numbers

theorem parseDigits_eq_ok_iff {radix : Nat} (proper : 0 < radix)
    (bounded : radix ≤ 36) (digits : List Char) (negative : Bool)
    (value : JsBigInt) :
    parseDigits radix digits negative = .ok value ↔
      ∃ numbers, digits.mapM (toDigit · radix) = some numbers ∧
        (readDigits radix 0 numbers : Int) < -minimum ∧
        value.val = signedValue radix numbers negative := by
  have start : zero.val.toNat = 0 := by rw [val_zero]; rfl
  have nonneg : 0 ≤ zero.val := by rw [val_zero]
  constructor
  · intro parsed
    rw [parseDigits, Support.bind_eq_ok_iff] at parsed
    obtain ⟨plain, read, signed⟩ := parsed
    obtain ⟨numbers, mapped, exact, small⟩ :=
      val_of_foldlM bounded nonneg zero_length read
    rw [start] at exact
    have range := range_of_length small
    rw [exact] at range
    refine ⟨numbers, mapped, range.2, ?_⟩
    exact ((withSign_exact exact small negative).denotes value signed).1
  · rintro ⟨numbers, mapped, fits, exact⟩
    rw [← start] at fits
    obtain ⟨plain, read⟩ :=
      foldlM_succeeds proper bounded nonneg zero_length mapped fits
    obtain ⟨others, again, plainValue, small⟩ :=
      val_of_foldlM bounded nonneg zero_length read
    rw [mapped] at again
    cases again
    rw [start] at plainValue fits
    obtain ⟨final, signed, finalValue, _⟩ :=
      (withSign_exact plainValue small negative).succeeds (by
        rw [not_oversized_iff]
        split <;> omega)
    have same : value = final := by
      apply eq_of_val_eq
      rw [exact, finalValue]
      rfl
    rw [parseDigits, read, Support.ok_bind, signed, same]

end Parsing

section RoundTrip

theorem dropWhile_eq_self {pattern : Char → Bool} {text : List Char}
    (clean : ∀ character ∈ text, pattern character = false) :
    text.dropWhile pattern = text := by
  cases text with
  | nil => rfl
  | cons first rest =>
      rw [List.dropWhile_cons, clean first List.mem_cons_self]
      rfl

theorem trimMatches_eq_self {pattern : Char → Bool} {text : List Char}
    (clean : ∀ character ∈ text, pattern character = false) :
    trimMatches pattern text = text := by
  rw [trimMatches, dropWhile_eq_self clean, dropWhile_eq_self,
    List.reverse_reverse]
  intro character member
  exact clean character (List.mem_reverse.mp member)

theorem splitSign_unsigned {first : Char} (rest : List Char)
    (noMinus : first ≠ '-') (noPlus : first ≠ '+') :
    splitSign (first :: rest) = (false, false, first :: rest) := by
  unfold splitSign
  split
  · rename_i same
    cases same
    exact absurd rfl noMinus
  · rename_i same
    cases same
    exact absurd rfl noPlus
  · rfl

theorem detectRadixPrefix_decimal {text : List Char}
    (decimal : ∀ character ∈ text, (toDigit character 10).isSome = true) :
    detectRadixPrefix text = (10, text) := by
  have letter : ∀ first second rest, text = first :: second :: rest →
      toDigit second 10 ≠ none := by
    intro first second rest same missing
    have found := decimal second (by simp [same])
    rw [missing] at found
    cases found
  unfold detectRadixPrefix
  split
  · exact absurd rfl (letter _ _ _ rfl)
  · exact absurd rfl (letter _ _ _ rfl)
  · exact absurd rfl (letter _ _ _ rfl)
  · exact absurd rfl (letter _ _ _ rfl)
  · exact absurd rfl (letter _ _ _ rfl)
  · exact absurd rfl (letter _ _ _ rfl)
  · rfl

theorem isEcmascriptWhitespace_digitValue {character : Char} {digit : Nat}
    (value : digitValue character = some digit) :
    isEcmascriptWhitespace character = false := by
  have code : 48 ≤ character.toNat ∧ character.toNat ≤ 122 := by
    unfold digitValue at value
    simp only at value
    split at value
    · omega
    · split at value
      · omega
      · split at value
        · omega
        · cases value
  simp only [isEcmascriptWhitespace, isWhitespace, List.contains_cons,
    List.contains_nil, Bool.or_eq_false_iff, beq_eq_false_iff_ne,
    decide_eq_false_iff_not, ne_eq, and_true]
  omega

theorem mapM_toDigit_digitChar {radix : Nat} (bounded : radix ≤ 36)
    {numbers : List Nat} (below : ∀ number ∈ numbers, number < radix) :
    (numbers.map digitChar).mapM (toDigit · radix) = some numbers := by
  induction numbers with
  | nil => rfl
  | cons number numbers induction =>
      rw [List.forall_mem_cons] at below
      rw [List.map_cons, List.mapM_cons, toDigit_digitChar below.1 bounded,
        induction below.2]
      rfl

/-- Digits of a numeral are parsed back with any sign. -/
theorem fromStrRadix_numeralText {integer : JsBigInt} {radix : Nat}
    (proper : 2 ≤ radix ∧ radix ≤ 36)
    (small : integer.limbs.length ≤ maxLimbs)
    (apart : integer.val ≠ minimum) :
    fromStrRadix (numeralText radix integer.val) radix = .ok integer := by
  have range := range_of_length small
  have canonical : Canonical radix (numeral radix integer.val.natAbs) :=
    numeral_canonical (by omega) _
  have mapped := mapM_toDigit_digitChar proper.2 canonical.digit
  have digitOf : ∀ character ∈ (numeral radix integer.val.natAbs).map digitChar,
      ∃ digit, digitValue character = some digit ∧ digit < radix := by
    intro character member
    obtain ⟨digit, inside, rfl⟩ := List.mem_map.mp member
    have below := canonical.digit digit inside
    exact ⟨digit, digitValue_digitChar (by omega), below⟩
  have clean : ∀ character ∈ numeralText radix integer.val,
      isEcmascriptWhitespace character = false := by
    intro character member
    rw [numeralText_eq proper, List.mem_append] at member
    rcases member with sign | digit
    · split at sign
      · rw [List.mem_singleton.mp sign]
        decide
      · cases sign
    · obtain ⟨_, value, _⟩ := digitOf character digit
      exact isEcmascriptWhitespace_digitValue value
  have parsed : ∀ negative, signedValue radix
      (numeral radix integer.val.natAbs) negative = integer.val →
      parseDigits radix ((numeral radix integer.val.natAbs).map digitChar)
        negative = .ok integer := by
    intro negative same
    rw [parseDigits_eq_ok_iff (by omega) proper.2]
    refine ⟨_, mapped, ?_, same.symm⟩
    rw [readDigits_numeral]
    omega
  have decimal : radix = 10 → detectRadixPrefix
      ((numeral radix integer.val.natAbs).map digitChar) =
        (10, (numeral radix integer.val.natAbs).map digitChar) := by
    rintro rfl
    apply detectRadixPrefix_decimal
    intro character member
    obtain ⟨digit, value, below⟩ := digitOf character member
    rw [toDigit, value, Option.bind_some, if_pos below]
    rfl
  have chosen : (if radix = 10 then detectRadixPrefix
      ((numeral radix integer.val.natAbs).map digitChar)
      else (radix, (numeral radix integer.val.natAbs).map digitChar)) =
        (radix, (numeral radix integer.val.natAbs).map digitChar) := by
    by_cases ten : radix = 10
    · rw [if_pos ten, decimal ten, ten]
    · rw [if_neg ten]
  rw [fromStrRadix, if_pos proper, trimMatches_eq_self clean,
    numeralText_eq proper]
  by_cases negative : integer.val < 0
  · rw [if_pos negative]
    simp only [List.singleton_append, splitSign, chosen]
    rw [if_neg (by simp), if_neg (by simp), if_neg (by simpa using
      canonical.filled)]
    apply parsed
    rw [signedValue, if_pos rfl, readDigits_numeral]
    omega
  · rw [if_neg negative, List.nil_append]
    obtain ⟨first, rest, digits⟩ := List.exists_cons_of_ne_nil
      (show (numeral radix integer.val.natAbs).map digitChar ≠ [] by
        simpa using canonical.filled)
    obtain ⟨digit, value, _⟩ := digitOf first (by simp [digits])
    have unsigned := splitSign_unsigned rest
      (show first ≠ '-' by rintro rfl; cases value)
      (show first ≠ '+' by rintro rfl; cases value)
    rw [digits] at chosen parsed ⊢
    simp only [unsigned, chosen]
    rw [if_neg (by simp), if_neg (by simp), if_neg (by simp)]
    apply parsed
    rw [signedValue, if_neg Bool.false_ne_true, readDigits_numeral]
    omega

/-- A rendered text is the canonical numeral of the integer, and is parsed
back to it. -/
theorem toStringRadix_roundTrip {integer : JsBigInt} {radix : Nat}
    (small : integer.limbs.length ≤ maxLimbs)
    (proper : 2 ≤ radix ∧ radix ≤ 36) {text : List Char}
    (rendered : integer.toStringRadix radix = .ok text) :
    text = numeralText radix integer.val ∧
      fromStrRadix text radix = .ok integer := by
  rcases toStringRadix_eq proper small with ⟨_, error, failed, _⟩ |
    ⟨apart, made⟩
  · rw [failed] at rendered
    cases rendered
  · rw [made] at rendered
    cases rendered
    exact ⟨rfl, fromStrRadix_numeralText proper small apart⟩

theorem toStringRadix_roundTrip_hexadecimal :
    (fromI32 (-255)).toStringRadix 16 = .ok ['-', 'f', 'f'] ∧
      fromStrRadix ['-', 'f', 'f'] 16 = .ok (fromI32 (-255)) := by
  have rendered :
      (fromI32 (-255)).toStringRadix 16 = .ok ['-', 'f', 'f'] := by
    decide +kernel
  exact ⟨rendered,
    (toStringRadix_roundTrip (by decide) (by decide) rendered).2⟩

end RoundTrip

end JsBigInt

end Fusor.Runtime
