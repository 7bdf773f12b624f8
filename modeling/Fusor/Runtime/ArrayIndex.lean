import Fusor.Arith.Numerals
import Fusor.Runtime.JsString

/-!
# Array indices

The spelling of an array index is its decimal numeral.  The parser reads code
units one by one and stops at the first that cannot continue a numeral of the
range.  The printer fills a buffer of ten bytes from its end.
-/

namespace Fusor.Runtime

open Arith

def maxArrayIndex : Nat := 2 ^ 32 - 2

structure ArrayIndex where
  value : Nat
  bounded : value ≤ maxArrayIndex
  deriving DecidableEq

namespace ArrayIndex

def new (value : Nat) : Option ArrayIndex :=
  if bounded : value ≤ maxArrayIndex then some ⟨value, bounded⟩ else none

def isAsciiDigit (unit : UInt16) : Bool :=
  decide (48 ≤ unit) && decide (unit ≤ 57)

def checkedMul (left right : Nat) : Option Nat :=
  if left * right < 2 ^ 32 then some (left * right) else none

def checkedAdd (left right : Nat) : Option Nat :=
  if left + right < 2 ^ 32 then some (left + right) else none

/-- One more digit of the number read so far. -/
def readUnit (value : Nat) (unit : UInt16) : Option Nat :=
  if isAsciiDigit unit then
    (checkedMul value 10).bind fun scaled =>
      checkedAdd scaled (unit - 48).toNat
  else none

def parsePropertyKey (key : JsString) : Option ArrayIndex :=
  let len := key.len
  if len = 0 ∨ len > 10 then none
  else (key.codeUnitAt 0).bind fun first =>
    if first = 48 then
      if len = 1 then some ⟨0, Nat.zero_le _⟩ else none
    else if !isAsciiDigit first then none
    else
      ((List.range' 1 (len - 1)).foldlM (fun value index =>
        (key.codeUnitAt index).bind (readUnit value))
        (first - 48).toNat).bind new

def decimalDigit (value : Nat) : UInt8 :=
  48 + UInt8.ofNat (value % 10)

/-- The loop of `to_js_string`, which returns the filled part of the
buffer. -/
def fillDigits (digits : List UInt8) (start value : Nat) :
    Except StringFailure (List UInt8) :=
  if start = 0 ∨ digits.length < start then .error .indexOutOfBounds
  else
    let digits := digits.set (start - 1) (decimalDigit value)
    if value / 10 = 0 then .ok (digits.drop (start - 1))
    else fillDigits digits (start - 1) (value / 10)
  termination_by value
  decreasing_by omega

def toJsString (index : ArrayIndex) : Except StringFailure JsString := do
  let digits ← fillDigits (List.replicate 10 0) 10 index.value
  JsString.fromLatin1 digits

/-- The code unit of a decimal digit. -/
def unitOf (digit : Nat) : UInt16 :=
  UInt16.ofNat (48 + digit)

/-- The canonical decimal of a number. -/
def canonicalDecimal (number : Nat) : List UInt16 :=
  (numeral 10 number).map unitOf

section Digits

theorem isAsciiDigit_iff (unit : UInt16) :
    isAsciiDigit unit = true ↔ 48 ≤ unit.toNat ∧ unit.toNat ≤ 57 := by
  rw [isAsciiDigit, Bool.and_eq_true, decide_eq_true_iff, decide_eq_true_iff,
    UInt16.le_iff_toNat_le, UInt16.le_iff_toNat_le]
  exact Iff.rfl

theorem toNat_sub {unit : UInt16} (digit : isAsciiDigit unit = true) :
    (unit - 48).toNat = unit.toNat - 48 := by
  have range := (isAsciiDigit_iff unit).mp digit
  apply UInt16.toNat_sub_of_le
  exact UInt16.le_iff_toNat_le.mpr range.1

theorem unitOf_sub {unit : UInt16} (digit : isAsciiDigit unit = true) :
    unitOf (unit - 48).toNat = unit := by
  have range := (isAsciiDigit_iff unit).mp digit
  rw [unitOf, toNat_sub digit, Nat.add_sub_cancel' range.1]
  exact UInt16.ofNat_toNat

theorem sub_lt {unit : UInt16} (digit : isAsciiDigit unit = true) :
    (unit - 48).toNat < 10 := by
  have range := (isAsciiDigit_iff unit).mp digit
  rw [toNat_sub digit]
  omega

theorem toNat_unitOf {digit : Nat} (small : digit < 10) :
    (unitOf digit).toNat = 48 + digit :=
  UInt16.toNat_ofNat_of_lt' (show 48 + digit < 2 ^ 16 by omega)

theorem isAsciiDigit_unitOf {digit : Nat} (small : digit < 10) :
    isAsciiDigit (unitOf digit) = true := by
  rw [isAsciiDigit_iff, toNat_unitOf small]
  omega

theorem sub_unitOf {digit : Nat} (small : digit < 10) :
    (unitOf digit - 48).toNat = digit := by
  rw [toNat_sub (isAsciiDigit_unitOf small), toNat_unitOf small]
  omega

theorem toUInt16_decimalDigit (value : Nat) :
    (decimalDigit value).toUInt16 = unitOf (value % 10) := by
  apply UInt16.toNat_inj.mp
  have small : value % 10 < 10 := Nat.mod_lt value (by omega)
  rw [toNat_unitOf small, UInt8.toNat_toUInt16, decimalDigit, UInt8.toNat_add,
    UInt8.toNat_ofNat']
  change (48 + value % 10 % 256) % 256 = 48 + value % 10
  omega

end Digits

section Reading

theorem new_eq_some_iff (value : Nat) (index : ArrayIndex) :
    new value = some index ↔ value = index.value := by
  unfold new
  constructor
  · intro made
    by_cases bounded : value ≤ maxArrayIndex
    · rw [dif_pos bounded] at made
      cases made
      rfl
    · rw [dif_neg bounded] at made
      cases made
  · intro same
    subst same
    rw [dif_pos index.bounded]

theorem readUnit_eq_some_iff (value : Nat) (unit : UInt16) (next : Nat) :
    readUnit value unit = some next ↔ isAsciiDigit unit = true ∧
      value * 10 + (unit - 48).toNat = next ∧ next < 2 ^ 32 := by
  unfold readUnit checkedMul checkedAdd
  by_cases digit : isAsciiDigit unit = true
  · by_cases room : value * 10 < 2 ^ 32
    · simp only [digit, if_true, if_pos room, Option.bind_some, true_and]
      by_cases more : value * 10 + (unit - 48).toNat < 2 ^ 32
      · rw [if_pos more, Option.some_inj]
        constructor
        · intro same
          exact ⟨same, by omega⟩
        · exact And.left
      · rw [if_neg more]
        constructor
        · intro impossible
          cases impossible
        · intro bounded
          omega
    · simp only [digit, if_true, if_neg room, Option.bind_none, true_and]
      constructor
      · intro impossible
        cases impossible
      · intro bounded
        omega
  · simp [digit]

/-- The rest of a key is read when it has only digits and its value fits. -/
theorem foldlM_readUnit (units : List UInt16) {value : Nat}
    (bounded : value < 2 ^ 32) (final : Nat) :
    units.foldlM readUnit value = some final ↔
      (∀ unit ∈ units, isAsciiDigit unit = true) ∧
        readDigits 10 value (units.map fun unit => (unit - 48).toNat) = final ∧
        final < 2 ^ 32 := by
  induction units generalizing value with
  | nil =>
      simp only [List.foldlM_nil, List.map_nil]
      constructor
      · intro same
        cases same
        exact ⟨by simp, rfl, bounded⟩
      · rintro ⟨_, same, _⟩
        exact congrArg some same
  | cons unit units induction =>
      rw [List.foldlM_cons, List.forall_mem_cons, List.map_cons,
        readDigits_cons]
      constructor
      · intro read
        obtain ⟨next, first, rest⟩ := Option.bind_eq_some_iff.mp read
        obtain ⟨digit, same, small⟩ := (readUnit_eq_some_iff _ _ _).mp first
        obtain ⟨digits, whole, fits⟩ := (induction small).mp rest
        rw [← same] at whole
        exact ⟨⟨digit, digits⟩, whole, fits⟩
      · rintro ⟨⟨digit, digits⟩, whole, fits⟩
        have grown := le_readDigits (show 0 < 10 by omega)
          (value * 10 + (unit - 48).toNat)
          (units.map fun unit => (unit - 48).toNat)
        have small : value * 10 + (unit - 48).toNat < 2 ^ 32 := by omega
        exact Option.bind_eq_some_iff.mpr ⟨_,
          (readUnit_eq_some_iff _ _ _).mpr ⟨digit, rfl, small⟩,
          (induction small).mpr ⟨digits, whole, fits⟩⟩

theorem foldlM_range' (units : List UInt16) (read : Nat → UInt16 → Option Nat)
    (first : List UInt16) (value : Nat) :
    (List.range' first.length units.length).foldlM (fun value index =>
        ((first ++ units)[index]?).bind (read value)) value =
      units.foldlM read value := by
  induction units generalizing first value with
  | nil => rfl
  | cons unit units induction =>
      rw [List.length_cons, List.range'_succ, List.foldlM_cons,
        List.foldlM_cons, List.getElem?_append_right (Nat.le_refl _),
        Nat.sub_self, List.getElem?_cons_zero, Option.bind_some]
      congr 1
      funext next
      have shifted := induction (first ++ [unit]) next
      rw [List.length_append, List.length_singleton] at shifted
      rw [← shifted, List.append_assoc, List.singleton_append]

theorem parsePropertyKey_nil {key : JsString} (formed : key.WellFormed)
    (nil : key.content = []) : parsePropertyKey key = none := by
  unfold parsePropertyKey
  rw [formed.len_eq, nil, List.length_nil]
  rfl

theorem parsePropertyKey_cons {key : JsString} (formed : key.WellFormed)
    {first : UInt16} {rest : List UInt16}
    (cons : key.content = first :: rest) :
    parsePropertyKey key =
      if 10 ≤ rest.length then none
      else if first = 48 then
        if rest = [] then some ⟨0, Nat.zero_le _⟩ else none
      else if !isAsciiDigit first then none
      else (rest.foldlM readUnit (first - 48).toNat).bind new := by
  have len : key.len = rest.length + 1 := by
    rw [formed.len_eq, cons, List.length_cons]
  have loop := foldlM_range' rest readUnit [first] (first - 48).toNat
  rw [List.singleton_append] at loop
  unfold parsePropertyKey
  simp only [len, formed.codeUnitAt_eq, cons, List.getElem?_cons_zero,
    Option.bind_some, Nat.add_sub_cancel]
  rw [List.length_singleton] at loop
  rw [loop]
  simp

theorem canonical_of_digits {first : UInt16} {rest : List UInt16}
    {number : Nat}
    (digits : ∀ unit ∈ first :: rest, isAsciiDigit unit = true)
    (nonzero : first ≠ 48)
    (value : readDigits 10 0
      ((first :: rest).map fun unit => (unit - 48).toNat) = number) :
    first :: rest = canonicalDecimal number := by
  have canonical : Canonical 10
      ((first :: rest).map fun unit => (unit - 48).toNat) := by
    constructor
    · simp
    · intro digit member
      obtain ⟨unit, inside, rfl⟩ := List.mem_map.mp member
      exact sub_lt (digits unit inside)
    · right
      intro zero
      apply nonzero
      have back := unitOf_sub (digits first List.mem_cons_self)
      rw [List.map_cons, List.head?_cons, Option.some_inj] at zero
      rw [← back, zero]
      rfl
  rw [canonicalDecimal, ← value, ← canonical.eq_numeral (by omega),
    List.map_map]
  have back : (first :: rest).map
      (unitOf ∘ fun unit => (unit - 48).toNat) = (first :: rest).map id :=
    List.map_congr_left fun unit member => unitOf_sub (digits unit member)
  rw [back, List.map_id]

/-- A key that is read is the canonical decimal of the index. -/
theorem content_of_parsePropertyKey {key : JsString}
    (formed : key.WellFormed) {index : ArrayIndex}
    (parsed : parsePropertyKey key = some index) :
    key.content = canonicalDecimal index.value := by
  cases units : key.content with
  | nil =>
      rw [parsePropertyKey_nil formed units] at parsed
      cases parsed
  | cons first rest =>
      rw [parsePropertyKey_cons formed units] at parsed
      by_cases long : 10 ≤ rest.length
      · rw [if_pos long] at parsed
        cases parsed
      · rw [if_neg long] at parsed
        by_cases zero : first = 48
        · rw [if_pos zero] at parsed
          by_cases single : rest = []
          · rw [if_pos single] at parsed
            cases parsed
            rw [zero, single]
            rfl
          · rw [if_neg single] at parsed
            cases parsed
        · rw [if_neg zero] at parsed
          by_cases digit : isAsciiDigit first = true
          · rw [digit, Bool.not_true, if_neg Bool.false_ne_true] at parsed
            obtain ⟨value, read, made⟩ := Option.bind_eq_some_iff.mp parsed
            have small := sub_lt digit
            obtain ⟨digits, whole, _⟩ :=
              (foldlM_readUnit rest (by omega) value).mp read
            have all : ∀ unit ∈ first :: rest, isAsciiDigit unit = true :=
              List.forall_mem_cons.mpr ⟨digit, digits⟩
            have same := (new_eq_some_iff value index).mp made
            exact canonical_of_digits all zero (by
              rw [List.map_cons, readDigits_cons, Nat.zero_mul, Nat.zero_add,
                whole, same])
          · rw [Bool.not_eq_true] at digit
            rw [digit, Bool.not_false, if_pos rfl] at parsed
            cases parsed

theorem length_canonicalDecimal (index : ArrayIndex) :
    (canonicalDecimal index.value).length ≤ 10 := by
  have bounded := index.bounded
  rw [maxArrayIndex] at bounded
  rw [canonicalDecimal, List.length_map]
  exact length_numeral_le (by omega) (by omega) (by omega)

theorem map_sub_canonicalDecimal (number : Nat) :
    (canonicalDecimal number).map (fun unit => (unit - 48).toNat) =
      numeral 10 number := by
  have canonical : Canonical 10 (numeral 10 number) :=
    numeral_canonical (by omega) number
  have back : (numeral 10 number).map
      ((fun unit : UInt16 => (unit - 48).toNat) ∘ unitOf) =
        (numeral 10 number).map id :=
    List.map_congr_left fun digit member =>
      sub_unitOf (canonical.digit digit member)
  rw [canonicalDecimal, List.map_map, back, List.map_id]

theorem isAsciiDigit_canonicalDecimal {number : Nat} {unit : UInt16}
    (member : unit ∈ canonicalDecimal number) : isAsciiDigit unit = true := by
  have canonical : Canonical 10 (numeral 10 number) :=
    numeral_canonical (by omega) number
  obtain ⟨digit, inside, rfl⟩ := List.mem_map.mp member
  exact isAsciiDigit_unitOf (canonical.digit digit inside)

/-- The canonical decimal of an index is read as this index. -/
theorem parsePropertyKey_of_content {key : JsString}
    (formed : key.WellFormed) {index : ArrayIndex}
    (spelled : key.content = canonicalDecimal index.value) :
    parsePropertyKey key = some index := by
  have canonical : Canonical 10 (numeral 10 index.value) :=
    numeral_canonical (by omega) index.value
  have short := length_canonicalDecimal index
  have value : readDigits 10 0 (numeral 10 index.value) = index.value :=
    readDigits_numeral index.value
  have mapped := map_sub_canonicalDecimal index.value
  have bounded := index.bounded
  rw [maxArrayIndex] at bounded
  cases units : canonicalDecimal index.value with
  | nil =>
      rw [units, List.map_nil] at mapped
      exact absurd mapped.symm canonical.filled
  | cons first rest =>
      have digits : ∀ unit ∈ first :: rest, isAsciiDigit unit = true := by
        intro unit member
        rw [← units] at member
        exact isAsciiDigit_canonicalDecimal member
      have digit := digits first List.mem_cons_self
      rw [units, List.map_cons] at mapped
      rw [units, List.length_cons] at short
      rw [parsePropertyKey_cons formed (spelled.trans units), if_neg (by omega)]
      rcases canonical.leading with zero | nonzero
      · rw [← mapped, List.cons_eq_cons, List.map_eq_nil_iff] at zero
        have whole : index.value = 0 := by
          rw [← value, ← mapped, zero.1, zero.2]
          rfl
        have same : first = 48 := by
          rw [← unitOf_sub digit, zero.1]
          rfl
        rw [if_pos same, if_pos zero.2]
        obtain ⟨number, _⟩ := index
        cases whole
        rfl
      · have different : first ≠ 48 := by
          intro same
          apply nonzero
          rw [← mapped, same]
          rfl
        rw [← mapped, readDigits_cons, Nat.zero_mul, Nat.zero_add] at value
        have small := sub_lt digit
        have read := (foldlM_readUnit rest (show (first - 48).toNat < 2 ^ 32 by
          omega) index.value).mpr
          ⟨(List.forall_mem_cons.mp digits).2, value, by omega⟩
        rw [if_neg different, digit, Bool.not_true, if_neg Bool.false_ne_true,
          read, Option.bind_some, new_eq_some_iff]

theorem parsePropertyKey_iff {key : JsString} (formed : key.WellFormed)
    (index : ArrayIndex) :
    parsePropertyKey key = some index ↔
      key.content = canonicalDecimal index.value :=
  ⟨content_of_parsePropertyKey formed, parsePropertyKey_of_content formed⟩

end Reading

section Printing

theorem canonicalDecimal_step {number : Nat} (large : number / 10 ≠ 0) :
    canonicalDecimal number =
      canonicalDecimal (number / 10) ++ [unitOf (number % 10)] := by
  rw [canonicalDecimal, numeral_step (by omega) (by omega), List.map_append]
  rfl

theorem canonicalDecimal_single {number : Nat} (small : number / 10 = 0) :
    canonicalDecimal number = [unitOf (number % 10)] := by
  rw [canonicalDecimal, numeral_of_lt (by omega), List.map_singleton,
    Nat.mod_eq_of_lt (by omega)]

theorem drop_set_pred (digits : List UInt8) {start : Nat} (positive : 0 < start)
    (inside : start ≤ digits.length) (digit : UInt8) :
    (digits.set (start - 1) digit).drop (start - 1) =
      digit :: digits.drop start := by
  rw [List.drop_set, if_neg (Nat.lt_irrefl _), Nat.sub_self]
  have cons := List.drop_eq_getElem_cons (l := digits)
    (show start - 1 < digits.length by omega)
  rw [cons, List.set_cons_zero, Nat.sub_add_cancel positive]

/-- The loop puts the decimal before what the buffer already holds. -/
theorem fillDigits_eq (digits : List UInt8) (start value : Nat)
    (inside : start ≤ digits.length)
    (room : (canonicalDecimal value).length ≤ start) :
    ∃ filled, fillDigits digits start value = .ok filled ∧
      filled.map UInt8.toUInt16 = canonicalDecimal value ++
        (digits.drop start).map UInt8.toUInt16 := by
  induction value using Nat.strong_induction_on generalizing digits start with
  | _ value induction =>
      have positive : 0 < start := by
        by_cases large : value / 10 = 0
        · rw [canonicalDecimal_single large] at room
          exact room
        · rw [canonicalDecimal_step large, List.length_append] at room
          exact Nat.lt_of_lt_of_le (by simp) room
      rw [fillDigits, if_neg (by omega)]
      have written := drop_set_pred digits positive inside (decimalDigit value)
      by_cases large : value / 10 = 0
      · refine ⟨_, if_pos large, ?_⟩
        rw [written, List.map_cons, toUInt16_decimalDigit,
          canonicalDecimal_single large]
        rfl
      · rw [canonicalDecimal_step large, List.length_append,
          List.length_singleton] at room
        obtain ⟨filled, done, same⟩ := induction (value / 10) (by omega)
          (digits.set (start - 1) (decimalDigit value)) (start - 1)
          (by rw [List.length_set]; omega) (by omega)
        refine ⟨filled, by simp only [if_neg large, done], ?_⟩
        rw [same, written, List.map_cons, toUInt16_decimalDigit,
          canonicalDecimal_step large, List.append_assoc,
          List.singleton_append]

/-- An index is printed as its canonical decimal. -/
theorem toJsString_eq (index : ArrayIndex) :
    ∃ string, index.toJsString = .ok string ∧ string.WellFormed ∧
      string.content = canonicalDecimal index.value := by
  obtain ⟨filled, done, same⟩ := fillDigits_eq (List.replicate 10 0) 10
    index.value (by simp) (length_canonicalDecimal index)
  have whole : filled.map UInt8.toUInt16 = canonicalDecimal index.value := by
    rw [same]
    simp
  have short : filled.length ≤ 10 := by
    rw [← List.length_map (f := UInt8.toUInt16), whole]
    exact length_canonicalDecimal index
  have printed : ∃ string, index.toJsString = .ok string ∧
      JsString.fromLatin1 filled = .ok string := by
    have room : ¬ filled.length > maxStringCodeUnits := by
      rw [maxStringCodeUnits]
      omega
    unfold toJsString
    rw [done]
    change ∃ string, JsString.fromLatin1 filled = .ok string ∧
      JsString.fromLatin1 filled = .ok string
    unfold JsString.fromLatin1 checkLength
    rw [if_neg room]
    cases filled with
    | nil => exact ⟨_, rfl, rfl⟩
    | cons digit filled => exact ⟨_, rfl, rfl⟩
  obtain ⟨string, made, built⟩ := printed
  obtain ⟨formed, _, content⟩ := JsString.fromLatin1_wellFormed built
  exact ⟨string, made, formed, content.trans whole⟩

end Printing

end ArrayIndex

end Fusor.Runtime
