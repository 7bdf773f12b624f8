import Fusor.Json.Stringify

/-!
# Quoted strings

Quoting works on a string by its indices.  Over the list of its units it is a
recursion that looks at the units beside each one, and this form is compared
with the grammar of strings and with the pairing of surrogates.
-/

namespace Fusor.Json

open Fusor.Runtime

/-- Every surrogate has its other half beside it. -/
inductive WellFormedUtf16 : List UInt16 → Prop where
  | nil : WellFormedUtf16 []
  | scalar {unit : UInt16} {rest : List UInt16}
      (notHigh : isHighSurrogate unit = false)
      (notLow : isLowSurrogate unit = false)
      (following : WellFormedUtf16 rest) : WellFormedUtf16 (unit :: rest)
  | pair {high low : UInt16} {rest : List UInt16}
      (first : isHighSurrogate high = true)
      (second : isLowSurrogate low = true)
      (following : WellFormedUtf16 rest) : WellFormedUtf16 (high :: low :: rest)

theorem WellFormedUtf16.append {left right : List UInt16}
    (first : WellFormedUtf16 left) (second : WellFormedUtf16 right) :
    WellFormedUtf16 (left ++ right) := by
  induction first with
  | nil => exact second
  | scalar notHigh notLow _ induction => exact .scalar notHigh notLow induction
  | pair high low _ induction => exact .pair high low induction

/-- Units below the surrogates. -/
def Low (text : List UInt16) : Prop :=
  ∀ unit ∈ text, unit < 0xd800

theorem not_surrogate_of_lt {unit : UInt16} (low : unit < 0xd800) :
    isHighSurrogate unit = false ∧ isLowSurrogate unit = false := by
  rw [UInt16.lt_iff_toNat_lt] at low
  simp only [isHighSurrogate, isLowSurrogate, Bool.and_eq_false_iff,
    decide_eq_false_iff_not, UInt16.le_iff_toNat_le, not_le]
  constructor
  · exact .inl low
  · exact .inl (Nat.lt_trans low (by decide))

theorem Low.wellFormedUtf16 {text : List UInt16} (low : Low text) :
    WellFormedUtf16 text := by
  induction text with
  | nil => exact .nil
  | cons unit rest induction =>
      obtain ⟨notHigh, notLow⟩ :=
        not_surrogate_of_lt (low unit List.mem_cons_self)
      exact .scalar notHigh notLow
        (induction fun other member => low other (.tail _ member))

theorem isLowSurrogate_of_high {unit : UInt16}
    (high : isHighSurrogate unit = true) : isLowSurrogate unit = false := by
  simp only [isHighSurrogate, isLowSurrogate, Bool.and_eq_true,
    decide_eq_true_eq, Bool.and_eq_false_iff, decide_eq_false_iff_not,
    UInt16.le_iff_toNat_le, not_le] at high ⊢
  left
  exact Nat.lt_of_le_of_lt high.2 (by decide)

theorem isHighSurrogate_of_low {unit : UInt16}
    (low : isLowSurrogate unit = true) : isHighSurrogate unit = false := by
  cases high : isHighSurrogate unit with
  | false => rfl
  | true =>
      rw [isLowSurrogate_of_high high] at low
      cases low

def loneSurrogate (previous : Option UInt16) (unit : UInt16)
    (next : Option UInt16) : Bool :=
  if isHighSurrogate unit then !next.any isLowSurrogate
  else if isLowSurrogate unit then !previous.any isHighSurrogate
  else false

def unicodeEscape (unit : UInt16) : List UInt16 :=
  pushUnicodeEscape [] unit

/-- The text of one unit between its neighbours. -/
def quotedUnit (previous : Option UInt16) (unit : UInt16)
    (next : Option UInt16) : List UInt16 :=
  match shortEscape unit with
  | some escape => [ascii '\\', escape]
  | none =>
      if unit < 0x0020 || loneSurrogate previous unit next then
        unicodeEscape unit
      else [unit]

def quotedUnits (previous : Option UInt16) : List UInt16 → List UInt16
  | [] => []
  | unit :: rest =>
      quotedUnit previous unit rest.head? ++ quotedUnits (some unit) rest

def quotedText (units : List UInt16) : List UInt16 :=
  ascii '"' :: (quotedUnits none units ++ [ascii '"'])

section Loop

variable {value : JsString}

def previousUnit (units : List UInt16) (index : Nat) : Option UInt16 :=
  if index = 0 then none else units[index - 1]?

theorem isLoneJsonSurrogate_eq (formed : value.WellFormed) (index : Nat)
    (unit : UInt16) :
    isLoneJsonSurrogate value index unit =
      loneSurrogate (previousUnit value.content index) unit
        value.content[index + 1]? := by
  rw [isLoneJsonSurrogate, loneSurrogate, formed.codeUnitAt_eq,
    formed.codeUnitAt_eq, previousUnit]
  by_cases first : index = 0
  · simp [first]
  · have later : (index == 0) = false := beq_eq_false_iff_ne.mpr first
    simp [first, later]

theorem pushUnicodeEscape_eq (output : List UInt16) (unit : UInt16) :
    pushUnicodeEscape output unit = output ++ unicodeEscape unit := by
  simp [unicodeEscape, pushUnicodeEscape]

theorem pushQuotedUnit_eq (formed : value.WellFormed) (index : Nat)
    (unit : UInt16) (output : List UInt16) :
    pushQuotedUnit value index unit output =
      output ++ quotedUnit (previousUnit value.content index) unit
        value.content[index + 1]? := by
  rw [pushQuotedUnit, quotedUnit, isLoneJsonSurrogate_eq formed,
    pushUnicodeEscape_eq]
  cases shortEscape unit with
  | some escape => rfl
  | none => exact (apply_ite (output ++ ·) _ _ _).symm

theorem quoteUnitsFrom_eq (formed : value.WellFormed) (index : Nat)
    (output : List UInt16) :
    quoteUnitsFrom value index output =
      .ok (output ++ quotedUnits (previousUnit value.content index)
        (value.content.drop index)) := by
  induction remaining : value.len - index generalizing index output with
  | zero =>
      have ended : ¬ index < value.len := by omega
      rw [quoteUnitsFrom, if_neg ended, List.drop_eq_nil_of_le]
      · simp [quotedUnits]
      · rw [← formed.len_eq]
        omega
  | succ count induction =>
      have inside : index < value.len := by omega
      have bound : index < value.content.length := by
        rw [← formed.len_eq]
        exact inside
      have here := List.getElem?_eq_getElem bound
      rw [quoteUnitsFrom, if_pos inside, formed.codeUnitAt_eq, here]
      simp only
      rw [induction _ _ (by omega), pushQuotedUnit_eq formed,
        List.drop_eq_getElem_cons bound, quotedUnits, List.head?_drop,
        List.append_assoc]
      have previous : previousUnit value.content (index + 1) =
          some value.content[index] := by
        simp [previousUnit, here]
      rw [previous]

end Loop

section Escapes

theorem hexDigit_hexadecimalUnit {digit : UInt8} (small : digit < 16) :
    HexDigit (hexadecimalUnit digit) digit.toNat := by
  have every : ∀ digit : Fin 16,
      (ascii '0' ≤ hexadecimalUnit (UInt8.ofNat digit) ∧
        hexadecimalUnit (UInt8.ofNat digit) ≤ ascii '9' ∧
        digit.val = (hexadecimalUnit (UInt8.ofNat digit)).toNat -
          (ascii '0').toNat) ∨
      (ascii 'a' ≤ hexadecimalUnit (UInt8.ofNat digit) ∧
        hexadecimalUnit (UInt8.ofNat digit) ≤ ascii 'f' ∧
        digit.val = (hexadecimalUnit (UInt8.ofNat digit)).toNat -
          (ascii 'a').toNat + 10) := by
    decide
  rw [UInt8.lt_iff_toNat_lt] at small
  have found := every ⟨digit.toNat, small⟩
  simp only [UInt8.ofNat_toNat] at found
  rcases found with ⟨low, high, same⟩ | ⟨low, high, same⟩
  · rw [same]
    exact .decimal low high
  · rw [same]
    exact .lower low high

def nibble (unit shift : UInt16) : UInt8 :=
  ((unit >>> shift) &&& 0x000f).toUInt8

theorem toNat_nibble (unit shift : UInt16) (small : shift.toNat < 16) :
    (nibble unit shift).toNat = unit.toNat / 2 ^ shift.toNat % 16 := by
  have mask : (0x000f : UInt16).toNat = 2 ^ 4 - 1 := rfl
  rw [nibble, UInt16.toNat_toUInt8, UInt16.toNat_and,
    UInt16.toNat_shiftRight, mask, Nat.and_two_pow_sub_one_eq_mod,
    Nat.mod_eq_of_lt small, Nat.shiftRight_eq_div_pow]
  exact Nat.mod_eq_of_lt (Nat.lt_trans (Nat.mod_lt _ (by decide)) (by decide))

theorem hexDigit_nibble (unit shift : UInt16) (small : shift.toNat < 16) :
    HexDigit (hexadecimalUnit (nibble unit shift))
      (unit.toNat / 2 ^ shift.toNat % 16) := by
  rw [← toNat_nibble unit shift small]
  apply hexDigit_hexadecimalUnit
  rw [UInt8.lt_iff_toNat_lt, toNat_nibble unit shift small]
  exact Nat.mod_lt _ (by decide)

theorem unicodeEscape_eq (unit : UInt16) :
    unicodeEscape unit =
      [ascii '\\', ascii 'u', hexadecimalUnit (nibble unit 12),
        hexadecimalUnit (nibble unit 8), hexadecimalUnit (nibble unit 4),
        hexadecimalUnit (nibble unit 0)] :=
  rfl

theorem characters_unicodeEscape {unit : UInt16} {text decoded : List UInt16}
    (rest : Characters text decoded) :
    Characters (unicodeEscape unit ++ text) (unit :: decoded) := by
  have digits := Characters.unicode (hexDigit_nibble unit 12 (by decide))
    (hexDigit_nibble unit 8 (by decide)) (hexDigit_nibble unit 4 (by decide))
    (hexDigit_nibble unit 0 (by decide)) rest
  have twelve : (12 : UInt16).toNat = 12 := rfl
  have eight : (8 : UInt16).toNat = 8 := rfl
  have four : (4 : UInt16).toNat = 4 := rfl
  have zero : (0 : UInt16).toNat = 0 := rfl
  have bounded := unit.toNat_lt
  have whole : ((unit.toNat / 2 ^ 12 % 16 * 16 + unit.toNat / 2 ^ 8 % 16) * 16 +
      unit.toNat / 2 ^ 4 % 16) * 16 + unit.toNat / 2 ^ 0 % 16 = unit.toNat := by
    omega
  rw [twelve, eight, four, zero, whole, UInt16.ofNat_toNat] at digits
  exact digits

theorem shortEscape_eq_some {unit escape : UInt16}
    (short : shortEscape unit = some escape) :
    Escape escape unit ∧ unit < 0xd800 ∧ escape < 0xd800 := by
  unfold shortEscape at short
  repeat' split at short
  all_goals first
    | (subst unit
       cases short
       exact ⟨by constructor, by decide, by decide⟩)
    | cases short

theorem shortEscape_eq_none {unit : UInt16} (plain : shortEscape unit = none) :
    unit ≠ ascii '"' ∧ unit ≠ ascii '\\' := by
  constructor
  · rintro rfl
    revert plain
    decide
  · rintro rfl
    revert plain
    decide

theorem characters_quotedUnit {previous next : Option UInt16} {unit : UInt16}
    {text decoded : List UInt16} (rest : Characters text decoded) :
    Characters (quotedUnit previous unit next ++ text) (unit :: decoded) := by
  unfold quotedUnit
  split
  · rename_i escape short
    exact .escape (shortEscape_eq_some short).1 rest
  · rename_i plain
    split
    · exact characters_unicodeEscape rest
    · rename_i visible
      simp only [Bool.or_eq_true, decide_eq_true_eq, not_or] at visible
      obtain ⟨noQuote, noBackslash⟩ := shortEscape_eq_none plain
      refine .plain ?_ noQuote noBackslash rest
      rw [UInt16.le_iff_toNat_le]
      rw [UInt16.lt_iff_toNat_lt] at visible
      exact Nat.le_of_not_lt visible.1

theorem characters_quotedUnits (previous : Option UInt16)
    (units : List UInt16) : Characters (quotedUnits previous units) units := by
  induction units generalizing previous with
  | nil => exact .nil
  | cons unit rest induction => exact characters_quotedUnit (induction _)

theorem quoted_quotedText (units : List UInt16) :
    Quoted (quotedText units) units :=
  ⟨_, rfl, characters_quotedUnits none units⟩

end Escapes

section Pairing

theorem hexadecimalUnit_lt (digit : UInt8) : hexadecimalUnit digit < 0xd800 := by
  rw [UInt16.lt_iff_toNat_lt, hexadecimalUnit, UInt8.toNat_toUInt16]
  exact Nat.lt_trans (UInt8.toNat_lt _) (by decide)

theorem low_unicodeEscape (unit : UInt16) : Low (unicodeEscape unit) := by
  intro other member
  rw [unicodeEscape_eq] at member
  simp only [List.mem_cons, List.not_mem_nil, or_false] at member
  rcases member with rfl | rfl | rfl | rfl | rfl | rfl
  · decide
  · decide
  all_goals exact hexadecimalUnit_lt _

/-- The unit is written as it is when it is no lone surrogate. -/
theorem quotedUnit_of_paired {previous next : Option UInt16} {unit : UInt16}
    (surrogate : 0xd800 ≤ unit)
    (paired : loneSurrogate previous unit next = false) :
    quotedUnit previous unit next = [unit] := by
  rw [UInt16.le_iff_toNat_le] at surrogate
  have large : 0xd800 ≤ unit.toNat := surrogate
  have plain : shortEscape unit = none := by
    cases short : shortEscape unit with
    | none => rfl
    | some escape =>
        have small := (shortEscape_eq_some short).2.1
        rw [UInt16.lt_iff_toNat_lt] at small
        exact absurd surrogate (Nat.not_le_of_lt small)
  have visible : ¬ unit < 0x0020 := by
    rw [UInt16.lt_iff_toNat_lt]
    have small : (0x0020 : UInt16).toNat = 32 := rfl
    omega
  unfold quotedUnit
  rw [plain]
  simp [visible, paired]

theorem le_of_surrogate {unit : UInt16}
    (surrogate : isHighSurrogate unit = true ∨ isLowSurrogate unit = true) :
    0xd800 ≤ unit := by
  rcases surrogate with high | low
  · simp only [isHighSurrogate, Bool.and_eq_true, decide_eq_true_eq] at high
    exact high.1
  · simp only [isLowSurrogate, Bool.and_eq_true, decide_eq_true_eq] at low
    rw [UInt16.le_iff_toNat_le] at low ⊢
    exact Nat.le_trans (by decide) low.1

/-- A pair of surrogates cut between its halves. -/
def Cut (previous : Option UInt16) (units : List UInt16) : Prop :=
  previous.any isHighSurrogate = true ∧ units.head?.any isLowSurrogate = true

theorem not_cut_of_not_high {unit : UInt16} {rest : List UInt16}
    (notHigh : isHighSurrogate unit = false) : ¬ Cut (some unit) rest := by
  rintro ⟨high, _⟩
  rw [Option.any_some, notHigh] at high
  cases high

theorem quotedUnit_cases {previous next : Option UInt16} {unit : UInt16} :
    (Low (quotedUnit previous unit next) ∧
      (isHighSurrogate unit = true → next.any isLowSurrogate = false)) ∨
    (quotedUnit previous unit next = [unit] ∧
      loneSurrogate previous unit next = false) := by
  unfold quotedUnit
  split
  · rename_i escape short
    obtain ⟨_, small, low⟩ := shortEscape_eq_some short
    refine .inl ⟨?_, ?_⟩
    · intro other member
      simp only [List.mem_cons, List.not_mem_nil, or_false] at member
      rcases member with rfl | rfl
      · decide
      · exact low
    · intro high
      rw [(not_surrogate_of_lt small).1] at high
      cases high
  · split
    · rename_i escaped
      refine .inl ⟨low_unicodeEscape unit, ?_⟩
      intro high
      rcases Bool.or_eq_true _ _ ▸ escaped with control | lone
      · have small : unit < 0xd800 := by
          rw [decide_eq_true_eq, UInt16.lt_iff_toNat_lt] at control
          rw [UInt16.lt_iff_toNat_lt]
          exact Nat.lt_trans control (by decide)
        rw [(not_surrogate_of_lt small).1] at high
        cases high
      · simpa [loneSurrogate, high] using lone
    · rename_i visible
      simp only [Bool.or_eq_true, not_or, Bool.not_eq_true] at visible
      exact .inr ⟨rfl, visible.2⟩

theorem wellFormedUtf16_quotedUnits (units : List UInt16)
    (previous : Option UInt16) (whole : ¬ Cut previous units) :
    WellFormedUtf16 (quotedUnits previous units) := by
  induction size : units.length using Nat.strong_induction_on
    generalizing units previous with
  | _ size induction =>
      subst size
      match units with
      | [] => exact .nil
      | unit :: rest =>
          rw [quotedUnits]
          rcases @quotedUnit_cases previous rest.head? unit with
            ⟨low, alone⟩ | ⟨same, paired⟩
          · refine low.wellFormedUtf16.append
              (induction _ (Nat.lt_succ_self _) rest (some unit) ?_ rfl)
            rintro ⟨high, next⟩
            rw [alone high] at next
            cases next
          · rw [same]
            cases high : isHighSurrogate unit with
            | false =>
                have following := induction _ (Nat.lt_succ_self _) rest
                  (some unit) (not_cut_of_not_high high) rfl
                cases lowUnit : isLowSurrogate unit with
                | false => exact .scalar high lowUnit following
                | true =>
                    refine absurd ⟨?_, lowUnit⟩ whole
                    simpa [loneSurrogate, high, lowUnit] using paired
            | true =>
                have second : rest.head?.any isLowSurrogate = true := by
                  simpa [loneSurrogate, high] using paired
                cases rest with
                | nil => cases second
                | cons next others =>
                    have nextLow : isLowSurrogate next = true := second
                    have nextNotHigh := isHighSurrogate_of_low nextLow
                    have kept : quotedUnit (some unit) next others.head? =
                        [next] := by
                      apply quotedUnit_of_paired (le_of_surrogate (.inr nextLow))
                      simp [loneSurrogate, nextNotHigh, high]
                    rw [quotedUnits, kept]
                    exact .pair high nextLow (induction _ (by simp) others
                      (some next) (not_cut_of_not_high nextNotHigh) rfl)

theorem wellFormedUtf16_quotedText (units : List UInt16) :
    WellFormedUtf16 (quotedText units) := by
  have quote : Low [ascii '"'] := by
    intro unit member
    rw [List.mem_singleton.mp member]
    decide
  have inside := wellFormedUtf16_quotedUnits units none (fun cut => by
    cases cut.1)
  exact quote.wellFormedUtf16.append (inside.append quote.wellFormedUtf16)

end Pairing

end Fusor.Json
