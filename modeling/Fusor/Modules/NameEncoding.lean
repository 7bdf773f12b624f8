import Fusor.Modules.Linking

/-!
# Names as code units and as bytes

A name without surrogate code units survives its transport as UTF-8: equality
and order of the bytes are those of the code units.
-/

namespace Fusor.Modules

open Fusor.Runtime

/-- No unit is a surrogate. -/
def Plain (units : List UInt16) : Prop :=
  ∀ unit ∈ units, unit < 0xd800 ∨ 0xdfff < unit

instance (units : List UInt16) : Decidable (Plain units) :=
  List.decidableBAll (fun unit => unit < 0xd800 ∨ 0xdfff < unit) units

def charOfUnit (unit : UInt16) : Char :=
  Char.ofNat unit.toNat

theorem Plain.tail {unit : UInt16} {units : List UInt16}
    (plain : Plain (unit :: units)) : Plain units :=
  fun other member => plain other (.tail _ member)

theorem Plain.filterMap_eq {units : List UInt16} (plain : Plain units) :
    units.filterMap charFromUnit = units.map charOfUnit := by
  induction units with
  | nil => rfl
  | cons unit units induction =>
      have here : charFromUnit unit = some (charOfUnit unit) :=
        if_pos (plain unit List.mem_cons_self)
      rw [List.filterMap_cons_some here, induction plain.tail]
      rfl

theorem toNat_charOfUnit {unit : UInt16}
    (plain : unit < 0xd800 ∨ 0xdfff < unit) :
    (charOfUnit unit).toNat = unit.toNat := by
  have valid : unit.toNat.isValidChar := by
    have bounded := unit.toNat_lt
    rcases plain with low | high
    · exact .inl (UInt16.lt_iff_toNat_lt.mp low)
    · exact .inr ⟨UInt16.lt_iff_toNat_lt.mp high, by omega⟩
  rw [charOfUnit, Char.ofNat, dif_pos valid]
  rfl

theorem encodeUtf16_charOfUnit {unit : UInt16} {text : List Char}
    (plain : unit < 0xd800 ∨ 0xdfff < unit) :
    JsString.encodeUtf16 (charOfUnit unit :: text) =
      unit :: JsString.encodeUtf16 text := by
  have bounded : (charOfUnit unit).toNat < 0x10000 := by
    rw [toNat_charOfUnit plain]
    exact unit.toNat_lt
  rw [JsString.encodeUtf16, List.flatMap_cons, if_pos bounded,
    toNat_charOfUnit plain, UInt16.ofNat_toNat]
  rfl

theorem Plain.encodeUtf16_eq {units : List UInt16} (plain : Plain units) :
    JsString.encodeUtf16 (units.map charOfUnit) = units := by
  induction units with
  | nil => rfl
  | cons unit units induction =>
      rw [List.map_cons, encodeUtf16_charOfUnit (plain unit List.mem_cons_self),
        induction plain.tail]

theorem decodeUtf8_encodeUtf8 (text : List Char) :
    decodeUtf8 (encodeUtf8 text) = some text := by
  have encoded : (encodeUtf8 text).toByteArray = text.utf8Encode := rfl
  rw [decodeUtf8, encoded, List.utf8Decode?_utf8Encode, Option.map_some,
    List.toList_toArray]

theorem nameUnitsEqUtf8_encodeUtf8 (units : List UInt16) (text : List Char) :
    nameUnitsEqUtf8 units (encodeUtf8 text) =
      (JsString.encodeUtf16 text == units) := by
  rw [nameUnitsEqUtf8, decodeUtf8_encodeUtf8]

theorem nameUnitsEqUtf8_iff {units name : List UInt16} (plain : Plain name) :
    nameUnitsEqUtf8 units (unitsToUtf8 name) = true ↔ units = name := by
  rw [unitsToUtf8, nameUnitsEqUtf8_encodeUtf8, plain.filterMap_eq,
    plain.encodeUtf16_eq, beq_iff_eq]
  exact eq_comm

theorem unitsToUtf8_injective {left right : List UInt16}
    (leftPlain : Plain left) (rightPlain : Plain right)
    (same : unitsToUtf8 left = unitsToUtf8 right) : left = right := by
  have reflexive := (nameUnitsEqUtf8_iff leftPlain).mpr rfl
  rw [same] at reflexive
  exact (nameUnitsEqUtf8_iff rightPlain).mp reflexive

def defaultUnits : List UInt16 :=
  [0x64, 0x65, 0x66, 0x61, 0x75, 0x6c, 0x74]

def syntheticDefaultUnits : List UInt16 :=
  [0x2a, 0x64, 0x65, 0x66, 0x61, 0x75, 0x6c, 0x74, 0x2a]

theorem plain_defaultUnits : Plain defaultUnits := by
  decide

theorem unitsToUtf8_default : unitsToUtf8 defaultUnits = defaultBytes := by
  decide

theorem unitsToUtf8_syntheticDefault :
    unitsToUtf8 syntheticDefaultUnits = syntheticDefaultBindingName := by
  decide

section Order

variable {character : Char} {first second : Nat} {left right : Bytes}

theorem utf8EncodeChar_one (small : character.toNat < 0x80) :
    String.utf8EncodeChar character = [.ofNat character.toNat] := by
  have value : character.val.toNat = character.toNat := rfl
  simp only [String.utf8EncodeChar, value]
  rw [if_pos (by omega)]

theorem utf8EncodeChar_two (low : 0x80 ≤ character.toNat)
    (high : character.toNat < 0x800) :
    String.utf8EncodeChar character =
      [.ofNat (character.toNat / 64 % 0x20 + 0xc0),
        .ofNat (character.toNat % 0x40 + 0x80)] := by
  have value : character.val.toNat = character.toNat := rfl
  simp only [String.utf8EncodeChar, value]
  rw [if_neg (by omega), if_pos (by omega)]

theorem utf8EncodeChar_three (low : 0x800 ≤ character.toNat)
    (high : character.toNat < 0x10000) :
    String.utf8EncodeChar character =
      [.ofNat (character.toNat / 4096 % 0x10 + 0xe0),
        .ofNat (character.toNat / 64 % 0x40 + 0x80),
        .ofNat (character.toNat % 0x40 + 0x80)] := by
  have value : character.val.toNat = character.toNat := rfl
  simp only [String.utf8EncodeChar, value]
  rw [if_neg (by omega), if_neg (by omega), if_pos (by omega)]

theorem cons_lt_of_lt (smaller : first < second) (bounded : second < 256) :
    UInt8.ofNat first :: left < UInt8.ofNat second :: right := by
  apply List.cons_lt_cons_iff.mpr
  left
  rw [UInt8.lt_iff_toNat_lt, UInt8.toNat_ofNat', UInt8.toNat_ofNat',
    Nat.mod_eq_of_lt (smaller.trans bounded), Nat.mod_eq_of_lt bounded]
  exact smaller

theorem cons_lt_of_eq (same : first = second) (rest : left < right) :
    UInt8.ofNat first :: left < UInt8.ofNat second :: right :=
  List.cons_lt_cons_iff.mpr (.inr ⟨congrArg UInt8.ofNat same, rest⟩)

/-- The bytes of a smaller character come first, whatever follows. -/
theorem utf8EncodeChar_append_lt {left right : Char}
    (bounded : right.toNat < 0x10000) (smaller : left.toNat < right.toNat)
    (first second : Bytes) :
    String.utf8EncodeChar left ++ first <
      String.utf8EncodeChar right ++ second := by
  by_cases rightOne : right.toNat < 0x80
  · rw [utf8EncodeChar_one rightOne, utf8EncodeChar_one (smaller.trans rightOne)]
    exact cons_lt_of_lt smaller (by omega)
  by_cases rightTwo : right.toNat < 0x800
  · rw [utf8EncodeChar_two (Nat.not_lt.mp rightOne) rightTwo]
    by_cases leftOne : left.toNat < 0x80
    · rw [utf8EncodeChar_one leftOne]
      exact cons_lt_of_lt (by omega) (by omega)
    · rw [utf8EncodeChar_two (Nat.not_lt.mp leftOne) (smaller.trans rightTwo)]
      rcases Nat.lt_or_eq_of_le (Nat.div_le_div_right (c := 64) smaller.le)
        with earlier | same
      · exact cons_lt_of_lt (by omega) (by omega)
      · refine cons_lt_of_eq (by rw [same]) (cons_lt_of_lt ?_ ?_)
        · omega
        · omega
  · rw [utf8EncodeChar_three (Nat.not_lt.mp rightTwo) bounded]
    by_cases leftOne : left.toNat < 0x80
    · rw [utf8EncodeChar_one leftOne]
      exact cons_lt_of_lt (by omega) (by omega)
    by_cases leftTwo : left.toNat < 0x800
    · rw [utf8EncodeChar_two (Nat.not_lt.mp leftOne) leftTwo]
      exact cons_lt_of_lt (by omega) (by omega)
    · rw [utf8EncodeChar_three (Nat.not_lt.mp leftTwo) (smaller.trans bounded)]
      rcases Nat.lt_or_eq_of_le (Nat.div_le_div_right (c := 4096) smaller.le)
        with earlier | same
      · exact cons_lt_of_lt (by omega) (by omega)
      refine cons_lt_of_eq (by rw [same]) ?_
      rcases Nat.lt_or_eq_of_le (Nat.div_le_div_right (c := 64) smaller.le)
        with earlier | same
      · exact cons_lt_of_lt (by omega) (by omega)
      · refine cons_lt_of_eq (by rw [same]) (cons_lt_of_lt ?_ ?_)
        · omega
        · omega

theorem utf8EncodeChar_append_ne_nil (character : Char) (rest : Bytes) :
    String.utf8EncodeChar character ++ rest ≠ [] := by
  simp [String.utf8EncodeChar_ne_nil]

theorem append_lt_append_left_iff (common left right : Bytes) :
    common ++ left < common ++ right ↔ left < right := by
  induction common with
  | nil => rfl
  | cons byte common induction =>
      rw [List.cons_append, List.cons_append, List.cons_lt_cons_iff]
      simp [induction]

theorem encodeUtf8_charOfUnit_lt {left right : List UInt16}
    (leftPlain : Plain left) (rightPlain : Plain right)
    (smaller : left < right) :
    encodeUtf8 (left.map charOfUnit) < encodeUtf8 (right.map charOfUnit) := by
  induction left generalizing right with
  | nil =>
      cases right with
      | nil => exact absurd smaller (List.lt_irrefl _)
      | cons unit units =>
          obtain ⟨byte, bytes, same⟩ := List.exists_cons_of_ne_nil
            (utf8EncodeChar_append_ne_nil (charOfUnit unit)
              (encodeUtf8 (units.map charOfUnit)))
          have written : encodeUtf8 ((unit :: units).map charOfUnit) =
              byte :: bytes := same
          rw [written]
          exact List.nil_lt_cons _ _
  | cons first left induction =>
      cases right with
      | nil => exact absurd smaller (List.not_lt_nil _)
      | cons second right =>
          have firstPlain := leftPlain first List.mem_cons_self
          have secondPlain := rightPlain second List.mem_cons_self
          rw [List.map_cons, List.map_cons, encodeUtf8, encodeUtf8,
            List.flatMap_cons, List.flatMap_cons]
          rcases List.cons_lt_cons_iff.mp smaller with less | ⟨rfl, rest⟩
          · apply utf8EncodeChar_append_lt
            · rw [toNat_charOfUnit secondPlain]
              exact second.toNat_lt
            · rw [toNat_charOfUnit firstPlain, toNat_charOfUnit secondPlain]
              exact UInt16.lt_iff_toNat_lt.mp less
          · rw [append_lt_append_left_iff]
            exact induction leftPlain.tail rightPlain.tail rest

theorem unitsToUtf8_lt_iff {left right : List UInt16} (leftPlain : Plain left)
    (rightPlain : Plain right) :
    unitsToUtf8 left < unitsToUtf8 right ↔ left < right := by
  have monotone : ∀ {left right : List UInt16}, Plain left → Plain right →
      left < right → unitsToUtf8 left < unitsToUtf8 right := by
    intro left right leftPlain rightPlain smaller
    rw [unitsToUtf8, unitsToUtf8, leftPlain.filterMap_eq,
      rightPlain.filterMap_eq]
    exact encodeUtf8_charOfUnit_lt leftPlain rightPlain smaller
  constructor
  · intro smaller
    by_contra larger
    have ordered : right ≤ left := List.not_lt.mp larger
    by_cases greater : right < left
    · exact List.lt_asymm smaller (monotone rightPlain leftPlain greater)
    · rw [List.le_antisymm (List.not_lt.mp greater) ordered] at smaller
      exact List.lt_irrefl _ smaller
  · exact monotone leftPlain rightPlain

end Order

end Fusor.Modules
