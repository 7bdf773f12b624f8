import Mathlib.Data.List.Induction
import Fusor.RegExp.PatternTransport

/-!
# The size of the source text

The space for the text is sized by a loop of its own.  Both loops take the
same steps: each unit adds as many bytes to the count as to the text, and a
backslash that is taken back is the last character written.
-/

namespace Fusor.RegExp

/-- The bytes of a text in UTF-8. -/
def utf8Length (text : List Char) : Nat :=
  (text.map Char.utf8Size).sum

theorem utf8Length_append (first second : List Char) :
    utf8Length (first ++ second) = utf8Length first + utf8Length second := by
  rw [utf8Length, List.map_append, List.sum_append]
  rfl

theorem utf8Length_singleton (character : Char) :
    utf8Length [character] = character.utf8Size := by
  rw [utf8Length, List.map_singleton, List.sum_singleton]

theorem utf8Size_hexDigit (digit : Fin 16) : (hexDigit digit).utf8Size = 1 := by
  revert digit
  decide

theorem utf8Length_pushUnicodeEscape (source : List Char) (unit : UInt16) :
    utf8Length (pushUnicodeEscape source unit) = utf8Length source + 6 := by
  rw [pushUnicodeEscape, List.append_assoc, utf8Length_append]
  simp only [utf8Length, List.map_cons, List.map_nil, List.cons_append,
    List.nil_append, List.sum_cons, List.sum_nil, utf8Size_hexDigit]
  rfl

/-- A run of backslashes stands at the end of the text. -/
def EndsInRun (slashRun : Nat) (source : List Char) : Prop :=
  slashRun ≠ 0 → source.getLast? = some '\\'

theorem utf8Length_dropLast {source : List Char}
    (last : source.getLast? = some '\\') :
    utf8Length source.dropLast + 1 = utf8Length source := by
  obtain ⟨start, same⟩ := List.getLast?_eq_some_iff.mp last
  rw [same, List.dropLast_concat, utf8Length_append, utf8Length_singleton]
  rfl

theorem expectChar_of_unit {unit : UInt16}
    (plain : ¬ isSurrogate unit.toNat) :
    ∃ character, expectChar unit.toNat = .ok character := by
  have small := unit.toNat_lt
  have valid : unit.toNat.isValidChar := by
    simp only [isSurrogate, Bool.and_eq_true, decide_eq_true_eq] at plain
    rw [Nat.isValidChar]
    omega
  rw [expectChar, dif_pos valid]
  exact ⟨_, rfl⟩

theorem expectChar_of_pair {unicodeMode : Bool} {first second : UInt16}
    (paired : isPair unicodeMode first second) :
    ∃ character,
      expectChar (surrogatePair first.toNat second.toNat) = .ok character ∧
        character.utf8Size = 4 := by
  simp only [isPair, isHighSurrogate, isLowSurrogate, Bool.and_eq_true,
    decide_eq_true_eq] at paired
  have valid : (surrogatePair first.toNat second.toNat).isValidChar := by
    unfold surrogatePair Nat.isValidChar
    omega
  have large := surrogatePair_large first.toNat second.toNat
  rw [expectChar, dif_pos valid]
  refine ⟨_, rfl, ?_⟩
  have value : (Char.ofNatAux _ valid).val.toNat =
      surrogatePair first.toNat second.toNat := rfl
  have above {bound : UInt32} (least : bound.toNat < 0x10000) :
      ¬ (Char.ofNatAux _ valid).val ≤ bound := by
    rw [UInt32.le_iff_toNat_le, value]
    omega
  unfold Char.utf8Size
  rw [if_neg (above (by decide)), if_neg (above (by decide)),
    if_neg (above (by decide))]

/-- A unit alone adds the bytes it is counted with, or fails in both loops. -/
theorem pushUnit_sized (unicodeMode : Bool) (first : UInt16) {slashRun : Nat}
    {source : List Char} (run : EndsInRun slashRun source) :
    (unitBytes unicodeMode first slashRun = .error escapedSurrogate ∧
      pushUnit unicodeMode first slashRun source = .error escapedSurrogate) ∨
    ∃ additional next later,
      unitBytes unicodeMode first slashRun = .ok (additional, next) ∧
      pushUnit unicodeMode first slashRun source = .ok (next, later) ∧
      utf8Length later = utf8Length source + additional ∧
      additional ≤ 6 ∧ EndsInRun next later := by
  unfold unitBytes pushUnit
  by_cases surrogate : isSurrogate first.toNat
  · rw [if_pos surrogate, if_pos surrogate]
    by_cases odd : slashRun % 2 = 1
    · have last := run (by omega)
      cases unicodeMode with
      | true =>
          left
          rw [if_pos ⟨rfl, odd⟩, if_pos odd, if_pos rfl]
          exact ⟨rfl, rfl⟩
      | false =>
          right
          refine ⟨5, 0, pushUnicodeEscape source.dropLast first, ?_, ?_, ?_,
            by decide, fun wrong => absurd rfl wrong⟩
          · rw [if_neg (by simp), if_pos odd]
          · rw [if_pos odd, if_neg Bool.false_ne_true, if_pos last]
          · have length := utf8Length_dropLast last
            rw [utf8Length_pushUnicodeEscape]
            omega
    · right
      refine ⟨6, 0, pushUnicodeEscape source first, ?_, ?_,
        utf8Length_pushUnicodeEscape source first, by decide,
        fun wrong => absurd rfl wrong⟩
      · rw [if_neg (fun both => odd both.2), if_neg odd]
      · rw [if_neg odd]
  · obtain ⟨character, expected⟩ := expectChar_of_unit surrogate
    right
    refine ⟨character.utf8Size, if character = '\\' then slashRun + 1 else 0,
      source ++ [character], ?_, ?_, ?_, ?_, ?_⟩
    · rw [if_neg surrogate, expected, Support.ok_bind]
    · rw [if_neg surrogate, expected, Support.ok_bind]
    · rw [utf8Length_append, utf8Length_singleton]
    · exact Nat.le_trans character.utf8Size_le_four (by decide)
    · intro positive
      by_cases slash : character = '\\'
      · rw [slash, List.getLast?_concat]
      · rw [if_neg slash] at positive
        exact absurd rfl positive

theorem addBytes_ok {bytes additional : Nat}
    (fits : bytes + additional ≤ usizeMax) :
    addBytes bytes additional = .ok (bytes + additional) :=
  if_pos fits

/-- What the two loops have in common. -/
structure Sized (sizes : Except SourceFault Nat)
    (texts : Except SourceFault (List Char)) : Prop where
  agree : sizes = texts.map utf8Length
  fault : ∀ fault, texts = .error fault → fault = escapedSurrogate

theorem sized_fault : Sized (.error escapedSurrogate) (.error escapedSurrogate) := by
  constructor
  · rfl
  · intro fault same
    exact (Except.error.inj same).symm

theorem sized_text (text : List Char) :
    Sized (.ok (utf8Length text)) (.ok text) := by
  constructor
  · rfl
  · intro fault same
    cases same

/-- The loops agree from any state, if the count stays in its type. -/
theorem bytesLoop_sized (unicodeMode : Bool) (units : List UInt16)
    (slashRun : Nat) (source : List Char) (run : EndsInRun slashRun source)
    (fits : utf8Length source + 6 * units.length ≤ usizeMax) :
    Sized (bytesLoop unicodeMode units slashRun (utf8Length source))
      (sourceLoop unicodeMode units slashRun source) := by
  induction units using List.twoStepInduction generalizing slashRun source with
  | nil => exact sized_text source
  | singleton first =>
      rw [bytesLoop, sourceLoop]
      rcases pushUnit_sized unicodeMode first run with ⟨counted, pushed⟩ |
        ⟨additional, next, later, counted, pushed, length, small, _⟩
      · rw [counted, pushed, Support.error_bind, Support.error_bind]
        exact sized_fault
      · rw [List.length_singleton] at fits
        rw [counted, pushed, Support.ok_bind, Support.ok_bind]
        dsimp only
        rw [addBytes_ok (by omega), ← length]
        exact sized_text later
  | cons_cons first second rest afterPair afterUnit =>
      rw [List.length_cons, List.length_cons] at fits
      rw [bytesLoop, sourceLoop]
      by_cases paired : isPair unicodeMode first second
      · obtain ⟨character, expected, four⟩ := expectChar_of_pair paired
        have length : utf8Length (source ++ [character]) =
            utf8Length source + 4 := by
          rw [utf8Length_append, utf8Length_singleton, four]
        rw [if_pos paired, if_pos paired, addBytes_ok (by omega), expected,
          Support.ok_bind, Support.ok_bind, ← length]
        apply afterPair
        · intro wrong
          exact absurd rfl wrong
        · omega
      · rw [if_neg paired, if_neg paired]
        rcases pushUnit_sized unicodeMode first run with ⟨counted, pushed⟩ |
          ⟨additional, next, later, counted, pushed, length, small, ends⟩
        · rw [counted, pushed, Support.error_bind, Support.error_bind]
          exact sized_fault
        · rw [counted, pushed, Support.ok_bind, Support.ok_bind]
          dsimp only
          rw [addBytes_ok (by omega), Support.ok_bind, ← length]
          apply afterUnit second _ _ ends
          rw [List.length_cons]
          omega

/-- The sizing loop fails exactly when the writing loop does, which is at an
escaped surrogate, and else counts the bytes of the text it writes. -/
theorem parserPatternSourceBytes_sized (pattern : List UInt16)
    (unicodeMode : Bool) (fits : 6 * pattern.length ≤ usizeMax) :
    parserPatternSourceBytes pattern unicodeMode =
        (sourceLoop unicodeMode pattern 0 []).map utf8Length ∧
      (∀ fault, sourceLoop unicodeMode pattern 0 [] = .error fault →
        fault = escapedSurrogate) ∧
      ∀ limits text, parserPatternSource pattern unicodeMode limits = .ok text ↔
        sourceLoop unicodeMode pattern 0 [] = .ok text ∧
          utf8Length text ≤ limits.maxPatternBytes := by
  have sized : Sized (parserPatternSourceBytes pattern unicodeMode)
      (sourceLoop unicodeMode pattern 0 []) := by
    apply bytesLoop_sized unicodeMode pattern 0 []
    · intro wrong
      exact absurd rfl wrong
    · rw [utf8Length, List.map_nil, List.sum_nil, Nat.zero_add]
      exact fits
  refine ⟨sized.agree, sized.fault, ?_⟩
  intro limits text
  rw [parserPatternSource, sized.agree]
  cases written : sourceLoop unicodeMode pattern 0 [] with
  | error fault =>
      constructor
      · intro wrong
        cases wrong
      · intro wrong
        cases wrong.1
  | ok produced =>
      change (if utf8Length produced > limits.maxPatternBytes then _ else _) =
        _ ↔ _
      by_cases large : utf8Length produced > limits.maxPatternBytes
      · rw [if_pos large]
        constructor
        · intro wrong
          cases wrong
        · intro both
          rw [Except.ok.inj both.1] at large
          omega
      · rw [if_neg large]
        constructor
        · intro same
          rw [← Except.ok.inj same]
          exact ⟨rfl, Nat.le_of_not_gt large⟩
        · intro both
          exact both.1

/-- An escaped surrogate, which only the legacy mode accepts. -/
theorem parserPatternSourceBytes_sized_escaped :
    parserPatternSourceBytes [0x5c, 0xd800] false = .ok 6 ∧
      sourceLoop false [0x5c, 0xd800] 0 [] = .ok "\\uD800".toList ∧
      parserPatternSourceBytes [0x5c, 0xd800] true = .error escapedSurrogate := by
  have legacy := (parserPatternSourceBytes_sized [0x5c, 0xd800] false
    (by decide)).1
  have unicode := (parserPatternSourceBytes_sized [0x5c, 0xd800] true
    (by decide)).1
  exact ⟨legacy.trans (by decide +kernel), by decide +kernel,
    unicode.trans (by decide +kernel)⟩

end Fusor.RegExp
