import Mathlib.Data.List.Chain
import Fusor.RegExp.PatternSource

/-!
# Reading a pattern in Unicode mode

A pattern is a list of code points, of which some are surrogates without a
partner.  It is split into literals and escapes, and an escape of a high
surrogate directly before an escape of a low one is read as one code point.
The text for the parser is read the same way, but there every surrogate is an
escape.
-/

namespace Fusor.RegExp

/-- The code points of UTF-16 text. -/
def codePoints : List UInt16 → List Nat
  | [] => []
  | [first] => [first.toNat]
  | first :: second :: rest =>
      if isPair true first second then
        surrogatePair first.toNat second.toNat :: codePoints rest
      else first.toNat :: codePoints (second :: rest)

def hexValue (codePoint : Nat) : Option Nat :=
  if 0x30 ≤ codePoint ∧ codePoint ≤ 0x39 then some (codePoint - 0x30)
  else if 0x41 ≤ codePoint ∧ codePoint ≤ 0x46 then some (codePoint - 0x37)
  else if 0x61 ≤ codePoint ∧ codePoint ≤ 0x66 then some (codePoint - 0x57)
  else none

/-- The number that four hexadecimal digits stand for. -/
def hexFour : List Nat → Option Nat
  | first :: second :: third :: fourth :: _ => do
      let first ← hexValue first
      let second ← hexValue second
      let third ← hexValue third
      let fourth ← hexValue fourth
      some (((first * 16 + second) * 16 + third) * 16 + fourth)
  | _ => none

/-- A literal code point, an escape with four digits, any other escape, or a
backslash with nothing behind it. -/
inductive Spelling where
  | literal (codePoint : Nat)
  | unicode (unit : Nat)
  | escape (codePoint : Nat)
  | backslash
  deriving DecidableEq

/-- What an escape stands for, by the code points after its backslash. -/
def escaped (codePoint : Nat) (rest : List Nat) : Option Nat :=
  if codePoint = letterU then hexFour rest else none

def spellings : List Nat → List Spelling
  | [] => []
  | first :: rest =>
      if first = backslash then
        match rest with
        | [] => [.backslash]
        | second :: others =>
            match escaped second others with
            | some unit => .unicode unit :: spellings (others.drop 4)
            | none => .escape second :: spellings others
      else .literal first :: spellings rest
termination_by codePoints => codePoints.length
decreasing_by
  · simp only [List.length_drop, List.length_cons]
    omega
  · simp only [List.length_cons]
    omega
  · simp only [List.length_cons]
    omega

/-- What a part of a pattern denotes: a character that is written as such, a
code point, or another escape. -/
inductive Denoted where
  | literal (codePoint : Nat)
  | codePoint (codePoint : Nat)
  | escape (codePoint : Nat)
  | backslash
  deriving DecidableEq

namespace Spelling

def denoted : Spelling → Denoted
  | .literal codePoint =>
      if isSurrogate codePoint then .codePoint codePoint
      else .literal codePoint
  | .unicode unit => .codePoint unit
  | .escape codePoint => .escape codePoint
  | .backslash => .backslash

/-- The code point of two escapes. -/
def pair : Spelling → Spelling → Option Nat
  | .unicode high, .unicode low =>
      if isHighSurrogate high ∧ isLowSurrogate low then
        some (surrogatePair high low)
      else none
  | _, _ => none

/-- How the text for the parser spells it. -/
def transported : Spelling → Spelling
  | .literal codePoint =>
      if isSurrogate codePoint then .unicode codePoint else .literal codePoint
  | spelling => spelling

end Spelling

def denote : List Spelling → List Denoted
  | [] => []
  | [spelling] => [spelling.denoted]
  | first :: second :: rest =>
      match first.pair second with
      | some codePoint => .codePoint codePoint :: denote rest
      | none => first.denoted :: denote (second :: rest)

/-- The reading of a pattern in Unicode mode. -/
def reading (codePoints : List Nat) : List Denoted :=
  denote (spellings codePoints)

/-- A surrogate that is literal, beside an escape of its other half. -/
inductive Clash : Spelling → Spelling → Prop where
  | literalHigh {high low : Nat} (isHigh : isHighSurrogate high)
      (isLow : isLowSurrogate low) : Clash (.literal high) (.unicode low)
  | literalLow {high low : Nat} (isHigh : isHighSurrogate high)
      (isLow : isLowSurrogate low) : Clash (.unicode high) (.literal low)

/-- No literal surrogate stands beside an escape of its other half. -/
def KeepsApart (pattern : List UInt16) : Prop :=
  (spellings (codePoints pattern)).IsChain fun first second =>
    ¬ Clash first second

section Spellings

variable {first second unit : Nat} {rest : List Nat}

theorem spellings_literal (other : first ≠ backslash) :
    spellings (first :: rest) = .literal first :: spellings rest := by
  rw [spellings.eq_def]
  dsimp only
  rw [if_neg other]

theorem spellings_backslash : spellings [backslash] = [.backslash] := by
  rw [spellings, if_pos rfl]

theorem spellings_unicode (found : escaped second rest = some unit) :
    spellings (backslash :: second :: rest) =
      .unicode unit :: spellings (rest.drop 4) := by
  rw [spellings.eq_def]
  dsimp only
  rw [if_pos rfl, found]

theorem spellings_escape (found : escaped second rest = none) :
    spellings (backslash :: second :: rest) =
      .escape second :: spellings rest := by
  rw [spellings.eq_def]
  dsimp only
  rw [if_pos rfl, found]

/-- Four digits are read from a list that starts with them. -/
theorem hexFour_eq_some (found : hexFour rest = some unit) :
    ∃ first second third fourth others,
      rest = first :: second :: third :: fourth :: others ∧
      (∀ digit ∈ [first, second, third, fourth],
        ∃ value, hexValue digit = some value) := by
  match rest with
  | [] => exact absurd found (by simp [hexFour])
  | [_] => exact absurd found (by simp [hexFour])
  | [_, _] => exact absurd found (by simp [hexFour])
  | [_, _, _] => exact absurd found (by simp [hexFour])
  | first :: second :: third :: fourth :: others =>
      refine ⟨first, second, third, fourth, others, rfl, ?_⟩
      simp only [hexFour, Option.bind_eq_bind, Option.bind_eq_some_iff]
        at found
      obtain ⟨a, firstValue, b, secondValue, c, thirdValue, d, fourthValue, _⟩ :=
        found
      simp only [List.forall_mem_cons]
      exact ⟨⟨a, firstValue⟩, ⟨b, secondValue⟩, ⟨c, thirdValue⟩,
        ⟨d, fourthValue⟩, fun _ member => absurd member List.not_mem_nil⟩

end Spellings

section Transport

def transport (codePoint : Nat) : List Nat :=
  if isSurrogate codePoint then escapeOf codePoint else [codePoint]

theorem hexValue_hexDigit (digit : Fin 16) :
    hexValue (hexDigit digit).toNat = some digit.val := by
  revert digit
  decide

theorem hexFour_escapeOf {unit : Nat} (small : unit < 0x10000)
    (rest : List Nat) :
    hexFour ((escapeOf unit).drop 2 ++ rest) = some unit := by
  simp only [escapeOf, List.map_cons, List.map_nil, List.cons_append,
    List.nil_append, List.drop_succ_cons, List.drop_zero, hexFour,
    hexValue_hexDigit, Option.bind_eq_bind, Option.bind_some, Fin.ofNat,
    Nat.shiftRight_eq_div_pow, Option.some.injEq]
  omega

theorem lt_of_isSurrogate {unit : Nat} (surrogate : isSurrogate unit) :
    unit < 0x10000 := by
  simp only [isSurrogate, Bool.and_eq_true, decide_eq_true_eq] at surrogate
  omega

theorem isSurrogate_of_digit {digit value : Nat}
    (found : hexValue digit = some value) : isSurrogate digit = false := by
  by_contra surrogate
  simp only [isSurrogate, Bool.not_eq_false, Bool.and_eq_true,
    decide_eq_true_eq] at surrogate
  rw [hexValue, if_neg (by omega), if_neg (by omega), if_neg (by omega)] at found
  exact absurd found (by simp)

/-- No escaped code point is a surrogate. -/
def Unescaped : Bool → List Nat → Prop
  | _, [] => True
  | pending, first :: rest =>
      (pending = true → isSurrogate first = false) ∧
        Unescaped (!pending && decide (first = backslash)) rest

theorem Unescaped.tail {first : Nat} {rest : List Nat}
    (other : first ≠ backslash) (unescaped : Unescaped false (first :: rest)) :
    Unescaped false rest := by
  have later := unescaped.2
  rw [decide_eq_false other] at later
  exact later

theorem digit_ne_backslash {digit value : Nat}
    (found : hexValue digit = some value) : digit ≠ backslash := by
  intro same
  rw [same] at found
  cases found

theorem transport_of_digit {digit value : Nat}
    (found : hexValue digit = some value) : transport digit = [digit] := by
  rw [transport, isSurrogate_of_digit found]
  rfl

theorem flatMap_of_digit {digit value : Nat} {rest tail : List Nat}
    (found : hexValue digit = some value)
    (starts : rest.flatMap transport = digit :: tail) :
    ∃ others, rest = digit :: others ∧ others.flatMap transport = tail := by
  cases rest with
  | nil => exact absurd starts (by simp)
  | cons first others =>
      rw [List.flatMap_cons, transport] at starts
      by_cases surrogate : isSurrogate first
      · rw [if_pos surrogate, escapeOf, List.cons_append, List.cons_append,
          List.cons.injEq] at starts
        exact absurd starts.1.symm (digit_ne_backslash found)
      · rw [if_neg surrogate, List.singleton_append, List.cons.injEq] at starts
        exact ⟨others, by rw [starts.1], starts.2⟩

/-- Transport makes no escape with four digits. -/
theorem hexFour_flatMap {rest : List Nat} (missing : hexFour rest = none) :
    hexFour (rest.flatMap transport) = none := by
  cases found : hexFour (rest.flatMap transport) with
  | none => rfl
  | some unit =>
      obtain ⟨a, b, c, d, tail, starts, digits⟩ := hexFour_eq_some found
      simp only [List.forall_mem_cons] at digits
      obtain ⟨⟨_, first⟩, ⟨_, second⟩, ⟨_, third⟩, ⟨_, fourth⟩, _⟩ := digits
      rw [starts] at found
      obtain ⟨rest₁, same₁, starts₁⟩ := flatMap_of_digit first starts
      obtain ⟨rest₂, same₂, starts₂⟩ := flatMap_of_digit second starts₁
      obtain ⟨rest₃, same₃, starts₃⟩ := flatMap_of_digit third starts₂
      obtain ⟨rest₄, same₄, starts₄⟩ := flatMap_of_digit fourth starts₃
      rw [same₁, same₂, same₃, same₄] at missing
      rw [hexFour] at missing found
      rw [missing] at found
      exact found.symm

theorem escaped_flatMap {second : Nat} {rest : List Nat}
    (missing : escaped second rest = none) :
    escaped second (rest.flatMap transport) = none := by
  rw [escaped] at missing ⊢
  by_cases letter : second = letterU
  · rw [if_pos letter] at missing ⊢
    exact hexFour_flatMap missing
  · rw [if_neg letter]

/-- An escape with four digits is transported as it is. -/
theorem escaped_eq_some {second unit : Nat} {rest : List Nat}
    (found : escaped second rest = some unit) :
    transport second = [second] ∧
      escaped second (rest.flatMap transport) = some unit ∧
      (rest.flatMap transport).drop 4 = (rest.drop 4).flatMap transport ∧
      (Unescaped false rest → Unescaped false (rest.drop 4)) := by
  rw [escaped] at found
  by_cases letter : second = letterU
  · rw [if_pos letter] at found
    obtain ⟨a, b, c, d, others, starts, digits⟩ := hexFour_eq_some found
    simp only [List.forall_mem_cons] at digits
    obtain ⟨⟨_, first⟩, ⟨_, second⟩, ⟨_, third⟩, ⟨_, fourth⟩, _⟩ := digits
    have moved : rest.flatMap transport =
        a :: b :: c :: d :: others.flatMap transport := by
      rw [starts, List.flatMap_cons, List.flatMap_cons, List.flatMap_cons,
        List.flatMap_cons, transport_of_digit first, transport_of_digit second,
        transport_of_digit third, transport_of_digit fourth]
      rfl
    refine ⟨?_, ?_, ?_, ?_⟩
    · rw [letter]
      rfl
    · rw [escaped, if_pos letter, moved]
      rw [starts] at found
      exact found
    · rw [moved, starts]
      rfl
    · intro unescaped
      rw [starts] at unescaped ⊢
      exact (((unescaped.tail (digit_ne_backslash first)).tail
        (digit_ne_backslash second)).tail (digit_ne_backslash third)).tail
        (digit_ne_backslash fourth)
  · rw [if_neg letter] at found
    exact absurd found (by simp)

theorem spellings_escapeOf {unit : Nat} (small : unit < 0x10000)
    (rest : List Nat) :
    spellings (escapeOf unit ++ rest) = .unicode unit :: spellings rest := by
  have found : escaped letterU ((escapeOf unit).drop 2 ++ rest) = some unit := by
    rw [escaped, if_pos rfl]
    exact hexFour_escapeOf small rest
  exact spellings_unicode found

/-- The text for the parser is spelled as the pattern is, with its literal
surrogates as escapes. -/
theorem spellings_flatMap (codePoints : List Nat)
    (unescaped : Unescaped false codePoints) :
    spellings (codePoints.flatMap transport) =
      (spellings codePoints).map Spelling.transported := by
  induction codePoints using spellings.induct with
  | case1 =>
      rw [List.flatMap_nil, spellings]
      rfl
  | case2 =>
      change spellings [backslash] = _
      rw [spellings_backslash]
      rfl
  | case3 second rest unit found induction =>
      obtain ⟨letter, moved, dropped, kept⟩ := escaped_eq_some found
      have later : Unescaped false rest := unescaped.2.2
      change spellings
        (backslash :: (transport second ++ rest.flatMap transport)) = _
      rw [letter, List.singleton_append, spellings_unicode moved,
        spellings_unicode found, dropped, induction (kept later),
        List.map_cons]
      rfl
  | case4 second rest missing induction =>
      have plain : transport second = [second] := by
        rw [transport, unescaped.2.1 rfl]
        rfl
      have later : Unescaped false rest := unescaped.2.2
      change spellings
        (backslash :: (transport second ++ rest.flatMap transport)) = _
      rw [plain, List.singleton_append,
        spellings_escape (escaped_flatMap missing), spellings_escape missing,
        induction later, List.map_cons]
      rfl
  | case5 first rest other induction =>
      have later := unescaped.tail other
      rw [List.flatMap_cons, spellings_literal other, List.map_cons,
        ← induction later, Spelling.transported, transport]
      by_cases surrogate : isSurrogate first
      · rw [if_pos surrogate, if_pos surrogate]
        exact spellings_escapeOf (lt_of_isSurrogate surrogate) _
      · rw [if_neg surrogate, if_neg surrogate]
        exact spellings_literal other

end Transport

end Fusor.RegExp
