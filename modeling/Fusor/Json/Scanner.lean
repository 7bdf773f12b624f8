import Fusor.Json.Grammar
import Fusor.Runtime.StringOperations
import Fusor.Support.Result

/-!
# Scanning JSON tokens

The position of the parser is an index together with the units from there on.
Each token of the parser is compared with the grammar in both directions: what
it passes over is a token, and a token that ends where it must is passed over.
-/

namespace Fusor.Json

open Fusor.Runtime

inductive JsonTextFailure where
  | syntaxError
  | native (failure : StringFailure)
  deriving DecidableEq

def isJsonWhitespace (unit : UInt16) : Bool :=
  unit == 0x0009 || unit == 0x000a || unit == 0x000d || unit == 0x0020

def isAsciiDigit (unit : UInt16) : Bool :=
  decide (0x0030 ≤ unit) && decide (unit ≤ 0x0039)

/-- The index into the units and the units from it on. -/
structure JsonCursor where
  index : Nat
  rest : List UInt16
  deriving DecidableEq

namespace JsonCursor

def peek (cursor : JsonCursor) : Option UInt16 :=
  cursor.rest.head?

def advance (cursor : JsonCursor) : JsonCursor :=
  ⟨cursor.index + 1, cursor.rest.tail⟩

def consume (cursor : JsonCursor) (expected : UInt16) : Bool × JsonCursor :=
  if cursor.peek = some expected then (true, cursor.advance)
  else (false, cursor)

/-- Moves on while the next unit has the property. -/
def skipWhile (cursor : JsonCursor) (holds : UInt16 → Bool) : JsonCursor :=
  ⟨cursor.index + (cursor.rest.takeWhile holds).length,
    cursor.rest.dropWhile holds⟩

def skipWhitespace (cursor : JsonCursor) : JsonCursor :=
  cursor.skipWhile isJsonWhitespace

def parseLiteral : List UInt16 → JsonCursor →
    Except JsonTextFailure JsonCursor
  | [], cursor => .ok cursor
  | unit :: units, cursor =>
      match cursor.consume unit with
      | (true, next) => parseLiteral units next
      | (false, _) => .error .syntaxError

def span (start stop : Nat) : Except JsonTextFailure JsonSpan :=
  if start < 2 ^ 32 ∧ stop < 2 ^ 32 then .ok ⟨start, stop⟩
  else .error .syntaxError

def saturatingShift (value digit : UInt16) : UInt16 :=
  UInt16.ofNat (min (min (value.toNat * 16) 65535 + digit.toNat) 65535)

def hexDigit (unit : UInt16) : Option UInt16 :=
  if isAsciiDigit unit then some (unit - ascii '0')
  else if ascii 'a' ≤ unit ∧ unit ≤ ascii 'f' then
    some (unit - ascii 'a' + 10)
  else if ascii 'A' ≤ unit ∧ unit ≤ ascii 'F' then
    some (unit - ascii 'A' + 10)
  else none

def hexDigits : Nat → UInt16 → JsonCursor →
    Except JsonTextFailure (UInt16 × JsonCursor)
  | 0, value, cursor => .ok (value, cursor)
  | count + 1, value, cursor =>
      match cursor.peek.bind hexDigit with
      | none => .error .syntaxError
      | some digit =>
          hexDigits count (saturatingShift value digit) cursor.advance

def parseHexEscape (cursor : JsonCursor) :
    Except JsonTextFailure (UInt16 × JsonCursor) :=
  hexDigits 4 0 cursor

/-- The escape after its backslash. -/
def parseEscape (cursor : JsonCursor) :
    Except JsonTextFailure (UInt16 × JsonCursor) :=
  match cursor.peek with
  | none => .error .syntaxError
  | some escaped =>
      if escaped = ascii '"' then .ok (ascii '"', cursor.advance)
      else if escaped = ascii '\\' then .ok (ascii '\\', cursor.advance)
      else if escaped = ascii '/' then .ok (ascii '/', cursor.advance)
      else if escaped = ascii 'b' then .ok (0x0008, cursor.advance)
      else if escaped = ascii 'f' then .ok (0x000c, cursor.advance)
      else if escaped = ascii 'n' then .ok (0x000a, cursor.advance)
      else if escaped = ascii 'r' then .ok (0x000d, cursor.advance)
      else if escaped = ascii 't' then .ok (0x0009, cursor.advance)
      else if escaped = ascii 'u' then parseHexEscape cursor.advance
      else .error .syntaxError

theorem hexDigits_length {count : Nat} {value : UInt16} {cursor : JsonCursor}
    {result : UInt16 × JsonCursor}
    (parsed : hexDigits count value cursor = .ok result) :
    result.2.rest.length ≤ cursor.rest.length := by
  induction count generalizing value cursor with
  | zero =>
      rw [hexDigits, Except.ok.injEq] at parsed
      rw [← parsed]
  | succ count induction =>
      rw [hexDigits] at parsed
      split at parsed
      · cases parsed
      · have shorter := induction parsed
        simp only [advance, List.length_tail] at shorter
        omega

/-- One branch of `parse_escape` was taken, or the parse goes on below it. -/
private theorem ok_of_ite {unit key : UInt16}
    {value result : UInt16 × JsonCursor}
    {other : Except JsonTextFailure (UInt16 × JsonCursor)}
    (parsed : (if unit = key then .ok value else other) = .ok result) :
    (unit = key ∧ value = result) ∨ other = .ok result := by
  split at parsed
  · rename_i same
    exact .inl ⟨same, Except.ok.inj parsed⟩
  · exact .inr parsed

/-- What the escape read here can be. -/
theorem parseEscape_eq_ok {cursor : JsonCursor} {result : UInt16 × JsonCursor}
    (parsed : cursor.parseEscape = .ok result) :
    (∃ escaped unit, cursor.peek = some escaped ∧ Escape escaped unit ∧
      (unit, cursor.advance) = result) ∨
    (cursor.peek = some (ascii 'u') ∧
      parseHexEscape cursor.advance = .ok result) := by
  unfold parseEscape at parsed
  cases present : cursor.peek with
  | none =>
      rw [present] at parsed
      cases parsed
  | some escaped =>
      rw [present] at parsed
      obtain ⟨rfl, same⟩ | parsed := ok_of_ite parsed
      · exact .inl ⟨_, _, rfl, .quote, same⟩
      obtain ⟨rfl, same⟩ | parsed := ok_of_ite parsed
      · exact .inl ⟨_, _, rfl, .backslash, same⟩
      obtain ⟨rfl, same⟩ | parsed := ok_of_ite parsed
      · exact .inl ⟨_, _, rfl, .slash, same⟩
      obtain ⟨rfl, same⟩ | parsed := ok_of_ite parsed
      · exact .inl ⟨_, _, rfl, .backspace, same⟩
      obtain ⟨rfl, same⟩ | parsed := ok_of_ite parsed
      · exact .inl ⟨_, _, rfl, .formFeed, same⟩
      obtain ⟨rfl, same⟩ | parsed := ok_of_ite parsed
      · exact .inl ⟨_, _, rfl, .lineFeed, same⟩
      obtain ⟨rfl, same⟩ | parsed := ok_of_ite parsed
      · exact .inl ⟨_, _, rfl, .carriageReturn, same⟩
      obtain ⟨rfl, same⟩ | parsed := ok_of_ite parsed
      · exact .inl ⟨_, _, rfl, .tab, same⟩
      split at parsed
      · rename_i same
        exact .inr ⟨congrArg some same, parsed⟩
      · cases parsed

theorem parseEscape_length {cursor : JsonCursor} {result : UInt16 × JsonCursor}
    (parsed : cursor.parseEscape = .ok result) :
    result.2.rest.length ≤ cursor.rest.length := by
  have tail : cursor.advance.rest.length ≤ cursor.rest.length := by
    simp [advance]
  obtain ⟨_, _, _, _, rfl⟩ | ⟨_, hex⟩ := parseEscape_eq_ok parsed
  · exact tail
  · exact Nat.le_trans (hexDigits_length hex) tail

/-- The loop of `parse_string`, entered after the opening quote. -/
def stringLoop (decoded : List UInt16) (cursor : JsonCursor) :
    Except JsonTextFailure (List UInt16 × JsonCursor) :=
  match present : cursor.peek with
  | none => .error .syntaxError
  | some unit =>
      if unit = ascii '"' then .ok (decoded, cursor.advance)
      else if unit = ascii '\\' then
        match parsed : cursor.advance.parseEscape with
        | .error failure => .error failure
        | .ok (escaped, next) => stringLoop (decoded ++ [escaped]) next
      else if unit ≤ 0x001f then .error .syntaxError
      else stringLoop (decoded ++ [unit]) cursor.advance
termination_by cursor.rest.length
decreasing_by
  all_goals
    cases shape : cursor.rest with
    | nil => simp [peek, shape] at present
    | cons head tail => ?_
  · have shorter := parseEscape_length parsed
    simp [advance, shape] at shorter ⊢
    omega
  · simp [advance, shape]

def parseString (cursor : JsonCursor) :
    Except JsonTextFailure (JsString × JsonSpan × JsonCursor) :=
  match cursor.consume (ascii '"') with
  | (false, _) => .error .syntaxError
  | (true, inside) => do
      let (decoded, next) ← stringLoop [] inside
      let value ← (JsString.fromCodeUnits decoded.length decoded).mapError
        JsonTextFailure.native
      let range ← span cursor.index next.index
      .ok (value, range, next)

def integerPart (cursor : JsonCursor) : Except JsonTextFailure JsonCursor :=
  match cursor.peek with
  | none => .error .syntaxError
  | some unit =>
      if unit = ascii '0' then
        if cursor.advance.peek.any isAsciiDigit then .error .syntaxError
        else .ok cursor.advance
      else if ascii '1' ≤ unit ∧ unit ≤ ascii '9' then
        .ok (cursor.advance.skipWhile isAsciiDigit)
      else .error .syntaxError

/-- One digit at least. -/
def someDigits (cursor : JsonCursor) : Except JsonTextFailure JsonCursor :=
  if cursor.peek.any isAsciiDigit then .ok (cursor.skipWhile isAsciiDigit)
  else .error .syntaxError

def fractionPart (cursor : JsonCursor) : Except JsonTextFailure JsonCursor :=
  match cursor.consume (ascii '.') with
  | (true, digits) => digits.someDigits
  | (false, _) => .ok cursor

def exponentSign (cursor : JsonCursor) : JsonCursor :=
  if cursor.peek.any fun unit => unit == ascii '+' || unit == ascii '-' then
    cursor.advance
  else cursor

def exponentPart (cursor : JsonCursor) : Except JsonTextFailure JsonCursor :=
  if cursor.peek.any fun unit => unit == ascii 'e' || unit == ascii 'E' then
    cursor.advance.exponentSign.someDigits
  else .ok cursor

/-- The end of the numeral that starts here. -/
def scanNumber (cursor : JsonCursor) : Except JsonTextFailure JsonCursor := do
  let afterInteger ← (cursor.consume (ascii '-')).2.integerPart
  let afterFraction ← afterInteger.fractionPart
  afterFraction.exponentPart

def parseNumber (stringToNumber : List UInt16 → JsNumber)
    (cursor : JsonCursor) : Except JsonTextFailure (JsNumber × JsonCursor) := do
  let next ← cursor.scanNumber
  let units := cursor.rest.take (next.index - cursor.index)
  let numberText ← (JsString.fromCodeUnits units.length units).mapError
    JsonTextFailure.native
  .ok (stringToNumber numberText.content, next)

/-- The second cursor stands behind a text that starts at the first. -/
structure Passes (cursor : JsonCursor) (text : List UInt16)
    (next : JsonCursor) : Prop where
  rest : cursor.rest = text ++ next.rest
  index : next.index = cursor.index + text.length

namespace Passes

theorem refl (cursor : JsonCursor) : Passes cursor [] cursor :=
  ⟨rfl, rfl⟩

theorem trans {first second third : JsonCursor} {left right : List UInt16}
    (before : Passes first left second) (after : Passes second right third) :
    Passes first (left ++ right) third := by
  constructor
  · rw [before.rest, after.rest, List.append_assoc]
  · rw [after.index, before.index, List.length_append, Nat.add_assoc]

theorem shorter {cursor next : JsonCursor} {text : List UInt16}
    (passes : Passes cursor text next) (nonempty : text ≠ []) :
    next.rest.length < cursor.rest.length := by
  have positive := List.length_pos_iff.mpr nonempty
  rw [passes.rest, List.length_append]
  omega

end Passes

theorem advance_passes {cursor : JsonCursor} {unit : UInt16}
    (present : cursor.peek = some unit) :
    Passes cursor [unit] cursor.advance := by
  obtain ⟨index, rest⟩ := cursor
  cases rest with
  | nil => cases present
  | cons head tail =>
      cases present
      exact ⟨rfl, rfl⟩

theorem consume_passes {cursor next : JsonCursor} {expected : UInt16}
    (consumed : cursor.consume expected = (true, next)) :
    Passes cursor [expected] next := by
  unfold consume at consumed
  split at consumed
  · rename_i present
    cases consumed
    exact advance_passes present
  · cases consumed

@[simp]
theorem consume_cons (index : Nat) (unit : UInt16) (rest : List UInt16) :
    consume ⟨index, unit :: rest⟩ unit = (true, ⟨index + 1, rest⟩) := by
  simp [consume, peek, advance]

theorem consume_of_ne {cursor : JsonCursor} {expected : UInt16}
    (other : cursor.peek ≠ some expected) :
    cursor.consume expected = (false, cursor) := by
  rw [consume, if_neg other]

theorem consume_other {unit expected : UInt16} (other : unit ≠ expected)
    (index : Nat) (rest : List UInt16) :
    consume ⟨index, unit :: rest⟩ expected = (false, ⟨index, unit :: rest⟩) :=
  consume_of_ne fun same => other (Option.some.inj same)

theorem skipWhitespace_eq {next : JsonCursor}
    (stops : next.peek.any isJsonWhitespace = false) :
    next.skipWhitespace = next := by
  obtain ⟨index, rest⟩ := next
  cases rest with
  | nil => rfl
  | cons head tail =>
      have no : isJsonWhitespace head = false := by simpa [peek] using stops
      simp [skipWhitespace, skipWhile, no]

theorem skipWhile_passes (cursor : JsonCursor) (holds : UInt16 → Bool) :
    Passes cursor (cursor.rest.takeWhile holds) (cursor.skipWhile holds) :=
  ⟨List.takeWhile_append_dropWhile.symm, rfl⟩

/-- The scan stops behind a run that something else follows. -/
theorem skipWhile_append {holds : UInt16 → Bool} {text tail : List UInt16}
    (run : ∀ unit ∈ text, holds unit = true)
    (stops : tail.head?.any holds = false) (index : Nat) :
    skipWhile ⟨index, text ++ tail⟩ holds = ⟨index + text.length, tail⟩ := by
  have none : tail.takeWhile holds = [] ∧ tail.dropWhile holds = tail := by
    cases tail with
    | nil => exact ⟨rfl, rfl⟩
    | cons head tail =>
        have no : holds head = false := by simpa using stops
        simp [no]
  rw [skipWhile, List.takeWhile_append_of_pos run,
    List.dropWhile_append_of_pos run, none.1, none.2, List.append_nil]

theorem isJsonWhitespace_iff (unit : UInt16) :
    isJsonWhitespace unit = true ↔
      unit = 0x09 ∨ unit = 0x0a ∨ unit = 0x0d ∨ unit = 0x20 := by
  simp [isJsonWhitespace, or_assoc]

theorem isAsciiDigit_iff (unit : UInt16) :
    isAsciiDigit unit = true ↔ Digit unit := by
  simp [isAsciiDigit, Digit, ascii]

theorem skipWhitespace_passes (cursor : JsonCursor) :
    ∃ blank, Blank blank ∧ Passes cursor blank cursor.skipWhitespace := by
  refine ⟨_, ?_, skipWhile_passes cursor isJsonWhitespace⟩
  intro unit member
  exact (isJsonWhitespace_iff unit).mp
    (List.all_eq_true.mp List.all_takeWhile unit member)

theorem skipWhitespace_append {blank tail : List UInt16}
    (space : Blank blank) (stops : tail.head?.any isJsonWhitespace = false)
    (index : Nat) :
    skipWhitespace ⟨index, blank ++ tail⟩ = ⟨index + blank.length, tail⟩ :=
  skipWhile_append (fun unit member =>
    (isJsonWhitespace_iff unit).mpr (space unit member)) stops index

theorem parseLiteral_passes {units : List UInt16} {cursor next : JsonCursor}
    (parsed : parseLiteral units cursor = .ok next) :
    Passes cursor units next := by
  induction units generalizing cursor with
  | nil =>
      cases parsed
      exact .refl _
  | cons unit units induction =>
      rw [parseLiteral] at parsed
      split at parsed
      · rename_i consumed
        exact (consume_passes consumed).trans (induction parsed)
      · cases parsed

theorem parseLiteral_append (units tail : List UInt16) (index : Nat) :
    parseLiteral units ⟨index, units ++ tail⟩ =
      .ok ⟨index + units.length, tail⟩ := by
  induction units generalizing index with
  | nil => rfl
  | cons unit units induction =>
      rw [parseLiteral, List.cons_append, consume_cons]
      simp only [induction, List.length_cons]
      rw [Nat.add_assoc, Nat.add_comm 1]

theorem sub_eq_ofNat {base unit : UInt16} (low : base ≤ unit) :
    unit - base = UInt16.ofNat (unit.toNat - base.toNat) := by
  rw [← UInt16.toNat_sub_of_le unit base low, UInt16.ofNat_toNat]

theorem sub_add_eq_ofNat {base unit : UInt16} (low : base ≤ unit) :
    unit - base + 10 = UInt16.ofNat (unit.toNat - base.toNat + 10) := by
  rw [sub_eq_ofNat low, UInt16.ofNat_add]
  rfl

theorem hexDigit_lt {unit : UInt16} {value : Nat}
    (digit : HexDigit unit value) : value < 16 := by
  cases digit with
  | _ low high =>
      simp only [UInt16.le_iff_toNat_le, ascii] at low high ⊢
      simp at low high ⊢
      omega

theorem hexDigit_of_hexDigit {unit : UInt16} {value : Nat}
    (digit : HexDigit unit value) :
    hexDigit unit = some (UInt16.ofNat value) := by
  cases digit with
  | decimal low high =>
      rw [hexDigit, if_pos ((isAsciiDigit_iff unit).mpr ⟨low, high⟩),
        sub_eq_ofNat low]
  | lower low high =>
      have noDigit : ¬ isAsciiDigit unit = true := by
        rw [isAsciiDigit_iff, Digit]
        simp only [UInt16.le_iff_toNat_le, ascii] at low ⊢
        simp at low ⊢
        omega
      rw [hexDigit, if_neg noDigit, if_pos ⟨low, high⟩, sub_add_eq_ofNat low]
  | upper low high =>
      have noDigit : ¬ isAsciiDigit unit = true := by
        rw [isAsciiDigit_iff, Digit]
        simp only [UInt16.le_iff_toNat_le, ascii] at low ⊢
        simp at low ⊢
        omega
      have noLower : ¬ (ascii 'a' ≤ unit ∧ unit ≤ ascii 'f') := by
        simp only [UInt16.le_iff_toNat_le, ascii] at high ⊢
        simp at high ⊢
        omega
      rw [hexDigit, if_neg noDigit, if_neg noLower, if_pos ⟨low, high⟩,
        sub_add_eq_ofNat low]

theorem hexDigit_eq_some {unit digit : UInt16}
    (found : hexDigit unit = some digit) :
    ∃ value, HexDigit unit value ∧ digit = UInt16.ofNat value := by
  unfold hexDigit at found
  split at found
  · rename_i isDigit
    obtain ⟨low, high⟩ := (isAsciiDigit_iff unit).mp isDigit
    cases found
    exact ⟨_, .decimal low high, sub_eq_ofNat low⟩
  · split at found
    · rename_i range
      cases found
      exact ⟨_, .lower range.1 range.2, sub_add_eq_ofNat range.1⟩
    · split at found
      · rename_i range
        cases found
        exact ⟨_, .upper range.1 range.2, sub_add_eq_ofNat range.1⟩
      · cases found

theorem saturatingShift_eq {value digit : Nat} (low : value < 4096)
    (small : digit < 16) :
    saturatingShift (UInt16.ofNat value) (UInt16.ofNat digit) =
      UInt16.ofNat (value * 16 + digit) := by
  rw [saturatingShift, UInt16.toNat_ofNat_of_lt' (by simp [UInt16.size]; omega),
    UInt16.toNat_ofNat_of_lt' (by simp [UInt16.size]; omega),
    Nat.min_eq_left (by omega), Nat.min_eq_left (by omega)]

/-- One digit of a hexadecimal escape. -/
theorem hexDigits_succ {count value : Nat} (low : value < 4096)
    {cursor : JsonCursor} {result : UInt16 × JsonCursor} :
    hexDigits (count + 1) (UInt16.ofNat value) cursor = .ok result ↔
      ∃ unit digit, HexDigit unit digit ∧ cursor.peek = some unit ∧
        hexDigits count (UInt16.ofNat (value * 16 + digit)) cursor.advance =
          .ok result := by
  rw [hexDigits]
  constructor
  · intro parsed
    split at parsed
    · cases parsed
    · rename_i digit found
      obtain ⟨unit, present, decoded⟩ := Option.bind_eq_some_iff.mp found
      obtain ⟨number, stands, rfl⟩ := hexDigit_eq_some decoded
      rw [saturatingShift_eq low (hexDigit_lt stands)] at parsed
      exact ⟨unit, number, stands, present, parsed⟩
  · rintro ⟨unit, digit, stands, present, parsed⟩
    simp only [present, Option.bind_some, hexDigit_of_hexDigit stands]
    rw [saturatingShift_eq low (hexDigit_lt stands)]
    exact parsed

theorem parseHexEscape_passes {cursor next : JsonCursor} {unit : UInt16}
    (parsed : cursor.parseHexEscape = .ok (unit, next)) :
    ∃ a b c d w x y z, HexDigit a w ∧ HexDigit b x ∧ HexDigit c y ∧
      HexDigit d z ∧ Passes cursor [a, b, c, d] next ∧
        unit = UInt16.ofNat (((w * 16 + x) * 16 + y) * 16 + z) := by
  have zero : (0 : UInt16) = UInt16.ofNat 0 := rfl
  rw [parseHexEscape, zero, hexDigits_succ (by omega)] at parsed
  obtain ⟨a, w, first, atFirst, parsed⟩ := parsed
  have lowW := hexDigit_lt first
  rw [hexDigits_succ (by omega)] at parsed
  obtain ⟨b, x, second, atSecond, parsed⟩ := parsed
  have lowX := hexDigit_lt second
  rw [hexDigits_succ (by omega)] at parsed
  obtain ⟨c, y, third, atThird, parsed⟩ := parsed
  have lowY := hexDigit_lt third
  rw [hexDigits_succ (by omega)] at parsed
  obtain ⟨d, z, fourth, atFourth, parsed⟩ := parsed
  rw [hexDigits] at parsed
  cases parsed
  refine ⟨a, b, c, d, w, x, y, z, first, second, third, fourth, ?_, ?_⟩
  · exact (advance_passes atFirst).trans ((advance_passes atSecond).trans
      ((advance_passes atThird).trans (advance_passes atFourth)))
  · rw [Nat.zero_mul, Nat.zero_add]

theorem parseHexEscape_append {a b c d : UInt16} {w x y z : Nat}
    (first : HexDigit a w) (second : HexDigit b x) (third : HexDigit c y)
    (fourth : HexDigit d z) (index : Nat) (tail : List UInt16) :
    parseHexEscape ⟨index, a :: b :: c :: d :: tail⟩ =
      .ok (UInt16.ofNat (((w * 16 + x) * 16 + y) * 16 + z),
        ⟨index + 4, tail⟩) := by
  have lowW := hexDigit_lt first
  have lowX := hexDigit_lt second
  have lowY := hexDigit_lt third
  have zero : (0 : UInt16) = UInt16.ofNat 0 := rfl
  rw [parseHexEscape, zero, hexDigits_succ (by omega)]
  refine ⟨a, w, first, rfl, ?_⟩
  rw [hexDigits_succ (by omega)]
  refine ⟨b, x, second, rfl, ?_⟩
  rw [hexDigits_succ (by omega)]
  refine ⟨c, y, third, rfl, ?_⟩
  rw [hexDigits_succ (by omega)]
  refine ⟨d, z, fourth, rfl, ?_⟩
  rw [hexDigits, Nat.zero_mul, Nat.zero_add]
  rfl

/-- The escape read here continues the inside of a string. -/
theorem parseEscape_passes {cursor next : JsonCursor} {unit : UInt16}
    (parsed : cursor.parseEscape = .ok (unit, next)) :
    ∃ text, Passes cursor text next ∧ ∀ inside decoded,
      Characters inside decoded →
        Characters (ascii '\\' :: (text ++ inside)) (unit :: decoded) := by
  obtain ⟨escaped, _, present, stands, same⟩ | ⟨present, hex⟩ :=
    parseEscape_eq_ok parsed
  · cases same
    exact ⟨[escaped], advance_passes present, fun _ _ => .escape stands⟩
  · obtain ⟨a, b, c, d, w, x, y, z, first, second, third, fourth, passes,
      rfl⟩ := parseHexEscape_passes hex
    exact ⟨_, (advance_passes present).trans passes, fun _ _ =>
      .unicode first second third fourth⟩

theorem parseEscape_of_escape {escaped unit : UInt16}
    (stands : Escape escaped unit) (index : Nat) (tail : List UInt16) :
    parseEscape ⟨index, escaped :: tail⟩ = .ok (unit, ⟨index + 1, tail⟩) := by
  cases stands <;> simp [parseEscape, peek, advance, ascii]

theorem parseEscape_unicode {a b c d : UInt16} {w x y z : Nat}
    (first : HexDigit a w) (second : HexDigit b x) (third : HexDigit c y)
    (fourth : HexDigit d z) (index : Nat) (tail : List UInt16) :
    parseEscape ⟨index, ascii 'u' :: a :: b :: c :: d :: tail⟩ =
      .ok (UInt16.ofNat (((w * 16 + x) * 16 + y) * 16 + z),
        ⟨index + 5, tail⟩) := by
  have hex := parseHexEscape_append first second third fourth (index + 1) tail
  simp only [parseEscape, peek, List.head?_cons, advance, List.tail_cons]
  repeat rw [if_neg (by decide)]
  rw [if_pos trivial, hex]

theorem stringLoop_passes {decoded result : List UInt16}
    {cursor next : JsonCursor}
    (parsed : stringLoop decoded cursor = .ok (result, next)) :
    ∃ inside units, Passes cursor (inside ++ [ascii '"']) next ∧
      Characters inside units ∧ result = decoded ++ units := by
  fun_induction stringLoop decoded cursor with
  | case1 => cases parsed
  | case2 decoded cursor present =>
      cases parsed
      exact ⟨[], [], advance_passes present, .nil, by simp⟩
  | case3 => cases parsed
  | case4 decoded cursor escaped after escape present _ induction =>
      obtain ⟨inside, units, passes, characters, rfl⟩ := induction parsed
      obtain ⟨text, escapePasses, extends'⟩ := parseEscape_passes escape
      refine ⟨ascii '\\' :: (text ++ inside), escaped :: units, ?_, ?_, ?_⟩
      · have whole := (advance_passes present).trans
          (escapePasses.trans passes)
        simpa using whole
      · exact extends' inside units characters
      · simp
  | case5 => cases parsed
  | case6 decoded cursor unit present noQuote noBackslash visible induction =>
      obtain ⟨inside, units, passes, characters, rfl⟩ := induction parsed
      refine ⟨unit :: inside, unit :: units, ?_, ?_, ?_⟩
      · simpa using (advance_passes present).trans passes
      · refine .plain ?_ noQuote noBackslash characters
        simp only [UInt16.le_iff_toNat_le] at visible ⊢
        simp at visible ⊢
        omega
      · simp

theorem stringLoop_escape {index : Nat} {rest : List UInt16} {unit : UInt16}
    {next : JsonCursor}
    (parsed : parseEscape ⟨index + 1, rest⟩ = .ok (unit, next))
    (decoded : List UInt16) :
    stringLoop decoded ⟨index, ascii '\\' :: rest⟩ =
      stringLoop (decoded ++ [unit]) next := by
  have noQuote : ¬ ascii '\\' = ascii '"' := by decide
  conv => lhs; rw [stringLoop]
  simp only [peek, advance, List.head?_cons, List.tail_cons, noQuote,
    ↓reduceIte]
  split
  · rename_i failed
    rw [parsed] at failed
    cases failed
  · rename_i escaped
    rw [parsed] at escaped
    cases escaped
    rfl

theorem stringLoop_append {inside units : List UInt16}
    (characters : Characters inside units) (decoded : List UInt16)
    (index : Nat) (tail : List UInt16) :
    stringLoop decoded ⟨index, inside ++ (ascii '"' :: tail)⟩ =
      .ok (decoded ++ units, ⟨index + inside.length + 1, tail⟩) := by
  induction characters generalizing decoded index with
  | nil =>
      rw [stringLoop]
      simp [peek, advance]
  | plain visible noQuote noBackslash rest induction =>
      rename_i unit text result
      have printable : ¬ unit ≤ 0x001f := by
        simp only [UInt16.le_iff_toNat_le] at visible ⊢
        simp at visible ⊢
        omega
      rw [stringLoop]
      simp [peek, advance, noQuote, noBackslash, printable]
      rw [induction]
      simp
      omega
  | escape stands rest induction =>
      rw [List.cons_append, List.cons_append, stringLoop_escape
        (parseEscape_of_escape stands (index + 1) _), induction]
      simp
      omega
  | unicode first second third fourth rest induction =>
      simp only [List.cons_append]
      rw [stringLoop_escape (parseEscape_unicode first second third fourth
        (index + 1) _), induction]
      simp
      omega

theorem length_le_of_characters {inside units : List UInt16}
    (characters : Characters inside units) :
    units.length ≤ inside.length := by
  induction characters with
  | nil => rfl
  | _ => simp only [List.length_cons]; omega

theorem span_eq_ok_iff {start stop : Nat} {range : JsonSpan} :
    span start stop = .ok range ↔
      start < 2 ^ 32 ∧ stop < 2 ^ 32 ∧ range = ⟨start, stop⟩ := by
  rw [span]
  split
  · rename_i bounds
    rw [Except.ok.injEq]
    exact ⟨fun same => ⟨bounds.1, bounds.2, same.symm⟩,
      fun all => all.2.2.symm⟩
  · rename_i bounds
    simp only [reduceCtorEq, false_iff]
    exact fun all => bounds ⟨all.1, all.2.1⟩

theorem mapError_eq_ok_iff {failure other α : Type} {result : Except failure α}
    {convert : failure → other} {value : α} :
    result.mapError convert = .ok value ↔ result = .ok value := by
  cases result <;> simp [Except.mapError]

theorem parseString_passes {cursor next : JsonCursor} {value : JsString}
    {range : JsonSpan}
    (parsed : cursor.parseString = .ok (value, range, next)) :
    ∃ text, Passes cursor text next ∧ Quoted text value.content ∧
      range = ⟨cursor.index, next.index⟩ := by
  unfold parseString at parsed
  split at parsed
  · cases parsed
  · rename_i inside opened
    rw [Support.bind_eq_ok_iff] at parsed
    obtain ⟨⟨decoded, after⟩, loop, parsed⟩ := parsed
    rw [Support.bind_eq_ok_iff] at parsed
    obtain ⟨built, converted, parsed⟩ := parsed
    rw [Support.bind_eq_ok_iff] at parsed
    obtain ⟨bounds, spanned, parsed⟩ := parsed
    cases parsed
    rw [mapError_eq_ok_iff] at converted
    obtain ⟨text, units, passes, characters, same⟩ := stringLoop_passes loop
    have content : value.content = units := by
      rw [(JsString.fromCodeUnits_wellFormed (Nat.le_refl _) converted).2.2,
        same, List.nil_append]
    refine ⟨ascii '"' :: (text ++ [ascii '"']), ?_, ⟨text, rfl, ?_⟩, ?_⟩
    · exact (consume_passes opened).trans passes
    · rw [content]
      exact characters
    · exact (span_eq_ok_iff.mp spanned).2.2

theorem parseString_append {text decoded : List UInt16}
    (quoted : Quoted text decoded) {index : Nat}
    (bounded : index + text.length ≤ maxStringCodeUnits)
    (tail : List UInt16) :
    ∃ value, parseString ⟨index, text ++ tail⟩ =
        .ok (value, ⟨index, index + text.length⟩,
          ⟨index + text.length, tail⟩) ∧ value.content = decoded := by
  obtain ⟨inside, rfl, characters⟩ := quoted
  have short := length_le_of_characters characters
  simp only [List.length_cons, List.length_append, List.length_nil] at bounded
  obtain ⟨value, built, _, _, content⟩ :=
    @JsString.fromCodeUnits_eq_ok decoded.length decoded (Nat.le_refl _)
      (by omega)
  have loop := stringLoop_append characters [] (index + 1) tail
  refine ⟨value, ?_, content⟩
  rw [parseString]
  simp only [List.cons_append, List.append_assoc, List.nil_append,
    consume_cons, loop]
  rw [Support.bind_eq_ok_iff]
  refine ⟨_, rfl, ?_⟩
  rw [Support.bind_eq_ok_iff]
  refine ⟨value, mapError_eq_ok_iff.mpr built, ?_⟩
  rw [Support.bind_eq_ok_iff]
  have position : index + 1 + inside.length + 1 =
      index + (inside.length + 1 + 1) := by
    omega
  rw [maxStringCodeUnits] at bounded
  refine ⟨⟨index, index + (inside.length + 1 + 1)⟩, ?_, ?_⟩
  · exact span_eq_ok_iff.mpr ⟨by omega, by simp only; omega, by rw [position]⟩
  · simp only [position, List.length_cons, List.length_append, List.length_nil]

theorem someDigits_passes {cursor next : JsonCursor}
    (parsed : cursor.someDigits = .ok next) :
    ∃ text, Passes cursor text next ∧ Digits text := by
  unfold someDigits at parsed
  split at parsed
  · rename_i digit
    cases parsed
    refine ⟨_, skipWhile_passes cursor isAsciiDigit, ?_, ?_⟩
    · obtain ⟨index, rest⟩ := cursor
      cases rest with
      | nil => cases digit
      | cons head tail =>
          have isDigit : isAsciiDigit head = true := by simpa [peek] using digit
          simp [isDigit]
    · intro unit member
      exact (isAsciiDigit_iff unit).mp
        (List.all_eq_true.mp List.all_takeWhile unit member)
  · cases parsed

theorem someDigits_append {text tail : List UInt16} (digits : Digits text)
    (stops : tail.head?.any isAsciiDigit = false) (index : Nat) :
    someDigits ⟨index, text ++ tail⟩ = .ok ⟨index + text.length, tail⟩ := by
  have run : ∀ unit ∈ text, isAsciiDigit unit = true := fun unit member =>
    (isAsciiDigit_iff unit).mpr (digits.2 unit member)
  have present :
      (peek ⟨index, text ++ tail⟩).any isAsciiDigit = true := by
    cases text with
    | nil => exact absurd rfl digits.1
    | cons head rest => simpa [peek] using run head List.mem_cons_self
  rw [someDigits, if_pos present, skipWhile_append run stops]

theorem integerPart_passes {cursor next : JsonCursor}
    (parsed : cursor.integerPart = .ok next) :
    ∃ text, Passes cursor text next ∧ IntegerPart text := by
  unfold integerPart at parsed
  split at parsed
  · cases parsed
  · rename_i unit present
    split at parsed
    · rename_i zero
      subst zero
      split at parsed
      · cases parsed
      · cases parsed
        exact ⟨_, advance_passes present, .zero⟩
    · rename_i nonzero
      split at parsed
      · rename_i range
        cases parsed
        refine ⟨_, (advance_passes present).trans
          (skipWhile_passes _ isAsciiDigit), .nonzero ?_ nonzero ?_⟩
        · refine ⟨?_, range.2⟩
          exact UInt16.le_trans (by decide) range.1
        · intro other member
          exact (isAsciiDigit_iff other).mp
            (List.all_eq_true.mp List.all_takeWhile other member)
      · cases parsed

theorem integerPart_append {text tail : List UInt16}
    (formed : IntegerPart text)
    (stops : tail.head?.any isAsciiDigit = false) (index : Nat) :
    integerPart ⟨index, text ++ tail⟩ =
      .ok ⟨index + text.length, tail⟩ := by
  cases formed with
  | zero => simp [integerPart, peek, advance, stops]
  | nonzero leading positive digits =>
      rename_i first others
      have above : ascii '1' ≤ first := by
        have low := leading.1
        have different : first.toNat ≠ (ascii '0').toNat := fun same =>
          positive (UInt16.toNat_inj.mp same)
        simp only [UInt16.le_iff_toNat_le, ascii] at low different ⊢
        simp at low different ⊢
        omega
      have scan := @skipWhile_append isAsciiDigit others tail (fun unit member =>
        (isAsciiDigit_iff unit).mpr (digits unit member)) stops (index + 1)
      simp only [integerPart, peek, List.cons_append, List.head?_cons, positive,
        ↓reduceIte, advance, List.tail_cons]
      rw [if_pos ⟨above, leading.2⟩, scan, List.length_cons, Nat.add_assoc,
        Nat.add_comm 1]

theorem fractionPart_passes {cursor next : JsonCursor}
    (parsed : cursor.fractionPart = .ok next) :
    ∃ text, Passes cursor text next ∧ FractionPart text := by
  unfold fractionPart at parsed
  split at parsed
  · rename_i dot
    obtain ⟨text, passes, digits⟩ := someDigits_passes parsed
    exact ⟨_, (consume_passes dot).trans passes, .some digits⟩
  · cases parsed
    exact ⟨[], .refl cursor, .none⟩

theorem fractionPart_append {text tail : List UInt16}
    (formed : FractionPart text)
    (stops : tail.head?.any isAsciiDigit = false)
    (noDot : tail.head? ≠ some (ascii '.')) (index : Nat) :
    fractionPart ⟨index, text ++ tail⟩ =
      .ok ⟨index + text.length, tail⟩ := by
  cases formed with
  | none =>
      rw [fractionPart, List.nil_append, @consume_of_ne ⟨index, tail⟩ _ noDot]
      rfl
  | some digits =>
      rw [fractionPart, List.cons_append, consume_cons]
      simp only [someDigits_append digits stops, List.length_cons]
      rw [Nat.add_assoc, Nat.add_comm 1]

theorem exponentPart_passes {cursor next : JsonCursor}
    (parsed : cursor.exponentPart = .ok next) :
    ∃ text, Passes cursor text next ∧ ExponentPart text := by
  unfold exponentPart at parsed
  split at parsed
  · rename_i marked
    obtain ⟨marker, present, isMarker⟩ := (Option.any_eq_true _ _).mp marked
    obtain ⟨digits, passes, formed⟩ := someDigits_passes parsed
    have marker' : marker = ascii 'e' ∨ marker = ascii 'E' := by
      simpa using isMarker
    have signed : ∃ sign, Passes cursor.advance sign
        cursor.advance.exponentSign ∧
          (sign = [] ∨ sign = [ascii '+'] ∨ sign = [ascii '-']) := by
      unfold exponentSign
      split
      · rename_i sign
        obtain ⟨unit, found, isSign⟩ := (Option.any_eq_true _ _).mp sign
        refine ⟨[unit], advance_passes found, ?_⟩
        simpa using isSign
      · exact ⟨[], .refl _, .inl rfl⟩
    obtain ⟨sign, signPasses, shape⟩ := signed
    refine ⟨marker :: (sign ++ digits), ?_, .some marker' shape formed⟩
    exact (advance_passes present).trans (signPasses.trans passes)
  · cases parsed
    exact ⟨[], .refl cursor, .none⟩

theorem exponentSign_append {sign text : List UInt16}
    (signed : sign = [] ∨ sign = [ascii '+'] ∨ sign = [ascii '-'])
    (digits : Digits text) (tail : List UInt16) (index : Nat) :
    exponentSign ⟨index, sign ++ (text ++ tail)⟩ =
      ⟨index + sign.length, text ++ tail⟩ := by
  rcases signed with rfl | rfl | rfl
  · cases text with
    | nil => exact absurd rfl digits.1
    | cons head rest =>
        have low := (digits.2 head List.mem_cons_self).1
        have other : ¬ (head = ascii '+' ∨ head = ascii '-') := by
          rintro (rfl | rfl)
          · exact absurd low (by decide)
          · exact absurd low (by decide)
        simp [exponentSign, peek, other]
  · simp [exponentSign, peek, advance]
  · simp [exponentSign, peek, advance]

theorem exponentPart_append {text tail : List UInt16}
    (formed : ExponentPart text)
    (stops : tail.head?.any isAsciiDigit = false)
    (unmarked : (tail.head?.any fun unit =>
      unit == ascii 'e' || unit == ascii 'E') = false) (index : Nat) :
    exponentPart ⟨index, text ++ tail⟩ =
      .ok ⟨index + text.length, tail⟩ := by
  cases formed with
  | none => simp [exponentPart, peek, unmarked]
  | some marked signed digits =>
      rename_i marker sign text
      have found : ((peek ⟨index, marker :: (sign ++ text) ++ tail⟩).any
          fun unit => unit == ascii 'e' || unit == ascii 'E') = true := by
        simpa [peek] using marked
      rw [exponentPart, if_pos found]
      simp only [List.cons_append, advance, List.tail_cons,
        List.append_assoc]
      rw [exponentSign_append signed digits, someDigits_append digits stops]
      simp only [List.length_cons, List.length_append]
      congr 2
      omega

/-- What may follow a numeral: nothing that would continue it. -/
def boundary (tail : List UInt16) : Bool :=
  !tail.head?.any fun unit => isAsciiDigit unit || unit == ascii '.' ||
    unit == ascii 'e' || unit == ascii 'E'

theorem any_of_boundary {tail : List UInt16} (ends : boundary tail = true)
    {holds : UInt16 → Bool}
    (continues : ∀ unit, holds unit = true →
      (isAsciiDigit unit || unit == ascii '.' || unit == ascii 'e' ||
        unit == ascii 'E') = true) : tail.head?.any holds = false := by
  rw [boundary, Bool.not_eq_true'] at ends
  cases tail with
  | nil => rfl
  | cons head tail =>
      cases found : holds head with
      | false => simpa using found
      | true =>
          have stuck := continues head found
          simp only [List.head?_cons, Option.any_some] at ends
          rw [ends] at stuck
          cases stuck

theorem head_exponentPart {text tail : List UInt16}
    (formed : ExponentPart text) (ends : boundary tail = true) :
    (text ++ tail).head?.any isAsciiDigit = false ∧
      (text ++ tail).head? ≠ some (ascii '.') := by
  cases formed with
  | none =>
      refine ⟨any_of_boundary ends (fun unit digit => by simp [digit]), ?_⟩
      intro dot
      have stops := @any_of_boundary tail ends (· == ascii '.')
        (fun unit same => by simp at same; simp [same])
      rw [List.nil_append] at dot
      rw [dot] at stops
      simp at stops
  | some marked signed digits =>
      rcases marked with rfl | rfl
      · exact ⟨rfl, by simp [ascii]⟩
      · exact ⟨rfl, by simp [ascii]⟩

theorem head_fractionPart {text rest : List UInt16}
    (formed : FractionPart text)
    (stops : rest.head?.any isAsciiDigit = false) :
    (text ++ rest).head?.any isAsciiDigit = false := by
  cases formed with
  | none => exact stops
  | some digits => rfl

theorem consume_minus {integer : List UInt16} (formed : IntegerPart integer)
    (rest : List UInt16) (index : Nat) :
    consume ⟨index, integer ++ rest⟩ (ascii '-') =
      (false, ⟨index, integer ++ rest⟩) := by
  apply consume_of_ne
  cases formed with
  | zero => simp [peek, ascii]
  | nonzero leading positive digits =>
      simp only [peek, List.cons_append, List.head?_cons, ne_eq,
        Option.some.injEq]
      rintro rfl
      exact absurd leading.1 (by decide)

theorem scanNumber_passes {cursor next : JsonCursor}
    (parsed : cursor.scanNumber = .ok next) :
    ∃ text, Passes cursor text next ∧ Numeral text := by
  rw [scanNumber, Support.bind_eq_ok_iff] at parsed
  obtain ⟨afterInteger, integerParsed, parsed⟩ := parsed
  rw [Support.bind_eq_ok_iff] at parsed
  obtain ⟨afterFraction, fractionParsed, exponentParsed⟩ := parsed
  obtain ⟨integer, integerPasses, integerFormed⟩ :=
    integerPart_passes integerParsed
  obtain ⟨fraction, fractionPasses, fractionFormed⟩ :=
    fractionPart_passes fractionParsed
  obtain ⟨exponent, exponentPasses, exponentFormed⟩ :=
    exponentPart_passes exponentParsed
  have rest := integerPasses.trans (fractionPasses.trans exponentPasses)
  have signed : ∃ sign, Passes cursor sign (cursor.consume (ascii '-')).2 ∧
      (sign = [] ∨ sign = [ascii '-']) := by
    cases consumed : cursor.consume (ascii '-') with
    | mk found after =>
        cases found with
        | true => exact ⟨_, consume_passes consumed, .inr rfl⟩
        | false =>
            unfold consume at consumed
            split at consumed
            · cases consumed
            · cases consumed
              exact ⟨[], .refl _, .inl rfl⟩
  obtain ⟨sign, signPasses, shape⟩ := signed
  exact ⟨_, signPasses.trans rest, ⟨sign, integer, fraction, exponent, rfl,
    shape, integerFormed, fractionFormed, exponentFormed⟩⟩

theorem scanNumber_append {text tail : List UInt16} (numeral : Numeral text)
    (ends : boundary tail = true) (index : Nat) :
    scanNumber ⟨index, text ++ tail⟩ = .ok ⟨index + text.length, tail⟩ := by
  obtain ⟨sign, integer, fraction, exponent, rfl, signed, integerFormed,
    fractionFormed, exponentFormed⟩ := numeral.parts
  have afterFraction := head_exponentPart exponentFormed ends
  have afterInteger := head_fractionPart fractionFormed afterFraction.1
  have afterSign : (consume ⟨index, sign ++ (integer ++ (fraction ++
      (exponent ++ tail)))⟩ (ascii '-')).2 =
        ⟨index + sign.length, integer ++ (fraction ++ (exponent ++ tail))⟩ := by
    rcases signed with rfl | rfl
    · rw [List.nil_append, consume_minus integerFormed]
      rfl
    · rw [List.singleton_append, consume_cons]
      rfl
  simp only [List.append_assoc]
  rw [scanNumber, afterSign, integerPart_append integerFormed afterInteger]
  rw [Support.bind_eq_ok_iff]
  refine ⟨_, rfl, ?_⟩
  rw [fractionPart_append fractionFormed afterFraction.1 afterFraction.2,
    Support.bind_eq_ok_iff]
  refine ⟨_, rfl, ?_⟩
  rw [exponentPart_append exponentFormed]
  · simp only [List.length_append]
    congr 2
    omega
  · exact any_of_boundary ends (fun unit digit => by simp [digit])
  · apply any_of_boundary ends
    intro unit marked
    rcases Bool.or_eq_true_iff.mp marked with found | found
    · simp [found]
    · simp [found]

section Conversion

variable {stringToNumber : List UInt16 → JsNumber}

theorem parseNumber_passes {cursor next : JsonCursor} {number : JsNumber}
    (parsed : cursor.parseNumber stringToNumber = .ok (number, next)) :
    ∃ text, Passes cursor text next ∧ Numeral text ∧
      number = stringToNumber text := by
  rw [parseNumber, Support.bind_eq_ok_iff] at parsed
  obtain ⟨after, scanned, parsed⟩ := parsed
  rw [Support.bind_eq_ok_iff] at parsed
  obtain ⟨built, converted, parsed⟩ := parsed
  cases parsed
  rw [mapError_eq_ok_iff] at converted
  obtain ⟨text, passes, numeral⟩ := scanNumber_passes scanned
  have matched : cursor.rest.take (next.index - cursor.index) = text := by
    rw [passes.index, passes.rest, Nat.add_sub_cancel_left, List.take_left]
  refine ⟨text, passes, numeral, ?_⟩
  rw [(JsString.fromCodeUnits_wellFormed (Nat.le_refl _) converted).2.2,
    matched]

theorem parseNumber_append {text tail : List UInt16} (numeral : Numeral text)
    (ends : boundary tail = true) {index : Nat}
    (bounded : index + text.length ≤ maxStringCodeUnits) :
    parseNumber stringToNumber ⟨index, text ++ tail⟩ =
      .ok (stringToNumber text, ⟨index + text.length, tail⟩) := by
  obtain ⟨value, built, _, _, content⟩ :=
    @JsString.fromCodeUnits_eq_ok text.length text (Nat.le_refl _) (by omega)
  rw [parseNumber, scanNumber_append numeral ends, Support.bind_eq_ok_iff]
  refine ⟨_, rfl, ?_⟩
  simp only [Nat.add_sub_cancel_left, List.take_left]
  rw [Support.bind_eq_ok_iff]
  exact ⟨value, mapError_eq_ok_iff.mpr built, by rw [content]⟩

theorem numeral_head {text : List UInt16} (numeral : Numeral text) :
    ∃ head rest, text = head :: rest ∧
      (head = ascii '-' ∨ isAsciiDigit head = true) := by
  obtain ⟨sign, integer, fraction, exponent, rfl, signed, formed, _, _⟩ :=
    numeral.parts
  rcases signed with rfl | rfl
  · cases formed with
    | zero => exact ⟨_, _, rfl, .inr (by decide)⟩
    | nonzero leading positive digits =>
        exact ⟨_, _, rfl, .inr ((isAsciiDigit_iff _).mpr leading)⟩
  · exact ⟨_, _, rfl, .inl rfl⟩

/-- A value starts with a unit that is neither white space nor a closing
bracket. -/
theorem derives_head {tree : JsonTree} {start : Nat} {text : List UInt16}
    (derives : Derives stringToNumber (.value tree) start text) :
    ∃ head rest, text = head :: rest ∧ isJsonWhitespace head = false ∧
      head ≠ ascii ']' := by
  cases derives with
  | number numeral =>
      obtain ⟨head, rest, same, leading⟩ := numeral_head numeral
      refine ⟨head, rest, same, ?_⟩
      rcases leading with rfl | digit
      · decide
      · have range := (isAsciiDigit_iff head).mp digit
        simp only [Digit, UInt16.le_iff_toNat_le, ascii] at range
        simp at range
        constructor
        · rw [Bool.eq_false_iff, ne_eq, isJsonWhitespace_iff]
          rintro (rfl | rfl | rfl | rfl) <;> simp at range
        · rintro rfl
          simp [ascii] at range
  | string quoted =>
      obtain ⟨inside, rfl, _⟩ := quoted
      exact ⟨_, _, rfl, by decide, by decide⟩
  | _ => exact ⟨_, _, rfl, by decide, by decide⟩

end Conversion

end JsonCursor

end Fusor.Json
