import Fusor.RegExp.Program

/-!
# Reading UTF-16 text

Character decoding in both directions, case canonicalization, boundary
assertions, character classes and back references.  An index expression of
the source that can be out of range is an explicit `outOfBounds` result, so
that its absence is a theorem and not an assumption.
-/

namespace Fusor.RegExp

inductive ExecError where
  | stepLimit
  | backtrackLimit
  deriving DecidableEq

/-- The ways in which execution stops without an answer: an error value of
the source, or a slice index out of range. -/
inductive Abort where
  | failed (error : ExecError)
  | outOfBounds
  deriving DecidableEq

/-- Unicode data that the source takes from its ICU dependency. -/
structure UnicodeData where
  simpleFold : Nat → Nat
  simpleUppercase : Nat → Nat
  matchesSequence : UnicodeProperty → List Nat → MatchMode → Bool

abbrev Input := List UInt16

def unitAt (input : Input) (index : Nat) : Except Abort Nat :=
  match input[index]? with
  | some unit => .ok unit.toNat
  | none => .error .outOfBounds

def isHighSurrogate (unit : Nat) : Bool :=
  0xd800 ≤ unit && unit ≤ 0xdbff

def isLowSurrogate (unit : Nat) : Bool :=
  0xdc00 ≤ unit && unit ≤ 0xdfff

def surrogatePair (first second : Nat) : Nat :=
  0x10000 + (first - 0xd800) * 0x400 + (second - 0xdc00)

def decodeAt (input : Input) (position : Nat) (unicode : Bool) :
    Option (Nat × Nat) :=
  match input[position]? with
  | none => none
  | some first =>
      match input[position + 1]? with
      | some second =>
          if unicode && isHighSurrogate first.toNat &&
              isLowSurrogate second.toNat then
            some (surrogatePair first.toNat second.toNat, position + 2)
          else
            some (first.toNat, position + 1)
      | none => some (first.toNat, position + 1)

def decodeBefore (input : Input) (position : Nat) (unicode : Bool) :
    Except Abort (Option (Nat × Nat)) :=
  match position with
  | 0 => .ok none
  | lastPosition + 1 => do
      let last ← unitAt input lastPosition
      if unicode && isLowSurrogate last && decide (0 < lastPosition) then
        let first ← unitAt input (lastPosition - 1)
        if isHighSurrogate first then
          pure (some (surrogatePair first last, lastPosition - 1))
        else
          pure (some (last, lastPosition))
      else
        pure (some (last, lastPosition))

def decodeInDirection (input : Input) (position : Nat) (unicode : Bool)
    (direction : Direction) : Except Abort (Option (Nat × Nat)) :=
  match direction with
  | .forward => .ok (decodeAt input position unicode)
  | .backward => decodeBefore input position unicode

def advanceIndex (input : Input) (position : Nat) (unicode : Bool) : Nat :=
  match decodeAt input position unicode with
  | none => input.length
  | some (_, next) => next

theorem decodeAt_bounds {input : Input} {position value next : Nat}
    {unicode : Bool}
    (decoded : decodeAt input position unicode = some (value, next)) :
    position < next ∧ next ≤ input.length := by
  unfold decodeAt at decoded
  cases firstFound : input[position]? with
  | none => simp [firstFound] at decoded
  | some first =>
      have firstInside := (List.getElem?_eq_some_iff.mp firstFound).1
      cases secondFound : input[position + 1]? with
      | none =>
          simp only [firstFound, secondFound, Option.some.injEq,
            Prod.mk.injEq] at decoded
          omega
      | some second =>
          have secondInside := (List.getElem?_eq_some_iff.mp secondFound).1
          simp only [firstFound, secondFound] at decoded
          split at decoded
          all_goals
            simp only [Option.some.injEq, Prod.mk.injEq] at decoded
            omega

theorem unitAt_of_lt {input : Input} {index : Nat}
    (inside : index < input.length) :
    ∃ unit, unitAt input index = .ok unit := by
  unfold unitAt
  rw [List.getElem?_eq_getElem inside]
  exact ⟨_, rfl⟩

theorem decodeBefore_next_lt {input : Input} {position value next : Nat}
    {unicode : Bool}
    (decoded : decodeBefore input position unicode = .ok (some (value, next))) :
    next < position := by
  cases position with
  | zero => simp [decodeBefore] at decoded
  | succ lastPosition =>
      simp only [decodeBefore, bind, Except.bind, pure, Except.pure] at decoded
      repeat' split at decoded
      all_goals
        simp_all
        try omega

theorem decodeBefore_of_le {input : Input} {position : Nat}
    (inside : position ≤ input.length) (unicode : Bool) :
    ∃ character, decodeBefore input position unicode = .ok character := by
  cases position with
  | zero => exact ⟨none, rfl⟩
  | succ lastPosition =>
      obtain ⟨last, lastRead⟩ := unitAt_of_lt
        (show lastPosition < input.length by omega)
      obtain ⟨first, firstRead⟩ :=
        unitAt_of_lt (show lastPosition - 1 < input.length by omega)
      simp only [decodeBefore, lastRead, firstRead, bind, Except.bind, pure,
        Except.pure]
      split
      · split
        · exact ⟨_, rfl⟩
        · exact ⟨_, rfl⟩
      · exact ⟨_, rfl⟩

section Canonicalization

variable (data : UnicodeData)

def isScalarValue (value : Nat) : Bool :=
  value < 0xd800 || (0xe000 ≤ value && value ≤ 0x10ffff)

def canonicalize (value : Nat) (mode : MatchMode) : Nat :=
  if !mode.ignoreCase then value
  else if !isScalarValue value then value
  else if mode.unicode then data.simpleFold value
  else
    let upper := data.simpleUppercase value
    if 0x80 ≤ value ∧ upper < 0x80 then value else upper

def isDigit (value : Nat) : Bool :=
  0x30 ≤ value && value ≤ 0x39

def isSpace (value : Nat) : Bool :=
  (0x0009 ≤ value && value ≤ 0x000d) || value == 0x0020 || value == 0x00a0 ||
    value == 0x1680 || (0x2000 ≤ value && value ≤ 0x200a) ||
    value == 0x2028 || value == 0x2029 || value == 0x202f ||
    value == 0x205f || value == 0x3000 || value == 0xfeff

def isLineTerminator (value : Nat) : Bool :=
  value == 0x000a || value == 0x000d || value == 0x2028 || value == 0x2029

def isWord (value : Nat) (mode : MatchMode) : Bool :=
  let canonical := canonicalize data value mode
  isDigit canonical || (0x41 ≤ canonical && canonical ≤ 0x5a) ||
    canonical == 0x5f || (0x61 ≤ canonical && canonical ≤ 0x7a)

def sequencesEqual (left right : List Nat) (mode : MatchMode) : Bool :=
  left.length == right.length &&
    (left.zip right).all fun (leftValue, rightValue) =>
      canonicalize data leftValue mode == canonicalize data rightValue mode

end Canonicalization

section CharacterClasses

variable (data : UnicodeData)

mutual

def classContainsSequence (characters : CharacterClass) (value : List Nat)
    (mode : MatchMode) : Bool :=
  match characters with
  | .mk negative .union items _ _ =>
      anyItemMatches items value mode != negative
  | .mk negative .intersection items _ _ =>
      allItemsMatch items value mode != negative
  | .mk negative .subtraction [] _ _ => false != negative
  | .mk negative .subtraction (first :: rest) _ _ =>
      (classItemMatches first value mode &&
        !anyItemMatches rest value mode) != negative

def classItemMatches (item : CharacterClassItem) (value : List Nat)
    (mode : MatchMode) : Bool :=
  match item, value with
  | .range start stop, [single] =>
      let canonical := canonicalize data single mode
      let start := canonicalize data start mode
      let stop := canonicalize data stop mode
      decide (min start stop ≤ canonical) &&
        decide (canonical ≤ max start stop)
  | .digit negative, [single] => isDigit single != negative
  | .space negative, [single] => isSpace single != negative
  | .word negative, [single] => isWord data single mode != negative
  | .range _ _, _ | .digit _, _ | .space _, _ | .word _, _ => false
  | .unicodeProperty property, value =>
      data.matchesSequence property value mode
  | .nested nestedClass, value =>
      classContainsSequence nestedClass value mode
  | .string expected, value => sequencesEqual data expected value mode

def anyItemMatches (items : List CharacterClassItem) (value : List Nat)
    (mode : MatchMode) : Bool :=
  match items with
  | [] => false
  | item :: rest =>
      classItemMatches item value mode || anyItemMatches rest value mode

def allItemsMatch (items : List CharacterClassItem) (value : List Nat)
    (mode : MatchMode) : Bool :=
  match items with
  | [] => true
  | item :: rest =>
      classItemMatches item value mode && allItemsMatch rest value mode

end

def classMatches (characters : CharacterClass) (value : Nat)
    (mode : MatchMode) : Bool :=
  classContainsSequence data characters [value] mode

/-- Reads the given characters one after the other in one direction. -/
def matchCharacters (input : Input) (mode : MatchMode)
    (direction : Direction) : List Nat → Nat → Except Abort (Option Nat)
  | [], position => .ok (some position)
  | expected :: rest, position => do
      match ← decodeInDirection input position mode.unicode direction with
      | none => pure none
      | some (actual, next) =>
          if canonicalize data expected mode ≠ canonicalize data actual mode then
            pure none
          else
            matchCharacters input mode direction rest next

def matchClassString (input : Input) (position : Nat) (value : List Nat)
    (mode : MatchMode) (direction : Direction) : Except Abort (Option Nat) :=
  match direction with
  | .forward => matchCharacters data input mode .forward value position
  | .backward => matchCharacters data input mode .backward value.reverse position

/-- The sequence of characters read so far, in text order. -/
def extendSequence (direction : Direction) (value : List Nat)
    (codePoint : Nat) : List Nat :=
  match direction with
  | .forward => value ++ [codePoint]
  | .backward => codePoint :: value

def directionalPrefixes (input : Input) (unicode : Bool)
    (direction : Direction) :
    Nat → List Nat → Nat → Except Abort (List (List Nat × Nat))
  | 0, _, _ => .ok []
  | maximum + 1, value, cursor => do
      match ← decodeInDirection input cursor unicode direction with
      | none => pure []
      | some (codePoint, next) =>
          let rest ← directionalPrefixes input unicode direction maximum
            (extendSequence direction value codePoint) next
          pure ((extendSequence direction value codePoint, next) :: rest)

def pushPosition (positions : List Nat) (next : Nat) : List Nat :=
  if positions.contains next then positions else positions ++ [next]

/-- The loop of `class_match_positions` over the strings of the class. -/
def classStringPositions (characters : CharacterClass) (input : Input)
    (position : Nat) (mode : MatchMode) (direction : Direction) :
    List (List Nat) → List Nat → Except Abort (List Nat)
  | [], positions => .ok positions
  | string :: strings, positions =>
      if string.length == 1 ||
          !classContainsSequence data characters string mode then
        classStringPositions characters input position mode direction strings
          positions
      else do
        match ← matchClassString data input position string mode direction with
        | some next =>
            classStringPositions characters input position mode direction strings
              (pushPosition positions next)
        | none =>
            classStringPositions characters input position mode direction strings
              positions

/-- The loop of `class_match_positions` over the sequences that string
properties are asked about, longest first. -/
def classPropertyPositions (characters : CharacterClass) (mode : MatchMode) :
    List (List Nat × Nat) → List Nat → List Nat
  | [], positions => positions
  | (string, next) :: entries, positions =>
      classPropertyPositions characters mode entries
        (if decide (1 < string.length) &&
            classContainsSequence data characters string mode then
          pushPosition positions next
        else positions)

def dynamicSequences (characters : CharacterClass) (input : Input)
    (position : Nat) (mode : MatchMode) (direction : Direction) :
    Except Abort (List (List Nat × Nat)) :=
  if characters.hasStringProperties then
    directionalPrefixes input mode.unicode direction 16 [] position
  else .ok []

def classMatchPositions (characters : CharacterClass) (input : Input)
    (position : Nat) (mode : MatchMode) (direction : Direction) :
    Except Abort (List Nat) := do
  let positions ← classStringPositions data characters input position mode
    direction characters.strings []
  let dynamic ← dynamicSequences characters input position mode direction
  let positions :=
    classPropertyPositions data characters mode dynamic.reverse positions
  match ← decodeInDirection input position mode.unicode direction with
  | none => pure positions
  | some (value, next) =>
      if classMatches data characters value mode then
        pure (pushPosition positions next)
      else pure positions

end CharacterClasses

section Boundaries

variable (data : UnicodeData)

def boundaryMatches (kind : BoundaryKind) (input : Input) (position : Nat)
    (mode : MatchMode) : Except Abort Bool := do
  match kind with
  | .start =>
      if position == 0 then pure true
      else if mode.multiline then
        match ← decodeBefore input position mode.unicode with
        | some (value, _) => pure (isLineTerminator value)
        | none => pure false
      else pure false
  | .stop =>
      if position == input.length then pure true
      else if mode.multiline then
        match decodeAt input position mode.unicode with
        | some (value, _) => pure (isLineTerminator value)
        | none => pure false
      else pure false
  | .word | .notWord =>
      let previous ← decodeBefore input position mode.unicode
      let previous := previous.any fun (value, _) => isWord data value mode
      let next := (decodeAt input position mode.unicode).any
        fun (value, _) => isWord data value mode
      let boundary := previous != next
      if kind == .word then pure boundary else pure !boundary

end Boundaries

section BackReferences

variable (data : UnicodeData)

/-- The backward loop of `match_back_reference`. -/
def matchBackReferenceBackward (input : Input) (mode : MatchMode)
    (rangeStart capturePosition position : Nat) :
    Except Abort (Option Nat) :=
  if rangeStart < capturePosition then
    match _captured : decodeBefore input capturePosition mode.unicode with
    | .error abort => .error abort
    | .ok none => .ok none
    | .ok (some (expected, nextCapture)) =>
        if nextCapture < rangeStart then .ok none
        else
          match decodeBefore input position mode.unicode with
          | .error abort => .error abort
          | .ok none => .ok none
          | .ok (some (actual, nextPosition)) =>
              if canonicalize data expected mode ≠
                  canonicalize data actual mode then .ok none
              else
                matchBackReferenceBackward input mode rangeStart nextCapture
                  nextPosition
  else .ok (some position)
termination_by capturePosition
decreasing_by exact decodeBefore_next_lt (by assumption)

/-- The forward loop of `match_back_reference`. -/
def matchBackReferenceForward (input : Input) (mode : MatchMode)
    (rangeEnd capturePosition position : Nat) : Option Nat :=
  if capturePosition < rangeEnd then
    match _captured : decodeAt input capturePosition mode.unicode with
    | none => none
    | some (expected, nextCapture) =>
        if rangeEnd < nextCapture then none
        else
          match decodeAt input position mode.unicode with
          | none => none
          | some (actual, nextPosition) =>
              if canonicalize data expected mode ≠
                  canonicalize data actual mode then none
              else
                matchBackReferenceForward input mode rangeEnd nextCapture
                  nextPosition
  else some position
termination_by rangeEnd - capturePosition
decreasing_by
  have next := (decodeAt_bounds (by assumption)).1
  omega

def matchBackReference (input : Input) (position : Nat) (range : Nat × Nat)
    (mode : MatchMode) (direction : Direction) : Except Abort (Option Nat) :=
  match direction with
  | .backward =>
      matchBackReferenceBackward data input mode range.1 range.2 position
  | .forward =>
      .ok (matchBackReferenceForward data input mode range.2 range.1 position)

end BackReferences

end Fusor.RegExp
