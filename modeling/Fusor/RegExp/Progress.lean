import Fusor.RegExp.Text
import Fusor.Support.Result

/-!
# Progress of reading

Every reader either stays where it is or moves on in its direction, and from
a position inside the input it neither indexes out of range nor leaves the
input.  `remaining` is the distance that termination arguments count down.
-/

namespace Fusor.RegExp

open Support

def remaining (input : Input) (direction : Direction) (position : Nat) : Nat :=
  match direction with
  | .forward => input.length - position
  | .backward => position

/-- A move from `position` to `next` in the given direction. -/
structure Advances (input : Input) (direction : Direction)
    (position next : Nat) : Prop where
  progress : next = position ∨
    remaining input direction next < remaining input direction position
  inside : position ≤ input.length → next ≤ input.length

namespace Advances

variable {input : Input} {direction : Direction}

theorem refl (position : Nat) : Advances input direction position position :=
  ⟨.inl rfl, id⟩

theorem trans {position middle next : Nat}
    (first : Advances input direction position middle)
    (second : Advances input direction middle next) :
    Advances input direction position next := by
  refine ⟨?_, fun inside => second.inside (first.inside inside)⟩
  rcases first.progress with same | further
  · subst same
    exact second.progress
  · rcases second.progress with same | later
    · subst same
      exact .inr further
    · exact .inr (later.trans further)

theorem remaining_le {position next : Nat}
    (move : Advances input direction position next) :
    remaining input direction next ≤ remaining input direction position := by
  rcases move.progress with same | further
  · rw [same]
  · exact further.le

theorem remaining_lt {position next : Nat}
    (move : Advances input direction position next)
    (moved : next ≠ position) :
    remaining input direction next < remaining input direction position :=
  move.progress.resolve_left moved

theorem forward_le {position next : Nat}
    (move : Advances input .forward position next) : position ≤ next := by
  rcases move.progress with same | further
  · exact same.ge
  · simp only [remaining] at further
    omega

theorem backward_le {position next : Nat}
    (move : Advances input .backward position next) : next ≤ position := by
  rcases move.progress with same | further
  · exact same.le
  · exact further.le

end Advances

theorem decodeInDirection_of_le {input : Input} {position : Nat}
    (inside : position ≤ input.length) (unicode : Bool)
    (direction : Direction) :
    ∃ character,
      decodeInDirection input position unicode direction = .ok character := by
  cases direction with
  | forward => exact ⟨_, rfl⟩
  | backward => exact decodeBefore_of_le inside unicode

theorem decodeInDirection_advances {input : Input} {position value next : Nat}
    {unicode : Bool} {direction : Direction}
    (decoded : decodeInDirection input position unicode direction =
      .ok (some (value, next))) :
    Advances input direction position next := by
  cases direction with
  | forward =>
      have bounds := decodeAt_bounds (Except.ok.inj decoded)
      refine ⟨.inr ?_, fun _ => bounds.2⟩
      simp only [remaining]
      omega
  | backward =>
      have earlier := decodeBefore_next_lt decoded
      exact ⟨.inr earlier, fun inside => by omega⟩

section Characters

variable (data : UnicodeData)

theorem matchCharacters_advances {input : Input} {mode : MatchMode}
    {direction : Direction} {value : List Nat} {position next : Nat}
    (read : matchCharacters data input mode direction value position =
      .ok (some next)) :
    Advances input direction position next := by
  induction value generalizing position with
  | nil =>
      cases read
      exact .refl _
  | cons expected rest induction =>
      simp only [matchCharacters, bind_eq_ok_iff] at read
      obtain ⟨character, decoded, read⟩ := read
      cases character with
      | none => simp [pure, Except.pure] at read
      | some pair =>
          obtain ⟨actual, middle⟩ := pair
          simp only at read
          split at read
          · simp [pure, Except.pure] at read
          · exact (decodeInDirection_advances decoded).trans (induction read)

theorem matchCharacters_of_le {input : Input} {mode : MatchMode}
    {direction : Direction} {value : List Nat} {position : Nat}
    (inside : position ≤ input.length) :
    ∃ result,
      matchCharacters data input mode direction value position =
        .ok result := by
  induction value generalizing position with
  | nil => exact ⟨_, rfl⟩
  | cons expected rest induction =>
      obtain ⟨character, decoded⟩ :=
        decodeInDirection_of_le inside mode.unicode direction
      simp only [matchCharacters, decoded, bind, Except.bind]
      cases character with
      | none => exact ⟨_, rfl⟩
      | some pair =>
          obtain ⟨actual, middle⟩ := pair
          simp only
          split
          · exact ⟨_, rfl⟩
          · exact induction
              ((decodeInDirection_advances decoded).inside inside)

theorem matchClassString_advances {input : Input} {mode : MatchMode}
    {direction : Direction} {value : List Nat} {position next : Nat}
    (read : matchClassString data input position value mode direction =
      .ok (some next)) :
    Advances input direction position next := by
  cases direction with
  | forward => exact matchCharacters_advances data read
  | backward => exact matchCharacters_advances data read

theorem matchClassString_of_le {input : Input} {position : Nat}
    (inside : position ≤ input.length) (value : List Nat) (mode : MatchMode)
    (direction : Direction) :
    ∃ result,
      matchClassString data input position value mode direction =
        .ok result := by
  cases direction with
  | forward => exact matchCharacters_of_le data inside
  | backward => exact matchCharacters_of_le data inside

theorem directionalPrefixes_advances {input : Input} {unicode : Bool}
    {direction : Direction} {maximum cursor : Nat} {value : List Nat}
    {entries : List (List Nat × Nat)}
    (read : directionalPrefixes input unicode direction maximum value cursor =
      .ok entries) :
    ∀ entry ∈ entries, Advances input direction cursor entry.2 := by
  induction maximum generalizing value cursor entries with
  | zero =>
      cases read
      simp
  | succ maximum induction =>
      simp only [directionalPrefixes, bind_eq_ok_iff] at read
      obtain ⟨character, decoded, read⟩ := read
      cases character with
      | none =>
          cases read
          simp
      | some pair =>
          obtain ⟨codePoint, next⟩ := pair
          simp only [bind_eq_ok_iff, pure_eq_ok_iff] at read
          obtain ⟨rest, restRead, rfl⟩ := read
          have first := decodeInDirection_advances decoded
          intro entry found
          rcases List.mem_cons.mp found with rfl | later
          · exact first
          · exact first.trans (induction restRead entry later)

theorem directionalPrefixes_of_le {input : Input} {unicode : Bool}
    {direction : Direction} {maximum cursor : Nat} {value : List Nat}
    (inside : cursor ≤ input.length) :
    ∃ entries,
      directionalPrefixes input unicode direction maximum value cursor =
        .ok entries := by
  induction maximum generalizing value cursor with
  | zero => exact ⟨_, rfl⟩
  | succ maximum induction =>
      obtain ⟨character, decoded⟩ :=
        decodeInDirection_of_le inside unicode direction
      simp only [directionalPrefixes, decoded, bind, Except.bind]
      cases character with
      | none => exact ⟨_, rfl⟩
      | some pair =>
          obtain ⟨codePoint, next⟩ := pair
          obtain ⟨rest, restRead⟩ := @induction next
            (extendSequence direction value codePoint)
            ((decodeInDirection_advances decoded).inside inside)
          simp only [restRead]
          exact ⟨_, rfl⟩

end Characters

theorem mem_pushPosition {positions : List Nat} {next position : Nat}
    (found : position ∈ pushPosition positions next) :
    position ∈ positions ∨ position = next := by
  unfold pushPosition at found
  split at found
  · exact .inl found
  · simpa using found

section Classes

variable (data : UnicodeData)

theorem classStringPositions_advances {characters : CharacterClass}
    {input : Input} {position : Nat} {mode : MatchMode}
    {direction : Direction} {strings : List (List Nat)}
    {positions later : List Nat}
    (onward : ∀ next ∈ positions, Advances input direction position next)
    (read : classStringPositions data characters input position mode direction
      strings positions = .ok later) :
    ∀ next ∈ later, Advances input direction position next := by
  induction strings generalizing positions with
  | nil =>
      cases read
      exact onward
  | cons string strings induction =>
      rw [classStringPositions] at read
      split at read
      · exact induction onward read
      · rw [bind_eq_ok_iff] at read
        obtain ⟨result, matched, read⟩ := read
        cases result with
        | none => exact induction onward read
        | some reached =>
            refine induction ?_ read
            intro next pushed
            rcases mem_pushPosition pushed with old | rfl
            · exact onward next old
            · exact matchClassString_advances data matched

theorem classStringPositions_of_le {characters : CharacterClass}
    {input : Input} {position : Nat} {mode : MatchMode}
    {direction : Direction} {strings : List (List Nat)}
    {positions : List Nat} (inside : position ≤ input.length) :
    ∃ later, classStringPositions data characters input position mode
      direction strings positions = .ok later := by
  induction strings generalizing positions with
  | nil => exact ⟨_, rfl⟩
  | cons string strings induction =>
      rw [classStringPositions]
      split
      · exact induction
      · obtain ⟨result, matched⟩ :=
          matchClassString_of_le data inside string mode direction
        simp only [matched, bind, Except.bind]
        cases result with
        | none => exact induction
        | some reached => exact induction

theorem classPropertyPositions_advances {characters : CharacterClass}
    {input : Input} {position : Nat} {mode : MatchMode}
    {direction : Direction} {entries : List (List Nat × Nat)}
    {positions : List Nat}
    (entriesOnward : ∀ entry ∈ entries,
      Advances input direction position entry.2)
    (onward : ∀ next ∈ positions, Advances input direction position next) :
    ∀ next ∈ classPropertyPositions data characters mode entries positions,
      Advances input direction position next := by
  induction entries generalizing positions with
  | nil => exact onward
  | cons entry entries induction =>
      refine induction
        (fun later found => entriesOnward later (List.mem_cons_of_mem _ found))
        ?_
      intro next pushed
      split at pushed
      · rcases mem_pushPosition pushed with old | rfl
        · exact onward next old
        · exact entriesOnward entry List.mem_cons_self
      · exact onward next pushed

theorem classMatchPositions_advances {characters : CharacterClass}
    {input : Input} {position : Nat} {mode : MatchMode}
    {direction : Direction} {positions : List Nat}
    (read : classMatchPositions data characters input position mode direction =
      .ok positions) :
    ∀ next ∈ positions, Advances input direction position next := by
  simp only [classMatchPositions, bind_eq_ok_iff] at read
  obtain ⟨strings, stringsRead, dynamic, dynamicRead, character, decoded,
    read⟩ := read
  have stringsOnward := classStringPositions_advances data (by simp) stringsRead
  have dynamicOnward : ∀ entry ∈ dynamic.reverse,
      Advances input direction position entry.2 := by
    intro entry found
    have found := List.mem_reverse.mp found
    unfold dynamicSequences at dynamicRead
    split at dynamicRead
    · exact directionalPrefixes_advances dynamicRead entry found
    · cases dynamicRead
      simp at found
  have onward := @classPropertyPositions_advances data characters input
    position mode direction _ _ dynamicOnward stringsOnward
  cases character with
  | none =>
      cases read
      exact onward
  | some pair =>
      obtain ⟨value, reached⟩ := pair
      simp only at read
      split at read
      · cases read
        intro next pushed
        rcases mem_pushPosition pushed with old | rfl
        · exact onward next old
        · exact decodeInDirection_advances decoded
      · cases read
        exact onward

theorem classMatchPositions_of_le {input : Input} {position : Nat}
    (inside : position ≤ input.length) (characters : CharacterClass)
    (mode : MatchMode) (direction : Direction) :
    ∃ positions,
      classMatchPositions data characters input position mode direction =
        .ok positions := by
  obtain ⟨strings, stringsRead⟩ := @classStringPositions_of_le data characters
    input position mode direction characters.strings [] inside
  obtain ⟨entries, entriesRead⟩ := @directionalPrefixes_of_le input
    mode.unicode direction 16 position [] inside
  obtain ⟨character, decoded⟩ :=
    decodeInDirection_of_le inside mode.unicode direction
  have dynamicRead : ∃ dynamic,
      dynamicSequences characters input position mode direction =
        .ok dynamic := by
    unfold dynamicSequences
    split
    · exact ⟨_, entriesRead⟩
    · exact ⟨_, rfl⟩
  obtain ⟨dynamic, dynamicRead⟩ := dynamicRead
  simp only [classMatchPositions, stringsRead, dynamicRead, decoded, bind,
    Except.bind]
  cases character with
  | none => exact ⟨_, rfl⟩
  | some pair =>
      obtain ⟨value, reached⟩ := pair
      simp only
      split
      · exact ⟨_, rfl⟩
      · exact ⟨_, rfl⟩

end Classes

section Assertions

variable (data : UnicodeData)

theorem boundaryMatches_of_le {input : Input} {position : Nat}
    (inside : position ≤ input.length) (kind : BoundaryKind)
    (mode : MatchMode) :
    ∃ answer, boundaryMatches data kind input position mode = .ok answer := by
  obtain ⟨previous, decoded⟩ := decodeBefore_of_le inside mode.unicode
  cases kind
  case start =>
      simp only [boundaryMatches, decoded, bind, Except.bind]
      split
      · exact ⟨_, rfl⟩
      · split
        · cases previous <;> exact ⟨_, rfl⟩
        · exact ⟨_, rfl⟩
  case stop =>
      simp only [boundaryMatches]
      split
      · exact ⟨_, rfl⟩
      · split
        · split <;> exact ⟨_, rfl⟩
        · exact ⟨_, rfl⟩
  all_goals
    simp only [boundaryMatches, decoded, bind, Except.bind]
    exact ⟨_, rfl⟩

theorem matchBackReferenceBackward_advances {input : Input} {mode : MatchMode}
    {rangeStart capturePosition position next : Nat}
    (read : matchBackReferenceBackward data input mode rangeStart
      capturePosition position = .ok (some next)) :
    Advances input .backward position next := by
  induction capturePosition using Nat.strong_induction_on generalizing position
    with
  | _ capturePosition induction =>
      rw [matchBackReferenceBackward] at read
      split at read
      · split at read
        · simp at read
        · simp at read
        · rename_i expected nextCapture captured
          split at read
          · simp at read
          · split at read
            · simp at read
            · simp at read
            · rename_i actual nextPosition decoded
              split at read
              · simp at read
              · have first : Advances input .backward position nextPosition :=
                  decodeInDirection_advances decoded
                exact first.trans
                  (induction _ (decodeBefore_next_lt captured) read)
      · cases read
        exact .refl _

theorem matchBackReferenceBackward_of_le {input : Input} {mode : MatchMode}
    {rangeStart capturePosition position : Nat}
    (captureInside : capturePosition ≤ input.length)
    (inside : position ≤ input.length) :
    ∃ result, matchBackReferenceBackward data input mode rangeStart
      capturePosition position = .ok result := by
  induction capturePosition using Nat.strong_induction_on generalizing position
    with
  | _ capturePosition induction =>
      obtain ⟨expected, captured⟩ :=
        decodeBefore_of_le captureInside mode.unicode
      obtain ⟨actual, decoded⟩ := decodeBefore_of_le inside mode.unicode
      rw [matchBackReferenceBackward]
      split
      · split
        · simp_all
        · exact ⟨_, rfl⟩
        · rename_i nextCapture again
          split
          · exact ⟨_, rfl⟩
          · split
            · simp_all
            · exact ⟨_, rfl⟩
            · rename_i nextPosition readAgain
              split
              · exact ⟨_, rfl⟩
              · have earlier := decodeBefore_next_lt again
                have before := decodeBefore_next_lt readAgain
                exact induction _ earlier (by omega) (by omega)
      · exact ⟨_, rfl⟩

theorem matchBackReferenceForward_advances {input : Input} {mode : MatchMode}
    {rangeEnd capturePosition position next : Nat}
    (read : matchBackReferenceForward data input mode rangeEnd capturePosition
      position = some next) :
    Advances input .forward position next := by
  induction distance : rangeEnd - capturePosition using Nat.strong_induction_on
    generalizing capturePosition position with
  | _ distance induction =>
      rw [matchBackReferenceForward] at read
      split at read
      · split at read
        · simp at read
        · rename_i expected nextCapture captured
          split at read
          · simp at read
          · split at read
            · simp at read
            · rename_i actual nextPosition decoded
              split at read
              · simp at read
              · have first : Advances input .forward position nextPosition :=
                  decodeInDirection_advances (congrArg Except.ok decoded)
                have later := (decodeAt_bounds captured).1
                exact first.trans (induction _ (by omega) read rfl)
      · cases read
        exact .refl _

theorem matchBackReference_advances {input : Input} {position next : Nat}
    {range : Nat × Nat} {mode : MatchMode} {direction : Direction}
    (read : matchBackReference data input position range mode direction =
      .ok (some next)) :
    Advances input direction position next := by
  cases direction with
  | forward =>
      exact matchBackReferenceForward_advances data (Except.ok.inj read)
  | backward => exact matchBackReferenceBackward_advances data read

theorem matchBackReference_of_le {input : Input} {position : Nat}
    {range : Nat × Nat} (inside : position ≤ input.length)
    (rangeInside : range.2 ≤ input.length) (mode : MatchMode)
    (direction : Direction) :
    ∃ result, matchBackReference data input position range mode direction =
      .ok result := by
  cases direction with
  | forward => exact ⟨_, rfl⟩
  | backward => exact matchBackReferenceBackward_of_le data rangeInside inside

end Assertions

end Fusor.RegExp
