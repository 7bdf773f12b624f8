import Fusor.Diagnostics.LineIndexCorrectness
import Fusor.Diagnostics.SourceRegistry

/-!
# Positions of registered sources round trip
-/

namespace Fusor.Diagnostics

open Fusor.Support

/-- The boundary between a carriage return and the line feed after it. -/
def SplitsTerminator (source : Text) (offset : Nat) : Prop :=
  ∃ before after, source = before ++ '\r' :: '\n' :: after ∧
    offset = Text.byteLength before + 1

/-- The column between the two units of a character. -/
def SplitsPair (content : Text) (column : Nat) : Prop :=
  ∃ front character back, content = front ++ character :: back ∧
    lenUtf16 character = 2 ∧ column = extent lenUtf16 front + 1

def SourceMapPosition.Before (first second : SourceMapPosition) : Prop :=
  first.line < second.line ∨
    first.line = second.line ∧ first.column < second.column

theorem SourceFile.small (file : SourceFile) :
    file.text.byteLength ≤ u32Max :=
  (LineIndex.new_eq_ok_iff.mp file.indexed).1

theorem SourceFile.lineIndex_eq (file : SourceFile) :
    file.lineIndex = ⟨lineStarts file.text⟩ :=
  (LineIndex.new_eq_ok_iff.mp file.indexed).2

/-- A column is the extent of a front part exactly when it is not beyond the
content and does not split a pair. -/
theorem exists_column_iff (content : Text) (column : Nat) :
    (∃ front back, content = front ++ back ∧
      extent lenUtf16 front = column) ↔
      column ≤ extent lenUtf16 content ∧ ¬ SplitsPair content column := by
  constructor
  · intro ⟨front, back, parts, units⟩
    subst parts
    subst units
    refine ⟨by rw [extent_append]; exact Nat.le_add_right _ _, ?_⟩
    intro ⟨outer, character, inner, split, wide, column⟩
    have isOuter : outer <+: front ++ back := ⟨_, split.symm⟩
    have isFront : front <+: front ++ back := ⟨_, rfl⟩
    obtain ⟨rest, grown⟩ := prefix_of_extent_le lenUtf16_pos isOuter isFront
      (by omega)
    subst grown
    cases rest with
    | nil => simp at column
    | cons next rest =>
        have same : next = character := by
          rw [List.append_assoc] at split
          exact (List.cons.inj (List.append_cancel_left split)).1
        rw [extent_append, extent_cons, same, wide] at column
        omega
  · intro ⟨bounded, whole⟩
    induction content generalizing column with
    | nil => exact ⟨[], [], rfl, (Nat.le_zero.mp bounded).symm⟩
    | cons character rest induction =>
        rw [extent_cons] at bounded
        by_cases start : column = 0
        · exact ⟨[], character :: rest, rfl, start.symm⟩
        · have wide : lenUtf16 character ≤ column := by
            by_contra narrow
            apply whole
            refine ⟨[], character, rest, rfl, ?_, ?_⟩
            · unfold lenUtf16 at narrow ⊢
              split
              · rename_i small
                rw [if_pos small] at narrow
                omega
              · rfl
            · unfold lenUtf16 at narrow
              split at narrow <;> simp <;> omega
          obtain ⟨front, back, parts, units⟩ :=
            induction (column - lenUtf16 character) (by omega) (by
              intro ⟨front, other, back, split, two, offset⟩
              apply whole
              refine ⟨character :: front, other, back, ?_, two, ?_⟩
              · rw [split, List.cons_append]
              · rw [extent_cons]
                omega)
          refine ⟨character :: front, back, ?_, ?_⟩
          · rw [parts, List.cons_append]
          · rw [extent_cons]
            omega

theorem length_le_byteLength {front : List Line}
    (nonempty : ∀ line ∈ front, line.text ≠ []) :
    front.length ≤ Text.byteLength (joined front) := by
  induction front with
  | nil => exact Nat.zero_le _
  | cons line front induction =>
      have first := extent_pos_of_ne_nil utf8Size_pos
        (nonempty line List.mem_cons_self)
      have others := induction fun piece member =>
        nonempty piece (List.mem_cons_of_mem _ member)
      rw [Text.byteLength] at others ⊢
      rw [joined_cons, extent_append, List.length_cons]
      omega

theorem Location.front_nonempty {source : Text} {front back : List Line}
    {line : Line} {part rest : Text}
    (location : Location source front line back part rest) :
    ∀ piece ∈ front, piece.text ≠ [] := by
  intro piece member
  apply (lines_cut source).separated
  rw [location.lines_eq, List.map_append, List.map_cons,
    List.dropLast_append_cons]
  exact List.mem_append_left _ (List.mem_map_of_mem member)

theorem Location.source_eq {source : Text} {front back : List Line}
    {line : Line} {part rest : Text}
    (location : Location source front line back part rest) :
    source = (joined front ++ part) ++ (rest ++ joined back) := by
  rw [Fusor.Diagnostics.source_eq location.lines_eq, location.parts]
  simp

section Registered

variable {registry : SourceRegistry} {sourceId : SourceId} {file : SourceFile}
  (found : registry.source sourceId = .ok file)

include found

theorem sourceMapPosition_eq {front back : List Line} {line : Line}
    {part rest : Text}
    (location : Location file.text front line back part rest) :
    registry.sourceMapPosition sourceId
      (Text.byteLength (joined front) + Text.byteLength part) =
        .ok ⟨front.length, extent lenUtf16 part⟩ := by
  have counted := length_le_byteLength location.front_nonempty
  have narrow := extent_lenUtf16_le part
  have small := file.small
  have measured := congrArg Text.byteLength location.source_eq
  simp only [Text.byteLength, extent_append] at measured small counted narrow
  have position := LineIndex.position_eq location .utf16CodeUnit
  rw [← file.lineIndex_eq] at position
  have lineFits : u32TryFrom front.length
      (.invalidSourceMapPosition u32Max 0) = .ok front.length :=
    u32TryFrom_of_le _ (by omega)
  have columnFits : u32TryFrom (extent lenUtf16 part)
      (.invalidSourceMapPosition front.length u32Max) =
        .ok (extent lenUtf16 part) :=
    u32TryFrom_of_le _ (by omega)
  simp only [SourceRegistry.sourceMapPosition,
    SourceRegistry.positionWithEncoding, found, ok_bind,
    SourceFile.positionWithEncoding, position, checkedSub_add, lineFits,
    ColumnEncoding.columns, columnFits]
  rfl

theorem byteOffset_eq_ok_iff {position : SourceMapPosition} {offset : Nat} :
    registry.byteOffsetForSourceMapPosition sourceId position = .ok offset ↔
      ∃ front piece back part rest,
        lines file.text = front ++ piece :: back ∧
        front.length = position.line ∧ piece.content = part ++ rest ∧
        extent lenUtf16 part = position.column ∧
        Text.byteLength (joined front) + Text.byteLength part = offset := by
  rw [SourceRegistry.byteOffsetForSourceMapPosition, found, ok_bind,
    SourceFile.byteOffsetForSourceMapPosition, file.lineIndex_eq]
  exact LineIndex.byteOffsetForSourceMapPosition_eq_ok_iff file.small

theorem sourceMapPosition_of_accepted {position : SourceMapPosition}
    {offset : Nat}
    (accepted : registry.byteOffsetForSourceMapPosition sourceId position =
      .ok offset) :
    registry.sourceMapPosition sourceId offset = .ok position := by
  obtain ⟨front, piece, back, part, rest, pieces, counted, parts, units,
    measured⟩ := (byteOffset_eq_ok_iff found).mp accepted
  have cut : Cut (front ++ piece :: back) := pieces ▸ lines_cut file.text
  have location : Location file.text front piece back part
      (rest ++ piece.ending) := by
    refine ⟨pieces, by rw [Line.text, parts, List.append_assoc], ?_⟩
    intro more
    rcases cut.middle.2 with ⟨alone, _⟩ | ⟨_, terminated⟩
    · exact absurd alone more
    · simp [terminated.ne_nil]
  have located := sourceMapPosition_eq found location
  rw [measured, counted, units] at located
  exact located

theorem byteOffset_of_content {front back : List Line} {line : Line}
    {part beyond : Text} (pieces : lines file.text = front ++ line :: back)
    (content : line.content = part ++ beyond) :
    registry.byteOffsetForSourceMapPosition sourceId
      ⟨front.length, extent lenUtf16 part⟩ =
        .ok (Text.byteLength (joined front) + Text.byteLength part) :=
  (byteOffset_eq_ok_iff found).mpr
    ⟨front, line, back, part, beyond, pieces, rfl, content, rfl, rfl⟩

end Registered

/-- A part that goes beyond the content ends inside a pair. -/
theorem Location.content_or_pair {source : Text} {front back : List Line}
    {line : Line} {part rest : Text}
    (location : Location source front line back part rest) :
    (∃ beyond, line.content = part ++ beyond) ∨
      part = line.content ++ ['\r'] ∧ rest = ['\n'] := by
  rcases List.append_eq_append_iff.mp location.parts with
    ⟨extra, parts, ending⟩ | ⟨beyond, content, _⟩
  · cases extra with
    | nil => exact .inl ⟨[], by simpa using parts.symm⟩
    | cons first more =>
        have cut : Cut (front ++ line :: back) :=
          location.lines_eq ▸ lines_cut source
        rcases cut.middle.2 with ⟨_, unterminated⟩ | ⟨others, terminated⟩
        · rw [unterminated] at ending
          cases ending
        · have remains := location.inside others
          cases shape : line.ending with
          | nil => exact absurd shape terminated.ne_nil
          | cons head tail =>
              rw [shape] at terminated ending
              cases terminated with
              | single =>
                  have counted := congrArg List.length ending
                  have positive := List.length_pos_of_ne_nil remains
                  simp only [List.length_append, List.length_cons,
                    List.length_nil] at counted
                  omega
              | pair =>
                  obtain ⟨same, later⟩ := List.cons.inj ending
                  subst same
                  cases more with
                  | nil => exact .inr ⟨parts, later.symm⟩
                  | cons second more =>
                      obtain ⟨_, empty⟩ := List.cons.inj later
                      have gone := (List.append_eq_nil_iff.mp empty.symm).2
                      exact absurd gone remains
  · exact .inl ⟨beyond, content⟩

theorem Location.not_splitsTerminator {source : Text} {front back : List Line}
    {line : Line} {part rest beyond : Text}
    (location : Location source front line back part rest)
    (content : line.content = part ++ beyond) :
    ¬ SplitsTerminator source
      (Text.byteLength (joined front) + Text.byteLength part) := by
  intro ⟨before, after, split, offset⟩
  have cut : Cut (front ++ line :: back) :=
    location.lines_eq ▸ lines_cut source
  have regrouped : source = (before ++ ['\r']) ++ '\n' :: after := by
    rw [split, List.append_assoc]
    rfl
  have here := (splitAtExtent_eq_some_iff utf8Size_pos).mpr
    ⟨location.source_eq, extent_append Char.utf8Size (joined front) part⟩
  have there := (splitAtExtent_eq_some_iff utf8Size_pos).mpr
    ⟨regrouped, extent_append Char.utf8Size before ['\r']⟩
  have sameOffset : Text.byteLength (joined front) + Text.byteLength part =
      extent Char.utf8Size before + extent Char.utf8Size ['\r'] :=
    offset
  rw [Text.byteLength, Text.byteLength] at sameOffset
  rw [sameOffset, there] at here
  obtain ⟨sameBefore, sameAfter⟩ := Prod.mk.inj (Option.some.inj here)
  rcases List.eq_nil_or_concat' part with empty | ⟨inner, last, shape⟩
  · subst empty
    rw [List.append_nil] at sameBefore
    apply cut.not_between (List.cons_ne_nil _ _) sameBefore.symm
    refine ⟨after, ?_⟩
    rw [joined_cons, location.parts]
    exact sameAfter.symm
  · rw [shape, ← List.append_assoc] at sameBefore
    have same := (List.append_inj' sameBefore rfl).2
    have member : '\r' ∈ line.content := by
      rw [content, shape, (List.cons.inj same).1]
      simp
    have ordinary := cut.middle.1 '\r' member
    cases ordinary

theorem partitionPoint_mono {list : List Nat} {smaller larger : Nat}
    (order : smaller ≤ larger) :
    partitionPoint list (fun element => element ≤ smaller) ≤
      partitionPoint list (fun element => element ≤ larger) := by
  induction list with
  | nil => exact Nat.le_refl _
  | cons head tail induction =>
      by_cases within : head ≤ smaller
      · have withinLarger := Nat.le_trans within order
        simpa [partitionPoint, within, withinLarger] using induction
      · simp [partitionPoint, within]

theorem location_unique_line {source : Text} {front otherFront back otherBack :
    List Line} {line other : Line}
    (pieces : lines source = front ++ line :: back)
    (otherPieces : lines source = otherFront ++ other :: otherBack)
    (counted : front.length = otherFront.length) :
    front = otherFront ∧ line = other := by
  have sides := List.append_inj (pieces.symm.trans otherPieces) counted
  exact ⟨sides.1, (List.cons.inj sides.2).1⟩

theorem Location.before_of_lt {source : Text}
    {front otherFront back otherBack : List Line} {line other : Line}
    {part otherPart rest otherRest : Text}
    (location : Location source front line back part rest)
    (otherLocation :
      Location source otherFront other otherBack otherPart otherRest)
    (order : Text.byteLength (joined front) + Text.byteLength part <
      Text.byteLength (joined otherFront) + Text.byteLength otherPart) :
    SourceMapPosition.Before ⟨front.length, extent lenUtf16 part⟩
      ⟨otherFront.length, extent lenUtf16 otherPart⟩ := by
  have counted := LineIndex.location_lineIndexAt location
  have otherCounted := LineIndex.location_lineIndexAt otherLocation
  have monotone : front.length ≤ otherFront.length := by
    rw [← counted, ← otherCounted]
    exact Nat.sub_le_sub_right (partitionPoint_mono (Nat.le_of_lt order)) 1
  rcases Nat.lt_or_eq_of_le monotone with earlier | same
  · exact .inl earlier
  · obtain ⟨sameFront, sameLine⟩ := location_unique_line location.lines_eq
      otherLocation.lines_eq same
    subst sameFront
    subst sameLine
    refine .inr ⟨rfl, ?_⟩
    exact extent_lt_of_extent_lt lenUtf16_pos ⟨rest, location.parts.symm⟩
      ⟨otherRest, otherLocation.parts.symm⟩ (Nat.lt_of_add_lt_add_left order)
      utf8Size_pos

end Fusor.Diagnostics
