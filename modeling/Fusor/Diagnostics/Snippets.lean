import Fusor.Diagnostics.SourcePositions

/-!
# Snippets highlight their spans

The excerpt of a snippet goes from the start of one line to the end of
another, and holds the span between.  Together with the positions this gives
the laws of a registered source text.
-/

namespace Fusor.Diagnostics

open Fusor.Support

/-- The byte offset after the first lines. -/
def lineOffset (source : Text) (count : Nat) : Nat :=
  Text.byteLength (joined ((lines source).take count))

theorem lineStarts_eq {source : Text} {line : Nat}
    (inside : line < (lines source).length) :
    (lineStarts source)[line]? = some (lineOffset source line) := by
  have found := lineStarts_get (lines_split inside)
  rw [List.length_take_of_le (Nat.le_of_lt inside)] at found
  exact found

theorem take_lines {source : Text} {count more : Nat} (order : count ≤ more) :
    (lines source).take more = (lines source).take count ++
      ((lines source).take more).drop count := by
  have split := (List.take_append_drop count ((lines source).take more)).symm
  rw [List.take_take, Nat.min_eq_left order] at split
  exact split

theorem lineOffset_mono {source : Text} {count more : Nat}
    (order : count ≤ more) :
    lineOffset source count ≤ lineOffset source more := by
  rw [lineOffset, lineOffset, take_lines order, joined_append, Text.byteLength,
    Text.byteLength, extent_append]
  exact Nat.le_add_right _ _

theorem lineOffset_all (source : Text) :
    lineOffset source (lines source).length = source.byteLength := by
  rw [lineOffset, List.take_length, joined_lines]

theorem nextStart_eq_lineOffset {source : Text} {line : Nat}
    (inside : line < (lines source).length) :
    LineIndex.nextStart ⟨lineStarts source⟩ source line =
      lineOffset source (line + 1) := by
  rw [LineIndex.nextStart]
  by_cases last : line + 1 < (lines source).length
  · simp only [lineStarts_eq last]
  · have beyond : (lineStarts source)[line + 1]? = none := by
      apply List.getElem?_eq_none
      rw [lineStarts_length]
      exact Nat.le_of_not_lt last
    have all : line + 1 = (lines source).length := by omega
    simp only [beyond]
    rw [all, lineOffset_all]

/-- Every offset lies in its line. -/
theorem lineIndexAt_spec (source : Text) (offset : Nat) :
    LineIndex.lineIndexAt ⟨lineStarts source⟩ offset < (lines source).length ∧
      lineOffset source (LineIndex.lineIndexAt ⟨lineStarts source⟩ offset) ≤
        offset ∧
      (LineIndex.lineIndexAt ⟨lineStarts source⟩ offset + 1 <
          (lines source).length →
        offset < lineOffset source
          (LineIndex.lineIndexAt ⟨lineStarts source⟩ offset + 1)) := by
  have nonempty : 0 < (lines source).length :=
    List.length_pos_of_ne_nil (lines_cut source).ne_nil
  have first : (lineStarts source)[0]? = some 0 := lineStarts_eq nonempty
  obtain ⟨line, counted⟩ : ∃ line, partitionPoint (lineStarts source)
      (fun start => start ≤ offset) = line + 1 := by
    apply Nat.exists_eq_succ_of_ne_zero
    cases starts : lineStarts source with
    | nil =>
        rw [starts] at first
        cases first
    | cons start others =>
        rw [starts] at first
        cases first
        simp [partitionPoint]
  have located : LineIndex.lineIndexAt ⟨lineStarts source⟩ offset = line := by
    rw [LineIndex.lineIndexAt, counted]
    rfl
  obtain ⟨⟨start, present, below⟩, above⟩ := partitionPoint_spec counted
  have inside : line < (lines source).length := by
    rw [← lineStarts_length]
    exact (List.getElem?_eq_some_iff.mp present).1
  rw [lineStarts_eq inside] at present
  cases present
  rw [located]
  refine ⟨inside, of_decide_eq_true below, ?_⟩
  intro more
  have refused := above _ (lineStarts_eq more)
  exact Nat.lt_of_not_le (of_decide_eq_false refused)

theorem slice_lines {source : Text} {first last : Nat} (order : first ≤ last) :
    source.slice (lineOffset source first) (lineOffset source last) =
      .ok (joined (((lines source).take last).drop first)) := by
  apply slice_eq_ok_iff.mpr
  have grown : (lines source).take last = (lines source).take first ++
      ((lines source).take last).drop first :=
    take_lines order
  refine ⟨joined ((lines source).take first),
    joined ((lines source).drop last), ?_, rfl, ?_⟩
  · rw [← joined_append, ← joined_append, ← List.append_assoc, ← grown,
      List.take_append_drop, joined_lines]
  · have measured := congrArg (fun pieces => Text.byteLength (joined pieces))
      grown
    simp only [joined_append, Text.byteLength, extent_append] at measured
    rw [lineOffset, lineOffset, Text.byteLength, Text.byteLength,
      Text.byteLength, measured]

theorem exists_slice {source : Text} {start finish : Nat}
    (startBoundary : Boundary source start)
    (finishBoundary : Boundary source finish) (ordered : start ≤ finish) :
    ∃ text, source.slice start finish = .ok text := by
  obtain ⟨before, after, split, startMeasured⟩ := startBoundary
  obtain ⟨front, back, wholeSplit, finishMeasured⟩ := finishBoundary
  obtain ⟨middle, grown⟩ := prefix_of_extent_le utf8Size_pos
    ⟨after, split.symm⟩ ⟨back, wholeSplit.symm⟩
    (startMeasured.trans_le (ordered.trans_eq finishMeasured.symm))
  refine ⟨middle, slice_eq_ok_iff.mpr ⟨before, back, ?_, startMeasured, ?_⟩⟩
  · rw [wholeSplit, ← grown, List.append_assoc]
  · rw [← grown, Text.byteLength, extent_append] at finishMeasured
    rw [← startMeasured]
    exact finishMeasured

theorem ByteSpan.new_eq_ok_iff {source : Text} {start finish : Nat}
    {span : ByteSpan} :
    ByteSpan.new source start finish = .ok span ↔
      source.byteLength ≤ u32Max ∧ span = ⟨start, finish⟩ ∧
        ∃ text, source.slice start finish = .ok text := by
  constructor
  · intro valid
    unfold ByteSpan.new at valid
    split at valid
    · cases valid
    · split at valid
      · cases valid
      · rename_i small ordered
        split at valid
        · cases valid
        · rename_i startBoundary
          split at valid
          · cases valid
          · rename_i finishBoundary
            have bounds : start ≤ finish ∧ finish ≤ source.byteLength := by
              omega
            rw [u32TryFrom_of_le _ (by omega), ok_bind,
              u32TryFrom_of_le _ (by omega), ok_bind, pure_eq_ok_iff] at valid
            refine ⟨by omega, valid.symm, ?_⟩
            exact exists_slice
              (isCharBoundary_iff.mp (not_not.mp startBoundary))
              (isCharBoundary_iff.mp (not_not.mp finishBoundary)) bounds.1
  · intro ⟨small, same, text, sliced⟩
    obtain ⟨before, after, split, startMeasured, finishMeasured⟩ :=
      slice_eq_ok_iff.mp sliced
    have startBoundary : source.isCharBoundary start = true :=
      isCharBoundary_iff.mpr ⟨before, text ++ after, split, startMeasured⟩
    have finishBoundary : source.isCharBoundary finish = true := by
      apply isCharBoundary_iff.mpr
      refine ⟨before ++ text, after, by rw [split, List.append_assoc], ?_⟩
      rw [Text.byteLength, extent_append, ← finishMeasured, ← startMeasured]
      rfl
    have bounded : finish ≤ source.byteLength := by
      rw [← finishMeasured, ← startMeasured, split]
      simp only [Text.byteLength, extent_append]
      omega
    have ordered : start ≤ finish := by omega
    rw [ByteSpan.new, if_neg (by omega), if_neg (by omega),
      if_neg (not_not.mpr startBoundary), if_neg (not_not.mpr finishBoundary),
      u32TryFrom_of_le _ (by omega), ok_bind, u32TryFrom_of_le _ (by omega),
      ok_bind, same]
    rfl

/-- A slice of a slice. -/
theorem slice_slice {source excerpt text : Text}
    {first last start finish : Nat}
    (outer : source.slice first last = .ok excerpt)
    (inner : source.slice start finish = .ok text)
    (after : first ≤ start) (before : finish ≤ last) :
    excerpt.slice (start - first) (finish - first) = .ok text := by
  obtain ⟨front, back, split, firstMeasured, lastMeasured⟩ :=
    slice_eq_ok_iff.mp outer
  obtain ⟨innerFront, innerBack, innerSplit, startMeasured, finishMeasured⟩ :=
    slice_eq_ok_iff.mp inner
  obtain ⟨lead, grown⟩ := prefix_of_extent_le utf8Size_pos
    ⟨excerpt ++ back, split.symm⟩ ⟨text ++ innerBack, innerSplit.symm⟩
    (firstMeasured.trans_le (after.trans_eq startMeasured.symm))
  have leadMeasured : Text.byteLength lead = start - first := by
    rw [← grown, Text.byteLength, extent_append] at startMeasured
    rw [Text.byteLength] at firstMeasured ⊢
    omega
  have remaining : excerpt ++ back = (lead ++ text) ++ innerBack := by
    have same := split.symm.trans innerSplit
    rw [← grown, List.append_assoc] at same
    rw [List.append_cancel_left same, List.append_assoc]
  have contained : Text.byteLength (lead ++ text) ≤ Text.byteLength excerpt := by
    rw [Text.byteLength, extent_append]
    rw [Text.byteLength] at leadMeasured lastMeasured finishMeasured ⊢
    omega
  obtain ⟨tail, closed⟩ := prefix_of_extent_le utf8Size_pos
    ⟨innerBack, remaining.symm⟩ ⟨back, rfl⟩ contained
  refine slice_eq_ok_iff.mpr ⟨lead, tail, ?_, leadMeasured, by omega⟩
  rw [← closed, List.append_assoc]

theorem startsAt_eq_ok (file : SourceFile) (line : Nat) :
    ∃ position, file.positionWithEncoding (lineOffset file.text line)
      .unicodeScalar = .ok position := by
  have split : file.text = joined ((lines file.text).take line) ++
      joined ((lines file.text).drop line) := by
    rw [← joined_append, List.take_append_drop, joined_lines]
  obtain ⟨front, piece, back, part, rest, location, before, _⟩ :=
    exists_location split
  have position := LineIndex.position_eq location .unicodeScalar
  rw [← file.lineIndex_eq] at position
  refine ⟨_, Eq.trans ?_ position⟩
  rw [SourceFile.positionWithEncoding, lineOffset, before, Text.byteLength,
    extent_append]
  rfl

theorem lines_length_le (source : Text) :
    (lines source).length ≤ source.byteLength + 1 := by
  have nonempty : ∀ line ∈ (lines source).dropLast, line.text ≠ [] := by
    intro line member
    apply (lines_cut source).separated
    rw [← List.map_dropLast]
    exact List.mem_map_of_mem member
  have counted := length_le_byteLength nonempty
  have split : joined (lines source).dropLast ++
      joined [(lines source).getLast (lines_cut source).ne_nil] = source := by
    rw [← joined_append, List.dropLast_append_getLast, joined_lines]
  have measured := congrArg Text.byteLength split
  simp only [Text.byteLength, extent_append] at measured counted
  rw [List.length_dropLast] at counted
  rw [Text.byteLength]
  omega

theorem lineIndexAt_mono {index : LineIndex} {offset later : Nat}
    (order : offset ≤ later) :
    index.lineIndexAt offset ≤ index.lineIndexAt later :=
  Nat.sub_le_sub_right (partitionPoint_mono order) 1

section Registered

variable {registry : SourceRegistry} {sourceId : SourceId} {file : SourceFile}
  (found : registry.source sourceId = .ok file)

include found

theorem span_eq_ok_iff {start finish : Nat} {span : SourceSpan} :
    registry.span sourceId start finish = .ok span ↔
      span = ⟨sourceId, ⟨start, finish⟩⟩ ∧
        ∃ text, file.text.slice start finish = .ok text := by
  rw [SourceRegistry.span, found, ok_bind, bind_eq_ok_iff]
  constructor
  · intro ⟨bytes, valid, finished⟩
    obtain ⟨_, same, sliced⟩ := ByteSpan.new_eq_ok_iff.mp valid
    rw [pure_eq_ok_iff] at finished
    rw [← finished, same]
    exact ⟨rfl, sliced⟩
  · intro ⟨same, sliced⟩
    refine ⟨⟨start, finish⟩,
      ByteSpan.new_eq_ok_iff.mpr ⟨file.small, rfl, sliced⟩, ?_⟩
    rw [same]
    rfl

/-- The excerpt of a valid span exists, and highlights the text of the
span. -/
theorem snippet_highlights {span : SourceSpan} {start finish : Nat}
    (valid : registry.span sourceId start finish = .ok span)
    (contextLinesBefore contextLinesAfter : Nat) :
    ∃ snippet text,
      registry.snippet span contextLinesBefore contextLinesAfter =
        .ok snippet ∧
      file.text.slice start finish = .ok text ∧
      snippet.text.slice snippet.highlight.start snippet.highlight.finish =
        .ok text := by
  obtain ⟨same, text, sliced⟩ := (span_eq_ok_iff found).mp valid
  subst same
  obtain ⟨before, after, split, startMeasured, finishMeasured⟩ :=
    slice_eq_ok_iff.mp sliced
  have ordered : start ≤ finish := by omega
  have bounded : finish ≤ file.text.byteLength := by
    rw [← finishMeasured, ← startMeasured, split]
    simp only [Text.byteLength, extent_append]
    omega
  generalize lastHighlighted :
    (if start = finish then start else finish - 1) = lastHighlightedByte
  have lastAfter : start ≤ lastHighlightedByte := by
    split at lastHighlighted <;> omega
  have endsBefore : ∀ limit, lastHighlightedByte < limit → finish ≤ limit := by
    intro limit below
    split at lastHighlighted <;> omega
  have lineOrder : LineIndex.lineIndexAt ⟨lineStarts file.text⟩ start ≤
      LineIndex.lineIndexAt ⟨lineStarts file.text⟩ lastHighlightedByte :=
    lineIndexAt_mono lastAfter
  obtain ⟨_, startAfter, _⟩ := lineIndexAt_spec file.text start
  obtain ⟨endInside, _, endBefore⟩ :=
    lineIndexAt_spec file.text lastHighlightedByte
  generalize startLine :
    LineIndex.lineIndexAt ⟨lineStarts file.text⟩ start = first at *
  generalize endLine : LineIndex.lineIndexAt ⟨lineStarts file.text⟩
    lastHighlightedByte = last at *
  generalize final : min (usizeSaturatingAdd last contextLinesAfter)
    ((lines file.text).length - 1) = finalLine
  have finalInside : finalLine < (lines file.text).length := by omega
  have reached : last ≤ finalLine := by
    have counted := lines_length_le file.text
    have small := file.small
    have fits : u32Max ≤ usizeMax := by decide
    rw [← final, usizeSaturatingAdd]
    omega
  have excerptAfter : lineOffset file.text (first - contextLinesBefore) ≤
      start :=
    Nat.le_trans (lineOffset_mono (Nat.sub_le _ _)) startAfter
  have excerptBefore : finish ≤ lineOffset file.text (finalLine + 1) := by
    by_cases all : finalLine + 1 = (lines file.text).length
    · rw [all, lineOffset_all]
      exact bounded
    · have grown : lineOffset file.text (last + 1) ≤
          lineOffset file.text (finalLine + 1) :=
        lineOffset_mono (Nat.succ_le_succ reached)
      exact Nat.le_trans (endsBefore _ (endBefore (by omega))) grown
  have excerpt : file.text.slice
      (lineOffset file.text (first - contextLinesBefore))
      (lineOffset file.text (finalLine + 1)) = _ :=
    slice_lines (by omega)
  have highlighted := slice_slice excerpt sliced excerptAfter excerptBefore
  generalize excerptText : joined (((lines file.text).take (finalLine + 1)).drop
    (first - contextLinesBefore)) = lineText at *
  have excerptSmall : Text.byteLength lineText ≤ u32Max := by
    obtain ⟨front, back, parts, _⟩ := slice_eq_ok_iff.mp excerpt
    have measured := congrArg Text.byteLength parts
    have small := file.small
    simp only [Text.byteLength, extent_append] at measured small
    rw [Text.byteLength]
    omega
  have highlight := ByteSpan.new_eq_ok_iff.mpr ⟨excerptSmall, rfl, _, highlighted⟩
  obtain ⟨startsAt, startsAtFound⟩ :=
    startsAt_eq_ok file (first - contextLinesBefore)
  have firstStart := elementAt_of_get (lineStarts_eq
    (show first - contextLinesBefore < (lines file.text).length by omega))
  refine ⟨⟨file.displayName, lineText,
    ⟨start - lineOffset file.text (first - contextLinesBefore),
      finish - lineOffset file.text (first - contextLinesBefore)⟩, startsAt⟩,
    text, ?_, sliced, highlighted⟩
  simp only [SourceRegistry.snippet, found, ok_bind, file.lineIndex_eq,
    lastHighlighted, startLine, endLine, lineStarts_length, final, firstStart,
    nextStart_eq_lineOffset finalInside, excerpt, startsAtFound, checkedSub,
    if_pos excerptAfter, if_pos (Nat.le_trans excerptAfter ordered), highlight]
  rfl

theorem boundary_of_sourceMapPosition {offset : Nat}
    {position : SourceMapPosition}
    (located : registry.sourceMapPosition sourceId offset = .ok position) :
    Boundary file.text offset := by
  obtain ⟨_, counted, _⟩ := bind_eq_ok_iff.mp located
  rw [SourceRegistry.positionWithEncoding, found, ok_bind] at counted
  obtain ⟨_, valid, _⟩ := bind_eq_ok_iff.mp counted
  apply isCharBoundary_iff.mp
  by_contra splits
  rw [validateOffset] at valid
  split at valid
  · cases valid
  · cases valid

end Registered

/-- The laws of the positions and snippets of a source text. -/
structure PositionLaws (registry : SourceRegistry) (sourceId : SourceId)
    (source : Text) : Prop where
  forward : ∀ offset, Boundary source offset → ∃ position,
    registry.sourceMapPosition sourceId offset = .ok position ∧
      (registry.byteOffsetForSourceMapPosition sourceId position =
        .ok offset ↔ ¬ SplitsTerminator source offset)
  backward : ∀ position offset,
    registry.byteOffsetForSourceMapPosition sourceId position = .ok offset →
      registry.sourceMapPosition sourceId offset = .ok position
  accepted : ∀ position,
    (∃ offset, registry.byteOffsetForSourceMapPosition sourceId position =
      .ok offset) ↔
      ∃ line, (lines source)[position.line]? = some line ∧
        position.column ≤ extent lenUtf16 line.content ∧
        ¬ SplitsPair line.content position.column
  increasing : ∀ offset later position laterPosition, offset < later →
    registry.sourceMapPosition sourceId offset = .ok position →
    registry.sourceMapPosition sourceId later = .ok laterPosition →
      position.Before laterPosition
  snippets : ∀ start finish span,
    registry.span sourceId start finish = .ok span →
    ∀ contextLinesBefore contextLinesAfter, ∃ snippet text,
      registry.snippet span contextLinesBefore contextLinesAfter =
        .ok snippet ∧
      source.slice start finish = .ok text ∧
      snippet.text.slice snippet.highlight.start snippet.highlight.finish =
        .ok text

theorem registered_positionLaws {registry : SourceRegistry}
    {sourceId : SourceId} {file : SourceFile}
    (found : registry.source sourceId = .ok file) :
    PositionLaws registry sourceId file.text where
  forward := by
    rintro offset ⟨before, after, split, measured⟩
    obtain ⟨front, line, back, part, rest, location, left, right⟩ :=
      exists_location split
    have same : Text.byteLength (joined front) + Text.byteLength part =
        offset := by
      rw [← measured, left]
      exact (extent_append _ _ _).symm
    have located := sourceMapPosition_eq found location
    rw [same] at located
    refine ⟨_, located, ?_⟩
    rcases location.content_or_pair with ⟨beyond, content⟩ | ⟨content, feed⟩
    · have accepted := byteOffset_of_content found location.lines_eq content
      have whole := location.not_splitsTerminator content
      rw [same] at accepted whole
      exact iff_of_true accepted whole
    · refine iff_of_false ?_ ?_
      · intro accepted
        obtain ⟨otherFront, other, otherBack, otherPart, otherRest, pieces,
          counted, parts, units, _⟩ := (byteOffset_eq_ok_iff found).mp accepted
        obtain ⟨_, sameLine⟩ := location_unique_line pieces location.lines_eq
          counted
        have contentUnits := congrArg (extent lenUtf16) parts
        rw [sameLine, extent_append] at contentUnits
        simp only [content, extent_append] at units
        have returnUnit : extent lenUtf16 ['\r'] = 1 := rfl
        omega
      · intro whole
        apply whole
        refine ⟨joined front ++ line.content, joined back, ?_, ?_⟩
        · rw [location.source_eq, content, feed]
          simp
        · rw [← same, content]
          simp only [Text.byteLength, extent_append, ← Nat.add_assoc]
          rfl
  backward := fun _ _ accepted => sourceMapPosition_of_accepted found accepted
  accepted := by
    intro position
    constructor
    · rintro ⟨offset, accepted⟩
      obtain ⟨front, line, back, part, rest, pieces, counted, parts, units,
        _⟩ := (byteOffset_eq_ok_iff found).mp accepted
      refine ⟨line, ?_, (exists_column_iff _ _).mp ⟨part, rest, parts, units⟩⟩
      rw [pieces, ← counted]
      simp
    · rintro ⟨line, present, column⟩
      obtain ⟨part, rest, parts, units⟩ := (exists_column_iff _ _).mpr column
      obtain ⟨inside, same⟩ := List.getElem?_eq_some_iff.mp present
      rw [← same] at parts
      exact ⟨_, (byteOffset_eq_ok_iff found).mpr
        ⟨(lines file.text).take position.line, (lines file.text)[position.line],
          (lines file.text).drop (position.line + 1), part, rest,
          lines_split inside, List.length_take_of_le (Nat.le_of_lt inside),
          parts, units, rfl⟩⟩
  increasing := by
    intro offset later position laterPosition order located laterLocated
    obtain ⟨before, after, split, measured⟩ :=
      boundary_of_sourceMapPosition found located
    obtain ⟨laterBefore, laterAfter, laterSplit, laterMeasured⟩ :=
      boundary_of_sourceMapPosition found laterLocated
    obtain ⟨front, line, back, part, rest, location, left, _⟩ :=
      exists_location split
    obtain ⟨otherFront, other, otherBack, otherPart, otherRest, otherLocation,
      otherLeft, _⟩ := exists_location laterSplit
    have same : Text.byteLength (joined front) + Text.byteLength part =
        offset := by
      rw [← measured, left]
      exact (extent_append _ _ _).symm
    have otherSame : Text.byteLength (joined otherFront) +
        Text.byteLength otherPart = later := by
      rw [← laterMeasured, otherLeft]
      exact (extent_append _ _ _).symm
    have found₁ := sourceMapPosition_eq found location
    have found₂ := sourceMapPosition_eq found otherLocation
    rw [same, located] at found₁
    rw [otherSame, laterLocated] at found₂
    cases found₁
    cases found₂
    exact location.before_of_lt otherLocation (by omega)
  snippets := fun _ _ _ valid => snippet_highlights found valid

def pairedText : Text :=
  ['a', '\r', '\n', 'b']

def pairedFile : SourceFile :=
  ⟨"a.js", pairedText, ⟨[0, 3]⟩, none, rfl⟩

def pairedRegistry : SourceRegistry where
  identity := 0
  files := [pairedFile]
  names := [("a.js", 0)]
  named := SourceRegistry.named_register (SourceRegistry.new 0).named pairedFile
    rfl

/-- The offset between the two characters of a terminator is a scalar
boundary with a position, and the position is not accepted. -/
theorem pairedText_not_round_trip :
    Boundary pairedText 2 ∧
      pairedRegistry.sourceMapPosition ⟨0, 0⟩ 2 = .ok ⟨0, 2⟩ ∧
      pairedRegistry.byteOffsetForSourceMapPosition ⟨0, 0⟩ ⟨0, 2⟩ =
        fail (.invalidSourceMapPosition 0 2) :=
  ⟨⟨['a', '\r'], ['\n', 'b'], rfl, rfl⟩, rfl, rfl⟩

theorem registered_positionLaws_paired :
    ∃ file, pairedRegistry.source ⟨0, 0⟩ = .ok file ∧
      PositionLaws pairedRegistry ⟨0, 0⟩ file.text :=
  ⟨_, rfl, registered_positionLaws rfl⟩

end Fusor.Diagnostics
