import Fusor.Diagnostics.LineIndex

/-!
# The line index describes the lines of its text
-/

namespace Fusor.Diagnostics

open Fusor.Support

theorem utf8Size_pos (character : Char) : 0 < character.utf8Size :=
  character.utf8Size_pos

theorem lenUtf16_pos (character : Char) : 0 < lenUtf16 character := by
  unfold lenUtf16
  split
  · exact Nat.one_pos
  · exact Nat.two_pos

theorem lenUtf16_le_utf8Size (character : Char) :
    lenUtf16 character ≤ character.utf8Size := by
  have positive := character.utf8Size_pos
  unfold lenUtf16
  split
  · exact positive
  · rename_i large
    have wide : ∀ bound : UInt32, bound.toNat < 0x10000 →
        ¬ character.val ≤ bound := by
      intro bound small within
      have below : character.val.toNat ≤ bound.toNat := within
      exact large (Nat.lt_of_le_of_lt below small)
    rw [Char.utf8Size, if_neg (wide _ (by decide)), if_neg (wide _ (by decide)),
      if_neg (wide _ (by decide))]
    exact Nat.le_of_ble_eq_true rfl

theorem extent_lenUtf16_le (text : Text) :
    extent lenUtf16 text ≤ text.byteLength := by
  induction text with
  | nil => exact Nat.le_refl 0
  | cons character rest induction =>
      have narrow := lenUtf16_le_utf8Size character
      rw [Text.byteLength, extent_cons, extent_cons]
      rw [Text.byteLength] at induction
      omega

theorem elementAt_of_get {α : Type} {list : List α} {index : Nat} {element : α}
    (present : list[index]? = some element) :
    elementAt list index = .ok element := by
  rw [elementAt, present]

theorem u32TryFrom_of_le {value : Nat} (error : SourceError)
    (small : value ≤ u32Max) : u32TryFrom value error = .ok value :=
  if_pos small

/-- The byte offsets at which the lines begin. -/
def lineStarts (source : Text) : List Nat :=
  startsOf Char.utf8Size ((lines source).map Line.text) 0

theorem startsOf_addFirst (character : Char) (pieces : List Line)
    (nonempty : pieces ≠ []) (offset : Nat) :
    (startsOf Char.utf8Size ((addFirst character pieces).map Line.text)
      offset).tail =
    (startsOf Char.utf8Size (pieces.map Line.text)
      (offset + character.utf8Size)).tail := by
  cases pieces with
  | nil => exact absurd rfl nonempty
  | cons line others =>
      simp [addFirst, startsOf, Line.text, Nat.add_assoc]

theorem startsOf_eq_cons (pieces : List Line) (nonempty : pieces ≠ [])
    (offset : Nat) :
    startsOf Char.utf8Size (pieces.map Line.text) offset =
      offset :: (startsOf Char.utf8Size (pieces.map Line.text) offset).tail := by
  cases pieces with
  | nil => exact absurd rfl nonempty
  | cons line others => rfl

theorem scanLines_eq (sourceBytes : Nat) (source : Text) (offset : Nat)
    (starts : List Nat) (small : offset + source.byteLength ≤ u32Max) :
    scanLines sourceBytes source offset starts = .ok (starts ++
      (startsOf Char.utf8Size ((lines source).map Line.text) offset).tail) := by
  induction source using lines.induct generalizing offset starts with
  | case1 => simp [scanLines, lines, startsOf]
  | case2 rest induction =>
      have measured : Text.byteLength ('\r' :: '\n' :: rest) =
          2 + Text.byteLength rest := by
        simp only [Text.byteLength, extent_cons, ← Nat.add_assoc]
        rfl
      rw [measured] at small
      rw [scanLines, u32TryFrom_of_le _ (by omega), ok_bind,
        induction _ _ (by omega), lines, List.map_cons, startsOf,
        List.tail_cons, List.append_assoc]
      congr 2
      exact (startsOf_eq_cons _ (lines_cut rest).ne_nil _).symm
  | case3 character rest notPair terminator induction =>
      rw [Text.byteLength, extent_cons, ← Nat.add_assoc] at small
      rw [scanLines.eq_3 _ _ _ _ _ notPair, if_pos terminator,
        u32TryFrom_of_le _ (by omega), ok_bind, induction _ _ small,
        lines.eq_3 _ _ notPair, if_pos terminator, List.map_cons, startsOf,
        List.tail_cons, List.append_assoc]
      congr 2
      exact (startsOf_eq_cons _ (lines_cut rest).ne_nil _).symm
  | case4 character rest notPair ordinary induction =>
      rw [Text.byteLength, extent_cons, ← Nat.add_assoc] at small
      rw [scanLines.eq_3 _ _ _ _ _ notPair, if_neg ordinary,
        induction _ _ small, lines.eq_3 _ _ notPair, if_neg ordinary,
        startsOf_addFirst _ _ (lines_cut rest).ne_nil]

theorem LineIndex.new_eq_ok_iff {source : Text} {index : LineIndex} :
    LineIndex.new source = .ok index ↔
      source.byteLength ≤ u32Max ∧ index = ⟨lineStarts source⟩ := by
  unfold LineIndex.new
  by_cases small : source.byteLength ≤ u32Max
  · have scanned : scanLines source.byteLength source 0 [0] =
        .ok (lineStarts source) := by
      rw [scanLines_eq _ _ _ _ (by omega), lineStarts,
        startsOf_eq_cons _ (lines_cut source).ne_nil]
      rfl
    rw [u32TryFrom_of_le _ small, ok_bind, scanned, ok_bind, pure_eq_ok_iff]
    constructor
    · intro same
      exact ⟨small, same.symm⟩
    · intro ⟨_, same⟩
      exact same.symm
  · rw [u32TryFrom, if_neg small]
    constructor
    · intro built
      cases built
    · intro ⟨fits, _⟩
      exact absurd fits small

/-- A boundary of a text: the line that holds it, and the part of the line
before it. -/
structure Location (source : Text) (front : List Line) (line : Line)
    (back : List Line) (part rest : Text) : Prop where
  lines_eq : lines source = front ++ line :: back
  parts : line.text = part ++ rest
  inside : back ≠ [] → rest ≠ []

def Boundary (source : Text) (offset : Nat) : Prop :=
  ∃ before after, source = before ++ after ∧ before.byteLength = offset

theorem isCharBoundary_iff {source : Text} {offset : Nat} :
    source.isCharBoundary offset = true ↔ Boundary source offset := by
  rw [Text.isCharBoundary, Option.isSome_iff_exists, Prod.exists]
  constructor
  · intro ⟨before, after, split⟩
    exact ⟨before, after, (splitAtExtent_eq_some_iff utf8Size_pos).mp split⟩
  · intro ⟨before, after, split⟩
    exact ⟨before, after, (splitAtExtent_eq_some_iff utf8Size_pos).mpr split⟩

theorem slice_eq_ok_iff {source text : Text} {start finish : Nat} :
    source.slice start finish = .ok text ↔
      ∃ before after, source = before ++ (text ++ after) ∧
        before.byteLength = start ∧ start + text.byteLength = finish := by
  apply Iff.trans _ (sliceExtent_eq_some_iff utf8Size_pos)
  unfold Text.slice
  cases sliceExtent Char.utf8Size source start finish <;> simp

/-- A cut text has a location at each of its boundaries. -/
theorem Cut.exists_location {pieces : List Line} (cut : Cut pieces)
    {before after : Text} (split : joined pieces = before ++ after) :
    ∃ front line back part rest, pieces = front ++ line :: back ∧
      line.text = part ++ rest ∧ (back ≠ [] → rest ≠ []) ∧
        before = joined front ++ part ∧ after = rest ++ joined back := by
  induction cut generalizing before with
  | last line plain unterminated =>
      rw [joined_cons, joined_nil, List.append_nil] at split
      refine ⟨[], line, [], before, after, rfl, split, ?_, rfl, ?_⟩
      · intro more
        exact absurd rfl more
      · simp
  | cons line others plain terminated whole rest induction =>
      rw [joined_cons] at split
      have later : ∀ beyond, before = line.text ++ beyond →
          joined others = beyond ++ after →
          ∃ front piece back part rest,
            line :: others = front ++ piece :: back ∧
            piece.text = part ++ rest ∧ (back ≠ [] → rest ≠ []) ∧
            before = joined front ++ part ∧ after = rest ++ joined back := by
        intro beyond same remaining
        obtain ⟨front, piece, back, part, rest, pieces, parts, inside, left,
          right⟩ := induction remaining
        refine ⟨line :: front, piece, back, part, rest, ?_, parts, inside, ?_,
          right⟩
        · rw [pieces, List.cons_append]
        · rw [same, left, joined_cons, List.append_assoc]
      rcases List.append_eq_append_iff.mp split with
        ⟨beyond, same, remaining⟩ | ⟨inner, same, remaining⟩
      · exact later beyond same remaining
      · by_cases empty : inner = []
        · subst empty
          exact later [] (by simpa using same.symm) (by simpa using remaining.symm)
        · exact ⟨[], line, others, before, inner, rfl, same, fun _ => empty, rfl,
            remaining⟩

theorem exists_location {source before after : Text}
    (split : source = before ++ after) :
    ∃ front line back part rest, Location source front line back part rest ∧
      before = joined front ++ part ∧ after = rest ++ joined back := by
  have cut := lines_cut source
  obtain ⟨front, line, back, part, rest, pieces, parts, inside, left, right⟩ :=
    cut.exists_location ((joined_lines source).trans split)
  exact ⟨front, line, back, part, rest, ⟨pieces, parts, inside⟩, left, right⟩

theorem source_eq {source : Text} {front back : List Line} {line : Line}
    (pieces : lines source = front ++ line :: back) :
    source = joined front ++ (line.text ++ joined back) := by
  rw [← joined_lines source, pieces, joined_append, joined_cons]

theorem lines_split {source : Text} {line : Nat}
    (inside : line < (lines source).length) :
    lines source = (lines source).take line ++
      (lines source)[line] :: (lines source).drop (line + 1) := by
  rw [List.getElem_cons_drop, List.take_append_drop]

theorem lineStarts_increasing (source : Text) :
    (lineStarts source).Pairwise (· < ·) :=
  startsOf_increasing utf8Size_pos (lines_cut source).separated

theorem lineStarts_length (source : Text) :
    (lineStarts source).length = (lines source).length := by
  rw [lineStarts, startsOf_length, List.length_map]

theorem lineStarts_get {source : Text} {front back : List Line} {line : Line}
    (pieces : lines source = front ++ line :: back) :
    (lineStarts source)[front.length]? =
      some (Text.byteLength (joined front)) := by
  have found := startsOf_get Char.utf8Size (front.map Line.text) line.text
    (back.map Line.text) 0
  rw [lineStarts, pieces, List.map_append, List.map_cons]
  rw [List.length_map, Nat.zero_add] at found
  exact found

theorem lineStarts_next {source : Text} {front back : List Line} {line : Line}
    (pieces : lines source = front ++ line :: back) :
    (lineStarts source)[front.length + 1]? =
      if back = [] then none
      else some (Text.byteLength (joined front) + Text.byteLength line.text) := by
  cases back with
  | nil =>
      rw [if_pos rfl]
      apply List.getElem?_eq_none
      rw [lineStarts_length, pieces, List.length_append]
      exact Nat.le_refl _
  | cons second others =>
      have shifted : lines source = (front ++ [line]) ++ second :: others := by
        rw [pieces, List.append_assoc]
        rfl
      have found := lineStarts_get shifted
      rw [List.length_append, joined_append, joined_cons, joined_nil,
        List.append_nil] at found
      rw [if_neg (List.cons_ne_nil _ _)]
      refine found.trans ?_
      rw [Text.byteLength, extent_append]
      rfl

namespace LineIndex

/-- The line of an offset, at a boundary or not. -/
theorem lineIndexAt_eq {source : Text} {front back : List Line} {line : Line}
    {offset : Nat} (pieces : lines source = front ++ line :: back)
    (after : Text.byteLength (joined front) ≤ offset)
    (before : back ≠ [] →
      offset < Text.byteLength (joined front) + Text.byteLength line.text) :
    lineIndexAt ⟨lineStarts source⟩ offset = front.length := by
  have counted := partitionPoint_eq (lineStarts_increasing source)
    (lineStarts_get pieces) after (by
      intro next found
      rw [lineStarts_next pieces] at found
      split at found
      · cases found
      · rename_i more
        cases found
        exact before more)
  rw [lineIndexAt, counted]
  rfl

theorem location_lineIndexAt {source : Text} {front back : List Line}
    {line : Line} {part rest : Text}
    (location : Location source front line back part rest) :
    lineIndexAt ⟨lineStarts source⟩
      (Text.byteLength (joined front) + part.byteLength) = front.length := by
  apply lineIndexAt_eq location.lines_eq (Nat.le_add_right _ _)
  intro more
  have positive := extent_pos_of_ne_nil utf8Size_pos (location.inside more)
  rw [location.parts]
  simp only [Text.byteLength, extent_append]
  omega

theorem validateOffset_of_split {source before after : Text}
    (split : source = before ++ after) :
    validateOffset source before.byteLength = .ok () := by
  have bounded : ¬ source.byteLength < before.byteLength := by
    rw [split, Text.byteLength, Text.byteLength, extent_append]
    omega
  have boundary : source.isCharBoundary before.byteLength = true :=
    isCharBoundary_iff.mpr ⟨before, after, split, rfl⟩
  rw [validateOffset, if_neg bounded, if_neg (not_not.mpr boundary)]

theorem position_eq {source : Text} {front back : List Line} {line : Line}
    {part rest : Text} (location : Location source front line back part rest)
    (encoding : ColumnEncoding) :
    position ⟨lineStarts source⟩ source
      (Text.byteLength (joined front) + part.byteLength) encoding =
        .ok ⟨front.length + 1, encoding.columns part + 1⟩ := by
  have whole : source = (joined front ++ part) ++ (rest ++ joined back) := by
    rw [source_eq location.lines_eq, location.parts]
    simp
  have valid := validateOffset_of_split whole
  have measured : Text.byteLength (joined front ++ part) =
      Text.byteLength (joined front) + part.byteLength :=
    extent_append _ _ _
  rw [measured] at valid
  have sliced : source.slice (Text.byteLength (joined front))
      (Text.byteLength (joined front) + part.byteLength) = .ok part := by
    apply slice_eq_ok_iff.mpr
    refine ⟨joined front, rest ++ joined back, ?_, rfl, rfl⟩
    rw [whole, List.append_assoc]
  have lineStart := elementAt_of_get (lineStarts_get location.lines_eq)
  simp only [position, valid, ok_bind, location_lineIndexAt location,
    lineStart, sliced]
  rfl

theorem nextStart_eq {source : Text} {front back : List Line} {line : Line}
    (pieces : lines source = front ++ line :: back) :
    nextStart ⟨lineStarts source⟩ source front.length =
      Text.byteLength (joined front) + Text.byteLength line.text := by
  simp only [nextStart, lineStarts_next pieces]
  by_cases last : back = []
  · subst last
    rw [if_pos rfl]
    have measured := congrArg Text.byteLength (source_eq pieces)
    simpa [Text.byteLength] using measured
  · rw [if_neg last]

end LineIndex

theorem Line.Plain.not_suffix {line : Line} (plain : line.Plain)
    {ending : List Char} {character : Char}
    (terminator : isLineTerminator character = true) :
    ¬ (ending ++ [character]) <:+ line.content := by
  intro ⟨before, same⟩
  have member : character ∈ line.content := by
    rw [← same]
    simp
  rw [plain character member] at terminator
  cases terminator

theorem isSuffixOf_append_singleton (content : List Char)
    (character last : Char) :
    [character].isSuffixOf (content ++ [last]) = decide (character = last) := by
  rw [Bool.eq_iff_iff, List.isSuffixOf_iff_suffix, decide_eq_true_iff]
  constructor
  · intro ⟨before, same⟩
    exact (List.cons.inj (List.append_inj' same rfl).2).1
  · intro same
    subst same
    exact ⟨content, rfl⟩

theorem Line.Plain.not_pair {line : Line} (plain : line.Plain) (last : Char) :
    ['\r', '\n'].isSuffixOf (line.content ++ [last]) = false := by
  apply Bool.eq_false_of_not_eq_true
  intro holds
  obtain ⟨before, same⟩ := List.isSuffixOf_iff_suffix.mp holds
  have split : (before ++ ['\r']) ++ ['\n'] = line.content ++ [last] := by
    rw [List.append_assoc]
    exact same
  have content := (List.append_inj' split rfl).1
  exact @Line.Plain.not_suffix line plain [] '\r' rfl ⟨before, content⟩

theorem isLineTerminator_iff {character : Char} :
    isLineTerminator character = true ↔ character = '\r' ∨ character = '\n' ∨
      character = '\u2028' ∨ character = '\u2029' := by
  simp [isLineTerminator, or_assoc]

theorem checkedSub_add (kept removed : Nat) :
    checkedSub (kept + removed) removed = .ok kept := by
  rw [checkedSub, if_pos (Nat.le_add_left _ _), Nat.add_sub_cancel]

namespace LineIndex

/-- The part of `lineContentEnd` after the slice. -/
theorem contentEnd_eq {line : Line} (plain : line.Plain)
    (ended : line.ending = [] ∨ Terminator line.ending) (start : Nat) :
    (if ['\r', '\n'].isSuffixOf line.text then
      checkedSub (start + Text.byteLength line.text) 2
    else if ['\r'].isSuffixOf line.text || ['\n'].isSuffixOf line.text then
      checkedSub (start + Text.byteLength line.text) 1
    else if ['\u2028'].isSuffixOf line.text ||
        ['\u2029'].isSuffixOf line.text then
      checkedSub (start + Text.byteLength line.text) (Char.utf8Size '\u2028')
    else
      Except.ok (start + Text.byteLength line.text)) =
        .ok (start + Text.byteLength line.content) := by
  have measured : Text.byteLength line.text =
      Text.byteLength line.content + Text.byteLength line.ending :=
    extent_append _ _ _
  rw [measured, ← Nat.add_assoc, Line.text]
  rcases ended with unterminated | terminated
  · have unmatched : ∀ (before : Text) (character : Char),
        isLineTerminator character = true →
        (before ++ [character]).isSuffixOf line.content = false := by
      intro before character terminator
      apply Bool.eq_false_of_not_eq_true
      intro holds
      exact plain.not_suffix terminator (List.isSuffixOf_iff_suffix.mp holds)
    have noPair : ['\r', '\n'].isSuffixOf line.content = false :=
      unmatched ['\r'] '\n' rfl
    have noSingle : ∀ character, isLineTerminator character = true →
        [character].isSuffixOf line.content = false :=
      unmatched []
    simp [unterminated, noPair, noSingle '\r' rfl, noSingle '\n' rfl,
      noSingle '\u2028' rfl, noSingle '\u2029' rfl, Text.byteLength]
  · cases ending : line.ending with
    | nil => exact absurd ending terminated.ne_nil
    | cons first later =>
        rw [ending] at terminated
        cases terminated with
        | pair =>
            have matched : ['\r', '\n'].isSuffixOf
                (line.content ++ ['\r', '\n']) = true :=
              List.isSuffixOf_iff_suffix.mpr ⟨line.content, rfl⟩
            rw [if_pos matched]
            exact checkedSub_add _ 2
        | single _ terminator =>
            rw [plain.not_pair, isSuffixOf_append_singleton,
              isSuffixOf_append_singleton, isSuffixOf_append_singleton,
              isSuffixOf_append_singleton, if_neg Bool.false_ne_true]
            rcases isLineTerminator_iff.mp terminator with
              same | same | same | same
            · subst same
              exact checkedSub_add _ 1
            · subst same
              exact checkedSub_add _ 1
            · subst same
              rw [if_neg (by decide)]
              exact checkedSub_add _ 3
            · subst same
              rw [if_neg (by decide)]
              exact checkedSub_add _ 3

theorem lineContentEnd_eq {source : Text} {front back : List Line} {line : Line}
    (pieces : lines source = front ++ line :: back) :
    lineContentEnd ⟨lineStarts source⟩ source front.length =
      .ok (Text.byteLength (joined front) + Text.byteLength line.content) := by
  have shape := (pieces ▸ lines_cut source : Cut (front ++ line :: back)).middle
  have ended : line.ending = [] ∨ Terminator line.ending := by
    rcases shape.2 with ⟨_, unterminated⟩ | ⟨_, terminated⟩
    · exact .inl unterminated
    · exact .inr terminated
  have lineStart := elementAt_of_get (lineStarts_get pieces)
  have sliced : source.slice (Text.byteLength (joined front))
      (Text.byteLength (joined front) + Text.byteLength line.text) =
        .ok line.text :=
    slice_eq_ok_iff.mpr
      ⟨joined front, joined back, source_eq pieces, rfl, rfl⟩
  simp only [lineContentEnd, nextStart_eq pieces, lineStart, ok_bind, sliced]
  exact contentEnd_eq shape.1 ended _

theorem u32SaturatingAdd_of_le {left right : Nat}
    (small : left + right ≤ u32Max) :
    u32SaturatingAdd left right = left + right :=
  Nat.min_eq_left small

theorem width_eq (character : Char) :
    (if lenUtf16 character = 1 then 1 else 2) = lenUtf16 character := by
  unfold lenUtf16
  split <;> rfl

/-- The offset of a column of a line: the end of the front part with that
many units. -/
def columnOffset (lineStart : Nat) (content : Text) (column : Nat) :
    Option Nat :=
  (splitAtExtent lenUtf16 content column).map fun (front, _) =>
    lineStart + Text.byteLength front

theorem findColumn_eq (line column lineStart lineEnd : Nat) (content : Text)
    (relative utf16Column : Nat) (reached : utf16Column ≤ column)
    (ends : lineEnd = lineStart + relative + content.byteLength)
    (small : utf16Column + extent lenUtf16 content ≤ u32Max) :
    findColumn line column lineStart lineEnd content relative utf16Column =
      match columnOffset (lineStart + relative) content
          (column - utf16Column) with
      | some offset => .ok offset
      | none => fail (.invalidSourceMapPosition line column) := by
  induction content generalizing relative utf16Column with
  | nil =>
      rw [findColumn, columnOffset, splitAtExtent]
      by_cases found : utf16Column = column
      · rw [if_pos found, if_pos (by omega), ends]
        rfl
      · rw [if_neg found, if_neg (by omega)]
        rfl
  | cons character rest induction =>
      rw [extent_cons] at small
      rw [Text.byteLength, extent_cons] at ends
      have advanced : u32SaturatingAdd utf16Column (lenUtf16 character) =
          utf16Column + lenUtf16 character :=
        u32SaturatingAdd_of_le (by omega)
      simp only [findColumn, columnOffset, splitAtExtent, width_eq, advanced]
      by_cases found : utf16Column = column
      · rw [if_pos found, if_pos (by omega)]
        rfl
      · have remains : ¬ column - utf16Column = 0 := by omega
        rw [if_neg found, if_neg remains]
        by_cases splits : column < utf16Column + lenUtf16 character
        · rw [if_pos splits, if_pos (by omega)]
          rfl
        · rw [if_neg splits, if_neg (by omega),
            induction (relative + character.utf8Size)
              (utf16Column + lenUtf16 character) (by omega)
              (by rw [Text.byteLength]; omega) (by omega),
            columnOffset, Nat.sub_add_eq]
          cases splitAtExtent lenUtf16 rest
              (column - utf16Column - lenUtf16 character) with
          | none => rfl
          | some sides =>
              simp [Text.byteLength, Nat.add_assoc]

theorem byteOffsetForSourceMapPosition_eq {source : Text}
    {front back : List Line} {line : Line}
    (pieces : lines source = front ++ line :: back)
    (small : source.byteLength ≤ u32Max) (column : Nat) :
    byteOffsetForSourceMapPosition ⟨lineStarts source⟩ source front.length
        column =
      match columnOffset (Text.byteLength (joined front)) line.content
          column with
      | some offset => .ok offset
      | none => fail (.invalidSourceMapPosition front.length column) := by
  have whole : source =
      joined front ++ (line.content ++ (line.ending ++ joined back)) := by
    rw [source_eq pieces, Line.text, List.append_assoc]
  have sliced : source.slice (Text.byteLength (joined front))
      (Text.byteLength (joined front) + Text.byteLength line.content) =
        .ok line.content :=
    slice_eq_ok_iff.mpr ⟨joined front, line.ending ++ joined back, whole, rfl,
      rfl⟩
  have narrow := extent_lenUtf16_le line.content
  have contained : Text.byteLength line.content ≤ source.byteLength := by
    have measured := congrArg Text.byteLength whole
    simp only [Text.byteLength, extent_append] at measured
    rw [Text.byteLength, Text.byteLength]
    omega
  simp only [byteOffsetForSourceMapPosition, lineStarts_get pieces,
    lineContentEnd_eq pieces, ok_bind, sliced]
  exact findColumn_eq front.length column _ _ line.content 0 0 (Nat.zero_le _)
    rfl (by omega)

theorem byteOffsetForSourceMapPosition_of_le {source : Text} {line : Nat}
    (beyond : (lines source).length ≤ line) (column : Nat) :
    byteOffsetForSourceMapPosition ⟨lineStarts source⟩ source line column =
      fail (.invalidSourceMapPosition line column) := by
  have absent : (lineStarts source)[line]? = none := by
    apply List.getElem?_eq_none
    rw [lineStarts_length]
    exact beyond
  simp only [byteOffsetForSourceMapPosition, absent]

theorem columnOffset_eq_some_iff {lineStart column offset : Nat}
    {content : Text} :
    columnOffset lineStart content column = some offset ↔
      ∃ front back, content = front ++ back ∧
        extent lenUtf16 front = column ∧
        lineStart + Text.byteLength front = offset := by
  rw [columnOffset, Option.map_eq_some_iff, Prod.exists]
  constructor
  · intro ⟨front, back, split, measured⟩
    have sides := (splitAtExtent_eq_some_iff lenUtf16_pos).mp split
    exact ⟨front, back, sides.1, sides.2, measured⟩
  · intro ⟨front, back, joins, units, measured⟩
    exact ⟨front, back,
      (splitAtExtent_eq_some_iff lenUtf16_pos).mpr ⟨joins, units⟩, measured⟩

/-- The positions that have a byte offset. -/
theorem byteOffsetForSourceMapPosition_eq_ok_iff {source : Text}
    (small : source.byteLength ≤ u32Max) {line column offset : Nat} :
    byteOffsetForSourceMapPosition ⟨lineStarts source⟩ source line column =
        .ok offset ↔
      ∃ front, ∃ piece : Line, ∃ back part rest,
        lines source = front ++ piece :: back ∧
        front.length = line ∧ piece.content = part ++ rest ∧
        extent lenUtf16 part = column ∧
        Text.byteLength (joined front) + Text.byteLength part = offset := by
  constructor
  · intro accepted
    by_cases beyond : (lines source).length ≤ line
    · rw [byteOffsetForSourceMapPosition_of_le beyond] at accepted
      cases accepted
    · have inside := Nat.lt_of_not_le beyond
      have pieces := lines_split inside
      have counted : ((lines source).take line).length = line :=
        List.length_take_of_le (Nat.le_of_lt inside)
      have found := byteOffsetForSourceMapPosition_eq pieces small column
      rw [counted, accepted] at found
      cases located : columnOffset
          (Text.byteLength (joined ((lines source).take line)))
          (lines source)[line].content column with
      | none =>
          rw [located] at found
          cases found
      | some position =>
          rw [located] at found
          cases found
          obtain ⟨part, rest, parts, units, measured⟩ :=
            columnOffset_eq_some_iff.mp located
          exact ⟨_, _, _, part, rest, pieces, counted, parts, units, measured⟩
  · intro ⟨front, piece, back, part, rest, pieces, counted, parts, units,
      measured⟩
    have located : columnOffset (Text.byteLength (joined front)) piece.content
        column = some offset :=
      columnOffset_eq_some_iff.mpr ⟨part, rest, parts, units, measured⟩
    have found := byteOffsetForSourceMapPosition_eq pieces small column
    rw [counted, located] at found
    exact found

end LineIndex

end Fusor.Diagnostics
