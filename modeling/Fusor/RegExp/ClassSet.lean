import Mathlib.Data.List.Sort
import Fusor.RegExp.Compiler
import Fusor.RegExp.Progress

/-!
# Character classes as sets of strings

A class of `v` mode denotes a set of strings, a negated class one of single
characters only.  The elements that can be read at a position have different
lengths, and the standard tries them from the longest to the shortest.  The
executor collects its candidates from the written strings and decides them with
a membership test in which a negated class also contains longer strings.
-/

namespace Fusor.RegExp

open Fusor.Support

/-! ## The set of a class -/

section Sets

variable (data : UnicodeData) (mode : MatchMode) (loose : Bool)

/-- The single characters with a property. -/
def characterSet (property : Nat → Bool) : Set (List Nat) :=
  {value | ∃ single, value = [single] ∧ property single = true}

mutual

/-- The set of a class when case matters.  A negated class contains the single
characters that its contents do not, or, read loosely, all such strings.  The
grammar gives an intersection or subtraction at least one operand, and a range
its end points in order. -/
def classSet (characters : CharacterClass) : Set (List Nat) :=
  match characters with
  | .mk negative kind items _ _ =>
      let body :=
        match kind, items with
        | .union, items => unionSet items
        | .intersection, [] => {value | loose = true ∨ value.length = 1}
        | .intersection, first :: rest => itemSet first ∩ intersectionSet rest
        | .subtraction, [] => ∅
        | .subtraction, first :: rest => itemSet first \ unionSet rest
      if negative then
        {value | (loose = true ∨ value.length = 1) ∧ value ∉ body}
      else body

def itemSet (item : CharacterClassItem) : Set (List Nat) :=
  match item with
  | .range start stop =>
      characterSet fun single =>
        decide (min start stop ≤ single ∧ single ≤ max start stop)
  | .digit negative => characterSet fun single => isDigit single != negative
  | .space negative => characterSet fun single => isSpace single != negative
  | .word negative =>
      characterSet fun single => isWord data single mode != negative
  | .unicodeProperty property =>
      characterSet fun single => data.matchesSequence property [single] mode
  | .nested nestedClass => classSet nestedClass
  | .string expected => {expected}

def unionSet (items : List CharacterClassItem) : Set (List Nat) :=
  match items with
  | [] => ∅
  | item :: rest => itemSet item ∪ unionSet rest

def intersectionSet (items : List CharacterClassItem) : Set (List Nat) :=
  match items with
  | [] => Set.univ
  | item :: rest => itemSet item ∩ intersectionSet rest

end

theorem itemSet_nested (nestedClass : CharacterClass) :
    itemSet data mode loose (.nested nestedClass) =
      classSet data mode loose nestedClass := by
  rw [itemSet]

theorem itemSet_string (expected : List Nat) :
    itemSet data mode loose (.string expected) = {expected} := by
  rw [itemSet]

/-- The set of a class as ECMA-262 has it. -/
def charSet (characters : CharacterClass) : Set (List Nat) :=
  classSet data mode false characters

end Sets

section Singles

variable {data : UnicodeData} {mode : MatchMode}

theorem mem_characterSet_single {property : Nat → Bool} {single : Nat} :
    [single] ∈ characterSet property ↔ property single = true := by
  constructor
  · rintro ⟨other, same, holds⟩
    cases same
    exact holds
  · intro holds
    exact ⟨single, rfl, holds⟩

theorem length_of_mem_characterSet {property : Nat → Bool} {value : List Nat}
    (member : value ∈ characterSet property) : value.length = 1 := by
  obtain ⟨single, rfl, _⟩ := member
  rfl

theorem canonicalize_of_caseMatters (caseMatters : mode.ignoreCase = false)
    (value : Nat) : canonicalize data value mode = value := by
  unfold canonicalize
  rw [caseMatters]
  rfl

theorem sequencesEqual_iff (caseMatters : mode.ignoreCase = false)
    {left right : List Nat} :
    sequencesEqual data left right mode = true ↔ left = right := by
  unfold sequencesEqual
  simp only [canonicalize_of_caseMatters caseMatters]
  induction left generalizing right with
  | nil =>
      cases right with
      | nil => simp
      | cons other right => simp
  | cons value left induction =>
      cases right with
      | nil => simp
      | cons other right =>
          have rest := @induction right
          simp only [Bool.and_eq_true, beq_iff_eq, List.all_eq_true] at rest
          simp only [List.length_cons, List.zip_cons_cons, List.all_cons,
            Bool.and_eq_true, beq_iff_eq, List.all_eq_true, List.cons.injEq,
            Nat.add_right_cancel_iff, ← rest]
          constructor
          · rintro ⟨lengths, same, others⟩
            exact ⟨same, lengths, others⟩
          · rintro ⟨same, lengths, others⟩
            exact ⟨lengths, same, others⟩

/-- Properties of characters hold of no longer string. -/
def PropertiesSingle (data : UnicodeData) (mode : MatchMode) : Prop :=
  ∀ property : UnicodeProperty, property.strings = false →
    ∀ value : List Nat, value.length ≠ 1 →
      data.matchesSequence property value mode = false

section Items

variable {loose : Bool} {value : List Nat}

/-- The test of one item decides its set. -/
def Decides (data : UnicodeData) (mode : MatchMode) (loose : Bool)
    (value : List Nat) (item : CharacterClassItem) : Prop :=
  classItemMatches data item value mode = true ↔
    value ∈ itemSet data mode loose item

theorem anyItem_iff {items : List CharacterClassItem}
    (decides : ∀ item ∈ items, Decides data mode loose value item) :
    anyItemMatches data items value mode = true ↔
      value ∈ unionSet data mode loose items := by
  induction items with
  | nil => simp [anyItemMatches, unionSet]
  | cons item rest induction =>
      have head := decides item List.mem_cons_self
      have tail := induction fun other listed =>
        decides other (List.mem_cons_of_mem _ listed)
      rw [anyItemMatches, unionSet, Bool.or_eq_true, Set.mem_union, tail]
      exact or_congr head Iff.rfl

theorem allItems_iff {items : List CharacterClassItem}
    (decides : ∀ item ∈ items, Decides data mode loose value item) :
    allItemsMatch data items value mode = true ↔
      value ∈ intersectionSet data mode loose items := by
  induction items with
  | nil => simp [allItemsMatch, intersectionSet]
  | cons item rest induction =>
      have head := decides item List.mem_cons_self
      have tail := induction fun other listed =>
        decides other (List.mem_cons_of_mem _ listed)
      rw [allItemsMatch, intersectionSet, Bool.and_eq_true, Set.mem_inter_iff,
        tail]
      exact and_congr head Iff.rfl

theorem negate_iff {negative contained : Bool} {body : Set (List Nat)}
    (reading : loose = true ∨ value.length = 1)
    (decides : contained = true ↔ value ∈ body) :
    (contained != negative) = true ↔
      value ∈ (if negative = true then
        {value | (loose = true ∨ value.length = 1) ∧ value ∉ body}
      else body) := by
  cases negative with
  | false => simpa using decides
  | true =>
      rw [if_pos rfl, Set.mem_ofPred_eq, ← decides]
      cases contained <;> simp [reading]

/-- The test of a class decides its set when those of its items do. -/
theorem classContains_of_items {negative : Bool} {kind : CharacterClassKind}
    {items : List CharacterClassItem} {strings : List (List Nat)}
    {properties : Bool} (reading : loose = true ∨ value.length = 1)
    (decides : ∀ item ∈ items, Decides data mode loose value item) :
    classContainsSequence data (.mk negative kind items strings properties)
        value mode = true ↔
      value ∈ classSet data mode loose
        (.mk negative kind items strings properties) := by
  rw [classSet.eq_def]
  cases kind with
  | union =>
      rw [classContainsSequence]
      exact negate_iff reading (anyItem_iff decides)
  | intersection =>
      cases items with
      | nil =>
          rw [classContainsSequence]
          apply negate_iff reading
          simp [allItemsMatch, reading]
      | cons first rest =>
          rw [classContainsSequence]
          apply negate_iff reading
          rw [allItems_iff decides, intersectionSet]
  | subtraction =>
      cases items with
      | nil =>
          rw [classContainsSequence]
          apply negate_iff reading
          simp
      | cons first rest =>
          have head := decides first List.mem_cons_self
          have tail := anyItem_iff fun other listed =>
            decides other (List.mem_cons_of_mem _ listed)
          rw [classContainsSequence]
          apply negate_iff reading
          rw [Bool.and_eq_true, Bool.not_eq_true', ← Bool.not_eq_true, tail]
          exact and_congr head Iff.rfl

end Items

theorem characterSet_iff {property : Nat → Bool} {value : List Nat}
    {test : Bool} (single : ∀ character, value = [character] →
      (test = true ↔ property character = true))
    (several : value.length ≠ 1 → test = false) :
    test = true ↔ value ∈ characterSet property := by
  by_cases length : value.length = 1
  · obtain ⟨character, rfl⟩ := List.length_eq_one_iff.mp length
    rw [mem_characterSet_single]
    exact single character rfl
  · rw [several length]
    constructor
    · intro impossible
      cases impossible
    · intro member
      exact absurd (length_of_mem_characterSet member) length

end Singles

/-! ## Written strings -/

section Lowered

variable {data : UnicodeData} {mode : MatchMode} {loose : Bool}

theorem mem_dedup {value : List Nat} {strings : List (List Nat)} :
    value ∈ dedup strings ↔ value ∈ strings := by
  fun_induction dedup strings with
  | case1 => exact Iff.rfl
  | case2 first => exact Iff.rfl
  | case3 first rest induction =>
      rw [induction]
      simp
  | case4 first second rest different induction =>
      rw [List.mem_cons, induction, List.mem_cons (l := second :: rest)]

theorem pairwise_dedup {relation : List Nat → List Nat → Prop}
    {strings : List (List Nat)} (sorted : strings.Pairwise relation) :
    (dedup strings).Pairwise relation := by
  fun_induction dedup strings with
  | case1 => exact sorted
  | case2 first => exact sorted
  | case3 first rest induction => exact induction sorted.of_cons
  | case4 first second rest different induction =>
      rw [List.pairwise_cons] at sorted
      refine List.pairwise_cons.mpr ⟨?_, induction sorted.2⟩
      intro value member
      exact sorted.1 value (mem_dedup.mp member)

theorem mem_sortClassStrings {value : List Nat} {strings : List (List Nat)} :
    value ∈ sortClassStrings strings ↔ value ∈ strings := by
  unfold sortClassStrings
  rw [mem_dedup, List.mem_insertionSort]

/-- The strings of a class stand from the longest to the shortest. -/
theorem pairwise_sortClassStrings (strings : List (List Nat)) :
    (sortClassStrings strings).Pairwise
      fun left right => right.length ≤ left.length := by
  apply pairwise_dedup
  have total : Std.Total fun left right : List Nat =>
      right.length ≤ left.length :=
    ⟨fun left right => Nat.le_total right.length left.length⟩
  have transitive : IsTrans (List Nat) fun left right =>
      right.length ≤ left.length :=
    ⟨fun _ _ _ first second => Nat.le_trans second first⟩
  exact List.pairwise_insertionSort _ strings

theorem mem_unionSet {value : List Nat} {items : List CharacterClassItem} :
    value ∈ unionSet data mode loose items ↔
      ∃ item ∈ items, value ∈ itemSet data mode loose item := by
  induction items with
  | nil => simp [unionSet]
  | cons item items induction => simp [unionSet, induction]

/-- A longer string of a class belongs to one of its items. -/
theorem mem_item_of_mem_charSet {value : List Nat} {negative : Bool}
    {kind : CharacterClassKind} {items : List CharacterClassItem}
    {strings : List (List Nat)} {properties : Bool}
    (member : value ∈ charSet data mode
      (.mk negative kind items strings properties))
    (several : value.length ≠ 1) :
    ∃ item ∈ items, value ∈ itemSet data mode false item := by
  rw [charSet, classSet.eq_def] at member
  cases negative with
  | true => exact absurd (member.1.resolve_left nofun) several
  | false =>
      simp only [Bool.false_eq_true, if_false, false_or] at member
      cases kind with
      | union => exact mem_unionSet.mp member
      | intersection =>
          cases items with
          | nil => exact absurd member several
          | cons first rest => exact ⟨_, List.mem_cons_self, member.1⟩
      | subtraction =>
          cases items with
          | nil => exact absurd member (Set.notMem_empty _)
          | cons first rest => exact ⟨_, List.mem_cons_self, member.1⟩

mutual

/-- The longer strings of a lowered class are among its written strings. -/
theorem lowered_strings {depth maxDepth : Nat} {value : List Nat}
    (several : value.length ≠ 1) (written : Ast.CharacterClass)
    {characters : CharacterClass}
    (lowered : lowerCharacterClass written depth maxDepth = .ok characters)
    (member : value ∈ charSet data mode characters) :
    value ∈ characters.strings :=
  match written with
  | .mk negative kind body => by
      rw [lowerCharacterClass] at lowered
      split at lowered
      · cases lowered
      · rw [bind_eq_ok_iff] at lowered
        obtain ⟨⟨items, strings, properties⟩, contents, same⟩ := lowered
        cases same
        obtain ⟨item, listed, inside⟩ := mem_item_of_mem_charSet member several
        exact mem_sortClassStrings.mpr
          (lowered_contents several body contents item listed inside)

theorem lowered_contents {depth maxDepth : Nat} {value : List Nat}
    (several : value.length ≠ 1) (body : List Ast.CharacterClassContents)
    {items : List CharacterClassItem} {strings : List (List Nat)}
    {properties : Bool}
    (lowered : lowerClassContents body depth maxDepth =
      .ok (items, strings, properties))
    (item : CharacterClassItem) (listed : item ∈ items)
    (member : value ∈ itemSet data mode false item) : value ∈ strings :=
  match body with
  | [] => by
      cases lowered
      cases listed
  | .characterClassRange min max :: rest => by
      rw [lowerClassContents, bind_eq_ok_iff] at lowered
      obtain ⟨⟨items, strings, properties⟩, others, same⟩ := lowered
      cases same
      rcases List.mem_cons.mp listed with rfl | later
      · exact absurd (length_of_mem_characterSet member) several
      · exact lowered_contents several rest others item later member
  | .characterClassEscape kind :: rest => by
      rw [lowerClassContents, bind_eq_ok_iff] at lowered
      obtain ⟨⟨items, strings, properties⟩, others, same⟩ := lowered
      cases same
      rcases List.mem_cons.mp listed with rfl | later
      · cases kind <;>
          exact absurd (length_of_mem_characterSet member) several
      · exact lowered_contents several rest others item later member
  | .character single :: rest => by
      rw [lowerClassContents, bind_eq_ok_iff] at lowered
      obtain ⟨⟨items, strings, properties⟩, others, same⟩ := lowered
      cases same
      rcases List.mem_cons.mp listed with rfl | later
      · exact absurd (length_of_mem_characterSet member) several
      · exact lowered_contents several rest others item later member
  | .unicodePropertyEscape property :: rest => by
      rw [lowerClassContents, bind_eq_ok_iff] at lowered
      obtain ⟨property', _, lowered⟩ := lowered
      rw [bind_eq_ok_iff] at lowered
      obtain ⟨⟨items, strings, properties⟩, others, same⟩ := lowered
      cases same
      rcases List.mem_cons.mp listed with rfl | later
      · exact absurd (length_of_mem_characterSet member) several
      · exact lowered_contents several rest others item later member
  | .nestedCharacterClass nested :: rest => by
      rw [lowerClassContents, bind_eq_ok_iff] at lowered
      obtain ⟨inner, innerLowered, lowered⟩ := lowered
      rw [bind_eq_ok_iff] at lowered
      obtain ⟨⟨items, strings, properties⟩, others, same⟩ := lowered
      cases same
      rcases List.mem_cons.mp listed with rfl | later
      · exact List.mem_append_left _
          (lowered_strings several nested innerLowered member)
      · exact List.mem_append_right _
          (lowered_contents several rest others item later member)
  | .classStringDisjunction alternatives :: rest => by
      rw [lowerClassContents, bind_eq_ok_iff] at lowered
      obtain ⟨⟨items, strings, properties⟩, others, same⟩ := lowered
      cases same
      rcases List.mem_cons.mp listed with rfl | later
      · rw [itemSet] at member
        obtain ⟨string, written, equal⟩ :=
          mem_item_of_mem_charSet member several
        obtain ⟨alternative, found, rfl⟩ := List.mem_map.mp written
        rw [itemSet, Set.mem_singleton_iff] at equal
        exact List.mem_append_left _ (equal ▸ found)
      · exact List.mem_append_right _
          (lowered_contents several rest others item later member)

end

section Membership

theorem decides_range (caseMatters : mode.ignoreCase = false)
    (value : List Nat) (start stop : Nat) :
    Decides data mode loose value (.range start stop) := by
  unfold Decides
  rw [itemSet]
  apply characterSet_iff
  · rintro character rfl
    simp only [classItemMatches, canonicalize_of_caseMatters caseMatters,
      Bool.and_eq_true, decide_eq_true_eq]
  · intro several
    rw [classItemMatches]
    rintro single rfl
    exact several rfl

theorem decides_escape (value : List Nat)
    (kind : Ast.CharacterClassEscapeKind) :
    Decides data mode loose value (classEscape kind) := by
  unfold Decides
  cases kind
  all_goals
    simp only [classEscape, itemSet]
    apply characterSet_iff
    · rintro character rfl
      rw [classItemMatches]
    · intro several
      rw [classItemMatches]
      rintro single rfl
      exact several rfl

theorem decides_property (singles : PropertiesSingle data mode)
    (value : List Nat) {property : UnicodeProperty}
    (plain : property.strings = false) :
    Decides data mode loose value (.unicodeProperty property) := by
  unfold Decides
  rw [itemSet, classItemMatches]
  apply characterSet_iff
  · rintro character rfl
    exact Iff.rfl
  · exact singles property plain value

theorem decides_string (caseMatters : mode.ignoreCase = false)
    (value expected : List Nat) :
    Decides data mode loose value (.string expected) := by
  unfold Decides
  rw [itemSet_string, classItemMatches, sequencesEqual_iff caseMatters,
    Set.mem_singleton_iff]
  exact eq_comm

mutual

/-- The membership test of a lowered class without string properties decides
the loosely read set, and for single characters the set itself. -/
theorem lowered_contains (caseMatters : mode.ignoreCase = false)
    (singles : PropertiesSingle data mode) {value : List Nat}
    (reading : loose = true ∨ value.length = 1) {depth maxDepth : Nat}
    (written : Ast.CharacterClass) {characters : CharacterClass}
    (lowered : lowerCharacterClass written depth maxDepth = .ok characters)
    (plain : characters.hasStringProperties = false) :
    classContainsSequence data characters value mode = true ↔
      value ∈ classSet data mode loose characters :=
  match written with
  | .mk negative kind body => by
      rw [lowerCharacterClass] at lowered
      split at lowered
      · cases lowered
      · rw [bind_eq_ok_iff] at lowered
        obtain ⟨⟨items, strings, properties⟩, contents, same⟩ := lowered
        cases same
        exact classContains_of_items reading
          (lowered_decides caseMatters singles reading body contents plain)

theorem lowered_decides (caseMatters : mode.ignoreCase = false)
    (singles : PropertiesSingle data mode) {value : List Nat}
    (reading : loose = true ∨ value.length = 1) {depth maxDepth : Nat}
    (body : List Ast.CharacterClassContents)
    {items : List CharacterClassItem} {strings : List (List Nat)}
    {properties : Bool}
    (lowered : lowerClassContents body depth maxDepth =
      .ok (items, strings, properties))
    (plain : properties = false) :
    ∀ item ∈ items, Decides data mode loose value item :=
  match body with
  | [] => by
      cases lowered
      simp
  | .characterClassRange min max :: rest => by
      rw [lowerClassContents, bind_eq_ok_iff] at lowered
      obtain ⟨⟨items, strings, properties⟩, others, same⟩ := lowered
      cases same
      exact List.forall_mem_cons.mpr ⟨decides_range caseMatters value min max,
        lowered_decides caseMatters singles reading rest others plain⟩
  | .characterClassEscape kind :: rest => by
      rw [lowerClassContents, bind_eq_ok_iff] at lowered
      obtain ⟨⟨items, strings, properties⟩, others, same⟩ := lowered
      cases same
      exact List.forall_mem_cons.mpr ⟨decides_escape value kind,
        lowered_decides caseMatters singles reading rest others plain⟩
  | .character single :: rest => by
      rw [lowerClassContents, bind_eq_ok_iff] at lowered
      obtain ⟨⟨items, strings, properties⟩, others, same⟩ := lowered
      cases same
      exact List.forall_mem_cons.mpr
        ⟨decides_range caseMatters value single single,
          lowered_decides caseMatters singles reading rest others plain⟩
  | .unicodePropertyEscape property :: rest => by
      rw [lowerClassContents, bind_eq_ok_iff] at lowered
      obtain ⟨property', _, lowered⟩ := lowered
      rw [bind_eq_ok_iff] at lowered
      obtain ⟨⟨items, strings, properties⟩, others, same⟩ := lowered
      cases same
      rw [Bool.or_eq_false_iff] at plain
      exact List.forall_mem_cons.mpr
        ⟨decides_property singles value plain.1,
          lowered_decides caseMatters singles reading rest others plain.2⟩
  | .nestedCharacterClass nested :: rest => by
      rw [lowerClassContents, bind_eq_ok_iff] at lowered
      obtain ⟨inner, innerLowered, lowered⟩ := lowered
      rw [bind_eq_ok_iff] at lowered
      obtain ⟨⟨items, strings, properties⟩, others, same⟩ := lowered
      cases same
      rw [Bool.or_eq_false_iff] at plain
      refine List.forall_mem_cons.mpr ⟨?_,
        lowered_decides caseMatters singles reading rest others plain.2⟩
      unfold Decides
      rw [itemSet_nested, classItemMatches]
      exact lowered_contains caseMatters singles reading nested innerLowered
        plain.1
  | .classStringDisjunction alternatives :: rest => by
      rw [lowerClassContents, bind_eq_ok_iff] at lowered
      obtain ⟨⟨items, strings, properties⟩, others, same⟩ := lowered
      cases same
      refine List.forall_mem_cons.mpr ⟨?_,
        lowered_decides caseMatters singles reading rest others plain⟩
      unfold Decides
      rw [itemSet_nested, classItemMatches]
      apply classContains_of_items reading
      intro item listed
      obtain ⟨alternative, _, rfl⟩ := List.mem_map.mp listed
      exact decides_string caseMatters value alternative

end

end Membership

theorem lowered_sorted {depth maxDepth : Nat} {written : Ast.CharacterClass}
    {characters : CharacterClass}
    (lowered : lowerCharacterClass written depth maxDepth = .ok characters) :
    characters.strings.Pairwise
      fun left right => right.length ≤ left.length := by
  cases written with
  | mk negative kind body =>
      rw [lowerCharacterClass] at lowered
      split at lowered
      · cases lowered
      · rw [bind_eq_ok_iff] at lowered
        obtain ⟨⟨items, strings, properties⟩, _, same⟩ := lowered
        cases same
        exact pairwise_sortClassStrings strings

end Lowered

/-! ## Reading strings -/

/-- Reading characters one after the other in a direction. -/
inductive Reads (input : Input) (unicode : Bool) (direction : Direction) :
    Nat → List Nat → Nat → Prop where
  | nil (position : Nat) : Reads input unicode direction position [] position
  | cons {position single middle : Nat} {rest : List Nat} {next : Nat}
      (decoded : decodeInDirection input position unicode direction =
        .ok (some (single, middle)))
      (later : Reads input unicode direction middle rest next) :
      Reads input unicode direction position (single :: rest) next

/-- The characters of a string in the order in which they are read. -/
def readingOrder (direction : Direction) (value : List Nat) : List Nat :=
  match direction with
  | .forward => value
  | .backward => value.reverse

/-- A string stands at a position and ends at another. -/
def StandsAt (input : Input) (unicode : Bool) (direction : Direction)
    (position : Nat) (value : List Nat) (next : Nat) : Prop :=
  Reads input unicode direction position (readingOrder direction value) next

section Reading

variable {input : Input} {unicode : Bool} {direction : Direction}

theorem Reads.advances {position next : Nat} {value : List Nat}
    (reads : Reads input unicode direction position value next) :
    Advances input direction position next := by
  induction reads with
  | nil position => exact .refl position
  | cons decoded later induction =>
      exact (decodeInDirection_advances decoded).trans induction

theorem Reads.moves {position single next : Nat} {rest : List Nat}
    (reads : Reads input unicode direction position (single :: rest) next) :
    remaining input direction next < remaining input direction position := by
  cases reads with
  | cons decoded later =>
      have first := decodeInDirection_advances decoded
      have moved := later.advances.remaining_le
      rename_i middle
      have strict : middle ≠ position := by
        intro same
        subst same
        cases direction with
        | forward =>
            have bounds := decodeAt_bounds (Except.ok.inj decoded)
            omega
        | backward =>
            have bounds := decodeBefore_next_lt decoded
            omega
      have less := first.remaining_lt strict
      omega

/-- What is read determines how much, and how much determines what. -/
theorem Reads.unique {position next next' : Nat} {value value' : List Nat}
    (reads : Reads input unicode direction position value next)
    (reads' : Reads input unicode direction position value' next') :
    (value.length = value'.length ↔ next = next') ∧
      (value.length = value'.length → value = value') := by
  induction reads generalizing value' with
  | nil position =>
      cases reads' with
      | nil => simp
      | cons decoded later =>
          have moved := (Reads.cons decoded later).moves
          refine ⟨⟨fun same => (by cases same), ?_⟩, fun same => (by cases same)⟩
          intro same
          subst same
          omega
  | cons decoded later induction =>
      cases reads' with
      | nil =>
          have moved := (Reads.cons decoded later).moves
          refine ⟨⟨fun same => (by cases same), ?_⟩, fun same => (by cases same)⟩
          intro same
          subst same
          omega
      | cons decoded' later' =>
          rw [decoded] at decoded'
          cases decoded'
          obtain ⟨ends, equal⟩ := induction later'
          simp only [List.length_cons, Nat.add_right_cancel_iff,
            List.cons.injEq, true_and]
          exact ⟨ends, equal⟩

@[simp] theorem length_readingOrder (value : List Nat) :
    (readingOrder direction value).length = value.length := by
  cases direction <;> simp [readingOrder]

theorem readingOrder_inj {value value' : List Nat}
    (same : readingOrder direction value = readingOrder direction value') :
    value = value' := by
  cases direction with
  | forward => exact same
  | backward => exact List.reverse_injective same

/-- Strings that stand at one position differ in length and in where they
end. -/
theorem StandsAt.unique {position next next' : Nat} {value value' : List Nat}
    (stands : StandsAt input unicode direction position value next)
    (stands' : StandsAt input unicode direction position value' next') :
    (value.length = value'.length ↔ next = next') ∧
      (value.length = value'.length → value = value') := by
  obtain ⟨ends, equal⟩ := Reads.unique stands stands'
  rw [length_readingOrder, length_readingOrder] at ends equal
  exact ⟨ends, fun same => readingOrder_inj (equal same)⟩

variable {data : UnicodeData} {mode : MatchMode}
  (caseMatters : mode.ignoreCase = false)

include caseMatters

theorem matchCharacters_iff {value : List Nat} {position next : Nat} :
    matchCharacters data input mode direction value position =
        .ok (some next) ↔
      Reads input mode.unicode direction position value next := by
  induction value generalizing position with
  | nil =>
      constructor
      · intro same
        cases same
        exact .nil _
      · intro reads
        cases reads
        rfl
  | cons single rest induction =>
      simp only [matchCharacters, canonicalize_of_caseMatters caseMatters,
        bind_eq_ok_iff]
      constructor
      · rintro ⟨character, decoded, matched⟩
        cases character with
        | none => cases matched
        | some pair =>
            obtain ⟨actual, middle⟩ := pair
            simp only at matched
            split at matched
            · cases matched
            · rename_i same
              rw [not_not] at same
              subst same
              exact .cons decoded (induction.mp matched)
      · intro reads
        cases reads with
        | cons decoded later =>
            refine ⟨_, decoded, ?_⟩
            simp only [ne_eq, not_true_eq_false, if_false]
            exact induction.mpr later

theorem matchClassString_iff {value : List Nat} {position next : Nat} :
    matchClassString data input position value mode direction =
        .ok (some next) ↔
      StandsAt input mode.unicode direction position value next := by
  cases direction with
  | forward => exact matchCharacters_iff caseMatters
  | backward => exact matchCharacters_iff caseMatters

end Reading

/-! ## Collecting positions -/

/-- Strings that stand at a position with their ends, longest first. -/
structure Collected (input : Input) (unicode : Bool) (direction : Direction)
    (position : Nat) (pairs : List (List Nat × Nat)) : Prop where
  stands : ∀ pair ∈ pairs,
    StandsAt input unicode direction position pair.1 pair.2
  decreasing : pairs.Pairwise fun left right =>
    right.1.length < left.1.length

/-- A written string that the executor accepts at a position. -/
structure Chosen (data : UnicodeData) (characters : CharacterClass)
    (mode : MatchMode) (input : Input) (direction : Direction)
    (position next : Nat) (value : List Nat) : Prop where
  several : value.length ≠ 1
  contained : classContainsSequence data characters value mode = true
  stands : StandsAt input mode.unicode direction position value next

/-- What `classMatchPositions` returns: the ends of the written strings, and
after them that of the single character. -/
def PositionsCollected (data : UnicodeData) (mode : MatchMode)
    (characters : CharacterClass) (input : Input) (position : Nat)
    (direction : Direction) : Prop :=
  ∃ pairs, Collected input mode.unicode direction position pairs ∧
    (∀ value next, (value, next) ∈ pairs ↔
      (value ∈ characters.strings ∧ Chosen data characters mode input
        direction position next value)) ∧
    ((∃ single next,
        StandsAt input mode.unicode direction position [single] next ∧
        [single] ∈ charSet data mode characters ∧
        classMatchPositions data characters input position mode direction =
          .ok (pairs.map (·.2) ++ [next])) ∨
      ((∀ single next,
        StandsAt input mode.unicode direction position [single] next →
          [single] ∉ charSet data mode characters) ∧
        classMatchPositions data characters input position mode direction =
          .ok (pairs.map (·.2))))

section Collecting

variable {input : Input} {unicode : Bool} {direction : Direction}
  {position : Nat} {pairs : List (List Nat × Nat)}

theorem Collected.nil : Collected input unicode direction position [] :=
  ⟨nofun, .nil⟩

/-- An end that was collected belongs to a string that was. -/
theorem Collected.mem_of_end
    (collected : Collected input unicode direction position pairs)
    {value : List Nat} {next : Nat}
    (stands : StandsAt input unicode direction position value next)
    (listed : next ∈ pairs.map (·.2)) : (value, next) ∈ pairs := by
  obtain ⟨pair, member, rfl⟩ := List.mem_map.mp listed
  obtain ⟨ends, equal⟩ := StandsAt.unique (collected.stands pair member) stands
  have same : pair.1 = value := equal (ends.mpr rfl)
  rw [← same]
  exact member

theorem Collected.nodup
    (collected : Collected input unicode direction position pairs) :
    (pairs.map (·.2)).Nodup := by
  rw [List.nodup_iff_pairwise_ne, List.pairwise_map]
  refine collected.decreasing.imp_of_mem ?_
  intro left right leftMember rightMember shorter same
  have ends := (StandsAt.unique (collected.stands left leftMember)
    (collected.stands right rightMember)).1.mpr same
  omega

theorem Collected.append
    (collected : Collected input unicode direction position pairs)
    {value : List Nat} {next : Nat}
    (stands : StandsAt input unicode direction position value next)
    (shorter : ∀ pair ∈ pairs, value.length < pair.1.length) :
    Collected input unicode direction position (pairs ++ [(value, next)]) := by
  refine ⟨?_, ?_⟩
  · intro pair member
    rcases List.mem_append.mp member with earlier | last
    · exact collected.stands pair earlier
    · rw [List.mem_singleton.mp last]
      exact stands
  · refine List.pairwise_append.mpr ⟨collected.decreasing, ?_, ?_⟩
    · exact List.pairwise_singleton _ _
    · intro pair member last equal
      rw [List.mem_singleton.mp equal]
      exact shorter pair member

/-- Adding the end of a string that is no longer than those collected. -/
theorem Collected.push
    (collected : Collected input unicode direction position pairs)
    {value : List Nat} {next : Nat}
    (stands : StandsAt input unicode direction position value next)
    (noLonger : ∀ pair ∈ pairs, value.length ≤ pair.1.length) :
    ∃ pairs', pushPosition (pairs.map (·.2)) next = pairs'.map (·.2) ∧
      Collected input unicode direction position pairs' ∧
      ∀ pair, pair ∈ pairs' ↔ pair ∈ pairs ∨ pair = (value, next) := by
  unfold pushPosition
  by_cases listed : next ∈ pairs.map (·.2)
  · have member := collected.mem_of_end stands listed
    refine ⟨pairs, by rw [if_pos (by simpa using listed)], collected, ?_⟩
    intro pair
    constructor
    · exact .inl
    · rintro (earlier | rfl)
      · exact earlier
      · exact member
  · refine ⟨pairs ++ [(value, next)], ?_, collected.append stands ?_, ?_⟩
    · rw [if_neg (by simpa using listed), List.map_append]
      rfl
    · intro pair member
      refine Nat.lt_of_le_of_ne (noLonger pair member) ?_
      intro same
      obtain ⟨ends, _⟩ :=
        StandsAt.unique stands (collected.stands pair member)
      exact listed (List.mem_map.mpr ⟨pair, member, (ends.mp same).symm⟩)
    · intro pair
      simp

/-- The empty string is collected last. -/
theorem Collected.last_of_empty
    (collected : Collected input unicode direction position pairs)
    {next : Nat} (member : ([], next) ∈ pairs) :
    (pairs.map (·.2)).getLast? = some next := by
  rcases List.eq_nil_or_concat pairs with rfl | ⟨earlier, last, rfl⟩
  · cases member
  · rw [List.concat_eq_append] at member collected ⊢
    have decreasing := (List.pairwise_append.mp collected.decreasing).2.2
    rcases List.mem_append.mp member with before | here
    · exact absurd (decreasing _ before last (List.mem_singleton_self last))
        (Nat.not_lt_zero _)
    · rw [← List.mem_singleton.mp here]
      simp

variable {data : UnicodeData} {mode : MatchMode}
  (caseMatters : mode.ignoreCase = false)

include caseMatters

omit caseMatters in
/-- Membership after one string that was not chosen. -/
theorem not_chosen {chosen : List Nat → Prop} {string : List Nat}
    {strings : List (List Nat)} (refused : ¬ chosen string)
    (value : List Nat) :
    (value ∈ string :: strings ∧ chosen value) ↔
      (value ∈ strings ∧ chosen value) := by
  rw [List.mem_cons]
  constructor
  · rintro ⟨rfl | listed, holds⟩
    · exact absurd holds refused
    · exact ⟨listed, holds⟩
  · rintro ⟨listed, holds⟩
    exact ⟨.inr listed, holds⟩

/-- The loop over the written strings. -/
theorem classStringPositions_spec {characters : CharacterClass}
    (inside : position ≤ input.length) {strings : List (List Nat)}
    (sorted : strings.Pairwise fun left right =>
      right.length ≤ left.length)
    (collected : Collected input mode.unicode direction position pairs)
    (noLonger : ∀ pair ∈ pairs, ∀ value ∈ strings,
      value.length ≤ pair.1.length) :
    ∃ pairs', classStringPositions data characters input position mode
        direction strings (pairs.map (·.2)) = .ok (pairs'.map (·.2)) ∧
      Collected input mode.unicode direction position pairs' ∧
      ∀ value next, (value, next) ∈ pairs' ↔ (value, next) ∈ pairs ∨
        (value ∈ strings ∧ Chosen data characters mode input direction
          position next value) := by
  induction strings generalizing pairs with
  | nil => exact ⟨pairs, rfl, collected, by simp⟩
  | cons string strings induction =>
      rw [List.pairwise_cons] at sorted
      have later : ∀ pair ∈ pairs, ∀ value ∈ strings,
          value.length ≤ pair.1.length := fun pair member value listed =>
        noLonger pair member value (List.mem_cons_of_mem _ listed)
      rw [classStringPositions]
      by_cases skipped : string.length = 1 ∨
          classContainsSequence data characters string mode = false
      · rw [if_pos (by simpa using skipped)]
        obtain ⟨pairs', ran, collected', members⟩ :=
          induction sorted.2 collected later
        refine ⟨pairs', ran, collected', ?_⟩
        intro value next
        rw [members]
        refine or_congr Iff.rfl (Iff.symm (not_chosen ?_ value))
        intro chosen
        rcases skipped with single | foreign
        · exact chosen.several single
        · rw [chosen.contained] at foreign
          cases foreign
      · rw [if_neg (by simpa using skipped)]
        rw [not_or, Bool.not_eq_false] at skipped
        obtain ⟨result, matched⟩ :=
          matchClassString_of_le data inside string mode direction
        rw [matched]
        simp only [bind, Except.bind]
        cases result with
        | none =>
            obtain ⟨pairs', ran, collected', members⟩ :=
              induction sorted.2 collected later
            refine ⟨pairs', ran, collected', ?_⟩
            intro value next
            rw [members]
            refine or_congr Iff.rfl (Iff.symm (not_chosen ?_ value))
            intro chosen
            have found := (@matchClassString_iff input direction data mode
              caseMatters string position next).mpr chosen.stands
            rw [matched] at found
            cases found
        | some reached =>
            have stands := (matchClassString_iff caseMatters).mp matched
            obtain ⟨pushed, same, collected, added⟩ := collected.push stands
              (fun pair member =>
                noLonger pair member string List.mem_cons_self)
            have later' : ∀ pair ∈ pushed, ∀ value ∈ strings,
                value.length ≤ pair.1.length := by
              intro pair member value listed
              rcases (added pair).mp member with earlier | rfl
              · exact later pair earlier value listed
              · exact sorted.1 value listed
            obtain ⟨pairs', ran, collected', members⟩ :=
              induction sorted.2 collected later'
            refine ⟨pairs', by simp only [same, ran], collected', ?_⟩
            intro value next
            rw [members, added, List.mem_cons, Prod.mk.injEq]
            constructor
            · rintro ((earlier | ⟨rfl, rfl⟩) | ⟨listed, chosen⟩)
              · exact .inl earlier
              · exact .inr ⟨.inl rfl, ⟨skipped.1, skipped.2, stands⟩⟩
              · exact .inr ⟨.inr listed, chosen⟩
            · rintro (earlier | ⟨rfl | listed, chosen⟩)
              · exact .inl (.inl earlier)
              · have ends := (StandsAt.unique chosen.stands stands).1.mp rfl
                exact .inl (.inr ⟨rfl, ends⟩)
              · exact .inr ⟨listed, chosen⟩

theorem classMatchPositions_spec {characters : CharacterClass}
    (plain : characters.hasStringProperties = false)
    (sorted : characters.strings.Pairwise fun left right =>
      right.length ≤ left.length)
    (decides : ∀ single,
      classContainsSequence data characters [single] mode = true ↔
        [single] ∈ charSet data mode characters)
    (inside : position ≤ input.length) (direction : Direction) :
    PositionsCollected data mode characters input position direction := by
  obtain ⟨pairs, ran, collected, members⟩ := @classStringPositions_spec input
    direction position [] data mode caseMatters characters inside
    characters.strings sorted Collected.nil (by simp)
  simp only [List.not_mem_nil, false_or] at members
  refine ⟨pairs, collected, members, ?_⟩
  have noDynamic : dynamicSequences characters input position mode direction =
      .ok [] := by
    rw [dynamicSequences, plain]
    rfl
  obtain ⟨character, decoded⟩ :=
    decodeInDirection_of_le inside mode.unicode direction
  rw [List.map_nil] at ran
  rw [classMatchPositions, ran, noDynamic, decoded]
  simp only [bind, Except.bind, List.reverse_nil, classPropertyPositions]
  have stands_iff : ∀ single next,
      StandsAt input mode.unicode direction position [single] next ↔
        character = some (single, next) := by
    intro single next
    have order : readingOrder direction [single] = [single] := by
      cases direction <;> rfl
    unfold StandsAt
    rw [order]
    constructor
    · intro reads
      cases reads with
      | cons read later =>
          cases later
          rw [decoded] at read
          exact Except.ok.inj read
    · intro same
      exact .cons (by rw [decoded, same]) (.nil next)
  cases character with
  | none =>
      right
      refine ⟨?_, rfl⟩
      intro single next stands
      cases (stands_iff single next).mp stands
  | some pair =>
      obtain ⟨single, next⟩ := pair
      have stands := (stands_iff single next).mpr rfl
      by_cases contained : classMatches data characters single mode = true
      · left
        refine ⟨single, next, stands, (decides single).mp contained, ?_⟩
        have fresh : next ∉ pairs.map (·.2) := by
          intro listed
          have member := collected.mem_of_end stands listed
          exact ((members [single] next).mp member).2.several rfl
        simp only [if_pos contained, pushPosition]
        rw [if_neg (by simpa using fresh)]
        rfl
      · right
        refine ⟨?_, by simp only [if_neg contained]; rfl⟩
        intro other reached standing
        cases (stands_iff other reached).mp standing
        exact fun member => contained ((decides single).mpr member)

end Collecting

/-! ## When the positions are right -/

section Verdict

variable (data : UnicodeData) (mode : MatchMode)
  (characters : CharacterClass)

/-- The ends of exactly the elements of the set that stand at a position, each
once, those of longer elements first. -/
def PositionsRight (input : Input) (position : Nat) (direction : Direction)
    (positions : List Nat) : Prop :=
  positions.Nodup ∧
    ∃ pairs, positions = pairs.map (·.2) ∧
      Collected input mode.unicode direction position pairs ∧
      ∀ value next, (value, next) ∈ pairs ↔
        value ∈ charSet data mode characters ∧
          StandsAt input mode.unicode direction position value next

/-- The executor finds the right positions everywhere. -/
def ClassRight : Prop :=
  ∀ (input : Input) (position : Nat) (direction : Direction),
    position ≤ input.length →
    ∃ positions,
      classMatchPositions data characters input position mode direction =
        .ok positions ∧
      PositionsRight data mode characters input position direction positions

/-- The string stands somewhere in some text. -/
def Occurs (unicode : Bool) (value : List Nat) : Prop :=
  ∃ (input : Input) (position next : Nat) (direction : Direction),
    position ≤ input.length ∧
      StandsAt input unicode direction position value next

/-- For the written strings it makes no difference whether a negated class may
contain them, and the empty string is not in the set together with a single
character. -/
structure StringsRight : Prop where
  members : ∀ value ∈ characters.strings, value.length ≠ 1 →
    Occurs mode.unicode value →
      (value ∈ classSet data mode true characters ↔
        value ∈ charSet data mode characters)
  empty : [] ∈ charSet data mode characters →
    ∀ single, Occurs mode.unicode [single] →
      [single] ∉ charSet data mode characters

end Verdict

section Lowered

variable {data : UnicodeData} {mode : MatchMode}
  (caseMatters : mode.ignoreCase = false)
  (singles : PropertiesSingle data mode) {written : Ast.CharacterClass}
  {depth maxDepth : Nat} {characters : CharacterClass}
  (lowered : lowerCharacterClass written depth maxDepth = .ok characters)
  (plain : characters.hasStringProperties = false)

include caseMatters singles lowered plain

theorem lowered_positions {input : Input} {position : Nat}
    (inside : position ≤ input.length) (direction : Direction) :
    PositionsCollected data mode characters input position direction :=
  @classMatchPositions_spec input position data mode caseMatters characters
    plain (lowered_sorted lowered)
    (fun _ => lowered_contains caseMatters singles (.inr rfl) written lowered
      plain)
    inside direction

theorem classRight_of_strings (right : StringsRight data mode characters) :
    ClassRight data mode characters := by
  intro input position direction inside
  obtain ⟨pairs, collected, members, result⟩ :=
    lowered_positions caseMatters singles lowered plain inside direction
  have decides : ∀ value,
      classContainsSequence data characters value mode = true ↔
        value ∈ classSet data mode true characters := fun value =>
    lowered_contains caseMatters singles (.inl rfl) written lowered plain
  have elements : ∀ value next, (value, next) ∈ pairs ↔
      value.length ≠ 1 ∧ value ∈ charSet data mode characters ∧
        StandsAt input mode.unicode direction position value next := by
    intro value next
    rw [members]
    constructor
    · rintro ⟨listed, chosen⟩
      have occurs : Occurs mode.unicode value :=
        ⟨input, position, next, direction, inside, chosen.stands⟩
      exact ⟨chosen.several, (right.members value listed chosen.several
        occurs).mp ((decides value).mp chosen.contained), chosen.stands⟩
    · rintro ⟨several, member, stands⟩
      have listed := lowered_strings several written lowered member
      have occurs : Occurs mode.unicode value :=
        ⟨input, position, next, direction, inside, stands⟩
      exact ⟨listed, several, (decides value).mpr ((right.members value listed
        several occurs).mpr member), stands⟩
  rcases result with ⟨single, next, stands, member, ran⟩ | ⟨none, ran⟩
  · have longer : ∀ pair ∈ pairs, [single].length < pair.1.length := by
      intro pair listed
      obtain ⟨several, inSet, _⟩ := (elements pair.1 pair.2).mp listed
      have notEmpty : pair.1 ≠ [] := by
        intro same
        rw [same] at inSet
        exact right.empty inSet single
          ⟨input, position, next, direction, inside, stands⟩ member
      have positive := List.length_pos_iff.mpr notEmpty
      rw [List.length_singleton]
      omega
    have whole := collected.append stands longer
    refine ⟨_, ran, ?_, pairs ++ [([single], next)], by simp, whole, ?_⟩
    · simpa using whole.nodup
    · intro value reached
      rw [List.mem_append, elements, List.mem_singleton, Prod.mk.injEq]
      constructor
      · rintro (⟨_, inSet, standing⟩ | ⟨rfl, rfl⟩)
        · exact ⟨inSet, standing⟩
        · exact ⟨member, stands⟩
      · rintro ⟨inSet, standing⟩
        by_cases several : value.length = 1
        · obtain ⟨ends, equal⟩ := StandsAt.unique standing stands
          exact .inr ⟨equal several, ends.mp several⟩
        · exact .inl ⟨several, inSet, standing⟩
  · refine ⟨_, ran, collected.nodup, pairs, rfl, collected, ?_⟩
    intro value reached
    rw [elements]
    constructor
    · rintro ⟨_, inSet, standing⟩
      exact ⟨inSet, standing⟩
    · rintro ⟨inSet, standing⟩
      refine ⟨?_, inSet, standing⟩
      intro single
      obtain ⟨character, rfl⟩ := List.length_eq_one_iff.mp single
      exact none character reached standing inSet

theorem strings_of_classRight (right : ClassRight data mode characters) :
    StringsRight data mode characters := by
  have members : ∀ value ∈ characters.strings, value.length ≠ 1 →
      Occurs mode.unicode value →
        (value ∈ classSet data mode true characters ↔
          value ∈ charSet data mode characters) := by
    intro value listed several occurs
    rw [← @lowered_contains data mode true caseMatters singles value (.inl rfl)
      depth maxDepth written characters lowered plain]
    obtain ⟨input, position, next, direction, inside, stands⟩ := occurs
    obtain ⟨positions, ran, _, wanted, same, wantedCollected, wantedMembers⟩ :=
      right input position direction inside
    obtain ⟨pairs, collected, pairMembers, result⟩ :=
      lowered_positions caseMatters singles lowered plain inside direction
    have foundIff : next ∈ positions ↔ next ∈ pairs.map (·.2) := by
      rcases result with ⟨single, reached, standing, _, ran'⟩ | ⟨_, ran'⟩
      · rw [ran] at ran'
        cases ran'
        rw [List.mem_append, List.mem_singleton]
        constructor
        · rintro (found | rfl)
          · exact found
          · exact absurd ((StandsAt.unique stands standing).1.mpr rfl) several
        · exact .inl
      · rw [ran] at ran'
        cases ran'
        exact Iff.rfl
    constructor
    · intro contained
      have chosen : (value, next) ∈ pairs :=
        (pairMembers value next).mpr ⟨listed, several, contained, stands⟩
      have found := foundIff.mpr (List.mem_map.mpr ⟨_, chosen, rfl⟩)
      rw [same] at found
      exact ((wantedMembers value next).mp
        (wantedCollected.mem_of_end stands found)).1
    · intro member
      have wantedPair := (wantedMembers value next).mpr ⟨member, stands⟩
      have found : next ∈ positions := by
        rw [same]
        exact List.mem_map.mpr ⟨_, wantedPair, rfl⟩
      exact ((pairMembers value next).mp
        (collected.mem_of_end stands (foundIff.mp found))).2.contained
  refine ⟨members, ?_⟩
  intro emptyMember single occurs member
  obtain ⟨input, position, next, direction, inside, stands⟩ := occurs
  have standsEmpty : StandsAt input mode.unicode direction position []
      position := by
    cases direction <;> exact .nil position
  obtain ⟨positions, ran, _, wanted, same, wantedCollected, wantedMembers⟩ :=
    right input position direction inside
  obtain ⟨pairs, _, _, result⟩ :=
    lowered_positions caseMatters singles lowered plain inside direction
  have last := wantedCollected.last_of_empty
    ((wantedMembers [] position).mpr ⟨emptyMember, standsEmpty⟩)
  rcases result with ⟨other, reached, standing, _, ran'⟩ | ⟨none, _⟩
  · rw [ran] at ran'
    cases ran'
    rw [← same, List.getLast?_concat, Option.some.injEq] at last
    have lengths := (StandsAt.unique standing standsEmpty).1.mpr last
    cases lengths
  · exact none single next stands member

end Lowered

/-- For a lowered class without string properties the positions are right in
every text exactly when its written strings are. -/
theorem classRight_iff_stringsRight (data : UnicodeData) (mode : MatchMode)
    (caseMatters : mode.ignoreCase = false)
    (singles : PropertiesSingle data mode) (written : Ast.CharacterClass)
    (depth maxDepth : Nat) (characters : CharacterClass)
    (lowered : lowerCharacterClass written depth maxDepth = .ok characters)
    (plain : characters.hasStringProperties = false) :
    ClassRight data mode characters ↔ StringsRight data mode characters :=
  ⟨strings_of_classRight caseMatters singles lowered plain,
    classRight_of_strings caseMatters singles lowered plain⟩

private def setsMode : MatchMode := ⟨false, false, false, true, true⟩

private def noProperties : UnicodeData := ⟨id, id, fun _ _ _ => false⟩

private theorem noProperties_single :
    PropertiesSingle noProperties setsMode :=
  fun _ _ _ _ => rfl

/-- The class `[\q{ab}c]`, and the one that it is lowered to. -/
private def pairOrSingle : Ast.CharacterClass :=
  .mk false .union [.classStringDisjunction [[0x61, 0x62]], .character 0x63]

private def pairOrSingleLowered : CharacterClass :=
  .mk false .union
    [.nested (.mk false .union [.string [0x61, 0x62]] [[0x61, 0x62]] false),
      .range 0x63 0x63] [[0x61, 0x62]] false

/-- The class `[\q{ab}c]` is right in every text. -/
theorem classRight_iff_stringsRight_pair :
    ClassRight noProperties setsMode pairOrSingleLowered := by
  refine (classRight_iff_stringsRight noProperties setsMode rfl
    noProperties_single pairOrSingle 0 256 pairOrSingleLowered rfl rfl).mpr
    ⟨?_, ?_⟩
  · intro value listed _ _
    rw [List.mem_singleton.mp listed]
    simp [charSet, pairOrSingleLowered, classSet, unionSet, itemSet]
  · intro member
    simp [charSet, pairOrSingleLowered, classSet, unionSet, itemSet,
      characterSet] at member

/-- The class `[[^\d]&&\q{ab}]`, and the one that it is lowered to. -/
private def negatedOperand : Ast.CharacterClass :=
  .mk false .intersection
    [.nestedCharacterClass (.mk true .union [.characterClassEscape .d]),
      .classStringDisjunction [[0x61, 0x62]]]

private def negatedOperandLowered : CharacterClass :=
  .mk false .intersection
    [.nested (.mk true .union [.digit false] [] false),
      .nested (.mk false .union [.string [0x61, 0x62]] [[0x61, 0x62]] false)]
    [[0x61, 0x62]] false

/-- The class `[\q{|a}]`, and the one that it is lowered to. -/
private def emptyOrSingle : Ast.CharacterClass :=
  .mk false .union [.classStringDisjunction [[], [0x61]]]

private def emptyOrSingleLowered : CharacterClass :=
  .mk false .union
    [.nested (.mk false .union [.string [], .string [0x61]] [[], [0x61]]
      false)] [[0x61], []] false

/-- The class `[[^\d]&&\q{ab}]` matches "ab", which no negated class
contains, and `[\q{|a}]` tries the empty string before the letter. -/
theorem classRight_fails_on_strings :
    (lowerCharacterClass negatedOperand 0 256 = .ok negatedOperandLowered ∧
      classMatchPositions noProperties negatedOperandLowered [0x61, 0x62] 0
        setsMode .forward = .ok [2] ∧
      ¬ PositionsRight noProperties setsMode negatedOperandLowered
        [0x61, 0x62] 0 .forward [2]) ∧
    (lowerCharacterClass emptyOrSingle 0 256 = .ok emptyOrSingleLowered ∧
      classMatchPositions noProperties emptyOrSingleLowered [0x61] 0 setsMode
        .forward = .ok [0, 1] ∧
      ¬ PositionsRight noProperties setsMode emptyOrSingleLowered [0x61] 0
        .forward [0, 1]) := by
  refine ⟨⟨rfl, rfl, ?_⟩, rfl, rfl, ?_⟩
  · rintro ⟨_, pairs, same, collected, members⟩
    have stands : StandsAt [0x61, 0x62] setsMode.unicode .forward 0
        [0x61, 0x62] 2 :=
      (@matchClassString_iff _ _ noProperties setsMode rfl _ _ _).mp rfl
    have listed := collected.mem_of_end stands (same ▸ List.mem_singleton_self 2)
    have member := ((members _ _).mp listed).1
    simp [charSet, negatedOperandLowered, classSet, itemSet] at member
  · rintro ⟨_, pairs, same, collected, members⟩
    have member : [] ∈ charSet noProperties setsMode emptyOrSingleLowered := by
      simp [charSet, emptyOrSingleLowered, classSet, unionSet, itemSet]
    have last := collected.last_of_empty ((members [] 0).mpr ⟨member, .nil 0⟩)
    rw [← same] at last
    cases last

end Fusor.RegExp
