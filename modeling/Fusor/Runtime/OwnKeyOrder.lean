import Fusor.Runtime.OwnKeys
import Fusor.Support.Result

/-!
# What a snapshot of own keys lists

An object owns the indices of a boxed string, the dense elements of an array
and the properties of its record.  A snapshot lists the selected ones once,
indices in ascending order before strings and symbols in the order of their
creation, and is as long as the count that its space was reserved by.
-/

namespace Fusor.Runtime.OwnKeys

/-- The keys of an object with their enumerable flags. -/
inductive Owns (record : ObjectRecord) (stringLength : Option UInt32)
    (array : Option ArrayState) : PropertyKey → Bool → Prop where
  | virtual {length : UInt32} {index : ArrayIndex}
      (boxed : stringLength = some length)
      (below : index.value < length.toNat) :
      Owns record stringLength array (.index index) true
  | dense {state : ArrayState} {index : ArrayIndex} {value : StoredValue}
      (kept : array = some state)
      (found : state.denseValue index = some value) :
      Owns record stringLength array (.index index) true
  | ordinary {property : ShapeProperty} (member : property ∈ record.shape) :
      Owns record stringLength array property.key property.layout.isEnumerable

/-- The keys that a choice of phases asks for. -/
def Selected (kinds : Nat → AtomKind) (phases : KeyPhases) :
    PropertyKey → Prop
  | .index _ => phases.indices = true
  | .atom atom =>
      match kinds atom with
      | .string => phases.strings = true
      | .symbol => phases.symbols = true
      | .globalSymbol => phases.symbols = true
      | .privateName => False

/-- No index is owned twice. -/
structure Separate (record : ObjectRecord) (stringLength : Option UInt32)
    (array : Option ArrayState) : Prop where
  boxedRecord : ∀ length, stringLength = some length →
    ∀ property ∈ record.shape, ∀ index, property.key = .index index →
      length.toNat ≤ index.value
  boxedArray : ∀ length, stringLength = some length →
    ∀ state, array = some state → ∀ index value,
      state.denseValue index = some value → length.toNat ≤ index.value
  denseRecord : ∀ state, array = some state → ∀ index value,
    state.denseValue index = some value →
      ∀ property ∈ record.shape, property.key ≠ .index index

/-- The string keys in the order of their creation. -/
def stringKeys (kinds : Nat → AtomKind) (record : ObjectRecord) :
    List PropertyKey :=
  (record.shape.map ShapeProperty.key).filter fun key =>
    key.asAtom.any fun atom => kinds atom = .string

/-- The symbol keys in the order of their creation. -/
def symbolKeys (kinds : Nat → AtomKind) (record : ObjectRecord) :
    List PropertyKey :=
  (record.shape.map ShapeProperty.key).filter fun key =>
    key.asAtom.any fun atom => kinds atom = .symbol || kinds atom = .globalSymbol

structure Listing (kinds : Nat → AtomKind) (record : ObjectRecord)
    (stringLength : Option UInt32) (phases : KeyPhases)
    (array : Option ArrayState) (snapshot : ForInSnapshot) : Prop where
  exactly : ∀ key enumerable, ⟨key, enumerable⟩ ∈ snapshot.candidates ↔
    Owns record stringLength array key enumerable ∧ Selected kinds phases key
  once : (snapshot.candidates.map ForInCandidate.key).Nodup
  ordered : ∃ numbers : List ArrayIndex,
    (numbers.Pairwise fun first second => first.value < second.value) ∧
    snapshot.candidates.map ForInCandidate.key =
      numbers.map PropertyKey.index ++
        (if phases.strings then stringKeys kinds record else []) ++
        (if phases.symbols then symbolKeys kinds record else [])
  neverPrivate : ∀ candidate ∈ snapshot.candidates,
    ∀ atom, candidate.key = .atom atom → kinds atom ≠ .privateName
  counted : snapshot.candidates.length =
    ownKeyCandidateCountWithArray kinds record stringLength phases array

section Virtual

/-- The array index of a number that is one. -/
def clamped (index : Nat) : ArrayIndex :=
  ⟨min index maxArrayIndex, Nat.min_le_right _ _⟩

def virtualOf (index : Nat) : ForInCandidate :=
  ⟨.index (clamped index), true⟩

theorem value_clamped {index : Nat} (bounded : index ≤ maxArrayIndex) :
    (clamped index).value = index :=
  Nat.min_eq_left bounded

theorem virtualCandidate_eq {index : Nat} (bounded : index ≤ maxArrayIndex) :
    virtualCandidate index = .ok (virtualOf index) := by
  have same : ArrayIndex.new index = some (clamped index) :=
    ArrayState.new_eq_some.mpr (value_clamped bounded)
  rw [virtualCandidate, same]
  rfl

theorem mapM_virtualCandidate (indices : List Nat)
    (bounded : ∀ index ∈ indices, index ≤ maxArrayIndex) :
    indices.mapM virtualCandidate = .ok (indices.map virtualOf) := by
  induction indices with
  | nil => rfl
  | cons index indices induction =>
      rw [List.forall_mem_cons] at bounded
      rw [List.mapM_cons, virtualCandidate_eq bounded.1, Support.ok_bind,
        induction bounded.2, Support.ok_bind]
      rfl

theorem virtualIndices_le (stringLength : Option UInt32) (phases : KeyPhases) :
    virtualIndices stringLength phases ≤ maxArrayIndex + 1 := by
  unfold virtualIndices
  split
  · exact ArrayState.length_le_of_u32 _
  · exact Nat.zero_le _

theorem virtualIndices_of_indices {stringLength : Option UInt32}
    {phases : KeyPhases} (on : phases.indices = true) :
    virtualIndices stringLength phases = (stringLength.getD 0).toNat := by
  rw [virtualIndices, if_pos on]

end Virtual

section Indices

variable {record : ObjectRecord} {stringLength : Option UInt32}
  {phases : KeyPhases} {array : Option ArrayState}

/-- The index candidates before they are sorted. -/
def unsorted (record : ObjectRecord) (stringLength : Option UInt32)
    (phases : KeyPhases) (array : Option ArrayState) : List ForInCandidate :=
  (List.range (virtualIndices stringLength phases)).map virtualOf ++
    denseCandidates array ++
      sparseCandidates record (virtualIndices stringLength phases)

theorem mem_denseCandidates {key : PropertyKey} {enumerable : Bool} :
    ⟨key, enumerable⟩ ∈ denseCandidates array ↔
      ∃ state index value, array = some state ∧
        state.denseValue index = some value ∧ key = .index index ∧
        enumerable = true := by
  cases array with
  | none =>
      constructor
      · intro member
        exact absurd member List.not_mem_nil
      · intro ⟨_, _, _, kept, _⟩
        cases kept
  | some state =>
      change _ ∈ state.denseIndices.map _ ↔ _
      rw [List.mem_map]
      constructor
      · intro ⟨index, member, same⟩
        obtain ⟨value, found⟩ := ArrayState.mem_denseIndices.mp member
        cases same
        exact ⟨state, index, value, rfl, found, rfl, rfl⟩
      · intro ⟨_, index, value, kept, found, sameKey, sameFlag⟩
        cases kept
        rw [sameKey, sameFlag]
        exact ⟨index, ArrayState.mem_denseIndices.mpr ⟨value, found⟩, rfl⟩

theorem isSparse_iff {least : Nat} {property : ShapeProperty} :
    isSparse least property = true ↔
      ∃ index, property.key = .index index ∧ least ≤ index.value := by
  cases same : property.key with
  | index number =>
      rw [isSparse, same]
      change decide (least ≤ number.value) = true ↔ _
      rw [decide_eq_true_eq]
      constructor
      · intro bound
        exact ⟨number, rfl, bound⟩
      · intro ⟨index, equal, bound⟩
        cases equal
        exact bound
  | atom entry =>
      rw [isSparse, same]
      constructor
      · intro wrong
        cases wrong
      · intro ⟨_, equal, _⟩
        cases equal

theorem mem_sparseCandidates {least : Nat} {key : PropertyKey}
    {enumerable : Bool} :
    ⟨key, enumerable⟩ ∈ sparseCandidates record least ↔
      ∃ property ∈ record.shape, ∃ index, property.key = .index index ∧
        least ≤ index.value ∧ key = property.key ∧
        enumerable = property.layout.isEnumerable := by
  rw [sparseCandidates, List.mem_map]
  constructor
  · intro ⟨property, member, same⟩
    rw [List.mem_filter] at member
    obtain ⟨index, sameIndex, bound⟩ := isSparse_iff.mp member.2
    cases same
    exact ⟨property, member.1, index, sameIndex, bound, rfl, rfl⟩
  · intro ⟨property, member, index, sameIndex, bound, sameKey, sameFlag⟩
    refine ⟨property, ?_, ?_⟩
    · rw [List.mem_filter]
      exact ⟨member, isSparse_iff.mpr ⟨index, sameIndex, bound⟩⟩
    · rw [sameKey, sameFlag]
      rfl

theorem mem_virtual {least : Nat} (small : least ≤ maxArrayIndex + 1)
    {key : PropertyKey} {enumerable : Bool} :
    ⟨key, enumerable⟩ ∈ (List.range least).map virtualOf ↔
      ∃ index : ArrayIndex, index.value < least ∧ key = .index index ∧
        enumerable = true := by
  rw [List.mem_map]
  constructor
  · intro ⟨number, member, same⟩
    rw [List.mem_range] at member
    cases same
    refine ⟨clamped number, ?_, rfl, rfl⟩
    rw [value_clamped (by omega)]
    exact member
  · intro ⟨index, below, sameKey, sameFlag⟩
    refine ⟨index.value, List.mem_range.mpr below, ?_⟩
    have same : clamped index.value = index :=
      ArrayState.eq_of_value (value_clamped index.bounded)
    rw [sameKey, sameFlag, virtualOf, same]

/-- The candidates before sorting are the owned indices. -/
theorem mem_unsorted (separate : Separate record stringLength array)
    (on : phases.indices = true) {key : PropertyKey} {enumerable : Bool} :
    ⟨key, enumerable⟩ ∈ unsorted record stringLength phases array ↔
      Owns record stringLength array key enumerable ∧
        ∃ index, key = .index index := by
  rw [unsorted, List.mem_append, List.mem_append,
    mem_virtual (virtualIndices_le _ _), mem_denseCandidates,
    mem_sparseCandidates, virtualIndices_of_indices on]
  constructor
  · rintro ((⟨index, below, sameKey, sameFlag⟩ |
      ⟨state, index, value, kept, found, sameKey, sameFlag⟩) |
      ⟨property, member, index, sameIndex, bound, sameKey, sameFlag⟩)
    · rw [sameKey, sameFlag]
      cases boxed : stringLength with
      | none =>
          rw [boxed] at below
          exact absurd below (Nat.not_lt_zero _)
      | some length =>
          rw [boxed] at below
          exact ⟨.virtual rfl below, index, rfl⟩
    · rw [sameKey, sameFlag]
      exact ⟨.dense kept found, index, rfl⟩
    · rw [sameKey, sameFlag]
      exact ⟨.ordinary member, index, sameIndex⟩
  · intro ⟨owned, index, isIndex⟩
    cases owned with
    | virtual boxed below =>
        rw [boxed]
        exact .inl (.inl ⟨_, below, rfl, rfl⟩)
    | dense kept found =>
        exact .inl (.inr ⟨_, _, _, kept, found, rfl, rfl⟩)
    | ordinary member =>
        refine .inr ⟨_, member, index, isIndex, ?_, rfl, rfl⟩
        cases boxed : stringLength with
        | none => exact Nat.zero_le _
        | some length =>
            exact separate.boxedRecord length boxed _ member index isIndex

theorem mem_keys {candidates : List ForInCandidate} {key : PropertyKey} :
    key ∈ candidates.map ForInCandidate.key ↔
      ∃ enumerable, ⟨key, enumerable⟩ ∈ candidates := by
  rw [List.mem_map]
  constructor
  · intro ⟨candidate, member, same⟩
    refine ⟨candidate.enumerable, ?_⟩
    rw [← same]
    exact member
  · intro ⟨enumerable, member⟩
    exact ⟨_, member, rfl⟩

theorem nodup_virtual {least : Nat} (small : least ≤ maxArrayIndex + 1) :
    (((List.range least).map virtualOf).map ForInCandidate.key).Nodup := by
  rw [List.map_map]
  apply List.Nodup.map_on _ List.nodup_range
  intro left leftMember right rightMember same
  rw [List.mem_range] at leftMember rightMember
  have equal : (clamped left).value = (clamped right).value :=
    congrArg ArrayIndex.value (PropertyKey.index.inj same)
  rw [value_clamped (by omega), value_clamped (by omega)] at equal
  exact equal

theorem nodup_dense (array : Option ArrayState) :
    ((denseCandidates array).map ForInCandidate.key).Nodup := by
  cases array with
  | none => exact List.nodup_nil
  | some state =>
      change ((state.denseIndices.map _).map _).Nodup
      rw [List.map_map, List.Nodup, List.pairwise_map]
      apply state.denseIndices_ascending.imp
      intro left right less same
      rw [PropertyKey.index.inj same] at less
      exact Nat.lt_irrefl _ less

/-- The chosen properties of a record have distinct keys. -/
theorem nodup_chosen (record : ObjectRecord) (chosen : ShapeProperty → Bool) :
    (((record.shape.filter chosen).map candidate).map
      ForInCandidate.key).Nodup := by
  rw [List.map_map]
  exact record.distinct.sublist (List.filter_sublist.map _)

theorem nodup_unsorted (separate : Separate record stringLength array)
    (on : phases.indices = true) :
    ((unsorted record stringLength phases array).map
      ForInCandidate.key).Nodup := by
  have small := virtualIndices_le stringLength phases
  rw [unsorted, List.map_append, List.map_append, List.nodup_append,
    List.nodup_append]
  refine ⟨⟨nodup_virtual small, nodup_dense array, ?_⟩,
    nodup_chosen record _, ?_⟩
  · intro left leftMember right rightMember same
    obtain ⟨_, leftMember⟩ := mem_keys.mp leftMember
    obtain ⟨_, rightMember⟩ := mem_keys.mp rightMember
    obtain ⟨index, below, sameLeft, _⟩ := (mem_virtual small).mp leftMember
    obtain ⟨state, other, value, kept, found, sameRight, _⟩ :=
      mem_denseCandidates.mp rightMember
    rw [sameLeft, sameRight] at same
    rw [PropertyKey.index.inj same, virtualIndices_of_indices on] at below
    cases boxed : stringLength with
    | none =>
        rw [boxed] at below
        exact absurd below (Nat.not_lt_zero _)
    | some length =>
        rw [boxed] at below
        have above := separate.boxedArray length boxed state kept other value
          found
        exact absurd below (Nat.not_lt.mpr above)
  · intro left leftMember right rightMember same
    obtain ⟨_, rightMember⟩ := mem_keys.mp rightMember
    obtain ⟨property, member, index, sameIndex, bound, sameRight, _⟩ :=
      mem_sparseCandidates.mp rightMember
    rw [List.mem_append] at leftMember
    rcases leftMember with early | dense
    · obtain ⟨_, early⟩ := mem_keys.mp early
      obtain ⟨other, below, sameLeft, _⟩ := (mem_virtual small).mp early
      rw [sameLeft, sameRight, sameIndex] at same
      rw [PropertyKey.index.inj same] at below
      omega
    · obtain ⟨_, dense⟩ := mem_keys.mp dense
      obtain ⟨state, other, value, kept, found, sameLeft, _⟩ :=
        mem_denseCandidates.mp dense
      apply separate.denseRecord state kept other value found property member
      rw [← sameRight, ← same, sameLeft]

end Indices

section Sorting

variable {candidates : List ForInCandidate}

/-- Sorted index candidates. -/
def sorted (candidates : List ForInCandidate) : List ForInCandidate :=
  candidates.mergeSort fun left right =>
    decide (indexOf left ≤ indexOf right)

theorem sortByIndex_eq
    (indices : ∀ candidate ∈ candidates, ∃ index, candidate.key = .index index) :
    sortByIndex candidates = .ok (sorted candidates) := by
  rw [sortByIndex, if_pos, sorted]
  rw [List.all_eq_true]
  intro candidate member
  obtain ⟨index, same⟩ := indices candidate member
  rw [same]
  rfl

theorem sorted_perm (candidates : List ForInCandidate) :
    (sorted candidates).Perm candidates :=
  List.mergeSort_perm _ _

theorem sorted_pairwise (candidates : List ForInCandidate) :
    (sorted candidates).Pairwise fun left right =>
      indexOf left ≤ indexOf right := by
  have ordered := @List.pairwise_mergeSort _
    (fun left right => decide (indexOf left ≤ indexOf right)) (by
      intro first second third left right
      rw [decide_eq_true_eq] at left right ⊢
      exact Nat.le_trans left right) (by
      intro left right
      rw [Bool.or_eq_true, decide_eq_true_eq, decide_eq_true_eq]
      exact Nat.le_total _ _) candidates
  exact ordered.imp (fun less => of_decide_eq_true less)

/-- The numbers of index candidates. -/
def numbers (candidates : List ForInCandidate) : List ArrayIndex :=
  candidates.filterMap fun candidate => candidate.key.asIndex

theorem map_numbers (candidates : List ForInCandidate)
    (indices : ∀ candidate ∈ candidates, ∃ index, candidate.key = .index index) :
    candidates.map ForInCandidate.key =
      (numbers candidates).map PropertyKey.index := by
  induction candidates with
  | nil => rfl
  | cons candidate candidates induction =>
      rw [List.forall_mem_cons] at indices
      obtain ⟨⟨index, same⟩, rest⟩ := indices
      have split : numbers (candidate :: candidates) =
          index :: numbers candidates := by
        rw [numbers, List.filterMap_cons, same]
        rfl
      rw [List.map_cons, induction rest, split, List.map_cons, same]

theorem asIndex_eq_some {key : PropertyKey} {index : ArrayIndex}
    (found : key.asIndex = some index) : key = .index index := by
  cases key with
  | index number =>
      cases found
      rfl
  | atom entry => cases found

/-- Distinct keys are sorted strictly. -/
theorem numbers_ascending (ordered : candidates.Pairwise fun left right =>
      indexOf left ≤ indexOf right)
    (distinct : (candidates.map ForInCandidate.key).Nodup) :
    (numbers candidates).Pairwise fun first second =>
      first.value < second.value := by
  rw [List.Nodup, List.pairwise_map] at distinct
  rw [numbers, List.pairwise_filterMap]
  apply (ordered.and distinct).imp
  intro left right ⟨less, different⟩ first leftIndex second rightIndex
  have leftKey := asIndex_eq_some leftIndex
  have rightKey := asIndex_eq_some rightIndex
  rw [leftKey, rightKey] at different
  rw [indexOf, indexOf, leftKey, rightKey] at less
  change first.value ≤ second.value at less
  apply Nat.lt_of_le_of_ne less
  intro same
  apply different
  rw [ArrayState.eq_of_value same]

end Sorting

section Atoms

variable {kinds : Nat → AtomKind} {record : ObjectRecord}
  {stringLength : Option UInt32} {phases : KeyPhases}
  {array : Option ArrayState} {key : PropertyKey} {enumerable : Bool}

/-- Whether a key belongs to a phase. -/
def inPhase (kinds : Nat → AtomKind) (phase : AtomKeyPhase)
    (key : PropertyKey) : Bool :=
  key.asAtom.any fun atom =>
    match phase with
    | .string => kinds atom = .string
    | .symbol => kinds atom = .symbol || kinds atom = .globalSymbol

def atomCandidates (kinds : Nat → AtomKind) (record : ObjectRecord)
    (phase : AtomKeyPhase) : List ForInCandidate :=
  (record.shape.filter (isInPhase kinds phase)).map candidate

theorem selected_iff : Selected kinds phases key ↔
    (phases.indices = true ∧ ∃ index, key = .index index) ∨
      (phases.strings = true ∧ inPhase kinds .string key = true) ∨
        (phases.symbols = true ∧ inPhase kinds .symbol key = true) := by
  cases key with
  | index number => simp [Selected, inPhase, PropertyKey.asAtom]
  | atom entry =>
      cases kind : kinds entry <;>
        simp [Selected, inPhase, PropertyKey.asAtom, kind]

theorem inPhase_symbol_of_string (string : inPhase kinds .string key = true) :
    inPhase kinds .symbol key = false := by
  cases key with
  | index number => rfl
  | atom entry =>
      cases kind : kinds entry <;>
        simp [inPhase, PropertyKey.asAtom, kind] at string ⊢

theorem mem_atomCandidates {phase : AtomKeyPhase} :
    ⟨key, enumerable⟩ ∈ atomCandidates kinds record phase ↔
      Owns record stringLength array key enumerable ∧
        inPhase kinds phase key = true := by
  rw [atomCandidates, List.mem_map]
  constructor
  · intro ⟨property, member, same⟩
    rw [List.mem_filter] at member
    cases same
    exact ⟨.ordinary member.1, member.2⟩
  · intro ⟨owned, phased⟩
    cases owned with
    | virtual => cases phased
    | dense => cases phased
    | @ordinary property member =>
        refine ⟨property, ?_, rfl⟩
        rw [List.mem_filter]
        exact ⟨member, phased⟩

theorem map_atomCandidates (phase : AtomKeyPhase) :
    (atomCandidates kinds record phase).map ForInCandidate.key =
      (record.shape.map ShapeProperty.key).filter (inPhase kinds phase) := by
  rw [atomCandidates, List.map_map, List.filter_map]
  rfl

/-- The count of the record's properties is made of the three phases. -/
theorem length_counts (least : Nat) (shape : List ShapeProperty)
    (same : virtualIndices stringLength phases = least) :
    (shape.filter (counts kinds stringLength phases)).length =
      (if phases.indices then (shape.filter (isSparse least)).length else 0) +
      (if phases.strings then
        (shape.filter (isInPhase kinds .string)).length else 0) +
      (if phases.symbols then
        (shape.filter (isInPhase kinds .symbol)).length else 0) := by
  simp only [← List.countP_eq_length_filter]
  induction shape with
  | nil => simp
  | cons property shape induction =>
      simp only [List.countP_cons, induction]
      have once : (if counts kinds stringLength phases property then 1 else 0) =
          (if phases.indices then
            (if isSparse least property then 1 else 0) else 0) +
          (if phases.strings then
            (if isInPhase kinds .string property then 1 else 0) else 0) +
          (if phases.symbols then
            (if isInPhase kinds .symbol property then 1 else 0) else 0) := by
        unfold counts isSparse isInPhase
        rw [same]
        cases key : property.key with
        | index number =>
            cases phases.indices <;> simp [PropertyKey.asIndex,
              PropertyKey.asAtom]
        | atom entry =>
            cases kind : kinds entry <;> simp [PropertyKey.asIndex,
              PropertyKey.asAtom, kind]
      rw [once]
      cases phases.indices <;> cases phases.strings <;> cases phases.symbols <;>
        simp <;> omega

end Atoms

section Snapshot

variable {kinds : Nat → AtomKind} {record : ObjectRecord}
  {stringLength : Option UInt32} {phases : KeyPhases}
  {array : Option ArrayState}

def indexPart (record : ObjectRecord) (stringLength : Option UInt32)
    (phases : KeyPhases) (array : Option ArrayState) : List ForInCandidate :=
  if phases.indices then sorted (unsorted record stringLength phases array)
  else []

def atomPart (kinds : Nat → AtomKind) (record : ObjectRecord) (on : Bool)
    (phase : AtomKeyPhase) : List ForInCandidate :=
  if on then atomCandidates kinds record phase else []

/-- The candidates of a snapshot. -/
def listed (kinds : Nat → AtomKind) (record : ObjectRecord)
    (stringLength : Option UInt32) (phases : KeyPhases)
    (array : Option ArrayState) : List ForInCandidate :=
  indexPart record stringLength phases array ++
    atomPart kinds record phases.strings .string ++
      atomPart kinds record phases.symbols .symbol

theorem unsorted_indices (separate : Separate record stringLength array)
    (on : phases.indices = true) :
    ∀ candidate ∈ unsorted record stringLength phases array,
      ∃ index, candidate.key = .index index := by
  intro candidate member
  exact ((mem_unsorted separate on).mp member).2

theorem indexCandidates_eq (separate : Separate record stringLength array) :
    ∃ work, indexCandidates record stringLength phases array =
      .ok (indexPart record stringLength phases array, work) := by
  unfold indexCandidates indexPart
  by_cases on : phases.indices = true
  · have small := virtualIndices_le stringLength phases
    rw [if_pos on, if_pos on, mapM_virtualCandidate _ (by
      intro index member
      rw [List.mem_range] at member
      omega), Support.ok_bind]
    change ∃ work, (sortByIndex (unsorted record stringLength phases array) >>=
      _) = _
    rw [sortByIndex_eq (unsorted_indices separate on), Support.ok_bind]
    exact ⟨_, rfl⟩
  · rw [if_neg on, if_neg on]
    exact ⟨0, rfl⟩

theorem snapshot_eq (separate : Separate record stringLength array)
    (reserves : Nat → Bool) :
    ∃ work, tryOwnKeySnapshotWithArray kinds record stringLength phases array
        reserves =
      if reserves (ownKeyCandidateCountWithArray kinds record stringLength
          phases array) then
        .ok ⟨listed kinds record stringLength phases array, work⟩
      else .error .reservation := by
  obtain ⟨work, computed⟩ := @indexCandidates_eq record stringLength phases
    array separate
  refine ⟨work, ?_⟩
  unfold tryOwnKeySnapshotWithArray
  rw [computed, Support.ok_bind]
  unfold listed atomPart pushAtomKeys
  cases phases.strings <;> cases phases.symbols <;> simp [atomCandidates]

theorem mem_indexPart (separate : Separate record stringLength array)
    {key : PropertyKey} {enumerable : Bool} :
    ⟨key, enumerable⟩ ∈ indexPart record stringLength phases array ↔
      Owns record stringLength array key enumerable ∧
        phases.indices = true ∧ ∃ index, key = .index index := by
  unfold indexPart
  by_cases on : phases.indices = true
  · rw [if_pos on, (sorted_perm _).mem_iff, mem_unsorted separate on]
    simp only [on, true_and]
  · rw [if_neg on]
    constructor
    · intro member
      exact absurd member List.not_mem_nil
    · intro ⟨_, wanted, _⟩
      exact absurd wanted on

theorem mem_atomPart {on : Bool} {phase : AtomKeyPhase} {key : PropertyKey}
    {enumerable : Bool} :
    ⟨key, enumerable⟩ ∈ atomPart kinds record on phase ↔
      Owns record stringLength array key enumerable ∧
        on = true ∧ inPhase kinds phase key = true := by
  unfold atomPart
  cases on with
  | true =>
      rw [if_pos rfl, @mem_atomCandidates kinds record stringLength array]
      simp only [true_and]
  | false => simp

theorem mem_listed (separate : Separate record stringLength array)
    {key : PropertyKey} {enumerable : Bool} :
    ⟨key, enumerable⟩ ∈ listed kinds record stringLength phases array ↔
      Owns record stringLength array key enumerable ∧
        Selected kinds phases key := by
  rw [listed, List.mem_append, List.mem_append, mem_indexPart separate,
    @mem_atomPart kinds record stringLength array,
    @mem_atomPart kinds record stringLength array, selected_iff,
    ← and_or_left, ← and_or_left, or_assoc]

theorem nodup_indexPart (separate : Separate record stringLength array) :
    ((indexPart record stringLength phases array).map
      ForInCandidate.key).Nodup := by
  unfold indexPart
  by_cases on : phases.indices = true
  · rw [if_pos on]
    exact ((sorted_perm _).map _).nodup_iff.mpr (nodup_unsorted separate on)
  · rw [if_neg on]
    exact List.nodup_nil

theorem nodup_atomPart (on : Bool) (phase : AtomKeyPhase) :
    ((atomPart kinds record on phase).map ForInCandidate.key).Nodup := by
  cases on with
  | true => exact nodup_chosen record _
  | false => exact List.nodup_nil

theorem nodup_listed (separate : Separate record stringLength array) :
    ((listed kinds record stringLength phases array).map
      ForInCandidate.key).Nodup := by
  rw [listed, List.map_append, List.map_append, List.nodup_append,
    List.nodup_append]
  refine ⟨⟨nodup_indexPart separate, nodup_atomPart _ _, ?_⟩,
    nodup_atomPart _ _, ?_⟩
  · intro left leftMember right rightMember same
    obtain ⟨_, leftMember⟩ := mem_keys.mp leftMember
    obtain ⟨_, rightMember⟩ := mem_keys.mp rightMember
    obtain ⟨_, _, index, isIndex⟩ := (mem_indexPart separate).mp leftMember
    have phased := ((@mem_atomPart kinds record stringLength array).mp
      rightMember).2.2
    rw [← same, isIndex] at phased
    cases phased
  · intro left leftMember right rightMember same
    obtain ⟨_, rightMember⟩ := mem_keys.mp rightMember
    have phased := ((@mem_atomPart kinds record stringLength array).mp
      rightMember).2.2
    rw [← same] at phased
    rw [List.mem_append] at leftMember
    rcases leftMember with early | string
    · obtain ⟨_, early⟩ := mem_keys.mp early
      obtain ⟨_, _, index, isIndex⟩ := (mem_indexPart separate).mp early
      rw [isIndex] at phased
      cases phased
    · obtain ⟨_, string⟩ := mem_keys.mp string
      have other := ((@mem_atomPart kinds record stringLength array).mp
        string).2.2
      rw [inPhase_symbol_of_string other] at phased
      cases phased

theorem length_indexPart :
    (indexPart record stringLength phases array).length =
      (virtualIndices stringLength phases +
        if phases.indices then array.elim 0 ArrayState.densePropertyCount
        else 0) +
      if phases.indices then (record.shape.filter
        (isSparse (virtualIndices stringLength phases))).length else 0 := by
  unfold indexPart
  by_cases on : phases.indices = true
  · rw [if_pos on, if_pos on, if_pos on, (sorted_perm _).length_eq, unsorted,
      List.length_append, List.length_append, List.length_map,
      List.length_range, sparseCandidates, List.length_map, denseCandidates]
    cases array with
    | none => rfl
    | some state =>
        change _ + (state.denseIndices.map _).length + _ =
          _ + state.densePropertyCount + _
        rw [List.length_map, state.length_denseIndices]
  · rw [if_neg on, if_neg on, if_neg on, virtualIndices, if_neg on]
    rfl

theorem length_atomPart (on : Bool) (phase : AtomKeyPhase) :
    (atomPart kinds record on phase).length =
      if on then (record.shape.filter (isInPhase kinds phase)).length
      else 0 := by
  cases on with
  | true => exact List.length_map _
  | false => rfl

theorem denseCount_le (array : Option ArrayState) (on : Bool) :
    (if on then array.elim 0 ArrayState.densePropertyCount else 0) ≤
      maxArrayIndex + 1 := by
  cases on with
  | false => exact Nat.zero_le _
  | true =>
      cases array with
      | none => exact Nat.zero_le _
      | some state =>
          obtain ⟨counted, short⟩ := state.countP_denseElements
          change state.densePropertyCount ≤ _
          rw [counted]
          exact List.countP_le_length.trans short

/-- The sums do not saturate. -/
theorem length_listed :
    (listed kinds record stringLength phases array).length =
      ownKeyCandidateCountWithArray kinds record stringLength phases array := by
  have shape := record.bounded
  have virtual := virtualIndices_le stringLength phases
  have dense := denseCount_le array phases.indices
  have fewer := List.length_filter_le
    (counts kinds stringLength phases) record.shape
  rw [listed, List.length_append, List.length_append, length_indexPart,
    length_atomPart, length_atomPart, Nat.add_assoc, Nat.add_assoc,
    ← Nat.add_assoc (if phases.indices then (record.shape.filter _).length
      else 0), ← length_counts _ record.shape rfl,
    ownKeyCandidateCountWithArray, saturatingAdd, saturatingAdd]
  unfold maxArrayIndex at virtual dense
  unfold isizeMax at shape
  unfold usizeMax
  omega

/-- The snapshot lists the selected own keys once and in order, and is as long
as the count. -/
theorem ownKeySnapshot_lists (kinds : Nat → AtomKind) (record : ObjectRecord)
    (stringLength : Option UInt32) (phases : KeyPhases)
    (array : Option ArrayState)
    (separate : Separate record stringLength array) (reserves : Nat → Bool) :
    ∃ snapshot, Listing kinds record stringLength phases array snapshot ∧
      tryOwnKeySnapshotWithArray kinds record stringLength phases array
          reserves =
        if reserves (ownKeyCandidateCountWithArray kinds record stringLength
            phases array) then .ok snapshot
        else .error .reservation := by
  obtain ⟨work, computed⟩ := @snapshot_eq kinds record stringLength phases
    array separate reserves
  refine ⟨⟨listed kinds record stringLength phases array, work⟩, ?_, computed⟩
  constructor
  · intro key enumerable
    exact mem_listed separate
  · exact nodup_listed separate
  · refine ⟨numbers (indexPart record stringLength phases array), ?_, ?_⟩
    · apply numbers_ascending _ (nodup_indexPart separate)
      unfold indexPart
      split
      · exact sorted_pairwise _
      · exact List.Pairwise.nil
    · change (listed kinds record stringLength phases array).map _ = _
      rw [listed, List.map_append, List.map_append, map_numbers]
      · congr 1
        · congr 1
          unfold atomPart
          split
          · exact map_atomCandidates _
          · rfl
        · unfold atomPart
          split
          · exact map_atomCandidates _
          · rfl
      · intro candidate member
        exact ((mem_indexPart separate).mp member).2.2
  · intro candidate member atom same hidden
    have chosen := ((mem_listed separate).mp member).2
    rw [same, Selected, hidden] at chosen
    exact chosen
  · exact length_listed

/-- Two strings, two indices and a symbol on a boxed string of two units. -/
def mixedRecord : ObjectRecord where
  shape := [⟨.atom 0, .data true true true⟩,
    ⟨.index ⟨5, by decide⟩, .data true true true⟩,
    ⟨.index ⟨2, by decide⟩, .data true false true⟩,
    ⟨.atom 1, .data true true true⟩, ⟨.atom 2, .data true true true⟩]
  distinct := by decide
  bounded := by decide

def mixedKinds (atom : Nat) : AtomKind :=
  if atom = 2 then .symbol else .string

/-- An array with its length, a symbol, and elements stored densely. -/
def arrayRecord : ObjectRecord where
  shape := [⟨.atom 0, .data true false false⟩, ⟨.atom 2, .data true true true⟩]
  distinct := by decide
  bounded := by decide

/-- A new array that is written at 0, 1 and 3, and then has 1 deleted. -/
def holedArray : Except DenseFault ArrayState := do
  let reserves := fun count => decide (count ≤ 4)
  let (_, state) ← (ArrayState.new 4).tryRestoreDenseAndStore reserves
    ⟨0, by decide⟩ .null
  let (_, state) ← state.tryRestoreDenseAndStore reserves ⟨3, by decide⟩ .null
  let (_, state) ← state.tryRestoreDenseAndStore reserves ⟨1, by decide⟩ .null
  .ok (state.deleteDense ⟨1, by decide⟩).2

theorem ownKeySnapshot_lists_mixed :
    (∃ snapshot, Listing mixedKinds mixedRecord (some 2) ⟨true, true, false⟩
        none snapshot ∧
      tryOwnKeySnapshotWithArray mixedKinds mixedRecord (some 2)
        ⟨true, true, false⟩ none (fun count => decide (count ≤ 6)) =
          .ok snapshot) ∧
    ∃ state snapshot, holedArray = .ok state ∧
      state.denseElements = [some .null, none, none, some .null] ∧
      Listing mixedKinds arrayRecord none ⟨true, true, true⟩ (some state)
        snapshot ∧
      tryOwnKeySnapshotWithArray mixedKinds arrayRecord none
        ⟨true, true, true⟩ (some state) (fun count => decide (count ≤ 4)) =
          .ok snapshot := by
  have boxed : Separate mixedRecord (some 2) none := by
    constructor
    · intro length boxed property member index same
      cases boxed
      simp only [mixedRecord, List.mem_cons, List.not_mem_nil,
        or_false] at member
      rcases member with rfl | rfl | rfl | rfl | rfl <;> cases same <;> decide
    · intro _ _ state kept
      cases kept
    · intro state kept
      cases kept
  have unboxed : ∀ state, Separate arrayRecord none (some state) := by
    intro state
    constructor
    · intro length kept
      cases kept
    · intro length kept
      cases kept
    · intro _ _ index _ _ property member
      simp only [arrayRecord, List.mem_cons, List.not_mem_nil,
        or_false] at member
      rcases member with rfl | rfl <;> exact PropertyKey.noConfusion
  constructor
  · obtain ⟨snapshot, listing, computed⟩ := ownKeySnapshot_lists mixedKinds
      mixedRecord (some 2) ⟨true, true, false⟩ none boxed
      (fun count => decide (count ≤ 6))
    exact ⟨snapshot, listing, computed⟩
  · obtain ⟨state, built⟩ : ∃ state, holedArray = .ok state := ⟨_, rfl⟩
    have elements : holedArray.toOption.map ArrayState.denseElements =
      some [some .null, none, none, some .null] := rfl
    rw [built] at elements
    have holes : state.denseElements = [some .null, none, none, some .null] :=
      Option.some.inj elements
    have counted : state.densePropertyCount = 2 := by
      rw [(ArrayState.countP_denseElements state).1, holes]
      rfl
    obtain ⟨snapshot, listing, computed⟩ := ownKeySnapshot_lists mixedKinds
      arrayRecord none ⟨true, true, true⟩ (some state) (unboxed state)
      (fun count => decide (count ≤ 4))
    refine ⟨state, snapshot, built, holes, listing, ?_⟩
    rw [computed, if_pos]
    rw [ownKeyCandidateCountWithArray]
    simp only [Option.elim_some, counted]
    decide

end Snapshot

end Fusor.Runtime.OwnKeys
