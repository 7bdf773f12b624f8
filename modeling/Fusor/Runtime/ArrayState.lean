import Fusor.Runtime.ArrayIndex
import Fusor.Runtime.Value

/-!
# The storage of arrays

An array keeps elements densely as long as it can, with holes between them and
a count of the elements that are present.  The count is what the key
enumeration reserves its space by, so it is kept with its meaning by every
operation on the storage.  Whether a reservation succeeds is a parameter.
-/

namespace Fusor.Runtime

inductive ArrayStorage where
  | dense (elements : List (Option StoredValue)) (present : Nat)
  | sparse

namespace ArrayStorage

/-- The present elements are counted, and array indices number them. -/
def Formed : ArrayStorage → Prop
  | .dense elements present =>
      present = elements.countP Option.isSome ∧
        elements.length ≤ maxArrayIndex + 1
  | .sparse => True

def saturatingAdd (left right : Nat) : Nat :=
  min (left + right) (2 ^ 64 - 1)

/-- `resize_with` holes up to and including an index, as far as they are
missing. -/
def padded (elements : List (Option StoredValue)) (index : Nat) :
    List (Option StoredValue) :=
  elements ++ List.replicate (index + 1 - elements.length) none

section Counting

variable {elements : List (Option StoredValue)} {present : Nat}

theorem lt_length_padded (elements : List (Option StoredValue)) (index : Nat) :
    index < (padded elements index).length := by
  rw [padded, List.length_append, List.length_replicate]
  omega

theorem formed_padded (formed : Formed (.dense elements present)) {index : Nat}
    (bounded : index ≤ maxArrayIndex) :
    Formed (.dense (padded elements index) present) := by
  obtain ⟨counted, short⟩ := formed
  constructor
  · rw [padded, List.countP_append, List.countP_replicate, counted]
    simp
  · rw [padded, List.length_append, List.length_replicate]
    omega

theorem formed_store (formed : Formed (.dense elements present)) {index : Nat}
    (inside : index < elements.length) (value : StoredValue) :
    Formed (.dense (elements.set index (some value))
      (if elements[index].isNone then saturatingAdd present 1
        else present)) := by
  obtain ⟨counted, short⟩ := formed
  refine ⟨?_, by rw [List.length_set]; exact short⟩
  have fewer := List.countP_le_length (l := elements) (p := Option.isSome)
  rw [List.countP_set inside, ← counted]
  cases here : elements[index] with
  | none =>
      rw [maxArrayIndex] at short
      simp only [Option.isNone_none, if_true, saturatingAdd, Option.isSome_none,
        Bool.false_eq_true, if_false, Option.isSome_some]
      omega
  | some old =>
      have positive : 0 < elements.countP Option.isSome :=
        List.countP_pos_iff.mpr
          ⟨elements[index], List.getElem_mem inside, by rw [here]; rfl⟩
      simp only [Option.isNone_some, Bool.false_eq_true, if_false,
        Option.isSome_some, if_true]
      omega

theorem formed_delete (formed : Formed (.dense elements present)) {index : Nat}
    (inside : index < elements.length) (kept : elements[index].isSome) :
    Formed (.dense (elements.set index none) (present - 1)) := by
  obtain ⟨counted, short⟩ := formed
  refine ⟨?_, by rw [List.length_set]; exact short⟩
  rw [List.countP_set inside, counted, if_pos kept]
  simp

theorem formed_truncate (formed : Formed (.dense elements present))
    (length : Nat) :
    Formed (.dense (elements.take length)
      (present - (elements.drop length).countP Option.isSome)) := by
  obtain ⟨counted, short⟩ := formed
  refine ⟨?_, (List.length_take_le' _ _).trans short⟩
  have split := congrArg (List.countP Option.isSome)
    (List.take_append_drop length elements)
  rw [List.countP_append] at split
  omega

end Counting

end ArrayStorage

structure ArrayState where
  length : UInt32
  storage : ArrayStorage
  formed : storage.Formed

/-- A reservation that fails, or a dense write to sparse storage. -/
inductive DenseFault where
  | reservation
  | unreachable
  deriving DecidableEq

namespace ArrayState

def maxDenseArrayGap : Nat := 1024

theorem length_le_of_u32 (length : UInt32) :
    length.toNat ≤ maxArrayIndex + 1 := by
  have small := length.toNat_lt
  rw [maxArrayIndex]
  omega

def new (length : UInt32) : ArrayState :=
  ⟨length, .dense [] 0, rfl, Nat.zero_le _⟩

def sparse (length : UInt32) : ArrayState :=
  ⟨length, .sparse, trivial⟩

/-- The number of the elements is asserted to be the length. -/
def dense (length : UInt32) (elements : List StoredValue)
    (counted : length.toNat = elements.length) : ArrayState where
  length := length
  storage := .dense (elements.map some) elements.length
  formed := by
    constructor
    · rw [List.countP_map]
      exact (List.countP_eq_length.mpr fun _ _ => rfl).symm
    · rw [List.length_map, ← counted]
      exact length_le_of_u32 length

def canStoreDense (state : ArrayState) (index : ArrayIndex) : Bool :=
  match state.storage with
  | .dense elements _ =>
      decide (index.value ≤
        ArrayStorage.saturatingAdd elements.length maxDenseArrayGap)
  | .sparse => false

def tryRestoreDense (state : ArrayState) (reserves : Nat → Bool)
    (index : ArrayIndex) : Except DenseFault (Bool × ArrayState) :=
  match state.storage with
  | .dense _ _ => .ok (false, state)
  | .sparse =>
      if maxDenseArrayGap < index.value + 1 then .ok (false, state)
      else if reserves (index.value + 1) then
        .ok (true, ⟨state.length, .dense (ArrayStorage.padded [] index.value) 0,
          ArrayStorage.formed_padded ⟨rfl, Nat.zero_le _⟩ index.bounded⟩)
      else .error .reservation

def tryStoreDense (state : ArrayState) (reserves : Nat → Bool)
    (index : ArrayIndex) (value : StoredValue) :
    Except DenseFault (Bool × ArrayState) :=
  match state with
  | ⟨_, .sparse, _⟩ => .error .unreachable
  | ⟨length, .dense elements present, formed⟩ =>
      if elements.length ≤ index.value ∧
          ¬ reserves (index.value + 1 - elements.length) then
        .error .reservation
      else
        let grown := ArrayStorage.padded elements index.value
        have inside := ArrayStorage.lt_length_padded elements index.value
        let created := grown[index.value].isNone
        .ok (created,
          ⟨length, .dense (grown.set index.value (some value))
            (if created then ArrayStorage.saturatingAdd present 1 else present),
            ArrayStorage.formed_store
              (ArrayStorage.formed_padded formed index.bounded) inside value⟩)

def tryRestoreDenseAndStore (state : ArrayState) (reserves : Nat → Bool)
    (index : ArrayIndex) (value : StoredValue) :
    Except DenseFault (Bool × ArrayState) :=
  if state.canStoreDense index then state.tryStoreDense reserves index value
  else do
    let (restored, state) ← state.tryRestoreDense reserves index
    if restored then state.tryStoreDense reserves index value
    else .ok (false, state)

def deleteDense (state : ArrayState) (index : ArrayIndex) : Bool × ArrayState :=
  match state with
  | ⟨length, .sparse, formed⟩ => (false, ⟨length, .sparse, formed⟩)
  | ⟨length, .dense elements present, formed⟩ =>
      if inside : index.value < elements.length then
        if kept : elements[index.value].isSome then
          (true, ⟨length, .dense (elements.set index.value none) (present - 1),
            ArrayStorage.formed_delete formed inside kept⟩)
        else (false, ⟨length, .dense elements present, formed⟩)
      else (false, ⟨length, .dense elements present, formed⟩)

def truncateDense (state : ArrayState) (newLength : UInt32) :
    Nat × ArrayState :=
  match state with
  | ⟨length, .sparse, formed⟩ => (0, ⟨length, .sparse, formed⟩)
  | ⟨length, .dense elements present, formed⟩ =>
      if elements.length ≤ newLength.toNat then
        (0, ⟨length, .dense elements present, formed⟩)
      else
        let removed := (elements.drop newLength.toNat).countP Option.isSome
        (removed, ⟨length,
          .dense (elements.take newLength.toNat) (present - removed),
          ArrayStorage.formed_truncate formed newLength.toNat⟩)

def densePropertyCount (state : ArrayState) : Nat :=
  match state.storage with
  | .dense _ present => present
  | .sparse => 0

def denseElements (state : ArrayState) : List (Option StoredValue) :=
  match state.storage with
  | .dense elements _ => elements
  | .sparse => []

def denseIndices (state : ArrayState) : List ArrayIndex :=
  state.denseElements.zipIdx.filterMap fun (value, index) =>
    value.bind fun _ => ArrayIndex.new index

def denseValue (state : ArrayState) (index : ArrayIndex) :
    Option StoredValue :=
  (state.denseElements[index.value]?).join

section Indices

theorem countP_denseElements (state : ArrayState) :
    state.densePropertyCount = state.denseElements.countP Option.isSome ∧
      state.denseElements.length ≤ maxArrayIndex + 1 := by
  have formed := state.formed
  unfold densePropertyCount denseElements
  cases kept : state.storage with
  | dense elements present =>
      rw [kept] at formed
      exact formed
  | sparse => exact ⟨rfl, Nat.zero_le _⟩

theorem eq_of_value {first second : ArrayIndex}
    (same : first.value = second.value) : first = second := by
  cases first
  cases second
  cases same
  rfl

theorem new_eq_some {value : Nat} {index : ArrayIndex} :
    ArrayIndex.new value = some index ↔ index.value = value := by
  unfold ArrayIndex.new
  by_cases bounded : value ≤ maxArrayIndex
  · rw [dif_pos bounded, Option.some.injEq]
    constructor
    · intro same
      rw [← same]
    · intro same
      exact eq_of_value same.symm
  · rw [dif_neg bounded]
    constructor
    · intro same
      cases same
    · intro same
      exact absurd (same ▸ index.bounded) bounded

/-- The dense indices are those of the present elements. -/
theorem mem_denseIndices {state : ArrayState} {index : ArrayIndex} :
    index ∈ state.denseIndices ↔ ∃ value, state.denseValue index = some value := by
  rw [denseIndices, List.mem_filterMap]
  constructor
  · intro ⟨(element, place), member, found⟩
    rw [List.mem_zipIdx_iff_getElem?] at member
    obtain ⟨value, present, numbered⟩ := Option.bind_eq_some_iff.mp found
    have same := new_eq_some.mp numbered
    refine ⟨value, ?_⟩
    rw [denseValue, same]
    rw [member, ← present]
    rfl
  · intro ⟨value, found⟩
    rw [denseValue, Option.join_eq_some_iff] at found
    refine ⟨(some value, index.value), ?_, ?_⟩
    · rw [List.mem_zipIdx_iff_getElem?]
      exact found
    · exact new_eq_some.mpr rfl

theorem denseIndices_ascending (state : ArrayState) :
    state.denseIndices.Pairwise fun first second =>
      first.value < second.value := by
  rw [denseIndices, List.pairwise_filterMap, List.pairwise_iff_getElem]
  intro first second firstInside secondInside ordered left leftFound right
    rightFound
  rw [List.getElem_zipIdx] at leftFound rightFound
  obtain ⟨_, _, leftNumbered⟩ := Option.bind_eq_some_iff.mp leftFound
  obtain ⟨_, _, rightNumbered⟩ := Option.bind_eq_some_iff.mp rightFound
  rw [new_eq_some.mp leftNumbered, new_eq_some.mp rightNumbered]
  omega

theorem length_denseIndices (state : ArrayState) :
    state.denseIndices.length = state.densePropertyCount := by
  obtain ⟨counted, short⟩ := countP_denseElements state
  rw [counted, denseIndices, List.length_filterMap_eq_countP,
    ← List.zipIdx_map_fst 0 state.denseElements, List.countP_map,
    List.zipIdx_map_fst]
  apply List.countP_congr
  intro (element, place) member
  rw [List.mem_zipIdx_iff_getElem?] at member
  have inside := (List.getElem?_eq_some_iff.mp member).1
  have bounded : place ≤ maxArrayIndex := by
    change place < _ at inside
    omega
  cases element with
  | none => exact Iff.rfl
  | some value =>
      change (ArrayIndex.new place).isSome = true ↔ true = true
      rw [ArrayIndex.new, dif_pos bounded]
      exact Iff.rfl

end Indices

section Storing

variable {state next : ArrayState} {reserves : Nat → Bool}
  {index : ArrayIndex} {value : StoredValue} {created : Bool}

theorem join_padded (elements : List (Option StoredValue)) (index place : Nat) :
    ((ArrayStorage.padded elements index)[place]?).join =
      (elements[place]?).join := by
  rw [ArrayStorage.padded, List.getElem?_append]
  split
  · rfl
  · rename_i outside
    rw [List.getElem?_replicate, List.getElem?_eq_none (Nat.not_lt.mp outside)]
    split <;> rfl

theorem join_set {elements : List (Option StoredValue)}
    (inside : index.value < elements.length) (element : Option StoredValue)
    (other : ArrayIndex) :
    ((elements.set index.value element)[other.value]?).join =
      if other = index then element else (elements[other.value]?).join := by
  rw [List.getElem?_set]
  by_cases same : other = index
  · rw [same, if_pos rfl, if_pos inside, if_pos rfl]
    rfl
  · have apart : index.value ≠ other.value := fun equal =>
      same (eq_of_value equal.symm)
    rw [if_neg apart, if_neg same]

/-- A dense write sets its own index, and says whether it was a hole. -/
theorem denseValue_tryStoreDense
    (stored : state.tryStoreDense reserves index value = .ok (created, next))
    (other : ArrayIndex) :
    next.denseValue other =
        (if other = index then some value else state.denseValue other) ∧
      created = (state.denseValue index).isNone := by
  obtain ⟨length, storage, formed⟩ := state
  cases storage with
  | sparse => cases stored
  | dense elements present =>
      rw [tryStoreDense] at stored
      split at stored
      · cases stored
      · have inside := ArrayStorage.lt_length_padded elements index.value
        have kept := join_padded elements index.value
        cases stored
        constructor
        · simp only [denseValue, denseElements]
          rw [join_set inside, kept]
        · simp only [denseValue, denseElements]
          rw [← kept, List.getElem?_eq_getElem inside]
          rfl

/-- Restored storage has no element, as the sparse storage had none. -/
theorem denseValue_tryRestoreDense {restored : Bool}
    (done : state.tryRestoreDense reserves index = .ok (restored, next))
    (other : ArrayIndex) : next.denseValue other = state.denseValue other := by
  rw [tryRestoreDense] at done
  split at done
  · cases done
    rfl
  · rename_i kept
    split at done
    · cases done
      rfl
    · split at done
      · cases done
        simp only [denseValue, denseElements, kept]
        exact join_padded [] index.value other.value
      · cases done

theorem denseValue_deleteDense (state : ArrayState) (index other : ArrayIndex) :
    (state.deleteDense index).2.denseValue other =
      if other = index then none else state.denseValue other := by
  obtain ⟨length, storage, formed⟩ := state
  cases storage with
  | sparse =>
      change none = _
      split <;> rfl
  | dense elements present =>
      have hole : ∀ absent : (elements[index.value]?).join = none,
          (elements[other.value]?).join =
            if other = index then none else (elements[other.value]?).join := by
        intro absent
        split
        · rename_i same
          rw [same, absent]
        · rfl
      rw [deleteDense]
      split
      · rename_i inside
        split
        · simp only [denseValue, denseElements]
          exact join_set inside none other
        · rename_i absent
          apply hole
          rw [List.getElem?_eq_getElem inside]
          exact Option.not_isSome_iff_eq_none.mp absent
      · rename_i outside
        apply hole
        rw [List.getElem?_eq_none (Nat.not_lt.mp outside)]
        rfl

theorem denseValue_truncateDense (state : ArrayState) (length : UInt32)
    (other : ArrayIndex) :
    (state.truncateDense length).2.denseValue other =
      if other.value < length.toNat then state.denseValue other else none := by
  obtain ⟨before, storage, formed⟩ := state
  cases storage with
  | sparse =>
      change none = _
      split <;> rfl
  | dense elements present =>
      rw [truncateDense]
      split
      · rename_i short
        simp only [denseValue, denseElements]
        split
        · rfl
        · rename_i outside
          rw [List.getElem?_eq_none (by omega)]
          rfl
      · simp only [denseValue, denseElements]
        rw [List.getElem?_take]
        split <;> rfl

end Storing

end ArrayState

end Fusor.Runtime
