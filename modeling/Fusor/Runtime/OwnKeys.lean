import Fusor.Runtime.ArrayState
import Fusor.Runtime.Property
import Fusor.Runtime.PropertyKeys

/-!
# Own key enumeration

A snapshot of the own keys of an object lists array indices, strings and
symbols in that order.  Its space is reserved by a count that is made without
the snapshot.  The kind of an atom is a parameter, and so is whether a
reservation succeeds.
-/

namespace Fusor.Runtime

namespace PropertyKey

def asIndex : PropertyKey → Option ArrayIndex
  | .index number => some number
  | .atom _ => none

def asAtom : PropertyKey → Option Nat
  | .index _ => none
  | .atom entry => some entry

end PropertyKey

namespace OwnKeys

structure ShapeProperty where
  key : PropertyKey
  layout : PropertyLayout
  deriving DecidableEq

def isizeMax : Nat := 2 ^ 63 - 1

def usizeMax : Nat := 2 ^ 64 - 1

/-- The properties of an object in the order of their creation. -/
structure ObjectRecord where
  shape : List ShapeProperty
  distinct : (shape.map ShapeProperty.key).Nodup
  bounded : shape.length ≤ isizeMax

structure KeyPhases where
  indices : Bool
  strings : Bool
  symbols : Bool
  deriving DecidableEq

inductive AtomKeyPhase where
  | string
  | symbol
  deriving DecidableEq

structure ForInCandidate where
  key : PropertyKey
  enumerable : Bool
  deriving DecidableEq

structure ForInSnapshot where
  candidates : List ForInCandidate
  sortWork : Nat
  deriving DecidableEq

/-- A reservation that fails, or an expectation that does not hold. -/
inductive SnapshotFault where
  | reservation
  | notIndex
  deriving DecidableEq

def saturatingAdd (left right : Nat) : Nat :=
  min (left + right) usizeMax

def saturatingMul (left right : Nat) : Nat :=
  min (left * right) (2 ^ 64 - 1)

def conservativeSortWork (entries : Nat) : Nat :=
  if entries ≤ 1 then 0
  else
    let levels := Nat.log2 (entries - 1) + 1
    saturatingMul (saturatingMul entries levels) 2

section Enumeration

variable (kinds : Nat → AtomKind) (record : ObjectRecord)
  (stringLength : Option UInt32) (phases : KeyPhases)
  (array : Option ArrayState)

def virtualIndices : Nat :=
  if phases.indices then (stringLength.getD 0).toNat else 0

/-- Whether the count includes a property of the record. -/
def counts (property : ShapeProperty) : Bool :=
  match property.key with
  | .index index =>
      phases.indices && decide (virtualIndices stringLength phases ≤ index.value)
  | .atom atom =>
      match kinds atom with
      | .string => phases.strings
      | .symbol => phases.symbols
      | .globalSymbol => phases.symbols
      | .privateName => false

def ownKeyCandidateCountWithArray : Nat :=
  let denseIndices :=
    if phases.indices then array.elim 0 ArrayState.densePropertyCount else 0
  let ordinary := record.shape.filter (counts kinds stringLength phases)
  saturatingAdd
    (saturatingAdd (virtualIndices stringLength phases) denseIndices)
    ordinary.length

def isInPhase (phase : AtomKeyPhase) (property : ShapeProperty) : Bool :=
  property.key.asAtom.any fun atom =>
    match phase with
    | .string => kinds atom = .string
    | .symbol => kinds atom = .symbol || kinds atom = .globalSymbol

def candidate (property : ShapeProperty) : ForInCandidate :=
  ⟨property.key, property.layout.isEnumerable⟩

def pushAtomKeys (candidates : List ForInCandidate) (phase : AtomKeyPhase) :
    List ForInCandidate :=
  candidates ++ (record.shape.filter (isInPhase kinds phase)).map candidate

def virtualCandidate (index : Nat) : Except SnapshotFault ForInCandidate :=
  match ArrayIndex.new index with
  | some index => .ok ⟨.index index, true⟩
  | none => .error .notIndex

def denseCandidates : List ForInCandidate :=
  array.elim [] fun state =>
    state.denseIndices.map fun index => ⟨.index index, true⟩

def isSparse (least : Nat) (property : ShapeProperty) : Bool :=
  property.key.asIndex.any fun index => decide (least ≤ index.value)

def sparseCandidates (least : Nat) : List ForInCandidate :=
  (record.shape.filter (isSparse least)).map candidate

/-- The number that index candidates are sorted by. -/
def indexOf (candidate : ForInCandidate) : Nat :=
  candidate.key.asIndex.elim 0 ArrayIndex.value

/-- Sorting by index.  No two candidates have the same, so that it does not
matter that the source's sort is not stable. -/
def sortByIndex (candidates : List ForInCandidate) :
    Except SnapshotFault (List ForInCandidate) :=
  if candidates.all fun candidate => candidate.key.asIndex.isSome then
    .ok (candidates.mergeSort fun left right =>
      decide (indexOf left ≤ indexOf right))
  else .error .notIndex

def indexCandidates : Except SnapshotFault (List ForInCandidate × Nat) := do
  let least := virtualIndices stringLength phases
  if phases.indices then
    let virtual ← (List.range least).mapM virtualCandidate
    let candidates := virtual ++ denseCandidates array ++
      sparseCandidates record least
    let sorted ← sortByIndex candidates
    .ok (sorted, conservativeSortWork candidates.length)
  else .ok ([], 0)

def tryOwnKeySnapshotWithArray (reserves : Nat → Bool) :
    Except SnapshotFault ForInSnapshot :=
  if reserves (ownKeyCandidateCountWithArray kinds record stringLength phases
      array) then do
    let (candidates, sortWork) ← indexCandidates record stringLength phases array
    let candidates :=
      if phases.strings then pushAtomKeys kinds record candidates .string
      else candidates
    let candidates :=
      if phases.symbols then pushAtomKeys kinds record candidates .symbol
      else candidates
    .ok ⟨candidates, sortWork⟩
  else .error .reservation

end Enumeration

end OwnKeys

end Fusor.Runtime
