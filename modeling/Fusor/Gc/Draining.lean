import Fusor.Gc.Collection

/-!
# Draining the releases of public roots

A release takes a public root from a function or an object.  What the nodes
hold, and every other part of the state that a collection reads, stays as it
is.
-/

namespace Fusor.Gc

open Fusor.Runtime Fusor.Graph

namespace HeapFunction

/-- A function without the number of its public roots. -/
def content (function : HeapFunction) :
    FunctionImplementation × ObjectRecord :=
  (function.implementation, function.object)

end HeapFunction

namespace HeapObject

def content (object : HeapObject) : HeapObjectKind × ObjectRecord :=
  (object.kind, object.record)

end HeapObject

namespace RuntimeHeap

/-- The arenas are well formed. -/
structure Valid (heap : RuntimeHeap) : Prop where
  functions : heap.functions.Valid
  objects : heap.objects.Valid
  cells : heap.cells.Valid
  code : heap.code.Valid

/-- The entries of all collections. -/
def entryTotal (heap : RuntimeHeap) : Nat :=
  heap.objects.total HeapObject.collectionEntryCount

/-- Two states that differ in their public roots only. -/
structure SameContent (heap next : RuntimeHeap) : Prop where
  functions : ∀ id, (next.functions.get id).map HeapFunction.content =
    (heap.functions.get id).map HeapFunction.content
  objects : ∀ id, (next.objects.get id).map HeapObject.content =
    (heap.objects.get id).map HeapObject.content
  entries : next.entryTotal = heap.entryTotal
  valid : heap.Valid → next.Valid
  rest : next = { heap with
    mailbox := next.mailbox
    functions := next.functions
    objects := next.objects
    publicRoots := next.publicRoots
    collectionPending := next.collectionPending }

variable {heap middle next : RuntimeHeap}

theorem SameContent.trans (first : SameContent heap middle)
    (second : SameContent middle next) : SameContent heap next := by
  refine ⟨fun id => (second.functions id).trans (first.functions id),
    fun id => (second.objects id).trans (first.objects id),
    second.entries.trans first.entries,
    fun valid => second.valid (first.valid valid), ?_⟩
  have later := second.rest
  rw [first.rest] at later
  exact later

theorem getMut_valid {T : Type} {arena : Arena T} (valid : arena.Valid)
    (id : ArenaId) (write : T → T) : (arena.getMut id write).1.Valid := by
  obtain ⟨last, value, written, stepped, _⟩ :=
    Arena.getMut_spec valid id write
  rw [written]
  exact stepped.valid

/-- Writing what a projection does not see leaves the projections. -/
theorem map_getMut {T V : Type} (arena : Arena T) (id other : ArenaId)
    (write : T → T) (project : T → V)
    (same : ∀ value, project (write value) = project value) :
    ((arena.getMut id write).1.get other).map project =
      (arena.get other).map project := by
  rw [Arena.get_getMut]
  split
  · rename_i equal
    subst equal
    rw [Option.map_map]
    congr 1
    exact funext same
  · rfl

theorem release_sameContent (heap : RuntimeHeap)
    (reference : HeapReference) :
    SameContent heap (heap.release reference) := by
  have unchanged : SameContent heap heap :=
    ⟨fun _ => rfl, fun _ => rfl, rfl, id, rfl⟩
  cases reference with
  | function id =>
      let write : HeapFunction → HeapFunction := fun function =>
        { function with publicRoots := function.publicRoots - 1 }
      have read := fun other => map_getMut heap.functions id other write
        HeapFunction.content fun _ => rfl
      have formed := fun valid : heap.functions.Valid =>
        getMut_valid valid id write
      unfold release
      simp only
      split
      · rename_i functions old written
        change heap.functions.getMut id write = _ at written
        rw [written] at read formed
        exact ⟨read, fun _ => rfl, rfl, fun valid =>
          ⟨formed valid.functions, valid.objects, valid.cells, valid.code⟩,
          rfl⟩
      · exact unchanged
  | object id =>
      let write : HeapObject → HeapObject := fun object =>
        { object with publicRoots := object.publicRoots - 1 }
      have read := fun other => map_getMut heap.objects id other write
        HeapObject.content fun _ => rfl
      have formed := fun valid : heap.objects.Valid =>
        getMut_valid valid id write
      have counted := Arena.total_getMut HeapObject.collectionEntryCount
        heap.objects id write
      have same : HeapObject.collectionEntryCount ∘ write =
          HeapObject.collectionEntryCount := rfl
      rw [same] at counted
      unfold release
      simp only
      split
      · rename_i objects old written
        change heap.objects.getMut id write = _ at written
        rw [written] at read formed counted
        exact ⟨fun _ => rfl, read, Nat.add_right_cancel counted, fun valid =>
          ⟨valid.functions, formed valid.objects, valid.cells, valid.code⟩,
          rfl⟩
      · exact unchanged

theorem releases_sameContent (references : List HeapReference)
    (heap : RuntimeHeap) :
    SameContent heap (references.foldl release heap) := by
  induction references generalizing heap with
  | nil => exact ⟨fun _ => rfl, fun _ => rfl, rfl, id, rfl⟩
  | cons reference references induction =>
      exact (release_sameContent heap reference).trans
        (induction (heap.release reference))

theorem drainReleases_sameContent (heap : RuntimeHeap) :
    SameContent heap heap.drainReleases := by
  have started : SameContent heap { heap with
      mailbox := []
      collectionPending :=
        heap.collectionPending || !heap.mailbox.isEmpty } :=
    ⟨fun _ => rfl, fun _ => rfl, rfl,
      fun valid => ⟨valid.functions, valid.objects, valid.cells, valid.code⟩,
      rfl⟩
  exact started.trans (releases_sameContent heap.mailbox _)

/-- A field that draining leaves alone. -/
theorem SameContent.field {V : Type} (same : SameContent heap next)
    (project : RuntimeHeap → V)
    (independent : ∀ mailbox functions objects publicRoots collectionPending,
      project { heap with
        mailbox := mailbox
        functions := functions
        objects := objects
        publicRoots := publicRoots
        collectionPending := collectionPending } = project heap) :
    project next = project heap := by
  rw [same.rest]
  exact independent _ _ _ _ _

end RuntimeHeap

end Fusor.Gc
