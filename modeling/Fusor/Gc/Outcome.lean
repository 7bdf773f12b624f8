import Fusor.Gc.Pruning

/-!
# What a collection leaves

The state after a successful collection is described in terms of the state
after the releases were drained: which nodes are still there, how the objects
were pruned, and what became of the counters.
-/

namespace Fusor.Gc

open Fusor.Runtime Fusor.Graph

section Pruning

variable (live : (Nat → Nat) → WeakKey → Bool)

/-- The keys examined when objects are pruned one after another. -/
def examinedBy (objects : Arena HeapObject) (order : List ObjectId) :
    List Examined :=
  order.flatMap fun id =>
    ((objects.get id).map fun object => object.kind.examined).getD []

/-- The owners of the symbols when the objects were pruned. -/
def ownersAfter (objects : Arena HeapObject) (strongCount : Nat → Nat)
    (order : List ObjectId) : Nat → Nat :=
  (examinedBy objects order).foldl (examine live) strongCount

theorem examinedBy_congr {first second : Arena HeapObject}
    {order : List ObjectId}
    (same : ∀ id ∈ order, first.get id = second.get id) :
    examinedBy first order = examinedBy second order := by
  apply List.flatMap_congr
  intro id member
  rw [same id member]

theorem pruneObject_objects (state : PruneState) (id other : ObjectId) :
    (pruneObject live state id).objects.get other =
      if other = id then (state.objects.get id).map fun object =>
        { object with
          kind := (pruneKind live state.strongCount object.kind).1 }
      else state.objects.get other := by
  unfold pruneObject
  cases stored : state.objects.get id with
  | none =>
      by_cases same : other = id
      · rw [if_pos same, same, Option.map_none]
        exact stored
      · rw [if_neg same]
  | some object =>
      simp only [Arena.get_getMut, stored, Option.map_some]

theorem pruneObject_strongCount (state : PruneState) (id : ObjectId) :
    (pruneObject live state id).strongCount =
      ownersAfter live state.objects state.strongCount [id] := by
  unfold pruneObject ownersAfter examinedBy
  cases stored : state.objects.get id with
  | none => simp [stored]
  | some object =>
      simp only [pruneKind_strongCount, List.flatMap_cons, stored,
        Option.map_some, Option.getD_some, List.flatMap_nil, List.append_nil]

theorem retainKeys_length_le (entries : List (WeakKey × StoredValue))
    (strongCount : Nat → Nat) :
    (retainKeys live strongCount entries).1.length ≤ entries.length := by
  induction entries generalizing strongCount with
  | nil => exact Nat.le_refl _
  | cons entry rest induction =>
      obtain ⟨key, value⟩ := entry
      unfold retainKeys
      split
      · exact Nat.succ_le_succ (induction strongCount)
      · exact Nat.le_succ_of_le (induction (dropValue strongCount value))

theorem pruneKind_entries (strongCount : Nat → Nat) (object : HeapObject) :
    ({ object with kind :=
          (pruneKind live strongCount object.kind).1 } :
        HeapObject).collectionEntryCount +
        (pruneKind live strongCount object.kind).2.2 =
      object.collectionEntryCount := by
  unfold HeapObject.collectionEntryCount
  cases object.kind with
  | weakMap entries =>
      exact Nat.add_sub_cancel' (retainKeys_length_le live entries strongCount)
  | weakSet entries =>
      exact Nat.add_sub_cancel' (List.length_filter_le _ entries)
  | finalizationRegistry state => simp [pruneKind]
  | _ => simp [pruneKind]

theorem pruneObject_total (state : PruneState) (id : ObjectId) :
    (pruneObject live state id).objects.total
        HeapObject.collectionEntryCount +
        (pruneObject live state id).reclaimed =
      state.objects.total HeapObject.collectionEntryCount +
        state.reclaimed := by
  unfold pruneObject
  cases stored : state.objects.get id with
  | none => rfl
  | some object =>
      let write : HeapObject → HeapObject := fun other =>
        { other with kind := (pruneKind live state.strongCount object.kind).1 }
      have moved := Arena.total_getMut HeapObject.collectionEntryCount
        state.objects id write
      have entries : (write object).collectionEntryCount +
          (pruneKind live state.strongCount object.kind).2.2 =
            object.collectionEntryCount :=
        pruneKind_entries live state.strongCount object
      simp only [stored, Option.map_some, Option.getD_some,
        Function.comp_apply] at moved
      change (state.objects.getMut id write).1.total
        HeapObject.collectionEntryCount + (state.reclaimed +
          (pruneKind live state.strongCount object.kind).2.2) = _
      omega

/-- What pruning the objects one after another leaves. -/
structure PrunedInOrder (objects : Arena HeapObject) (strongCount : Nat → Nat)
    (order : List ObjectId) (final : Arena HeapObject) : Prop where
  others : ∀ id, id ∉ order → final.get id = objects.get id
  pruned : ∀ before id after, order = before ++ id :: after →
    final.get id = (objects.get id).map fun object =>
      { object with
        kind := (pruneKind live
          (ownersAfter live objects strongCount before) object.kind).1 }

theorem pruneAll_spec (order : List ObjectId) (distinct : order.Nodup)
    (state : PruneState) :
    PrunedInOrder live state.objects state.strongCount order
        (order.foldl (pruneObject live) state).objects ∧
      (order.foldl (pruneObject live) state).objects.total
          HeapObject.collectionEntryCount +
          (order.foldl (pruneObject live) state).reclaimed =
        state.objects.total HeapObject.collectionEntryCount +
          state.reclaimed := by
  induction order generalizing state with
  | nil =>
      refine ⟨⟨fun _ _ => rfl, ?_⟩, rfl⟩
      intro before id after split
      exact absurd split.symm (by simp)
  | cons first rest induction =>
      obtain ⟨fresh, later⟩ := List.nodup_cons.mp distinct
      obtain ⟨step, counted⟩ := induction later (pruneObject live state first)
      have unchanged : ∀ id ∈ rest,
          (pruneObject live state first).objects.get id =
            state.objects.get id := by
        intro id member
        rw [pruneObject_objects, if_neg]
        rintro rfl
        exact fresh member
      refine ⟨⟨?_, ?_⟩, counted.trans (pruneObject_total live state first)⟩
      · intro id outside
        rw [List.mem_cons, not_or] at outside
        rw [List.foldl_cons, step.others id outside.2, pruneObject_objects,
          if_neg outside.1]
      · intro before id after split
        rw [List.foldl_cons]
        cases before with
        | nil =>
            rw [List.nil_append, List.cons.injEq] at split
            obtain ⟨rfl, rfl⟩ := split
            rw [step.others first fresh, pruneObject_objects, if_pos rfl]
            rfl
        | cons head before =>
            rw [List.cons_append, List.cons.injEq] at split
            obtain ⟨rfl, rfl⟩ := split
            rw [step.pruned before id after rfl, unchanged id (by simp)]
            have owners : ownersAfter live
                (pruneObject live state first).objects
                (pruneObject live state first).strongCount before =
                ownersAfter live state.objects state.strongCount
                  (first :: before) := by
              rw [pruneObject_strongCount, ownersAfter, ownersAfter,
                ownersAfter, examinedBy_congr fun id member =>
                  unchanged id (List.mem_append_left _ member)]
              simp only [examinedBy, List.flatMap_cons, List.flatMap_nil,
                List.append_nil, List.foldl_append]
            rw [owners]

end Pruning

theorem get_setPending (jobs : List ObjectId) (distinct : jobs.Nodup)
    (objects : Arena HeapObject) (id : ObjectId) :
    (jobs.foldl (fun objects id =>
        (objects.getMut id setCleanupPending).1) objects).get id =
      if id ∈ jobs then (objects.get id).map setCleanupPending
      else objects.get id := by
  induction jobs generalizing objects with
  | nil => simp
  | cons job jobs induction =>
      obtain ⟨fresh, later⟩ := List.nodup_cons.mp distinct
      rw [List.foldl_cons, induction later, Arena.get_getMut]
      by_cases same : id = job
      · subst same
        simp [fresh]
      · simp [same]

theorem setCleanupPending_entries (object : HeapObject) :
    (setCleanupPending object).collectionEntryCount =
      object.collectionEntryCount := by
  unfold setCleanupPending
  split
  · rename_i state kind
    simp [HeapObject.collectionEntryCount, kind]
  · rfl

theorem total_setPending (jobs : List ObjectId)
    (objects : Arena HeapObject) :
    (jobs.foldl (fun objects id =>
        (objects.getMut id setCleanupPending).1) objects).total
        HeapObject.collectionEntryCount =
      objects.total HeapObject.collectionEntryCount := by
  induction jobs generalizing objects with
  | nil => rfl
  | cons job jobs induction =>
      rw [List.foldl_cons, induction]
      have moved := Arena.total_getMut HeapObject.collectionEntryCount
        objects job setCleanupPending
      have same : HeapObject.collectionEntryCount ∘ setCleanupPending =
          HeapObject.collectionEntryCount :=
        funext setCleanupPending_entries
      rw [same] at moved
      exact Nat.add_right_cancel moved

namespace RuntimeHeap

theorem mem_deadIds {T : Type} (arena : Arena T) (marked : Finset HeapItem)
    (node : ArenaId → GraphNode) (id : ArenaId) :
    id ∈ deadIds arena marked node ↔
      (arena.get id).isSome ∧ .node (node id) ∉ marked := by
  unfold deadIds
  rw [List.mem_filter, List.mem_map]
  constructor
  · rintro ⟨⟨⟨other, value⟩, member, rfl⟩, unmarked⟩
    rw [Arena.mem_iter] at member
    exact ⟨by simp [member], by simpa using unmarked⟩
  · rintro ⟨present, unmarked⟩
    obtain ⟨value, stored⟩ := Option.isSome_iff_exists.mp present
    exact ⟨⟨(id, value), (Arena.mem_iter _ _ _).mpr stored, rfl⟩,
      by simpa using unmarked⟩

/-- Removing the dead leaves the marked. -/
theorem get_removeDead {T : Type} {arena last : Arena T}
    {marked : Finset HeapItem} {node : ArenaId → GraphNode}
    {ids : List ArenaId} {removed : List T}
    (returned : arena.removeAll ids = .ok (last, removed))
    (dead : ∀ id, id ∈ ids ↔
      (arena.get id).isSome ∧ .node (node id) ∉ marked) (id : ArenaId) :
    last.get id = if .node (node id) ∈ marked then arena.get id else none := by
  rw [Arena.get_removeAll returned]
  by_cases kept : .node (node id) ∈ marked
  · rw [if_pos kept, if_neg]
    rw [dead]
    exact fun both => both.2 kept
  · rw [if_neg kept]
    by_cases listed : id ∈ ids
    · rw [if_pos listed]
    · rw [if_neg listed]
      rw [dead, not_and, not_not] at listed
      by_contra stored
      exact kept (listed (Option.isSome_iff_ne_none.mpr stored))

theorem releaseCode_templates
    (released : Arena InstalledCode × List InstalledCodeId)
    (function : HeapFunction) (id : InstalledCodeId) :
    ((releaseCode released function).1.get id).map InstalledCode.templates =
      (released.1.get id).map InstalledCode.templates := by
  unfold releaseCode
  split
  · rfl
  · rename_i code template _
    have read := Arena.get_getMut released.1 code id fun installed =>
      { installed with liveFunctions := installed.liveFunctions - 1 }
    split
    · rfl
    · rename_i next old written
      rw [written] at read
      simp only at read
      rw [read]
      split
      · rename_i same
        rw [same, Option.map_map]
        rfl
      · rfl

theorem releaseAll_templates (functions : List HeapFunction)
    (released : Arena InstalledCode × List InstalledCodeId)
    (id : InstalledCodeId) :
    ((functions.foldl releaseCode released).1.get id).map
        InstalledCode.templates =
      (released.1.get id).map InstalledCode.templates := by
  induction functions generalizing released with
  | nil => rfl
  | cons function functions induction =>
      rw [List.foldl_cons, induction, releaseCode_templates]

/-- The order in which a hash set yields the marked objects: each once. -/
structure Enumerates (order : List ObjectId) (marked : Finset HeapItem) :
    Prop where
  distinct : order.Nodup
  mem_iff : ∀ id, id ∈ order ↔ .node (.object id) ∈ marked

/-- An object after it was pruned and, if it is a queued registry, flagged. -/
def collectedObject (live : (Nat → Nat) → WeakKey → Bool)
    (owners : Nat → Nat) (jobs : List ObjectId) (id : ObjectId)
    (object : HeapObject) : HeapObject :=
  if id ∈ jobs then
    setCleanupPending
      { object with kind := (pruneKind live owners object.kind).1 }
  else { object with kind := (pruneKind live owners object.kind).1 }

/-- What a successful collection makes of the drained state. -/
structure Collected (drained next : RuntimeHeap) (marked : Finset HeapItem)
    (live : (Nat → Nat) → WeakKey → Bool) (strongCount : Nat → Nat)
    (order jobs : List ObjectId) : Prop where
  functions : ∀ id, next.functions.get id =
    if .node (.function id) ∈ marked then drained.functions.get id else none
  cells : ∀ id, next.cells.get id =
    if .node (.cell id) ∈ marked then drained.cells.get id else none
  unmarked : ∀ id, .node (.object id) ∉ marked → next.objects.get id = none
  objects : ∀ before id after, order = before ++ id :: after →
    next.objects.get id = (drained.objects.get id).map
      (collectedObject live
        (ownersAfter live drained.objects strongCount before) jobs id)
  code : ∀ id, next.code.get id = none ∨
    (next.code.get id).map InstalledCode.templates =
      (drained.code.get id).map InstalledCode.templates
  realms : next.realms = drained.realms
  modules : next.modules = drained.modules
  globalBindings : next.globalBindings = drained.globalBindings
  promiseJobs : next.promiseJobs = drained.promiseJobs
  atomicsWaiters : next.atomicsWaiters = drained.atomicsWaiters
  imports : next.pendingDynamicImports = drained.pendingDynamicImports
  keptAlive : next.keptAlive = drained.keptAlive
  finalizationJobs : next.finalizationJobs = drained.finalizationJobs ++ jobs
  generators : next.generatorStates = withoutDead
    (deadIds drained.objects marked .object) drained.generatorStates
  asyncFunctions : next.asyncFunctionStates = withoutDead
    (deadIds drained.objects marked .object) drained.asyncFunctionStates
  asyncGenerators : next.asyncGeneratorStates = withoutDead
    (deadIds drained.objects marked .object) drained.asyncGeneratorStates
  arrayFromAsync : next.arrayFromAsyncStates = withoutDead
    (deadIds drained.objects marked .object) drained.arrayFromAsyncStates
  entries : ∃ disappeared,
    next.objects.total HeapObject.collectionEntryCount + disappeared =
      drained.objects.total HeapObject.collectionEntryCount ∧
    next.collectionEntries = drained.collectionEntries - disappeared

/-- What a collection marks, which keys it takes for alive, and which
registries it queues. -/
def marks (heap : RuntimeHeap) (strongCount : Nat → Nat)
    (additional : List GraphNode) : Finset HeapItem :=
  heap.drainReleases.mark strongCount additional

def liveness (heap : RuntimeHeap) (strongCount : Nat → Nat)
    (additional : List GraphNode) : (Nat → Nat) → WeakKey → Bool :=
  weakKeyIsLive (heap.marks strongCount additional)
    heap.drainReleases.ephemeronSymbolOwners

def jobs (heap : RuntimeHeap) (strongCount : Nat → Nat)
    (additional : List GraphNode) (order : List ObjectId) : List ObjectId :=
  heap.drainReleases.cleanupJobs
    (heap.liveness strongCount additional strongCount) order

theorem isSome_pruned {live : (Nat → Nat) → WeakKey → Bool}
    {objects final : Arena HeapObject} {strongCount : Nat → Nat}
    {order : List ObjectId}
    (pruned : PrunedInOrder live objects strongCount order final)
    (id : ObjectId) : (final.get id).isSome = (objects.get id).isSome := by
  by_cases member : id ∈ order
  · obtain ⟨before, after, split⟩ := List.append_of_mem member
    rw [pruned.pruned before id after split, Option.isSome_map]
  · rw [pruned.others id member]

theorem collected_of_ok {heap next : RuntimeHeap} {strongCount : Nat → Nat}
    {additional : List GraphNode} {order : List ObjectId}
    {report : CollectionReport}
    (returned : heap.collectCyclesWithRoots strongCount additional order =
      .ok (.ok report, next))
    (enumerates : Enumerates order (heap.marks strongCount additional)) :
    Collected heap.drainReleases next (heap.marks strongCount additional)
      (heap.liveness strongCount additional) strongCount order
      (heap.jobs strongCount additional order) := by
  unfold collectCyclesWithRoots at returned
  simp only at returned
  split at returned
  · simp at returned
  obtain ⟨swept, sweeping, returned⟩ := Support.bind_eq_ok_iff.mp returned
  simp only [Except.ok.injEq, Prod.mk.injEq] at returned
  obtain ⟨_, rfl⟩ := returned
  unfold sweep at sweeping
  obtain ⟨⟨functions, removedFunctions⟩, sweptFunctions, sweeping⟩ :=
    Support.bind_eq_ok_iff.mp sweeping
  obtain ⟨⟨objects, removedObjects⟩, sweptObjects, sweeping⟩ :=
    Support.bind_eq_ok_iff.mp sweeping
  obtain ⟨⟨cells, removedCells⟩, sweptCells, sweeping⟩ :=
    Support.bind_eq_ok_iff.mp sweeping
  obtain ⟨⟨code, removedCode⟩, sweptCode, sweeping⟩ :=
    Support.bind_eq_ok_iff.mp sweeping
  simp only [Except.ok.injEq] at sweeping
  subst sweeping
  change (heap.drainReleases.prune (heap.liveness strongCount additional)
    strongCount order (heap.jobs strongCount additional order)).objects.removeAll
      (deadIds heap.drainReleases.objects (heap.marks strongCount additional)
        .object) = .ok (objects, removedObjects) at sweptObjects
  have distinct : (heap.jobs strongCount additional order).Nodup :=
    enumerates.distinct.filter _
  obtain ⟨inOrder, counted⟩ := pruneAll_spec
    (heap.liveness strongCount additional) order enumerates.distinct
    ⟨heap.drainReleases.objects, strongCount, 0⟩
  have prunedObjects : ∀ id, (heap.drainReleases.prune
      (heap.liveness strongCount additional) strongCount order
      (heap.jobs strongCount additional order)).objects.get id = _ :=
    fun id => get_setPending (heap.jobs strongCount additional order) distinct
      (order.foldl (pruneObject (heap.liveness strongCount additional))
        ⟨heap.drainReleases.objects, strongCount, 0⟩).objects id
  have present : ∀ id, ((heap.drainReleases.prune
      (heap.liveness strongCount additional) strongCount order
      (heap.jobs strongCount additional order)).objects.get id).isSome =
      (heap.drainReleases.objects.get id).isSome := by
    intro id
    rw [prunedObjects, ← isSome_pruned inOrder id]
    split
    · rw [Option.isSome_map]
    · rfl
  have dead : ∀ id, id ∈ deadIds heap.drainReleases.objects
      (heap.marks strongCount additional) .object ↔
      ((heap.drainReleases.prune (heap.liveness strongCount additional)
        strongCount order
        (heap.jobs strongCount additional order)).objects.get id).isSome ∧
        .node (.object id) ∉ heap.marks strongCount additional := by
    intro id
    rw [mem_deadIds, present]
  have objectsRead := get_removeDead sweptObjects dead
  have totals := Arena.total_removeAll HeapObject.collectionEntryCount
    sweptObjects
  refine {
    functions := get_removeDead sweptFunctions
      (mem_deadIds heap.drainReleases.functions
        (heap.marks strongCount additional) .function)
    cells := get_removeDead sweptCells
      (mem_deadIds heap.drainReleases.cells
        (heap.marks strongCount additional) .cell)
    unmarked := ?_
    objects := ?_
    code := ?_
    realms := rfl
    modules := rfl
    globalBindings := rfl
    promiseJobs := rfl
    atomicsWaiters := rfl
    imports := rfl
    keptAlive := rfl
    finalizationJobs := rfl
    generators := rfl
    asyncFunctions := rfl
    asyncGenerators := rfl
    arrayFromAsync := rfl
    entries := ?_ }
  · intro id unmarked
    exact (objectsRead id).trans (if_neg unmarked)
  · intro before id after split
    have member : .node (.object id) ∈ heap.marks strongCount additional := by
      rw [← enumerates.mem_iff, split]
      simp
    change objects.get id = _
    rw [objectsRead id, if_pos member, prunedObjects,
      inOrder.pruned before id after split]
    split
    · rename_i queued
      rw [Option.map_map]
      congr 1
      funext object
      exact (if_pos queued).symm
    · rename_i unqueued
      congr 1
      funext object
      exact (if_neg unqueued).symm
  · intro id
    change code.get id = none ∨ (code.get id).map InstalledCode.templates = _
    rw [Arena.get_removeAll sweptCode]
    split
    · exact .inl rfl
    · exact .inr (releaseAll_templates removedFunctions _ id)
  · refine ⟨(order.foldl (pruneObject (heap.liveness strongCount additional))
        ⟨heap.drainReleases.objects, strongCount, 0⟩).reclaimed +
        (removedObjects.map HeapObject.collectionEntryCount).sum, ?_, ?_⟩
    · have queueing := total_setPending
        (heap.jobs strongCount additional order)
        (order.foldl (pruneObject (heap.liveness strongCount additional))
          ⟨heap.drainReleases.objects, strongCount, 0⟩).objects
      have removing := totals.trans queueing
      change objects.total _ + _ = _
      simp only at counted
      omega
    · exact Nat.sub_sub _ _ _
end RuntimeHeap

end Fusor.Gc
