import Fusor.Gc.Draining
import Fusor.Gc.Outcome

/-!
# Weak references after a collection

A collection is exact when every marked object keeps exactly the weak keys
that are alive, the registries with something to clean up are queued, and the
number of collection entries goes down by the entries that disappeared.
-/

namespace Fusor.Gc

open Fusor.Runtime Fusor.Graph

namespace RuntimeHeap

section Statement

variable (heap : RuntimeHeap) (strongCount : Nat → Nat)
  (additional : List GraphNode)

/-- What a collection reaches. -/
def Reached (item : HeapItem) : Prop :=
  (heap.drainReleases.graph strongCount).Reached
    (heap.drainReleases.roots additional) item

/-- A key is alive when it is reached, or a symbol with more owners than
ephemerons that have it as their value. -/
def Alive (key : WeakKey) : Prop :=
  heap.Reached strongCount additional key.item ∨
    ∃ symbol, key = .symbol symbol ∧
      heap.drainReleases.ephemeronSymbolOwners symbol < strongCount symbol

/-- A registry has something to clean up when a target is dead or was cleared
before. -/
def NeedsCleanup (state : FinalizationRegistryState) : Prop :=
  ∃ cell ∈ state.cells, ∀ key, cell.target = some key →
    ¬ heap.Alive strongCount additional key

open Classical in
/-- An object as an exact collection leaves it. -/
noncomputable def collectedKind (kind : HeapObjectKind) : HeapObjectKind :=
  match settledKind (heap.Alive strongCount additional) kind, kind with
  | .finalizationRegistry settled, .finalizationRegistry state =>
      .finalizationRegistry { settled with
        cleanupPending := state.cleanupPending ||
          decide (heap.NeedsCleanup strongCount additional state) }
  | settled, _ => settled

/-- A registry that is reached, has something to clean up and does not wait
for it yet. -/
def ToBeQueued (id : ObjectId) : Prop :=
  heap.Reached strongCount additional (.node (.object id)) ∧
    ∃ object state, heap.drainReleases.objects.get id = some object ∧
      object.kind = .finalizationRegistry state ∧
      state.cleanupPending = false ∧
      heap.NeedsCleanup strongCount additional state

/-- The state after a collection in which the weak references are collected
exactly. -/
structure WeaklyExact (next : RuntimeHeap) : Prop where
  objects : ∀ id object, heap.drainReleases.objects.get id = some object →
    heap.Reached strongCount additional (.node (.object id)) →
    next.objects.get id = some { object with
      kind := heap.collectedKind strongCount additional object.kind }
  queued : ∃ jobs, next.finalizationJobs =
      heap.drainReleases.finalizationJobs ++ jobs ∧ jobs.Nodup ∧
    ∀ id, id ∈ jobs ↔ heap.ToBeQueued strongCount additional id
  entries : next.entryTotal ≤ heap.entryTotal ∧
    next.collectionEntries + (heap.entryTotal - next.entryTotal) =
      heap.collectionEntries

/-- When a symbol is examined that is not reached and has more owners than
ephemerons with it as their value, it still has more after the ephemerons with
dead keys that were examined before have dropped it. -/
def SymbolsKeepOwners (order : List ObjectId) : Prop :=
  ∀ before step after,
    examinedBy heap.drainReleases.objects order = before ++ step :: after →
    ∀ symbol, step.key = .symbol symbol →
      ¬ heap.Reached strongCount additional (.token symbol) →
      heap.drainReleases.ephemeronSymbolOwners symbol < strongCount symbol →
      heap.drainReleases.ephemeronSymbolOwners symbol +
        doomed (heap.Alive strongCount additional) before symbol <
          strongCount symbol

end Statement

variable {heap next : RuntimeHeap} {strongCount : Nat → Nat}
  {additional : List GraphNode} {order : List ObjectId}

theorem mem_marks (item : HeapItem) :
    item ∈ heap.marks strongCount additional ↔
      heap.Reached strongCount additional item :=
  EphemeronGraph.mem_close_start _ item

theorem liveness_iff (key : WeakKey) :
    heap.liveness strongCount additional strongCount key = true ↔
      heap.Alive strongCount additional key := by
  unfold liveness Alive
  cases key with
  | function id => simp [weakKeyIsLive, mem_marks, WeakKey.item]
  | object id => simp [weakKeyIsLive, mem_marks, WeakKey.item]
  | symbol name => simp [weakKeyIsLive, mem_marks, WeakKey.item]

theorem sound_liveness :
    Sound (heap.liveness strongCount additional)
      (heap.Alive strongCount additional) strongCount := by
  intro fewer below key found
  rw [← liveness_iff]
  unfold liveness at found ⊢
  cases key with
  | function id => exact found
  | object id => exact found
  | symbol name =>
      have bound : fewer name ≤ strongCount name := below name
      simp only [weakKeyIsLive, Bool.or_eq_true, decide_eq_true_eq]
        at found ⊢
      exact found.imp_right fun more => Nat.lt_of_lt_of_le more bound

theorem needsCleanup_iff (state : FinalizationRegistryState) :
    state.needsCleanup (heap.liveness strongCount additional strongCount) =
        true ↔ heap.NeedsCleanup strongCount additional state := by
  unfold FinalizationRegistryState.needsCleanup
    FinalizationRegistryState.hasCleanupCell NeedsCleanup
  rw [Bool.or_eq_true, List.any_eq_true, List.any_eq_true]
  constructor
  · rintro (⟨cell, member, cleared⟩ | ⟨cell, member, dead⟩)
    · refine ⟨cell, member, ?_⟩
      intro key target
      rw [target] at cleared
      cases cleared
    · refine ⟨cell, member, ?_⟩
      intro key target alive
      rw [target, Option.any_some, Bool.not_eq_true', ← Bool.not_eq_true,
        liveness_iff] at dead
      exact dead alive
  · rintro ⟨cell, member, dead⟩
    cases target : cell.target with
    | none => exact .inl ⟨cell, member, by simp [target]⟩
    | some key =>
        refine .inr ⟨cell, member, ?_⟩
        rw [target, Option.any_some, Bool.not_eq_true', ← Bool.not_eq_true,
          liveness_iff]
        exact dead key target

theorem mem_jobs (enumerates : Enumerates order
    (heap.marks strongCount additional)) (id : ObjectId) :
    id ∈ heap.jobs strongCount additional order ↔
      heap.ToBeQueued strongCount additional id := by
  unfold jobs cleanupJobs ToBeQueued
  rw [List.mem_filter, enumerates.mem_iff, mem_marks]
  refine and_congr_right fun _ => ?_
  cases stored : heap.drainReleases.objects.get id with
  | none => simp
  | some object =>
      rw [Option.map_some]
      cases kind : object.kind with
      | finalizationRegistry state =>
          simp [needsCleanup_iff, kind]
      | _ => simp [kind]

open Classical in
theorem collectedKind_of_registry (state : FinalizationRegistryState)
    {pending : Bool} (flagged : pending = true ↔ state.cleanupPending = true ∨
      heap.NeedsCleanup strongCount additional state)
    (cells : List FinalizationCell) :
    HeapObjectKind.finalizationRegistry
        { state with cells := cells, cleanupPending := pending } =
        heap.collectedKind strongCount additional
          (.finalizationRegistry state) ↔
      HeapObjectKind.finalizationRegistry { state with cells := cells } =
        settledKind (heap.Alive strongCount additional)
          (.finalizationRegistry state) := by
  have same : pending = (state.cleanupPending ||
      decide (heap.NeedsCleanup strongCount additional state)) := by
    rw [Bool.eq_iff_iff, flagged, Bool.or_eq_true, decide_eq_true_iff]
  simp only [collectedKind, settledKind,
    HeapObjectKind.finalizationRegistry.injEq,
    FinalizationRegistryState.mk.injEq, true_and, and_true]
  exact and_iff_left same

/-- The registries are queued and flagged right in any case, so the object is
as it should be just if its keys are. -/
theorem collected_eq_iff (enumerates : Enumerates order
    (heap.marks strongCount additional)) {id : ObjectId}
    (reached : heap.Reached strongCount additional (.node (.object id)))
    {object : HeapObject}
    (stored : heap.drainReleases.objects.get id = some object)
    {owners : Nat → Nat} (fewer : owners ≤ strongCount) :
    collectedObject (heap.liveness strongCount additional) owners
        (heap.jobs strongCount additional order) id object =
        { object with
          kind := heap.collectedKind strongCount additional object.kind } ↔
      Agrees (heap.liveness strongCount additional)
        (heap.Alive strongCount additional) owners object.kind.examined := by
  rw [← pruneKind_eq_iff object.kind (sound_liveness.mono fewer)]
  have queued := mem_jobs enumerates id
  unfold collectedObject
  by_cases registry : ∃ state, object.kind = .finalizationRegistry state
  · obtain ⟨state, kind⟩ := registry
    have toBeQueued : id ∈ heap.jobs strongCount additional order ↔
        state.cleanupPending = false ∧
          heap.NeedsCleanup strongCount additional state := by
      rw [queued]
      constructor
      · rintro ⟨_, other, held, found, same, rest⟩
        rw [stored, Option.some.injEq] at found
        subst found
        rw [kind, HeapObjectKind.finalizationRegistry.injEq] at same
        subst same
        exact rest
      · intro rest
        exact ⟨reached, object, state, stored, kind, rest⟩
    by_cases listed : id ∈ heap.jobs strongCount additional order
    · obtain ⟨idle, needed⟩ := toBeQueued.mp listed
      rw [if_pos listed]
      simp only [setCleanupPending, kind, pruneKind, HeapObject.mk.injEq,
        and_true]
      exact collectedKind_of_registry state
        (iff_of_true rfl (.inr needed)) _
    · rw [if_neg listed]
      simp only [kind, pruneKind, HeapObject.mk.injEq, and_true]
      apply collectedKind_of_registry state
      constructor
      · exact .inl
      · rintro (pending | needed)
        · exact pending
        · by_contra idle
          rw [Bool.not_eq_true] at idle
          exact listed (toBeQueued.mpr ⟨idle, needed⟩)
  · have unlisted : id ∉ heap.jobs strongCount additional order := by
      rw [queued]
      rintro ⟨_, other, state, found, kind, _⟩
      rw [stored, Option.some.injEq] at found
      subst found
      exact registry ⟨state, kind⟩
    have same : heap.collectedKind strongCount additional object.kind =
        settledKind (heap.Alive strongCount additional) object.kind := by
      unfold collectedKind
      split
      · rename_i kind
        exact absurd ⟨_, kind⟩ registry
      · rfl
    rw [if_neg unlisted, same]
    simp only [HeapObject.mk.injEq, and_true]

/-- The keys of all objects are found alive exactly if they are, just when
those of each object are when its turn comes. -/
theorem agrees_examinedBy_iff {live : (Nat → Nat) → WeakKey → Bool}
    {alive : WeakKey → Prop} (objects : Arena HeapObject)
    (order : List ObjectId) (owners : Nat → Nat) :
    Agrees live alive owners (examinedBy objects order) ↔
      ∀ before id after, order = before ++ id :: after →
        ∀ object, objects.get id = some object →
          Agrees live alive (ownersAfter live objects owners before)
            object.kind.examined := by
  induction order generalizing owners with
  | nil => simp [examinedBy, Agrees]
  | cons first rest induction =>
      have split : examinedBy objects (first :: rest) =
          examinedBy objects [first] ++ examinedBy objects rest := by
        simp [examinedBy]
      rw [split, agrees_append]
      refine (and_congr_right fun _ => induction _).trans ?_
      have later : ∀ before, ownersAfter live objects
          ((examinedBy objects [first]).foldl (examine live) owners) before =
          ownersAfter live objects owners (first :: before) := by
        intro before
        simp [ownersAfter, examinedBy, List.foldl_append]
      constructor
      · rintro ⟨head, tail⟩ before id after parts object stored
        cases before with
        | nil =>
            rw [List.nil_append, List.cons.injEq] at parts
            obtain ⟨rfl, rfl⟩ := parts
            simpa [examinedBy, ownersAfter, stored] using head
        | cons other before =>
            rw [List.cons_append, List.cons.injEq] at parts
            obtain ⟨rfl, parts⟩ := parts
            rw [← later]
            exact tail before id after parts object stored
      · intro each
        constructor
        · cases stored : objects.get first with
          | none => simp [examinedBy, stored, Agrees]
          | some object =>
              have here := each [] first rest rfl object stored
              simpa [examinedBy, ownersAfter, stored] using here
        · intro before id after parts object stored
          rw [later]
          exact each (first :: before) id after
            (by rw [parts, List.cons_append]) object stored

theorem ownersAfter_le {live : (Nat → Nat) → WeakKey → Bool}
    (steps : List Examined) (owners : Nat → Nat) :
    steps.foldl (examine live) owners ≤ owners := by
  induction steps generalizing owners with
  | nil => exact le_refl _
  | cons step rest induction =>
      exact (induction _).trans (examine_le owners step)

theorem agrees_iff_symbolsKeepOwners :
    Agrees (heap.liveness strongCount additional)
        (heap.Alive strongCount additional) strongCount
        (examinedBy heap.drainReleases.objects order) ↔
      heap.SymbolsKeepOwners strongCount additional order := by
  have alive : heap.Alive strongCount additional = fun key =>
      weakKeyIsLive (heap.marks strongCount additional)
        heap.drainReleases.ephemeronSymbolOwners strongCount key = true := by
    funext key
    rw [eq_iff_iff, ← liveness_iff]
    rfl
  rw [alive]
  unfold liveness
  rw [agrees_iff_ownersSuffice _ _ (le_refl _), ← alive]
  unfold OwnersSuffice SymbolsKeepOwners
  simp only [mem_marks]
  constructor
  · intro enough before step after parts symbol key unreached more
    exact enough before step after parts symbol key unreached
      (.inr ⟨symbol, rfl, more⟩)
  · intro enough before step after parts symbol key unreached lives
    apply enough before step after parts symbol key unreached
    rcases lives with reached | ⟨other, same, more⟩
    · exact absurd reached unreached
    · rw [WeakKey.symbol.injEq] at same
      rwa [same]

/-- A collection that fails has drained the releases and nothing else. -/
theorem drained_of_error {error : RuntimeError}
    (returned : heap.collectCyclesWithRoots strongCount additional order =
      .ok (.error error, next)) : next = heap.drainReleases := by
  unfold collectCyclesWithRoots at returned
  simp only at returned
  split at returned
  · simp only [Except.ok.injEq, Prod.mk.injEq] at returned
    exact returned.2.symm
  · obtain ⟨swept, _, returned⟩ := Support.bind_eq_ok_iff.mp returned
    simp at returned

theorem weaklyExact_iff {report : CollectionReport}
    (returned : heap.collectCyclesWithRoots strongCount additional order =
      .ok (.ok report, next))
    (enumerates : Enumerates order (heap.marks strongCount additional))
    (accounted : heap.entryTotal ≤ heap.collectionEntries) :
    heap.WeaklyExact strongCount additional next ↔
      heap.SymbolsKeepOwners strongCount additional order := by
  have collected := collected_of_ok returned enumerates
  have same := drainReleases_sameContent heap
  have counter : heap.drainReleases.collectionEntries =
      heap.collectionEntries :=
    same.field collectionEntries fun _ _ _ _ _ => rfl
  have kept : ∀ before, ownersAfter (heap.liveness strongCount additional)
      heap.drainReleases.objects strongCount before ≤ strongCount :=
    fun before => ownersAfter_le _ _
  rw [← agrees_iff_symbolsKeepOwners, agrees_examinedBy_iff]
  constructor
  · intro exact_ before id after parts object stored
    have reached : heap.Reached strongCount additional
        (.node (.object id)) := by
      rw [← mem_marks, ← enumerates.mem_iff, parts]
      simp
    have left := collected.objects before id after parts
    rw [stored, Option.map_some, exact_.objects id object stored reached,
      Option.some.injEq] at left
    exact (collected_eq_iff enumerates reached stored (kept before)).mp
      left.symm
  · intro agrees
    refine ⟨?_, ?_, ?_⟩
    · intro id object stored reached
      have member : id ∈ order := by
        rw [enumerates.mem_iff, mem_marks]
        exact reached
      obtain ⟨before, after, parts⟩ := List.append_of_mem member
      rw [collected.objects before id after parts, stored, Option.map_some,
        Option.some.injEq]
      exact (collected_eq_iff enumerates reached stored (kept before)).mpr
        (agrees before id after parts object stored)
    · exact ⟨heap.jobs strongCount additional order,
        collected.finalizationJobs, enumerates.distinct.filter _,
        mem_jobs enumerates⟩
    · obtain ⟨disappeared, total, counted⟩ := collected.entries
      have before := same.entries
      unfold entryTotal at before accounted ⊢
      rw [counter] at counted
      omega

theorem pruneAll_valid (live : (Nat → Nat) → WeakKey → Bool)
    (order : List ObjectId) (state : PruneState)
    (valid : state.objects.Valid) :
    (order.foldl (pruneObject live) state).objects.Valid := by
  induction order generalizing state with
  | nil => exact valid
  | cons id order induction =>
      apply induction
      unfold pruneObject
      split
      · exact valid
      · exact getMut_valid valid id _

theorem setPending_valid (jobs : List ObjectId) (objects : Arena HeapObject)
    (valid : objects.Valid) :
    (jobs.foldl (fun objects id =>
      (objects.getMut id setCleanupPending).1) objects).Valid := by
  induction jobs generalizing objects with
  | nil => exact valid
  | cons id jobs induction => exact induction _ (getMut_valid valid id _)

theorem releaseAll_valid (functions : List HeapFunction)
    (released : Arena InstalledCode × List InstalledCodeId)
    (valid : released.1.Valid) :
    (functions.foldl releaseCode released).1.Valid := by
  induction functions generalizing released with
  | nil => exact valid
  | cons function functions induction =>
      apply induction
      unfold releaseCode
      split
      · exact valid
      · rename_i id template _
        have formed := getMut_valid valid id
          (fun code : InstalledCode =>
            { code with liveFunctions := code.liveFunctions - 1 })
        split
        · exact valid
        · rename_i code old written
          rw [written] at formed
          exact formed

theorem prune_valid (valid : heap.Valid)
    (live : (Nat → Nat) → WeakKey → Bool) (strongCount : Nat → Nat)
    (order jobs : List ObjectId) :
    (heap.prune live strongCount order jobs).Valid :=
  ⟨valid.functions, setPending_valid jobs _
    (pruneAll_valid live order ⟨heap.objects, strongCount, 0⟩ valid.objects),
    valid.cells, valid.code⟩

theorem sweep_returns (valid : heap.Valid)
    (deadFunctions deadObjects deadCells : List ArenaId) :
    ∃ swept, heap.sweep deadFunctions deadObjects deadCells = .ok swept := by
  obtain ⟨functions, removedFunctions, sweptFunctions, _⟩ :=
    Arena.removeAll_succeeds deadFunctions valid.functions
  obtain ⟨objects, removedObjects, sweptObjects, _⟩ :=
    Arena.removeAll_succeeds deadObjects valid.objects
  obtain ⟨cells, removedCells, sweptCells, _⟩ :=
    Arena.removeAll_succeeds deadCells valid.cells
  have released := releaseAll_valid removedFunctions (heap.code, [])
    valid.code
  obtain ⟨code, removedCode, sweptCode, _⟩ := Arena.removeAll_succeeds
    ((removedFunctions.foldl releaseCode (heap.code, [])).2.dedup.filter
      fun id => ((removedFunctions.foldl releaseCode
        (heap.code, [])).1.get id).any fun installed =>
          installed.liveFunctions == 0) released
  unfold sweep
  simp only [bind, Except.bind, sweptFunctions, sweptObjects, sweptCells,
    sweptCode]
  exact ⟨_, rfl⟩

/-- A collection of a well-formed heap returns. -/
theorem collectCyclesWithRoots_returns (valid : heap.Valid)
    (strongCount : Nat → Nat) (additional : List GraphNode)
    (order : List ObjectId) :
    ∃ result next, heap.collectCyclesWithRoots strongCount additional order =
      .ok (result, next) := by
  have drained := (drainReleases_sameContent heap).valid valid
  unfold collectCyclesWithRoots
  simp only
  split
  · exact ⟨_, _, rfl⟩
  · obtain ⟨swept, sweeping⟩ := sweep_returns
      (prune_valid drained (heap.liveness strongCount additional) strongCount
        order (heap.jobs strongCount additional order))
      (deadIds heap.drainReleases.functions
        (heap.marks strongCount additional) .function)
      (deadIds heap.drainReleases.objects
        (heap.marks strongCount additional) .object)
      (deadIds heap.drainReleases.cells
        (heap.marks strongCount additional) .cell)
    exact ⟨_, swept, Support.bind_eq_ok_iff.mpr ⟨swept, sweeping, rfl⟩⟩

/-- The marks are the least set that the roots, the edges and the ephemerons
demand, every collection returns, one that fails has drained the releases and
nothing else, and one that succeeds is exact just when the symbols that are
examined keep enough owners. -/
theorem collectCyclesWithRoots_weaklyExact_iff (heap : RuntimeHeap)
    (strongCount : Nat → Nat) (additional : List GraphNode)
    (order : List ObjectId) (valid : heap.Valid)
    (accounted : heap.entryTotal ≤ heap.collectionEntries)
    (enumerates : Enumerates order (heap.marks strongCount additional)) :
    IsLeast {set | (heap.drainReleases.graph strongCount).Closed
        (heap.drainReleases.roots additional) set}
      {item | item ∈ heap.marks strongCount additional} ∧
    (∃ result next,
      heap.collectCyclesWithRoots strongCount additional order =
        .ok (result, next)) ∧
    (∀ error next,
      heap.collectCyclesWithRoots strongCount additional order =
        .ok (.error error, next) → next = heap.drainReleases) ∧
    ∀ report next,
      heap.collectCyclesWithRoots strongCount additional order =
        .ok (.ok report, next) →
      (heap.WeaklyExact strongCount additional next ↔
        heap.SymbolsKeepOwners strongCount additional order) := by
  refine ⟨EphemeronGraph.close_start_isLeast _,
    collectCyclesWithRoots_returns valid strongCount additional order, ?_, ?_⟩
  · intro error next returned
    exact drained_of_error returned
  · intro report next returned
    exact weaklyExact_iff returned enumerates accounted

/-- A map with an entry from a dead object to a symbol and an entry from that
symbol. -/
def symbolMap : HeapObject where
  kind := .weakMap
    [(.object ⟨0, 1, 0⟩, .symbol 7), (.symbol 7, .boolean true)]
  record := ⟨none, []⟩
  publicRoots := 1

/-- The map, which is a public root, and the dead object. -/
def symbolHeap : RuntimeHeap where
  mailbox := []
  realms := []
  code := .filled 0 []
  functions := .filled 0 []
  objects := .filled 0 [symbolMap, ⟨.ordinary, ⟨none, []⟩, 0⟩]
  cells := .filled 0 []
  globalBindings := .filled 0 []
  modules := []
  maxPendingFinalizationJobs := 16
  installedTemplates := 0
  installedAtoms := 0
  installedConstants := 0
  objectProperties := 0
  arrayBufferBytes := 0
  forInEntries := 0
  collectionEntries := 2
  publicRoots := 1
  collectionPending := true
  promiseJobs := []
  atomicsWaiters := []
  pendingDynamicImports := []
  hostFunctions := []
  finalizationJobs := []
  keptAlive := []
  generatorStates := []
  asyncFunctionStates := []
  asyncGeneratorStates := []
  arrayFromAsyncStates := []

theorem symbolHeap_valid : symbolHeap.Valid :=
  ⟨Arena.filled_valid 0 _, Arena.filled_valid 0 _, Arena.filled_valid 0 _,
    Arena.filled_valid 0 _⟩

theorem symbolHeap_enumerates :
    Enumerates [⟨0, 0, 0⟩] (symbolHeap.marks (fun _ => 2) []) := by
  have marked : symbolHeap.marks (fun _ => 2) [] =
      {.node (.object ⟨0, 0, 0⟩)} := by
    decide +kernel
  refine ⟨by simp, ?_⟩
  intro id
  simp [marked]

theorem collectCyclesWithRoots_weaklyExact_iff_symbolHeap :
    symbolHeap.Valid ∧
    symbolHeap.entryTotal ≤ symbolHeap.collectionEntries ∧
    Enumerates [⟨0, 0, 0⟩] (symbolHeap.marks (fun _ => 2) []) ∧
    ∀ report next,
      symbolHeap.collectCyclesWithRoots (fun _ => 2) [] [⟨0, 0, 0⟩] =
        .ok (.ok report, next) →
      (symbolHeap.WeaklyExact (fun _ => 2) [] next ↔
        symbolHeap.SymbolsKeepOwners (fun _ => 2) [] [⟨0, 0, 0⟩]) :=
  ⟨symbolHeap_valid, by decide +kernel, symbolHeap_enumerates,
    (collectCyclesWithRoots_weaklyExact_iff symbolHeap (fun _ => 2) []
      [⟨0, 0, 0⟩] symbolHeap_valid (by decide +kernel)
      symbolHeap_enumerates).2.2.2⟩

/-- A successful collection leaves a heap that passes the test. -/
def leaves (outcome : Except ArenaFault
      (Except RuntimeError CollectionReport × RuntimeHeap))
    (test : RuntimeHeap → Bool) : Bool :=
  match outcome with
  | .ok (.ok _, next) => test next
  | _ => false

theorem exists_of_leaves {outcome : Except ArenaFault
      (Except RuntimeError CollectionReport × RuntimeHeap)}
    {test : RuntimeHeap → Bool} (passed : leaves outcome test = true) :
    ∃ report next, outcome = .ok (.ok report, next) ∧ test next = true := by
  unfold leaves at passed
  split at passed
  · exact ⟨_, _, rfl, passed⟩
  · cases passed

/-- The symbol has two owners, one of them the value of the first entry.  When
that entry is pruned the symbol has as many owners as there were ephemerons
with it, and its own entry is pruned although the other owner is left. -/
theorem symbolHeap_not_weaklyExact :
    symbolHeap.Valid ∧
    symbolHeap.entryTotal = symbolHeap.collectionEntries ∧
    Enumerates [⟨0, 0, 0⟩] (symbolHeap.marks (fun _ => 2) []) ∧
    ∃ report next,
      symbolHeap.collectCyclesWithRoots (fun _ => 2) [] [⟨0, 0, 0⟩] =
        .ok (.ok report, next) ∧
      ¬ symbolHeap.WeaklyExact (fun _ => 2) [] next := by
  refine ⟨symbolHeap_valid, by decide +kernel, symbolHeap_enumerates, ?_⟩
  have emptied : leaves
      (symbolHeap.collectCyclesWithRoots (fun _ => 2) [] [⟨0, 0, 0⟩])
      (fun next => (next.objects.get ⟨0, 0, 0⟩).all
        fun object => object.weakMapEntries.isEmpty) = true := by
    decide +kernel
  have reached : symbolHeap.Reached (fun _ => 2) []
      (.node (.object ⟨0, 0, 0⟩)) := by
    rw [← mem_marks, ← symbolHeap_enumerates.mem_iff]
    simp
  have alive : symbolHeap.Alive (fun _ => 2) [] (.symbol 7) :=
    .inr ⟨7, rfl, by decide +kernel⟩
  obtain ⟨report, next, returned, emptied⟩ := exists_of_leaves emptied
  refine ⟨report, next, returned, ?_⟩
  intro exact_
  have kept := exact_.objects ⟨0, 0, 0⟩ symbolMap rfl reached
  rw [kept] at emptied
  simp [collectedKind, settledKind, symbolMap, HeapObject.weakMapEntries,
    alive] at emptied

end RuntimeHeap

end Fusor.Gc
