import Fusor.Gc.Tracing
import Fusor.Graph.Ephemeron
import Fusor.Runtime.ArenaIteration

/-!
# The cycle collector

A collection drains the releases of public roots, marks what is reached from
the roots, queues the registries that have something to clean up, prunes what
is held weakly and removes the unmarked nodes.  The number of owners of each
symbol, and the order in which a hash set yields the marked objects, are given
to it.
-/

namespace Fusor.Gc

open Fusor.Runtime Fusor.Graph

structure RuntimeHeap where
  mailbox : List HeapReference
  realms : List RealmState
  code : Arena InstalledCode
  functions : Arena HeapFunction
  objects : Arena HeapObject
  cells : Arena BindingCell
  globalBindings : Arena RealmGlobalBindingState
  modules : List SourceTextModuleRecord
  maxPendingFinalizationJobs : Nat
  installedTemplates : Nat
  installedAtoms : Nat
  installedConstants : Nat
  objectProperties : Nat
  arrayBufferBytes : Nat
  forInEntries : Nat
  collectionEntries : Nat
  publicRoots : Nat
  collectionPending : Bool
  promiseJobs : List PromiseJob
  atomicsWaiters : List ObjectId
  pendingDynamicImports : List ObjectId
  hostFunctions : List Bool
  finalizationJobs : List ObjectId
  keptAlive : List StoredValue
  generatorStates : List (ObjectId × GeneratorRecord)
  asyncFunctionStates : List (ObjectId × AsyncFunctionRecord)
  asyncGeneratorStates : List (ObjectId × AsyncGeneratorRecord)
  arrayFromAsyncStates : List (ObjectId × ArrayFromAsyncRecord)

inductive RuntimeError where
  | limitExceeded (limit observed : Nat)
  deriving DecidableEq

structure CollectionReport where
  functions : Nat
  objects : Nat
  bindingCells : Nat
  deriving DecidableEq

abbrev HeapItem := Item GraphNode Nat

/-- The entry of a table under a key. -/
def lookup {T : Type} (table : List (ObjectId × T)) (id : ObjectId) :
    Option T :=
  (table.find? fun entry => entry.1 == id).map Prod.snd

namespace WeakKey

def item : WeakKey → HeapItem
  | symbol name => .token name
  | function id => .node (.function id)
  | object id => .node (.object id)

end WeakKey

/-- What the value of an ephemeron marks. -/
def valueItem : StoredValue → Option HeapItem
  | .symbol symbol => some (.token symbol)
  | .function id => some (.node (.function id))
  | .object id => some (.node (.object id))
  | _ => none

def valueSymbol : StoredValue → Option Nat
  | .symbol symbol => some symbol
  | _ => none

namespace HeapObject

def weakMapEntries (object : HeapObject) : List (WeakKey × StoredValue) :=
  match object.kind with
  | .weakMap entries => entries
  | _ => []

end HeapObject

namespace RuntimeHeap

variable (heap : RuntimeHeap)

/-- One release takes a public root from the node it names. -/
def release (heap : RuntimeHeap) : HeapReference → RuntimeHeap
  | .function id =>
      match heap.functions.getMut id fun function =>
          { function with publicRoots := function.publicRoots - 1 } with
      | (functions, some _) =>
          { heap with functions, publicRoots := heap.publicRoots - 1 }
      | (_, none) => heap
  | .object id =>
      match heap.objects.getMut id fun object =>
          { object with publicRoots := object.publicRoots - 1 } with
      | (objects, some _) =>
          { heap with objects, publicRoots := heap.publicRoots - 1 }
      | (_, none) => heap

def drainReleases : RuntimeHeap :=
  heap.mailbox.foldl release
    { heap with
      mailbox := []
      collectionPending := heap.collectionPending || !heap.mailbox.isEmpty }

/-- The template objects that the code of a function has made. -/
def templateObjects (implementation : FunctionImplementation) :
    List GraphNode :=
  ((implementation.template.bind fun (code, template) =>
    (heap.code.get code).bind fun installed =>
      installed.templates[template]?).map InstalledTemplate.objects).getD []

/-- What is traced with an object because it is an activation. -/
def activationTraced (id : ObjectId) : List GraphNode :=
  ((lookup heap.asyncFunctionStates id).map fun record =>
      .object record.awaiting :: record.frame.traced).getD [] ++
    ((lookup heap.arrayFromAsyncStates id).map
      ArrayFromAsyncRecord.nodes).getD [] ++
    ((lookup heap.generatorStates id).map fun record =>
      frameTraced record.frame).getD [] ++
    ((lookup heap.asyncGeneratorStates id).map fun record =>
      record.awaiting.toList.map GraphNode.object ++
        frameTraced record.frame ++
        record.queue.flatMap AsyncGeneratorRequest.nodes).getD []

def edges : GraphNode → List GraphNode
  | .function id =>
      ((heap.functions.get id).map fun function =>
        function.traced ++
          heap.templateObjects function.implementation).getD []
  | .object id =>
      heap.activationTraced id ++
        ((heap.objects.get id).map HeapObject.traced).getD []
  | .cell id => ((heap.cells.get id).map BindingCell.traced).getD []

/-- The cells of the lexical bindings of a realm. -/
def globalCells (realm : RealmState) : List GraphNode :=
  realm.globalBindings.flatMap fun binding =>
    ((heap.globalBindings.get binding).map
      RealmGlobalBindingState.nodes).getD []

def realmTraced (realm : RealmState) : List GraphNode :=
  .object realm.objectPrototype :: .object realm.globalObject ::
    heap.globalCells realm ++ realm.intrinsics.traced

def contains : GraphNode → Bool
  | .function id => heap.functions.contains id
  | .object id => heap.objects.contains id
  | .cell id => heap.cells.contains id

def publicNodes : List GraphNode :=
  (heap.functions.iter.filter fun entry => 0 < entry.2.publicRoots).map
      (.function ·.1) ++
    (heap.objects.iter.filter fun entry => 0 < entry.2.publicRoots).map
      (.object ·.1)

/-- What pending work names. -/
def queued : List GraphNode :=
  valuesNodes heap.keptAlive ++ heap.promiseJobs.flatMap PromiseJob.nodes ++
    heap.atomicsWaiters.map .object ++
    heap.pendingDynamicImports.map .object ++
    heap.finalizationJobs.map .object

def roots (additional : List GraphNode) : List GraphNode :=
  heap.publicNodes ++
    heap.modules.flatMap SourceTextModuleRecord.traced ++
    heap.realms.flatMap heap.realmTraced ++ heap.queued ++
    additional.filter (heap.contains ·)

def ephemerons : List (GraphNode × List (HeapItem × Option HeapItem)) :=
  heap.objects.iter.map fun entry =>
    (.object entry.1, entry.2.weakMapEntries.map fun entry =>
      (entry.1.item, valueItem entry.2))

/-- How many ephemerons have a symbol as their value. -/
def ephemeronSymbolOwners (symbol : Nat) : Nat :=
  (heap.objects.iter.flatMap fun entry => entry.2.weakMapEntries).countP
    fun entry => valueSymbol entry.2 == some symbol

/-- What an edge or an ephemeron can lead to. -/
def items : Finset HeapItem :=
  ((heap.functions.iter.flatMap fun entry =>
        heap.edges (.function entry.1)) ++
      (heap.objects.iter.flatMap fun entry => heap.edges (.object entry.1)) ++
      (heap.cells.iter.flatMap fun entry => heap.edges (.cell entry.1)) ++
      ((heap.asyncFunctionStates.map Prod.fst ++
        heap.arrayFromAsyncStates.map Prod.fst ++
        heap.generatorStates.map Prod.fst ++
        heap.asyncGeneratorStates.map Prod.fst).flatMap fun id =>
          heap.edges (.object id))).toFinset.image .node ∪
    (heap.ephemerons.flatMap fun table =>
      table.2.filterMap Prod.snd).toFinset

theorem lookup_none {T : Type} {table : List (ObjectId × T)} {id : ObjectId}
    (absent : id ∉ table.map Prod.fst) : lookup table id = none := by
  rw [lookup, List.find?_eq_none.mpr]
  · rfl
  · intro entry member same
    rw [beq_iff_eq] at same
    exact absent (List.mem_map.mpr ⟨entry, member, same⟩)

theorem edges_mem (source : GraphNode) :
    ∀ target ∈ heap.edges source, .node target ∈ heap.items := by
  intro target follows
  apply Finset.mem_union_left
  apply Finset.mem_image_of_mem
  rw [List.mem_toFinset]
  simp only [List.mem_append, List.mem_flatMap]
  cases source with
  | function id =>
      cases stored : heap.functions.get id with
      | none => simp [edges, stored] at follows
      | some function =>
          exact .inl (.inl (.inl
            ⟨(id, function), (Arena.mem_iter _ _ _).mpr stored, follows⟩))
  | cell id =>
      cases stored : heap.cells.get id with
      | none => simp [edges, stored] at follows
      | some cell =>
          exact .inl (.inr
            ⟨(id, cell), (Arena.mem_iter _ _ _).mpr stored, follows⟩)
  | object id =>
      cases stored : heap.objects.get id with
      | some object =>
          exact .inl (.inl (.inr
            ⟨(id, object), (Arena.mem_iter _ _ _).mpr stored, follows⟩))
      | none =>
          refine .inr ⟨id, ?_, follows⟩
          by_contra absent
          simp only [not_or] at absent
          obtain ⟨⟨⟨first, second⟩, third⟩, fourth⟩ := absent
          simp [edges, stored, activationTraced, lookup_none first,
            lookup_none second, lookup_none third, lookup_none fourth]
            at follows

/-- A round makes progress when it marks a function, an object or a
symbol. -/
def counted : HeapItem → Bool
  | .node (.cell _) => false
  | _ => true

theorem valueItem_counted {value : StoredValue} {item : HeapItem}
    (marks : valueItem value = some item) : counted item = true := by
  cases value <;> simp only [valueItem, Option.some.injEq,
    reduceCtorEq] at marks <;> subst marks <;> rfl

theorem ephemerons_value {table : GraphNode × List (HeapItem × Option HeapItem)}
    (listed : table ∈ heap.ephemerons) {entry : HeapItem × Option HeapItem}
    (member : entry ∈ table.2) : ∃ value, entry.2 = valueItem value := by
  obtain ⟨stored, _, rfl⟩ := List.mem_map.mp listed
  obtain ⟨pair, _, rfl⟩ := List.mem_map.mp member
  exact ⟨pair.2, rfl⟩

/-- The graph that a collection marks, where each symbol has a number of
owners. -/
def graph (strongCount : Nat → Nat) : EphemeronGraph GraphNode Nat where
  edges := heap.edges
  tables := heap.ephemerons
  anchored symbol :=
    decide (heap.ephemeronSymbolOwners symbol < strongCount symbol)
  counted := counted
  items := heap.items
  edges_mem := heap.edges_mem
  values_mem := by
    intro table listed entry member value stored
    apply Finset.mem_union_right
    rw [List.mem_toFinset, List.mem_flatMap]
    exact ⟨table, listed, List.mem_filterMap.mpr ⟨entry, member, stored⟩⟩
  values_counted := by
    intro table listed entry member value stored
    obtain ⟨held, same⟩ := heap.ephemerons_value listed member
    exact valueItem_counted (same.symm.trans stored)

def mark (strongCount : Nat → Nat) (additional : List GraphNode) :
    Finset HeapItem :=
  ((heap.graph strongCount).close
    (EphemeronGraph.start (heap.roots additional))).marked

end RuntimeHeap

/-- Whether a key is alive, given the marks, the owners of each symbol and the
ephemerons among them. -/
def weakKeyIsLive (marked : Finset HeapItem) (owners strongCount : Nat → Nat) :
    WeakKey → Bool
  | .function id => decide (.node (.function id) ∈ marked)
  | .object id => decide (.node (.object id) ∈ marked)
  | .symbol symbol => decide (.token symbol ∈ marked) ||
      decide (owners symbol < strongCount symbol)

namespace FinalizationRegistryState

def hasCleanupCell (state : FinalizationRegistryState) : Bool :=
  state.cells.any fun cell => cell.target.isNone

def needsCleanup (state : FinalizationRegistryState)
    (live : WeakKey → Bool) : Bool :=
  state.hasCleanupCell ||
    state.cells.any fun cell => cell.target.any fun target => !live target

end FinalizationRegistryState

/-- Dropping a symbol gives up one of its owners. -/
def dropSymbol (strongCount : Nat → Nat) : Option Nat → Nat → Nat
  | some symbol => Function.update strongCount symbol (strongCount symbol - 1)
  | none => strongCount

def dropValue (strongCount : Nat → Nat) (value : StoredValue) : Nat → Nat :=
  dropSymbol strongCount (valueSymbol value)

section Pruning

variable (live : (Nat → Nat) → WeakKey → Bool)

/-- Keeps the entries whose keys are alive when they are visited, and drops
the values of the others at once. -/
def retainKeys (strongCount : Nat → Nat) :
    List (WeakKey × StoredValue) →
      List (WeakKey × StoredValue) × (Nat → Nat)
  | [] => ([], strongCount)
  | (key, value) :: rest =>
      if live strongCount key then
        let (kept, after) := retainKeys strongCount rest
        ((key, value) :: kept, after)
      else retainKeys (dropValue strongCount value) rest

def pruneCell (strongCount : Nat → Nat) (cell : FinalizationCell) :
    FinalizationCell where
  target := cell.target.filter (live strongCount)
  heldValue := cell.heldValue
  unregisterToken := cell.unregisterToken.filter (live strongCount)

/-- The pruned object, the owners of the symbols after it, and how many
entries are gone. -/
def pruneKind (strongCount : Nat → Nat) :
    HeapObjectKind → HeapObjectKind × (Nat → Nat) × Nat
  | .weakMap entries =>
      let (kept, after) := retainKeys live strongCount entries
      (.weakMap kept, after, entries.length - kept.length)
  | .weakSet entries =>
      let kept := entries.filter (live strongCount)
      (.weakSet kept, strongCount, entries.length - kept.length)
  | .weakRef target =>
      (.weakRef (target.filter (live strongCount)), strongCount, 0)
  | .finalizationRegistry state =>
      (.finalizationRegistry
        { state with cells := state.cells.map (pruneCell live strongCount) },
        strongCount, 0)
  | kind => (kind, strongCount, 0)

structure PruneState where
  objects : Arena HeapObject
  strongCount : Nat → Nat
  reclaimed : Nat

def pruneObject (state : PruneState) (id : ObjectId) : PruneState :=
  match state.objects.get id with
  | none => state
  | some object =>
      let (kind, strongCount, reclaimed) :=
        pruneKind live state.strongCount object.kind
      ⟨(state.objects.getMut id fun object => { object with kind }).1,
        strongCount, state.reclaimed + reclaimed⟩

end Pruning

/-- Marks a registry as waiting for its cleanup. -/
def setCleanupPending (object : HeapObject) : HeapObject :=
  match object.kind with
  | .finalizationRegistry state =>
      { object with kind :=
          .finalizationRegistry { state with cleanupPending := true } }
  | _ => object

namespace HeapObject

def propertyCount (object : HeapObject) : Nat :=
  object.record.propertyCount +
    match object.kind with
    | .array storage => storage.densePropertyCount
    | _ => 0

def accountedBytes (object : HeapObject) : Nat :=
  match object.kind with
  | .arrayBuffer accountedByteLength => accountedByteLength
  | _ => 0

def forInEntryCount (object : HeapObject) : Nat :=
  match object.kind with
  | .forInIterator _ entries => entries
  | _ => 0

def collectionEntryCount (object : HeapObject) : Nat :=
  match object.kind with
  | .map state => state.entries.length
  | .set data => data.entries.length
  | .weakMap entries => entries.length
  | .weakSet entries => entries.length
  | .finalizationRegistry state => state.cells.length
  | _ => 0

end HeapObject

/-- One function less is alive for the code it was made from. -/
def releaseCode (released : Arena InstalledCode × List InstalledCodeId)
    (function : HeapFunction) : Arena InstalledCode × List InstalledCodeId :=
  match function.implementation.template with
  | none => released
  | some (id, _) =>
      match released.1.getMut id fun code =>
          { code with liveFunctions := code.liveFunctions - 1 } with
      | (_, none) => released
      | (code, some old) =>
          (code, if old.liveFunctions - 1 = 0 then released.2 ++ [id]
            else released.2)

def releaseHost (hostFunctions : List Bool) (function : HeapFunction) :
    List Bool :=
  match function.implementation with
  | .native (some slot) => hostFunctions.set slot false
  | _ => hostFunctions

/-- Removes from a table the entries of dead objects. -/
def withoutDead {T : Type} (dead : List ObjectId)
    (table : List (ObjectId × T)) : List (ObjectId × T) :=
  table.filter fun entry => !decide (entry.1 ∈ dead)

namespace RuntimeHeap

/-- The registries to be queued: those among the marked objects that have a
dead or cleared target and do not wait for a cleanup already. -/
def cleanupJobs (heap : RuntimeHeap) (live : WeakKey → Bool)
    (order : List ObjectId) : List ObjectId :=
  order.filter fun id =>
    match (heap.objects.get id).map HeapObject.kind with
    | some (.finalizationRegistry state) =>
        !state.cleanupPending && state.needsCleanup live
    | _ => false

/-- Removes the dead functions, objects and cells, and the code that no
function is left for. -/
def sweep (heap : RuntimeHeap)
    (deadFunctions deadObjects deadCells : List ArenaId) :
    Except ArenaFault RuntimeHeap := do
  let (functions, removedFunctions) ← heap.functions.removeAll deadFunctions
  let (objects, removedObjects) ← heap.objects.removeAll deadObjects
  let (cells, _) ← heap.cells.removeAll deadCells
  let (code, maybeDead) := removedFunctions.foldl releaseCode (heap.code, [])
  let deadCode := maybeDead.dedup.filter fun id =>
    (code.get id).any fun installed => installed.liveFunctions == 0
  let (code, removedCode) ← code.removeAll deadCode
  let templates := removedCode.flatMap InstalledCode.templates
  .ok { heap with
    functions
    objects
    cells
    code
    hostFunctions := removedFunctions.foldl releaseHost heap.hostFunctions
    generatorStates := withoutDead deadObjects heap.generatorStates
    asyncFunctionStates := withoutDead deadObjects heap.asyncFunctionStates
    asyncGeneratorStates := withoutDead deadObjects heap.asyncGeneratorStates
    arrayFromAsyncStates := withoutDead deadObjects heap.arrayFromAsyncStates
    objectProperties := heap.objectProperties -
      (removedFunctions.map (·.object.propertyCount)).sum -
      (removedObjects.map HeapObject.propertyCount).sum
    arrayBufferBytes := heap.arrayBufferBytes -
      (removedObjects.map HeapObject.accountedBytes).sum
    forInEntries := heap.forInEntries -
      (removedObjects.map HeapObject.forInEntryCount).sum
    collectionEntries := heap.collectionEntries -
      (removedObjects.map HeapObject.collectionEntryCount).sum
    installedTemplates := heap.installedTemplates - templates.length
    installedAtoms := heap.installedAtoms -
      (templates.map InstalledTemplate.atoms).sum
    installedConstants := heap.installedConstants -
      (templates.map (·.constants.length)).sum
    collectionPending := false }

/-- Prunes what is held weakly by the marked objects and queues the
registries. -/
def prune (heap : RuntimeHeap) (live : (Nat → Nat) → WeakKey → Bool)
    (strongCount : Nat → Nat) (order jobs : List ObjectId) : RuntimeHeap :=
  let pruned := order.foldl (pruneObject live)
    ⟨heap.objects, strongCount, 0⟩
  { heap with
    objects := jobs.foldl
      (fun objects id => (objects.getMut id setCleanupPending).1)
      pruned.objects
    finalizationJobs := heap.finalizationJobs ++ jobs
    collectionEntries := heap.collectionEntries - pruned.reclaimed }

def deadIds {T : Type} (arena : Arena T) (marked : Finset HeapItem)
    (node : ArenaId → GraphNode) : List ArenaId :=
  (arena.iter.map Prod.fst).filter fun id =>
    !decide (Item.node (node id) ∈ marked)

/-- A collection.  The state is the one after it, also when it fails. -/
def collectCyclesWithRoots (heap : RuntimeHeap) (strongCount : Nat → Nat)
    (additional : List GraphNode) (order : List ObjectId) :
    Except ArenaFault (Except RuntimeError CollectionReport × RuntimeHeap) :=
  let drained := heap.drainReleases
  let marked := drained.mark strongCount additional
  let live := weakKeyIsLive marked drained.ephemeronSymbolOwners
  let deadFunctions := deadIds drained.functions marked .function
  let deadObjects := deadIds drained.objects marked .object
  let deadCells := deadIds drained.cells marked .cell
  let jobs := drained.cleanupJobs (live strongCount) order
  let pending := drained.finalizationJobs.length + jobs.length
  if drained.maxPendingFinalizationJobs < pending then
    .ok (.error (.limitExceeded drained.maxPendingFinalizationJobs pending),
      drained)
  else do
    let pruned := drained.prune live strongCount order jobs
    let swept ← pruned.sweep deadFunctions deadObjects deadCells
    .ok (.ok ⟨deadFunctions.length, deadObjects.length, deadCells.length⟩,
      swept)

end RuntimeHeap

end Fusor.Gc
