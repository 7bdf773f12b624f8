import Fusor.Gc.WeakReferences

/-!
# What survives a collection

Every node that is stored strongly should be there after a collection if it
was there before.  The collector does not visit every field that holds a
node, so this depends on the nodes in the other fields being reached
otherwise.
-/

namespace Fusor.Gc

open Fusor.Runtime Fusor.Graph

namespace RuntimeHeap

section Statement

variable (heap : RuntimeHeap)

/-- What an activation holds. -/
def activationStrong (id : ObjectId) : List GraphNode :=
  ((lookup heap.asyncFunctionStates id).map fun record =>
      .object record.awaiting :: record.frame.strong).getD [] ++
    ((lookup heap.arrayFromAsyncStates id).map
      ArrayFromAsyncRecord.nodes).getD [] ++
    ((lookup heap.generatorStates id).map fun record =>
      frameStrong record.frame).getD [] ++
    ((lookup heap.asyncGeneratorStates id).map fun record =>
      record.awaiting.toList.map GraphNode.object ++
        frameStrong record.frame ++
        record.queue.flatMap AsyncGeneratorRequest.nodes).getD []

def activationUntraced (id : ObjectId) : List GraphNode :=
  ((lookup heap.asyncFunctionStates id).map fun record =>
      record.frame.untraced).getD [] ++
    ((lookup heap.generatorStates id).map fun record =>
      frameUntraced record.frame).getD [] ++
    ((lookup heap.asyncGeneratorStates id).map fun record =>
      frameUntraced record.frame).getD []

/-- What a node holds. -/
def strongEdges : GraphNode → List GraphNode
  | .function id =>
      ((heap.functions.get id).map fun function =>
        function.strong ++
          heap.templateObjects function.implementation).getD []
  | .object id =>
      heap.activationStrong id ++
        ((heap.objects.get id).map HeapObject.strong).getD []
  | .cell id => ((heap.cells.get id).map BindingCell.strong).getD []

/-- What a node holds in fields that are not visited. -/
def untracedEdges : GraphNode → List GraphNode
  | .function id =>
      ((heap.functions.get id).map HeapFunction.untraced).getD []
  | .object id =>
      heap.activationUntraced id ++
        ((heap.objects.get id).map HeapObject.untraced).getD []
  | .cell id => ((heap.cells.get id).map BindingCell.untraced).getD []

def realmStrong (realm : RealmState) : List GraphNode :=
  .object realm.objectPrototype :: .object realm.globalObject ::
    heap.globalCells realm ++ realm.intrinsics.strong

/-- What modules, realms and pending work hold. -/
def held : List GraphNode :=
  heap.modules.flatMap SourceTextModuleRecord.strong ++
    heap.realms.flatMap heap.realmStrong ++ heap.queued

/-- What modules and realms hold in fields that are not visited. -/
def untracedHeld : List GraphNode :=
  heap.modules.flatMap SourceTextModuleRecord.untraced ++
    heap.realms.flatMap fun realm => realm.intrinsics.untraced

/-- The objects under which activations are kept. -/
def activations : List ObjectId :=
  heap.asyncFunctionStates.map Prod.fst ++
    heap.arrayFromAsyncStates.map Prod.fst ++
    heap.generatorStates.map Prod.fst ++
    heap.asyncGeneratorStates.map Prod.fst

/-- What is stored strongly, in a record of its own or in a node, the values
of ephemerons included. -/
inductive Stored : GraphNode → Prop where
  | held {node : GraphNode} : node ∈ heap.held → Stored node
  | edge {source node : GraphNode} : node ∈ heap.strongEdges source →
      Stored node
  | ephemeron {id : ObjectId} {object : HeapObject}
      {entry : WeakKey × StoredValue} {node : GraphNode} :
      heap.objects.get id = some object → entry ∈ object.weakMapEntries →
      node ∈ valueNodes entry.2 → Stored node
  | activation {id : ObjectId} : id ∈ heap.activations → Stored (.object id)

def NoDangling : Prop :=
  ∀ node, heap.Stored node → heap.contains node = true

/-- What is reached from the roots through strong references. -/
inductive StronglyReached (additional : List GraphNode) : GraphNode → Prop
    where
  | isPublic {node : GraphNode} : node ∈ heap.publicNodes →
      StronglyReached additional node
  | held {node : GraphNode} : node ∈ heap.held →
      StronglyReached additional node
  | additional {node : GraphNode} : node ∈ additional →
      heap.contains node = true → StronglyReached additional node
  | edge {source node : GraphNode} : StronglyReached additional source →
      node ∈ heap.strongEdges source → StronglyReached additional node

/-- After the collection nothing dangles, and what is reached from the roots
is there. -/
structure Preserved (additional : List GraphNode) (next : RuntimeHeap) :
    Prop where
  noDangling : next.NoDangling
  survives : ∀ node, heap.drainReleases.StronglyReached additional node →
    next.contains node = true

/-- What is held in a field that is not visited is reached otherwise. -/
structure UntracedReached (strongCount : Nat → Nat)
    (additional : List GraphNode) : Prop where
  held : ∀ node ∈ heap.drainReleases.untracedHeld,
    heap.Reached strongCount additional (.node node)
  edges : ∀ source, heap.Reached strongCount additional (.node source) →
    ∀ node ∈ heap.drainReleases.untracedEdges source,
      heap.Reached strongCount additional (.node node)

end Statement

theorem mem_activationStrong (heap : RuntimeHeap) (id : ObjectId)
    (node : GraphNode) :
    node ∈ heap.activationStrong id ↔
      node ∈ heap.activationTraced id ∨ node ∈ heap.activationUntraced id := by
  have first : node ∈ ((lookup heap.asyncFunctionStates id).map fun record =>
      .object record.awaiting :: record.frame.strong).getD [] ↔
      node ∈ ((lookup heap.asyncFunctionStates id).map fun record =>
        .object record.awaiting :: record.frame.traced).getD [] ∨
      node ∈ ((lookup heap.asyncFunctionStates id).map fun record =>
        record.frame.untraced).getD [] := by
    cases lookup heap.asyncFunctionStates id with
    | none => simp
    | some record => simp [Frame.mem_strong, or_assoc]
  have second : node ∈ ((lookup heap.generatorStates id).map fun record =>
      frameStrong record.frame).getD [] ↔
      node ∈ ((lookup heap.generatorStates id).map fun record =>
        frameTraced record.frame).getD [] ∨
      node ∈ ((lookup heap.generatorStates id).map fun record =>
        frameUntraced record.frame).getD [] := by
    cases lookup heap.generatorStates id with
    | none => simp
    | some record => simp [mem_frameStrong]
  have third : node ∈ ((lookup heap.asyncGeneratorStates id).map
      fun record => record.awaiting.toList.map GraphNode.object ++
        frameStrong record.frame ++
        record.queue.flatMap AsyncGeneratorRequest.nodes).getD [] ↔
      node ∈ ((lookup heap.asyncGeneratorStates id).map fun record =>
        record.awaiting.toList.map GraphNode.object ++
          frameTraced record.frame ++
          record.queue.flatMap AsyncGeneratorRequest.nodes).getD [] ∨
      node ∈ ((lookup heap.asyncGeneratorStates id).map fun record =>
        frameUntraced record.frame).getD [] := by
    cases lookup heap.asyncGeneratorStates id with
    | none => simp
    | some record =>
        simp only [Option.map_some, Option.getD_some, List.mem_append,
          mem_frameStrong]
        grind
  unfold activationStrong activationTraced activationUntraced
  simp only [List.mem_append, first, second, third]
  grind

theorem mem_strongEdges (heap : RuntimeHeap) (source node : GraphNode) :
    node ∈ heap.strongEdges source ↔
      node ∈ heap.edges source ∨ node ∈ heap.untracedEdges source := by
  unfold strongEdges edges untracedEdges
  cases source with
  | function id =>
      cases stored : heap.functions.get id with
      | none => simp [stored]
      | some function =>
          simp only [stored, Option.map_some, Option.getD_some,
            List.mem_append, HeapFunction.mem_strong]
          grind
  | object id =>
      cases stored : heap.objects.get id with
      | none => simp [stored, mem_activationStrong]
      | some object =>
          simp only [stored, Option.map_some, Option.getD_some,
            List.mem_append, mem_activationStrong, HeapObject.mem_strong]
          grind
  | cell id =>
      cases stored : heap.cells.get id with
      | none => simp [stored]
      | some cell =>
          simp only [stored, Option.map_some, Option.getD_some]
          exact cell.mem_strong node

/-- What modules, realms and pending work hold is a root or is not visited. -/
theorem mem_held (heap : RuntimeHeap) (additional : List GraphNode)
    {node : GraphNode} (member : node ∈ heap.held) :
    node ∈ heap.roots additional ∨ node ∈ heap.untracedHeld := by
  unfold held at member
  unfold roots untracedHeld
  simp only [List.mem_append, List.mem_flatMap] at member ⊢
  rcases member with (⟨module, listed, stored⟩ | ⟨realm, listed, stored⟩) |
    queued
  · rcases (module.mem_strong node).mp stored with visited | missed
    · exact .inl (.inl (.inl (.inl (.inr ⟨module, listed, visited⟩))))
    · exact .inr (.inl ⟨module, listed, missed⟩)
  · unfold realmStrong at stored
    unfold realmTraced
    simp only [List.mem_append, List.mem_cons,
      RealmIntrinsics.mem_strong] at stored ⊢
    rcases stored with own | visited | missed
    · exact .inl (.inl (.inl (.inr ⟨realm, listed, .inl own⟩)))
    · exact .inl (.inl (.inl (.inr ⟨realm, listed, .inr visited⟩)))
    · exact .inr (.inr ⟨realm, listed, missed⟩)
  · exact .inl (.inl (.inr queued))

theorem untracedHeld_subset (heap : RuntimeHeap) {node : GraphNode}
    (member : node ∈ heap.untracedHeld) : node ∈ heap.held := by
  unfold untracedHeld at member
  unfold held realmStrong
  simp only [List.mem_append, List.mem_flatMap, List.mem_cons] at member ⊢
  rcases member with ⟨module, listed, missed⟩ | ⟨realm, listed, missed⟩
  · exact .inl (.inl ⟨module, listed,
      (module.mem_strong node).mpr (.inr missed)⟩)
  · exact .inl (.inr ⟨realm, listed, .inr
      ((realm.intrinsics.mem_strong node).mpr (.inr missed))⟩)

section Draining

variable {heap next : RuntimeHeap} (same : SameContent heap next)

include same

theorem SameContent.map_functions {V : Type} (id : FunctionId)
    (project : FunctionImplementation × ObjectRecord → V) :
    (next.functions.get id).map (fun function => project function.content) =
      (heap.functions.get id).map fun function =>
        project function.content := by
  have mapped := congrArg (Option.map project) (same.functions id)
  simpa only [Option.map_map, Function.comp_def] using mapped

theorem SameContent.map_objects {V : Type} (id : ObjectId)
    (project : HeapObjectKind × ObjectRecord → V) :
    (next.objects.get id).map (fun object => project object.content) =
      (heap.objects.get id).map fun object => project object.content := by
  have mapped := congrArg (Option.map project) (same.objects id)
  simpa only [Option.map_map, Function.comp_def] using mapped

theorem SameContent.contains (node : GraphNode) :
    next.contains node = heap.contains node := by
  cases node with
  | function id =>
      have mapped := congrArg Option.isSome (same.functions id)
      rw [Option.isSome_map, Option.isSome_map] at mapped
      exact mapped
  | object id =>
      have mapped := congrArg Option.isSome (same.objects id)
      rw [Option.isSome_map, Option.isSome_map] at mapped
      exact mapped
  | cell id =>
      have cells := same.field RuntimeHeap.cells fun _ _ _ _ _ => rfl
      simp only [RuntimeHeap.contains, cells]

theorem SameContent.strongEdges (source : GraphNode) :
    next.strongEdges source = heap.strongEdges source := by
  cases source with
  | function id =>
      have code := same.field RuntimeHeap.templateObjects
        fun _ _ _ _ _ => rfl
      have mapped := same.map_functions id fun content =>
        content.1.strong ++ content.2.nodes ++ heap.templateObjects content.1
      simp only [RuntimeHeap.strongEdges, code]
      exact congrArg (fun nodes => nodes.getD []) mapped
  | object id =>
      have activation := same.field RuntimeHeap.activationStrong
        fun _ _ _ _ _ => rfl
      have mapped := same.map_objects id fun content =>
        content.1.strong ++ content.2.nodes
      simp only [RuntimeHeap.strongEdges, activation]
      exact congrArg
        (fun nodes => heap.activationStrong id ++ nodes.getD []) mapped
  | cell id =>
      have cells := same.field RuntimeHeap.cells fun _ _ _ _ _ => rfl
      simp only [RuntimeHeap.strongEdges, cells]

theorem SameContent.stored {node : GraphNode} (stored : next.Stored node) :
    heap.Stored node := by
  cases stored with
  | held member =>
      have kept := same.field RuntimeHeap.held fun _ _ _ _ _ => rfl
      rw [kept] at member
      exact .held member
  | edge follows =>
      rw [same.strongEdges] at follows
      exact .edge follows
  | ephemeron found member value =>
      rename_i id object entry
      have mapped := same.objects id
      rw [found, Option.map_some] at mapped
      obtain ⟨other, original, content⟩ :=
        Option.map_eq_some_iff.mp mapped.symm
      refine .ephemeron original ?_ value
      have kinds : other.kind = object.kind := congrArg Prod.fst content
      unfold HeapObject.weakMapEntries at member ⊢
      rwa [kinds]
  | activation member =>
      have kept := same.field RuntimeHeap.activations fun _ _ _ _ _ => rfl
      rw [kept] at member
      exact .activation member

theorem SameContent.noDangling (sound : heap.NoDangling) :
    next.NoDangling := by
  intro node stored
  rw [same.contains]
  exact sound node (same.stored stored)

end Draining

theorem pruneKind_strong (live : (Nat → Nat) → WeakKey → Bool)
    (owners : Nat → Nat) (kind : HeapObjectKind) :
    (pruneKind live owners kind).1.strong = kind.strong := by
  cases kind with
  | finalizationRegistry state =>
      simp [pruneKind, HeapObjectKind.strong, HeapObjectKind.nodes,
        FinalizationRegistryState.nodes, pruneCell, Function.comp_def]
  | _ => rfl

theorem setCleanupPending_strong (object : HeapObject) :
    (setCleanupPending object).strong = object.strong := by
  unfold setCleanupPending
  split
  · rename_i state kind
    simp [HeapObject.strong, kind, HeapObjectKind.strong,
      HeapObjectKind.nodes, FinalizationRegistryState.nodes]
  · rfl

theorem setCleanupPending_weakMapEntries (object : HeapObject) :
    (setCleanupPending object).weakMapEntries = object.weakMapEntries := by
  unfold setCleanupPending
  split
  · rename_i state kind
    simp [HeapObject.weakMapEntries, kind]
  · rfl

/-- Pruning leaves what an object holds strongly. -/
theorem collectedObject_strong (live : (Nat → Nat) → WeakKey → Bool)
    (owners : Nat → Nat) (jobs : List ObjectId) (id : ObjectId)
    (object : HeapObject) :
    (collectedObject live owners jobs id object).strong = object.strong := by
  unfold collectedObject
  split
  · rw [setCleanupPending_strong]
    simp only [HeapObject.strong, pruneKind_strong]
  · simp only [HeapObject.strong, pruneKind_strong]

/-- The entries that are left had keys that were alive. -/
theorem collectedObject_entries {live : (Nat → Nat) → WeakKey → Bool}
    {alive : WeakKey → Prop} {owners : Nat → Nat}
    (sound : Sound live alive owners) (jobs : List ObjectId) (id : ObjectId)
    {object : HeapObject} {entry : WeakKey × StoredValue}
    (member : entry ∈
      (collectedObject live owners jobs id object).weakMapEntries) :
    entry ∈ object.weakMapEntries ∧ alive entry.1 := by
  have pruned : entry ∈ ({ object with
      kind := (pruneKind live owners object.kind).1 } :
        HeapObject).weakMapEntries := by
    unfold collectedObject at member
    split at member
    · rwa [setCleanupPending_weakMapEntries] at member
    · exact member
  unfold HeapObject.weakMapEntries at pruned ⊢
  cases kind : object.kind with
  | weakMap entries =>
      rw [kind] at pruned
      have kept := (retainKeys_sublist entries sound).subset pruned
      simpa using List.mem_filter.mp kept
  | _ => simp [kind, pruneKind] at pruned

section Collecting

variable {heap next : RuntimeHeap} {strongCount : Nat → Nat}
  {additional : List GraphNode} {order : List ObjectId}
  {report : CollectionReport}

/-- The nodes that are left are those that were there and are reached. -/
theorem contains_collected
    (returned : heap.collectCyclesWithRoots strongCount additional order =
      .ok (.ok report, next))
    (enumerates : Enumerates order (heap.marks strongCount additional))
    (node : GraphNode) :
    next.contains node = true ↔ heap.drainReleases.contains node = true ∧
      heap.Reached strongCount additional (.node node) := by
  have collected := collected_of_ok returned enumerates
  rw [← mem_marks]
  cases node with
  | function id =>
      simp only [contains, Arena.contains, collected.functions id]
      by_cases marked : .node (.function id) ∈ heap.marks strongCount additional
      · simp [marked]
      · simp [marked]
  | cell id =>
      simp only [contains, Arena.contains, collected.cells id]
      by_cases marked : .node (.cell id) ∈ heap.marks strongCount additional
      · simp [marked]
      · simp [marked]
  | object id =>
      simp only [contains, Arena.contains]
      by_cases marked : .node (.object id) ∈ heap.marks strongCount additional
      · have member := (enumerates.mem_iff id).mpr marked
        obtain ⟨before, after, parts⟩ := List.append_of_mem member
        rw [collected.objects before id after parts, Option.isSome_map]
        simp [marked]
      · simp [collected.unmarked id marked, marked]

theorem lookup_withoutDead {T : Type} {dead : List ObjectId}
    {table : List (ObjectId × T)} {id : ObjectId} (alive : id ∉ dead) :
    lookup (withoutDead dead table) id = lookup table id := by
  unfold lookup withoutDead
  rw [List.find?_filter]
  congr 2
  funext entry
  by_cases same : entry.1 = id
  · simp [same, alive]
  · simp [same]

theorem mem_activations_of_strong {heap : RuntimeHeap} {id : ObjectId}
    {node : GraphNode} (member : node ∈ heap.activationStrong id) :
    id ∈ heap.activations := by
  by_contra absent
  unfold activations at absent
  simp only [List.mem_append, not_or] at absent
  obtain ⟨⟨⟨first, second⟩, third⟩, fourth⟩ := absent
  simp [activationStrong, lookup_none first, lookup_none second,
    lookup_none third, lookup_none fourth] at member

theorem mem_withoutDead {T : Type} {dead : List ObjectId}
    {table : List (ObjectId × T)} {id : ObjectId}
    (member : id ∈ (withoutDead dead table).map Prod.fst) :
    id ∈ table.map Prod.fst ∧ id ∉ dead := by
  obtain ⟨entry, listed, rfl⟩ := List.mem_map.mp member
  obtain ⟨stored, alive⟩ := List.mem_filter.mp listed
  exact ⟨List.mem_map_of_mem stored, by simpa using alive⟩

/-- The objects of a heap without dangling references that are not dead are
reached. -/
theorem reached_of_not_dead {id : ObjectId}
    (present : heap.drainReleases.contains (.object id) = true)
    (alive : id ∉ deadIds heap.drainReleases.objects
      (heap.marks strongCount additional) .object) :
    heap.Reached strongCount additional (.node (.object id)) := by
  rw [mem_deadIds, not_and, not_not, mem_marks] at alive
  exact alive present

theorem not_dead_of_reached {id : ObjectId}
    (reached : heap.Reached strongCount additional (.node (.object id))) :
    id ∉ deadIds heap.drainReleases.objects
      (heap.marks strongCount additional) .object := by
  rw [mem_deadIds, not_and, not_not, mem_marks]
  exact fun _ => reached

section Returned

variable
  (returned : heap.collectCyclesWithRoots strongCount additional order =
    .ok (.ok report, next))
  (enumerates : Enumerates order (heap.marks strongCount additional))

include returned enumerates

theorem activations_collected {id : ObjectId}
    (member : id ∈ next.activations) :
    id ∈ heap.drainReleases.activations ∧
      id ∉ deadIds heap.drainReleases.objects
        (heap.marks strongCount additional) .object := by
  have collected := collected_of_ok returned enumerates
  unfold activations at member ⊢
  rw [collected.asyncFunctions, collected.arrayFromAsync,
    collected.generators, collected.asyncGenerators] at member
  simp only [List.mem_append] at member ⊢
  rcases member with ((first | second) | third) | fourth
  · obtain ⟨listed, alive⟩ := mem_withoutDead first
    exact ⟨.inl (.inl (.inl listed)), alive⟩
  · obtain ⟨listed, alive⟩ := mem_withoutDead second
    exact ⟨.inl (.inl (.inr listed)), alive⟩
  · obtain ⟨listed, alive⟩ := mem_withoutDead third
    exact ⟨.inl (.inr listed), alive⟩
  · obtain ⟨listed, alive⟩ := mem_withoutDead fourth
    exact ⟨.inr listed, alive⟩

theorem activationStrong_collected {id : ObjectId}
    (alive : id ∉ deadIds heap.drainReleases.objects
      (heap.marks strongCount additional) .object) :
    next.activationStrong id = heap.drainReleases.activationStrong id := by
  have collected := collected_of_ok returned enumerates
  unfold activationStrong
  rw [collected.asyncFunctions, collected.arrayFromAsync,
    collected.generators, collected.asyncGenerators,
    lookup_withoutDead alive, lookup_withoutDead alive,
    lookup_withoutDead alive, lookup_withoutDead alive]

theorem templateObjects_collected {implementation : FunctionImplementation}
    {node : GraphNode}
    (member : node ∈ next.templateObjects implementation) :
    node ∈ heap.drainReleases.templateObjects implementation := by
  have collected := collected_of_ok returned enumerates
  unfold templateObjects at member ⊢
  cases found : implementation.template with
  | none => simp [found] at member
  | some pair =>
      obtain ⟨code, template⟩ := pair
      simp only [found, Option.bind_some] at member ⊢
      rcases collected.code code with removed | kept
      · simp [removed] at member
      · have same : ∀ installed : Option InstalledCode,
            (installed.bind fun installed =>
              installed.templates[template]?) =
            (installed.map InstalledCode.templates).bind
              fun templates => templates[template]? := by
          intro installed
          cases installed <;> rfl
        rwa [same, kept, ← same] at member

/-- What an object that is left was before. -/
theorem object_collected {id : ObjectId} {left : HeapObject}
    (stored : next.objects.get id = some left) :
    heap.Reached strongCount additional (.node (.object id)) ∧
      ∃ object owners, heap.drainReleases.objects.get id = some object ∧
        owners ≤ strongCount ∧
        left = collectedObject (heap.liveness strongCount additional) owners
          (heap.jobs strongCount additional order) id object := by
  have collected := collected_of_ok returned enumerates
  have marked : .node (.object id) ∈ heap.marks strongCount additional := by
    by_contra unmarked
    rw [collected.unmarked id unmarked] at stored
    cases stored
  have member := (enumerates.mem_iff id).mpr marked
  obtain ⟨before, after, parts⟩ := List.append_of_mem member
  rw [collected.objects before id after parts] at stored
  obtain ⟨object, original, same⟩ := Option.map_eq_some_iff.mp stored
  exact ⟨mem_marks _ |>.mp marked, object, _, original,
    ownersAfter_le _ _, same.symm⟩

/-- What a node that is left holds it held before. -/
theorem strongEdges_collected (sound : heap.drainReleases.NoDangling)
    {source node : GraphNode} (follows : node ∈ next.strongEdges source) :
    node ∈ heap.drainReleases.strongEdges source ∧
      heap.Reached strongCount additional (.node source) := by
  have collected := collected_of_ok returned enumerates
  cases source with
  | function id =>
      rw [← mem_marks]
      unfold strongEdges at follows ⊢
      simp only [collected.functions id] at follows
      by_cases marked :
          .node (.function id) ∈ heap.marks strongCount additional
      · rw [if_pos marked] at follows
        refine ⟨?_, marked⟩
        cases stored : heap.drainReleases.functions.get id with
        | none => simp [stored] at follows
        | some function =>
            simp only [stored, Option.map_some, Option.getD_some,
              List.mem_append] at follows ⊢
            exact follows.imp_right
              (templateObjects_collected returned enumerates)
      · simp [marked] at follows
  | cell id =>
      rw [← mem_marks]
      unfold strongEdges at follows ⊢
      simp only [collected.cells id] at follows
      by_cases marked : .node (.cell id) ∈ heap.marks strongCount additional
      · rw [if_pos marked] at follows
        exact ⟨follows, marked⟩
      · simp [marked] at follows
  | object id =>
      unfold strongEdges at follows ⊢
      simp only [List.mem_append] at follows ⊢
      rcases follows with suspended | own
      · have listed := activations_collected returned enumerates
          (mem_activations_of_strong suspended)
        have present := sound _ (.activation listed.1)
        rw [activationStrong_collected returned enumerates listed.2]
          at suspended
        exact ⟨.inl suspended, reached_of_not_dead present listed.2⟩
      · cases stored : next.objects.get id with
        | none => simp [stored] at own
        | some left =>
            obtain ⟨reached, object, owners, original, _, rfl⟩ :=
              object_collected returned enumerates stored
            rw [stored, Option.map_some, Option.getD_some,
              collectedObject_strong] at own
            refine ⟨.inr ?_, reached⟩
            simpa [original] using own

/-- What a reached node holds in a field that is not visited it holds after
the collection too. -/
theorem untracedEdges_collected {source node : GraphNode}
    (reached : heap.Reached strongCount additional (.node source))
    (follows : node ∈ heap.drainReleases.untracedEdges source) :
    node ∈ next.strongEdges source := by
  have collected := collected_of_ok returned enumerates
  have marked := (mem_marks _).mpr reached
  cases source with
  | function id =>
      simp only [strongEdges, collected.functions id, if_pos marked]
      unfold untracedEdges at follows
      cases stored : heap.drainReleases.functions.get id with
      | none => simp [stored] at follows
      | some function =>
          simp only [stored, Option.map_some, Option.getD_some,
            List.mem_append] at follows ⊢
          exact .inl ((function.mem_strong node).mpr (.inr follows))
  | cell id =>
      simp only [strongEdges, collected.cells id, if_pos marked]
      unfold untracedEdges at follows
      cases stored : heap.drainReleases.cells.get id with
      | none => simp [stored] at follows
      | some cell =>
          simp only [stored, Option.map_some, Option.getD_some] at follows ⊢
          exact (cell.mem_strong node).mpr (.inr follows)
  | object id =>
      have alive := not_dead_of_reached reached
      unfold untracedEdges at follows
      unfold strongEdges
      simp only [List.mem_append] at follows ⊢
      rcases follows with suspended | own
      · rw [activationStrong_collected returned enumerates alive]
        exact .inl ((mem_activationStrong _ id node).mpr (.inr suspended))
      · cases stored : heap.drainReleases.objects.get id with
        | none => simp [stored] at own
        | some object =>
            have member := (enumerates.mem_iff id).mpr marked
            obtain ⟨before, after, parts⟩ := List.append_of_mem member
            rw [collected.objects before id after parts, stored]
            simp only [stored, Option.map_some, Option.getD_some,
              collectedObject_strong] at own ⊢
            exact .inr ((object.mem_strong node).mpr (.inr own))

theorem held_collected {node : GraphNode} (member : node ∈ next.held) :
    node ∈ heap.drainReleases.held ∨
      ∃ id ∈ heap.jobs strongCount additional order, node = .object id := by
  have collected := collected_of_ok returned enumerates
  have realms : next.realmStrong = heap.drainReleases.realmStrong := by
    funext realm
    simp only [realmStrong, globalCells, collected.globalBindings]
  unfold held queued at member ⊢
  rw [collected.modules, collected.realms, realms, collected.keptAlive,
    collected.promiseJobs, collected.atomicsWaiters, collected.imports,
    collected.finalizationJobs, List.map_append] at member
  simp only [List.mem_append, List.mem_map] at member ⊢
  grind

end Returned

section Preserving

variable (covered : heap.UntracedReached strongCount additional)

include covered

theorem reached_of_held {node : GraphNode}
    (member : node ∈ heap.drainReleases.held) :
    heap.Reached strongCount additional (.node node) := by
  rcases mem_held heap.drainReleases additional member with root | missed
  · exact .root root
  · exact covered.held node missed

theorem reached_of_strongEdges {source node : GraphNode}
    (reached : heap.Reached strongCount additional (.node source))
    (follows : node ∈ heap.drainReleases.strongEdges source) :
    heap.Reached strongCount additional (.node node) := by
  rcases (mem_strongEdges _ source node).mp follows with visited | missed
  · exact .edge reached visited
  · exact covered.edges source reached node missed

theorem reached_of_stronglyReached {node : GraphNode}
    (strongly : heap.drainReleases.StronglyReached additional node) :
    heap.Reached strongCount additional (.node node) := by
  induction strongly with
  | isPublic listed =>
      apply EphemeronGraph.Reached.root
      unfold roots
      simp only [List.mem_append]
      exact .inl (.inl (.inl (.inl listed)))
  | held member => exact reached_of_held covered member
  | additional member present =>
      apply EphemeronGraph.Reached.root
      unfold roots
      exact List.mem_append_right _ (List.mem_filter.mpr ⟨member, present⟩)
  | edge _ follows source =>
      exact reached_of_strongEdges covered source follows

end Preserving

theorem publicNodes_contains {heap : RuntimeHeap} {node : GraphNode}
    (listed : node ∈ heap.publicNodes) : heap.contains node = true := by
  unfold publicNodes at listed
  simp only [List.mem_append, List.mem_map, List.mem_filter] at listed
  rcases listed with ⟨⟨id, function⟩, ⟨member, _⟩, rfl⟩ |
    ⟨⟨id, object⟩, ⟨member, _⟩, rfl⟩
  · rw [Arena.mem_iter] at member
    simp [contains, Arena.contains, member]
  · rw [Arena.mem_iter] at member
    simp [contains, Arena.contains, member]

theorem contains_of_stronglyReached {heap : RuntimeHeap}
    (sound : heap.NoDangling) {node : GraphNode}
    (strongly : heap.StronglyReached additional node) :
    heap.contains node = true := by
  cases strongly with
  | isPublic listed => exact publicNodes_contains listed
  | held member => exact sound node (.held member)
  | additional _ present => exact present
  | edge _ follows => exact sound node (.edge follows)

/-- The value of an entry that is left is reached. -/
theorem reached_of_entry {id : ObjectId} {object : HeapObject}
    (stored : heap.drainReleases.objects.get id = some object)
    (reached : heap.Reached strongCount additional (.node (.object id)))
    {entry : WeakKey × StoredValue} (member : entry ∈ object.weakMapEntries)
    (alive : heap.Alive strongCount additional entry.1) {node : GraphNode}
    (value : node ∈ valueNodes entry.2) :
    heap.Reached strongCount additional (.node node) := by
  have marks : valueItem entry.2 = some (.node node) := by
    cases held : entry.2 <;>
      simp_all [valueNodes, heapReference, HeapReference.node, valueItem]
  have listed : (GraphNode.object id, object.weakMapEntries.map fun entry =>
      (entry.1.item, valueItem entry.2)) ∈
        (heap.drainReleases.graph strongCount).tables :=
    List.mem_map.mpr ⟨(id, object), (Arena.mem_iter _ _ _).mpr stored, rfl⟩
  have owner : (heap.drainReleases.graph strongCount).Reached
      (heap.drainReleases.roots additional) (.node (.object id)) :=
    reached
  have offered : (entry.1.item, some (Item.node node)) ∈
      object.weakMapEntries.map fun entry =>
        (entry.1.item, valueItem entry.2) :=
    List.mem_map.mpr ⟨entry, member, by rw [marks]⟩
  apply EphemeronGraph.Reached.of_live listed owner offered
  rcases alive with marked | ⟨symbol, same, more⟩
  · exact .inl marked
  · refine .inr ⟨symbol, ?_, ?_⟩
    · rw [same]
      rfl
    · exact decide_eq_true more

theorem noDangling_collected
    (returned : heap.collectCyclesWithRoots strongCount additional order =
      .ok (.ok report, next))
    (enumerates : Enumerates order (heap.marks strongCount additional))
    (sound : heap.drainReleases.NoDangling)
    (covered : heap.UntracedReached strongCount additional) :
    next.NoDangling := by
  intro node stored
  rw [contains_collected returned enumerates]
  cases stored with
  | held member =>
      rcases held_collected returned enumerates member with
        old | ⟨id, queued, rfl⟩
      · exact ⟨sound node (.held old), reached_of_held covered old⟩
      · obtain ⟨reached, object, state, stored, _⟩ :=
          (mem_jobs enumerates id).mp queued
        refine ⟨?_, reached⟩
        simp [contains, Arena.contains, stored]
  | edge follows =>
      obtain ⟨old, reached⟩ :=
        strongEdges_collected returned enumerates sound follows
      exact ⟨sound node (.edge old),
        reached_of_strongEdges covered reached old⟩
  | ephemeron found member value =>
      obtain ⟨reached, object, owners, original, fewer, rfl⟩ :=
        object_collected returned enumerates found
      obtain ⟨old, alive⟩ := collectedObject_entries
        (sound_liveness.mono fewer) _ _ member
      exact ⟨sound node (.ephemeron original old value),
        reached_of_entry original reached old alive value⟩
  | activation member =>
      obtain ⟨old, alive⟩ :=
        activations_collected returned enumerates member
      have present := sound _ (.activation old)
      exact ⟨present, reached_of_not_dead present alive⟩

end Collecting

/-- A collection that succeeds leaves nothing dangling and keeps what is
reached from the roots, just when what is held in fields that are not visited
is reached otherwise. -/
theorem collectCyclesWithRoots_preserved_iff (heap next : RuntimeHeap)
    (strongCount : Nat → Nat) (additional : List GraphNode)
    (order : List ObjectId) (report : CollectionReport)
    (sound : heap.NoDangling)
    (enumerates : Enumerates order (heap.marks strongCount additional))
    (returned : heap.collectCyclesWithRoots strongCount additional order =
      .ok (.ok report, next)) :
    heap.Preserved additional next ↔
      heap.UntracedReached strongCount additional := by
  have drained := (drainReleases_sameContent heap).noDangling sound
  constructor
  · intro preserved
    constructor
    · intro node missed
      have survives := preserved.survives node
        (.held (untracedHeld_subset _ missed))
      exact ((contains_collected returned enumerates node).mp survives).2
    · intro source reached node missed
      have kept := untracedEdges_collected returned enumerates reached missed
      have survives := preserved.noDangling node (.edge kept)
      exact ((contains_collected returned enumerates node).mp survives).2
  · intro covered
    constructor
    · exact noDangling_collected returned enumerates drained covered
    · intro node strongly
      exact (contains_collected returned enumerates node).mpr
        ⟨contains_of_stronglyReached drained strongly,
          reached_of_stronglyReached covered strongly⟩

/-- The nodes that are stored strongly. -/
def storedNodes (heap : RuntimeHeap) : List GraphNode :=
  heap.held ++
    (heap.functions.iter.flatMap fun entry =>
      heap.strongEdges (.function entry.1)) ++
    (heap.objects.iter.flatMap fun entry =>
      heap.strongEdges (.object entry.1)) ++
    (heap.cells.iter.flatMap fun entry =>
      heap.strongEdges (.cell entry.1)) ++
    (heap.objects.iter.flatMap fun entry =>
      entry.2.weakMapEntries.flatMap fun entry => valueNodes entry.2) ++
    heap.activations.map .object ++
    heap.activations.flatMap fun id => heap.strongEdges (.object id)

theorem mem_storedNodes {heap : RuntimeHeap} {node : GraphNode}
    (stored : heap.Stored node) : node ∈ heap.storedNodes := by
  unfold storedNodes
  simp only [List.mem_append, List.mem_flatMap, List.mem_map, or_assoc]
  cases stored with
  | held member => exact .inl member
  | activation member =>
      exact .inr (.inr (.inr (.inr (.inr (.inl ⟨_, member, rfl⟩)))))
  | ephemeron found member value =>
      exact .inr (.inr (.inr (.inr (.inl
        ⟨(_, _), (Arena.mem_iter _ _ _).mpr found, _, member, value⟩))))
  | edge follows =>
      rename_i source
      cases source with
      | function id =>
          cases found : heap.functions.get id with
          | none => simp [strongEdges, found] at follows
          | some function =>
              exact .inr (.inl ⟨(id, function),
                (Arena.mem_iter _ _ _).mpr found, follows⟩)
      | cell id =>
          cases found : heap.cells.get id with
          | none => simp [strongEdges, found] at follows
          | some cell =>
              exact .inr (.inr (.inr (.inl ⟨(id, cell),
                (Arena.mem_iter _ _ _).mpr found, follows⟩)))
      | object id =>
          cases found : heap.objects.get id with
          | some object =>
              exact .inr (.inr (.inl ⟨(id, object),
                (Arena.mem_iter _ _ _).mpr found, follows⟩))
          | none =>
              refine .inr (.inr (.inr (.inr (.inr (.inr
                ⟨id, ?_, follows⟩)))))
              simp only [strongEdges, found, Option.map_none,
                Option.getD_none, List.append_nil] at follows
              exact mem_activations_of_strong follows

theorem noDangling_of_storedNodes {heap : RuntimeHeap}
    (present : heap.storedNodes.all (heap.contains ·) = true) :
    heap.NoDangling := by
  intro node stored
  exact List.all_eq_true.mp present node (mem_storedNodes stored)

/-- Intrinsics that share a prototype and a constructor. -/
def sharedIntrinsics (object : ObjectId) (function : FunctionId) :
    ReadyIntrinsics where
  functionPrototype := function
  throwTypeError := function
  functionConstructor := function
  errors := ⟨[⟨object, function⟩], function, function, function, function⟩
  boolean := ⟨object, function⟩
  number := ⟨object, function⟩
  bigint := ⟨object, function⟩
  string := ⟨object, function⟩
  array := ⟨object, function⟩
  arrayBuffer := ⟨object, function⟩
  sharedArrayBuffer := ⟨object, function⟩
  dataView := ⟨object, function⟩
  typedArray := ⟨object, [object], [function]⟩
  date := ⟨object, function⟩
  intl :=
    { namespaceObject := object
      collator := ⟨object, function⟩
      collatorCompare := function
      numberFormat := ⟨object, function⟩
      numberFormatFormat := function
      dateTimeFormat := ⟨object, function⟩
      dateTimeFormatFormat := function
      pluralRules := ⟨object, function⟩
      relativeTimeFormat := ⟨object, function⟩
      listFormat := ⟨object, function⟩
      displayNames := ⟨object, function⟩
      durationFormat := ⟨object, function⟩
      segmenter := ⟨object, function⟩
      segmentsPrototype := object
      segmentIteratorPrototype := object
      locale := ⟨object, function⟩ }
  temporal :=
    { namespaceObject := object
      now := object
      duration := ⟨object, function⟩
      instant := ⟨object, function⟩
      plainDate := ⟨object, function⟩
      plainDateTime := ⟨object, function⟩
      plainTime := ⟨object, function⟩
      plainMonthDay := ⟨object, function⟩
      plainYearMonth := ⟨object, function⟩
      zonedDateTime := ⟨object, function⟩ }
  map := ⟨object, function, object⟩
  set := ⟨object, function, object⟩
  weakMap := ⟨object, function⟩
  weakSet := ⟨object, function⟩
  weakRef := ⟨object, function⟩
  finalizationRegistry := ⟨object, function⟩
  promise := ⟨object, function⟩
  regexp := ⟨object, function⟩
  symbol := ⟨object, function⟩
  iterators := ⟨function, object, object, object, object, object, function,
    object, object, object, function⟩
  generators := ⟨function, object, object⟩
  asyncFunctions := ⟨function, object⟩
  asyncGenerators := ⟨function, object, object⟩

/-- A realm, and a module whose namespace for deferred imports is cached in
its record and nowhere else. -/
def deferredHeap : RuntimeHeap where
  mailbox := []
  realms := [⟨⟨0, 0, 0⟩, ⟨0, 0, 0⟩,
    .ready (sharedIntrinsics ⟨0, 0, 0⟩ ⟨0, 0, 0⟩), []⟩]
  code := .filled 0 []
  functions := .filled 0 [⟨.native none, ⟨some (.object ⟨0, 0, 0⟩), []⟩, 0⟩]
  objects := .filled 0 [⟨.ordinary, ⟨none, []⟩, 0⟩,
    ⟨.moduleNamespace [], ⟨none, []⟩, 0⟩]
  cells := .filled 0 []
  globalBindings := .filled 0 []
  modules := [⟨[], none, none, some ⟨0, 1, 0⟩, none, none⟩]
  maxPendingFinalizationJobs := 16
  installedTemplates := 0
  installedAtoms := 0
  installedConstants := 0
  objectProperties := 0
  arrayBufferBytes := 0
  forInEntries := 0
  collectionEntries := 0
  publicRoots := 0
  collectionPending := true
  promiseJobs := []
  atomicsWaiters := []
  pendingDynamicImports := []
  hostFunctions := []
  finalizationJobs := []
  keptAlive := []
  generatorStates := []
  asyncFunctionStates := []
  asyncGeneratorStates := []
  arrayFromAsyncStates := []

theorem deferredHeap_noDangling : deferredHeap.NoDangling :=
  noDangling_of_storedNodes (by decide +kernel)

theorem deferredHeap_enumerates :
    Enumerates [⟨0, 0, 0⟩] (deferredHeap.marks (fun _ => 0) []) := by
  have marked : deferredHeap.marks (fun _ => 0) [] =
      {.node (.object ⟨0, 0, 0⟩), .node (.function ⟨0, 0, 0⟩)} := by
    decide +kernel
  refine ⟨by simp, ?_⟩
  intro id
  simp [marked]

/-- The namespace is gone after the collection. -/
theorem deferredHeap_collected :
    ∃ report next,
      deferredHeap.collectCyclesWithRoots (fun _ => 0) [] [⟨0, 0, 0⟩] =
        .ok (.ok report, next) ∧
      .object ⟨0, 1, 0⟩ ∈ next.held ∧
      next.contains (.object ⟨0, 1, 0⟩) = false := by
  have removed : leaves
      (deferredHeap.collectCyclesWithRoots (fun _ => 0) [] [⟨0, 0, 0⟩])
      (fun next => decide (GraphNode.object ⟨0, 1, 0⟩ ∈ next.held) &&
        !next.contains (.object ⟨0, 1, 0⟩)) = true := by
    decide +kernel
  obtain ⟨report, next, returned, removed⟩ := exists_of_leaves removed
  rw [Bool.and_eq_true, decide_eq_true_eq, Bool.not_eq_true'] at removed
  exact ⟨report, next, returned, removed⟩

theorem collectCyclesWithRoots_preserved_iff_deferredHeap :
    deferredHeap.NoDangling ∧
    Enumerates [⟨0, 0, 0⟩] (deferredHeap.marks (fun _ => 0) []) ∧
    ∃ report next,
      deferredHeap.collectCyclesWithRoots (fun _ => 0) [] [⟨0, 0, 0⟩] =
        .ok (.ok report, next) ∧
      (deferredHeap.Preserved [] next ↔
        deferredHeap.UntracedReached (fun _ => 0) []) := by
  obtain ⟨report, next, returned, _⟩ := deferredHeap_collected
  exact ⟨deferredHeap_noDangling, deferredHeap_enumerates, report, next,
    returned, collectCyclesWithRoots_preserved_iff deferredHeap next _ _ _
      report deferredHeap_noDangling deferredHeap_enumerates returned⟩

/-- After the collection the record of the module still names the namespace
that was removed. -/
theorem deferredHeap_not_preserved :
    deferredHeap.NoDangling ∧
    Enumerates [⟨0, 0, 0⟩] (deferredHeap.marks (fun _ => 0) []) ∧
    ∃ report next,
      deferredHeap.collectCyclesWithRoots (fun _ => 0) [] [⟨0, 0, 0⟩] =
        .ok (.ok report, next) ∧
      ¬ deferredHeap.Preserved [] next := by
  obtain ⟨report, next, returned, held, gone⟩ := deferredHeap_collected
  refine ⟨deferredHeap_noDangling, deferredHeap_enumerates, report, next,
    returned, ?_⟩
  intro preserved
  have present := preserved.noDangling _ (.held held)
  rw [gone] at present
  cases present

end RuntimeHeap

end Fusor.Gc
