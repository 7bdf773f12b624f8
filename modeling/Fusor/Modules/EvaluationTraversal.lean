import Fusor.Graph.LowLink
import Fusor.Modules.EvaluationSpec

/-!
# The state of a walk over the module graph

In a graph without top-level await a walk only moves modules from linked to
evaluating and on to evaluated.  The modules on its stack are the ones that
are evaluating, and their numbers and ancestor indices are the low links of
the graph of the modules that were linked at the start.
-/

namespace Fusor.Modules

open EvaluationRuntime Fusor.Graph Relation

/-- The modules that the root requests directly or through others. -/
def InGraph (runtime : EvaluationRuntime) (root : ModuleRecordId) :
    ModuleRecordId → Prop :=
  ReflTransGen (fun source target => target ∈ runtime.moduleDependencies source)
    root

/-- No module of the graph awaits at its top level or is being evaluated, and
the ones evaluated before have their component evaluated. -/
structure Synchronous (start : EvaluationRuntime)
    (graph : ModuleRecordId → Prop) : Prop where
  requested : ∀ module dependency, graph module →
    dependency ∈ start.moduleDependencies module → graph dependency
  settled : ∀ module, graph module → start.moduleStatus module = .linked ∨
    start.moduleStatus module = .evaluated ∨
    start.moduleStatus module = .errored
  noTla : ∀ module, graph module → start.moduleHasTla module = false
  noOrder : ∀ module record, graph module → start.get module = some record →
    record.asyncEvaluationOrder = none
  evaluated : ∀ module, graph module →
    start.moduleStatus module = .evaluated →
      graph (start.cycleRoot module) ∧
      start.moduleStatus (start.cycleRoot module) = .evaluated
  errored : ∀ module, graph module →
    start.moduleStatus module = .errored → start.cycleRoot module = module

section Requests

theorem mem_appendNew {list : List ModuleRecordId}
    {additional module : ModuleRecordId} :
    module ∈ appendNew list additional ↔
      module ∈ list ∨ module = additional := by
  rw [appendNew]
  split
  · rename_i present
    constructor
    · exact .inl
    · rintro (member | rfl)
      · exact member
      · exact present
  · simp

theorem mem_foldl_appendNew {dependency : ModuleRecordId}
    {requests : List EvaluationRequest}
    {contributes : EvaluationRequest → List ModuleRecordId}
    {found : List ModuleRecordId} :
    dependency ∈ requests.foldl
      (fun found request => (contributes request).foldl appendNew found)
      found ↔
    dependency ∈ found ∨
      ∃ request ∈ requests, dependency ∈ contributes request := by
  have appended : ∀ list found : List ModuleRecordId,
      dependency ∈ list.foldl appendNew found ↔
        dependency ∈ found ∨ dependency ∈ list := by
    intro list
    induction list with
    | nil => simp
    | cons additional list induction =>
        intro found
        rw [List.foldl_cons, induction, mem_appendNew, List.mem_cons, or_assoc]
  induction requests generalizing found with
  | nil => simp
  | cons request requests induction =>
      rw [List.foldl_cons]
      refine induction.trans ?_
      rw [appended]
      simp [or_assoc]

theorem mem_moduleDependencies {runtime : EvaluationRuntime}
    {module dependency : ModuleRecordId} {record : EvaluationRecord}
    (present : runtime.get module = some record) :
    dependency ∈ runtime.moduleDependencies module ↔
      ∃ request ∈ record.requests, request.dependency = some dependency := by
  rw [moduleDependencies, present]
  simp only
  rw [mem_foldl_appendNew]
  simp

theorem mem_eagerDependencies {requests : List EvaluationRequest}
    {dependency : ModuleRecordId} :
    dependency ∈ eagerDependencies requests ↔
      ∃ request ∈ requests, request.deferred = false ∧
        request.dependency = some dependency := by
  rw [eagerDependencies, mem_foldl_appendNew]
  constructor
  · rintro (member | ⟨request, present, member⟩)
    · cases member
    · cases phase : request.deferred with
      | true =>
          rw [phase] at member
          cases member
      | false =>
          rw [phase] at member
          exact ⟨request, present, phase, by simpa using member⟩
  · rintro ⟨request, present, eager, requested⟩
    refine .inr ⟨request, present, ?_⟩
    rw [eager, requested]
    simp

variable {runtime : EvaluationRuntime} {graph : ModuleRecordId → Prop}

/-- Nothing asynchronous is gathered from a graph without top-level await. -/
theorem gatherAsyncTransitiveDependencies_out
    (requested : ∀ module dependency, graph module →
      dependency ∈ runtime.moduleDependencies module → graph dependency)
    (noTla : ∀ module, graph module → runtime.moduleHasTla module = false)
    (depth : Nat) {module : ModuleRecordId} (inside : graph module)
    (found : List ModuleRecordId × List ModuleRecordId) :
    (runtime.gatherAsyncTransitiveDependencies depth module found).2 =
      found.2 := by
  induction depth generalizing module found with
  | zero => rfl
  | succ depth induction =>
      obtain ⟨seen, out⟩ := found
      unfold gatherAsyncTransitiveDependencies
      split
      · rfl
      · simp only
        split
        · rfl
        · split
          · rfl
          · rw [noTla module inside]
            have folded : ∀ (dependencies : List ModuleRecordId)
                (found : List ModuleRecordId × List ModuleRecordId),
                (∀ dependency ∈ dependencies, graph dependency) →
                (dependencies.foldl
                  (fun found dependency =>
                    runtime.gatherAsyncTransitiveDependencies depth dependency
                      found) found).2 = found.2 := by
              intro dependencies
              induction dependencies with
              | nil =>
                  intro found _
                  rfl
              | cons dependency dependencies next =>
                  intro found within
                  rw [List.foldl_cons, next _ fun other member =>
                    within other (List.mem_cons_of_mem _ member)]
                  exact induction (within dependency List.mem_cons_self) found
            simpa using folded (runtime.moduleDependencies module)
              (module :: seen, out)
              fun dependency member => requested module dependency inside member

/-- In a graph without top-level await deferred requests add nothing. -/
theorem moduleEvaluationList_eq
    (requested : ∀ module dependency, graph module →
      dependency ∈ runtime.moduleDependencies module → graph dependency)
    (noTla : ∀ module, graph module → runtime.moduleHasTla module = false)
    {module : ModuleRecordId} {record : EvaluationRecord}
    (inside : graph module) (present : runtime.get module = some record) :
    runtime.moduleEvaluationList module =
      eagerDependencies record.requests := by
  have each : ∀ request ∈ record.requests,
      runtime.requestedModules request =
        if request.deferred then [] else request.dependency.toList := by
    intro request member
    rw [requestedModules]
    cases dependent : request.dependency with
    | none => simp
    | some dependency =>
        simp only
        split
        · exact gatherAsyncTransitiveDependencies_out requested noTla _
            (requested module dependency inside
              ((mem_moduleDependencies present).mpr
                ⟨request, member, dependent⟩)) _
        · rfl
  have folded : ∀ (requests : List EvaluationRequest)
      (list : List ModuleRecordId),
      (∀ request ∈ requests, request ∈ record.requests) →
      requests.foldl (fun list request =>
        (runtime.requestedModules request).foldl appendNew list) list =
      requests.foldl (fun list request =>
        (if request.deferred then [] else request.dependency.toList).foldl
          appendNew list) list := by
    intro requests
    induction requests with
    | nil =>
        intro list _
        rfl
    | cons request requests induction =>
        intro list within
        rw [List.foldl_cons, List.foldl_cons,
          each request (within request List.mem_cons_self)]
        exact induction _ fun other member =>
          within other (List.mem_cons_of_mem request member)
  rw [moduleEvaluationList, present, eagerDependencies]
  exact folded record.requests [] fun _ member => member

end Requests

section Definitions

def dfs (runtime : EvaluationRuntime) (module : ModuleRecordId) : Nat :=
  ((runtime.get module).bind EvaluationRecord.dfsIndex).getD 0

def low (runtime : EvaluationRuntime) (module : ModuleRecordId) : Nat :=
  ((runtime.get module).bind EvaluationRecord.dfsAncestorIndex).getD 0

/-- An edge between modules that were linked at the start. -/
def Edge (start : EvaluationRuntime) (source target : ModuleRecordId) : Prop :=
  start.moduleStatus source = .linked ∧ start.moduleStatus target = .linked ∧
    target ∈ start.moduleEvaluationList source

/-- A module whose component has been completed since the start. -/
def Completed (start runtime : EvaluationRuntime) (module : ModuleRecordId) :
    Prop :=
  start.moduleStatus module = .linked ∧
    runtime.moduleStatus module = .evaluated

/-- Two modules of one strongly connected component. -/
def SameComponent (start : EvaluationRuntime)
    (module other : ModuleRecordId) : Prop :=
  ReflTransGen (Edge start) module other ∧
    ReflTransGen (Edge start) other module

/-- A linked module that the walk has entered. -/
structure Advanced (before after : EvaluationRecord) : Prop where
  linked : before.status = .linked
  requests : after.requests = before.requests
  hasTla : after.hasTla = before.hasTla
  order : after.asyncEvaluationOrder = before.asyncEvaluationOrder
  status : after.status = .evaluating ∨ after.status = .evaluated

structure Traversal (start : EvaluationRuntime)
    (graph : ModuleRecordId → Prop) (runtime : EvaluationRuntime)
    (stack : List ModuleRecordId) (index : Nat) : Prop where
  touched : ∀ module, runtime.get module = start.get module ∨
    ∃ before after, start.get module = some before ∧
      runtime.get module = some after ∧ Advanced before after
  stacked : ∀ module, module ∈ stack ↔
    graph module ∧ runtime.moduleStatus module = .evaluating
  numbered : ∀ module ∈ stack, ∃ record number ancestor,
    runtime.get module = some record ∧ record.dfsIndex = some number ∧
      record.dfsAncestorIndex = some ancestor ∧ number < index
  link : LowLink (Edge start) (Completed start runtime) (dfs runtime)
    (low runtime) stack
  components : ∀ module, Completed start runtime module →
    ∃ record root, runtime.get module = some record ∧
      record.cycleRoot = some root ∧ SameComponent start module root ∧
      ∀ other, SameComponent start other root →
        dfs runtime root ≤ dfs runtime other

theorem moduleStatus_eq_of_get {left right : EvaluationRuntime}
    {module : ModuleRecordId} (same : left.get module = right.get module) :
    left.moduleStatus module = right.moduleStatus module := by
  rw [moduleStatus, moduleStatus, same]

theorem moduleStatus_of_get {runtime : EvaluationRuntime}
    {module : ModuleRecordId} {record : EvaluationRecord}
    (present : runtime.get module = some record) :
    runtime.moduleStatus module = record.status := by
  rw [moduleStatus, present]
  rfl

theorem dfs_eq_of_get {left right : EvaluationRuntime}
    {module : ModuleRecordId} (same : left.get module = right.get module) :
    dfs left module = dfs right module := by
  rw [dfs, dfs, same]

theorem low_eq_of_get {left right : EvaluationRuntime}
    {module : ModuleRecordId} (same : left.get module = right.get module) :
    low left module = low right module := by
  rw [low, low, same]

end Definitions

namespace Traversal

variable {start runtime : EvaluationRuntime} {graph : ModuleRecordId → Prop}
  {stack : List ModuleRecordId} {index : Nat}

section Facts

variable (synchronous : Synchronous start graph)
  (traversal : Traversal start graph runtime stack index)

include traversal in
/-- A module that is still linked has not been touched. -/
theorem get_of_linked {module : ModuleRecordId}
    (linked : runtime.moduleStatus module = .linked) :
    runtime.get module = start.get module := by
  rcases traversal.touched module with same | ⟨before, after, _, present, moved⟩
  · exact same
  · rw [moduleStatus_of_get present] at linked
    rcases moved.status with status | status
    · rw [status] at linked
      cases linked
    · rw [status] at linked
      cases linked

include traversal in
theorem start_linked {module : ModuleRecordId}
    (linked : runtime.moduleStatus module = .linked) :
    start.moduleStatus module = .linked := by
  rw [← moduleStatus_eq_of_get (traversal.get_of_linked linked)]
  exact linked

include traversal in
theorem get_of_start_ne_linked {module : ModuleRecordId}
    (other : start.moduleStatus module ≠ .linked) :
    runtime.get module = start.get module := by
  rcases traversal.touched module with same | ⟨before, after, present, _, moved⟩
  · exact same
  · exact absurd (by rw [moduleStatus_of_get present, moved.linked]) other

include synchronous traversal in
theorem status_cases {module : ModuleRecordId} (inside : graph module) :
    runtime.moduleStatus module = .linked ∨
    runtime.moduleStatus module = .evaluating ∨
    runtime.moduleStatus module = .evaluated ∨
    runtime.moduleStatus module = .errored := by
  rcases traversal.touched module with same | ⟨before, after, _, present, moved⟩
  · rw [moduleStatus_eq_of_get same]
    rcases synchronous.settled module inside with status | status | status
    · exact .inl status
    · exact .inr (.inr (.inl status))
    · exact .inr (.inr (.inr status))
  · rw [moduleStatus_of_get present]
    rcases moved.status with status | status
    · exact .inr (.inl status)
    · exact .inr (.inr (.inl status))

include synchronous traversal in
theorem start_linked_of_mem {module : ModuleRecordId}
    (member : module ∈ stack) : start.moduleStatus module = .linked := by
  obtain ⟨inside, evaluating⟩ := (traversal.stacked module).mp member
  rcases traversal.touched module with same | ⟨before, _, was, _, moved⟩
  · rw [moduleStatus_eq_of_get same] at evaluating
    rcases synchronous.settled module inside with status | status | status
    · exact status
    · rw [status] at evaluating
      cases evaluating
    · rw [status] at evaluating
      cases evaluating
  · rw [moduleStatus_of_get was]
    exact moved.linked

include traversal in
theorem start_errored {module : ModuleRecordId}
    (errored : runtime.moduleStatus module = .errored) :
    runtime.get module = start.get module := by
  rcases traversal.touched module with same | ⟨before, after, _, present, moved⟩
  · exact same
  · rw [moduleStatus_of_get present] at errored
    rcases moved.status with status | status
    · rw [status] at errored
      cases errored
    · rw [status] at errored
      cases errored

include synchronous traversal in
theorem cycleRoot_of_errored {module : ModuleRecordId} (inside : graph module)
    (errored : runtime.moduleStatus module = .errored) :
    runtime.cycleRoot module = module := by
  have same := traversal.start_errored errored
  have before : start.moduleStatus module = .errored := by
    rw [← moduleStatus_eq_of_get same]
    exact errored
  rw [EvaluationRuntime.cycleRoot, same]
  exact synchronous.errored module inside before

theorem dependency_inGraph (synchronous : Synchronous start graph)
    {module dependency : ModuleRecordId} (inside : graph module)
    (member : dependency ∈ start.moduleEvaluationList module) :
    graph dependency := by
  cases present : start.get module with
  | none =>
      rw [moduleEvaluationList, present] at member
      cases member
  | some record =>
      rw [moduleEvaluationList_eq synchronous.requested synchronous.noTla inside
        present] at member
      obtain ⟨request, requestMember, _, requested⟩ :=
        mem_eagerDependencies.mp member
      exact synchronous.requested module dependency inside
        ((mem_moduleDependencies present).mpr
          ⟨request, requestMember, requested⟩)

theorem reaches_inGraph (synchronous : Synchronous start graph)
    {module other : ModuleRecordId} (inside : graph module)
    (path : ReflTransGen (Edge start) module other) : graph other := by
  induction path with
  | refl => exact inside
  | tail _ edge induction =>
      exact dependency_inGraph synchronous induction edge.2.2

include traversal in
theorem completed_of_reaches {module other : ModuleRecordId}
    (completed : Completed start runtime module)
    (path : ReflTransGen (Edge start) module other) :
    Completed start runtime other := by
  induction path with
  | refl => exact completed
  | tail _ edge induction => exact traversal.link.closed_edge _ _ induction edge

include synchronous traversal in
theorem cycleRoot_of_evaluated {module : ModuleRecordId}
    (inside : graph module)
    (evaluated : runtime.moduleStatus module = .evaluated) :
    graph (runtime.cycleRoot module) ∧
      runtime.moduleStatus (runtime.cycleRoot module) = .evaluated := by
  by_cases linked : start.moduleStatus module = .linked
  · obtain ⟨record, root, present, rooted, component, _⟩ :=
      traversal.components module ⟨linked, evaluated⟩
    have equal : runtime.cycleRoot module = root := by
      rw [EvaluationRuntime.cycleRoot, present]
      simp [rooted]
    rw [equal]
    exact ⟨reaches_inGraph synchronous inside component.1,
      (traversal.completed_of_reaches ⟨linked, evaluated⟩ component.1).2⟩
  · have same := traversal.get_of_start_ne_linked linked
    have before : start.moduleStatus module = .evaluated := by
      rw [← moduleStatus_eq_of_get same]
      exact evaluated
    obtain ⟨rootInside, rootEvaluated⟩ :=
      synchronous.evaluated module inside before
    have equal : runtime.cycleRoot module = start.cycleRoot module := by
      rw [EvaluationRuntime.cycleRoot, EvaluationRuntime.cycleRoot, same]
    rw [equal]
    refine ⟨rootInside, ?_⟩
    rw [moduleStatus_eq_of_get (traversal.get_of_start_ne_linked
      (by rw [rootEvaluated]; decide))]
    exact rootEvaluated

include synchronous traversal in
theorem noOrder {module : ModuleRecordId} {record : EvaluationRecord}
    (inside : graph module) (present : runtime.get module = some record) :
    record.asyncEvaluationOrder = none := by
  rcases traversal.touched module with
    same | ⟨before, after, was, became, moved⟩
  · rw [same] at present
    exact synchronous.noOrder module record inside present
  · cases present.symm.trans became
    rw [moved.order]
    exact synchronous.noOrder module before inside was

include synchronous traversal in
theorem noTla {module : ModuleRecordId} (inside : graph module) :
    runtime.moduleHasTla module = false := by
  have before := synchronous.noTla module inside
  rw [moduleHasTla] at before ⊢
  rcases traversal.touched module with
    same | ⟨before', after, was, became, moved⟩
  · rw [same]
    exact before
  · rw [was] at before
    rw [became]
    simpa [moved.hasTla] using before

include traversal in
/-- The walk does not change what the modules request. -/
theorem moduleDependencies_eq (module : ModuleRecordId) :
    runtime.moduleDependencies module = start.moduleDependencies module := by
  rw [moduleDependencies, moduleDependencies]
  rcases traversal.touched module with
    same | ⟨before, after, was, became, moved⟩
  · rw [same]
  · rw [was, became]
    simp only
    rw [moved.requests]

include synchronous traversal in
theorem moduleEvaluationList_run {module : ModuleRecordId}
    {record : EvaluationRecord} (inside : graph module)
    (present : runtime.get module = some record) :
    runtime.moduleEvaluationList module =
      eagerDependencies record.requests := by
  refine moduleEvaluationList_eq ?_ ?_ inside present
  · intro module dependency inside member
    rw [traversal.moduleDependencies_eq] at member
    exact synchronous.requested module dependency inside member
  · exact fun module inside => traversal.noTla synchronous inside

include synchronous traversal in
theorem moduleEvaluationList_start {module : ModuleRecordId}
    (inside : graph module) :
    runtime.moduleEvaluationList module =
      start.moduleEvaluationList module := by
  rcases traversal.touched module with
    same | ⟨before, after, was, became, moved⟩
  · cases present : runtime.get module with
    | none =>
        rw [moduleEvaluationList, moduleEvaluationList, ← same, present]
    | some record =>
        rw [traversal.moduleEvaluationList_run synchronous inside present,
          moduleEvaluationList_eq synchronous.requested synchronous.noTla
            inside (same ▸ present)]
  · rw [traversal.moduleEvaluationList_run synchronous inside became,
      moduleEvaluationList_eq synchronous.requested synchronous.noTla inside
        was, moved.requests]

include synchronous traversal in
/-- The specification visits the modules that the code lists. -/
theorem requestedModules_start {module : ModuleRecordId}
    (inside : graph module) :
    Spec.requestedModules runtime module =
      start.moduleEvaluationList module := by
  rw [← traversal.moduleEvaluationList_start synchronous inside,
    Spec.requestedModules]
  cases present : runtime.get module with
  | none => rw [moduleEvaluationList, present]
  | some record =>
      rw [traversal.moduleEvaluationList_run synchronous inside present]

end Facts

section Steps

theorem begin (synchronous : Synchronous start graph) :
    Traversal start graph start [] 0 := by
  have none : ∀ module, ¬ Completed start start module := by
    rintro module ⟨linked, evaluated⟩
    rw [linked] at evaluated
    cases evaluated
  constructor
  · exact fun module => .inl rfl
  · intro module
    constructor
    · intro member
      cases member
    · rintro ⟨inside, evaluating⟩
      rcases synchronous.settled module inside with status | status | status
      · rw [status] at evaluating
        cases evaluating
      · rw [status] at evaluating
        cases evaluating
      · rw [status] at evaluating
        cases evaluating
  · intro module member
    cases member
  · constructor
    · exact List.Pairwise.nil
    · intro module member
      cases member
    · intro module member
      cases member
    · intro module member
      cases member
    · intro source target completed
      exact absurd completed (none source)
  · intro module completed
    exact absurd completed (none module)

/-- What a walk has completed stays as it is while the completed records
do. -/
theorem components_of_get
    (traversal : Traversal start graph runtime stack index)
    {after : EvaluationRuntime}
    (same : ∀ module, Completed start runtime module →
      after.get module = runtime.get module)
    {module : ModuleRecordId} (completed : Completed start runtime module) :
    ∃ record root, after.get module = some record ∧
      record.cycleRoot = some root ∧ SameComponent start module root ∧
      ∀ other, SameComponent start other root →
        dfs after root ≤ dfs after other := by
  obtain ⟨record, root, present, rooted, component, first⟩ :=
    traversal.components module completed
  have rootCompleted := traversal.completed_of_reaches completed component.1
  refine ⟨record, root, ?_, rooted, component, ?_⟩
  · rw [same module completed]
    exact present
  · intro other mutually
    have otherCompleted :=
      traversal.completed_of_reaches rootCompleted mutually.2
    rw [dfs_eq_of_get (same root rootCompleted),
      dfs_eq_of_get (same other otherCompleted)]
    exact first other mutually

theorem enter (traversal : Traversal start graph runtime stack index)
    {module : ModuleRecordId} (inside : graph module)
    (linked : runtime.moduleStatus module = .linked) :
    Traversal start graph
      (runtime.update module (Evaluator.startEvaluating index))
      (module :: stack) (index + 1) := by
  obtain ⟨record, present, status⟩ :=
    Evaluator.exists_of_moduleStatus linked (by decide)
  have startPresent : start.get module = some record := by
    rw [← traversal.get_of_linked linked]
    exact present
  generalize updated :
    runtime.update module (Evaluator.startEvaluating index) = after
  have own : after.get module =
      some (Evaluator.startEvaluating index record) := by
    rw [← updated, get_update_self, present]
    rfl
  have others : ∀ other, other ≠ module →
      after.get other = runtime.get other := by
    intro other apart
    rw [← updated]
    exact get_update_of_ne runtime _ apart
  have ownStatus : after.moduleStatus module = .evaluating :=
    moduleStatus_of_get own
  have fresh : module ∉ stack := by
    intro member
    rw [((traversal.stacked module).mp member).2] at linked
    cases linked
  have apart : ∀ other ∈ stack, other ≠ module := by
    rintro other member rfl
    exact fresh member
  have sameCompleted : Completed start after = Completed start runtime := by
    funext other
    rw [Completed, Completed]
    by_cases equal : other = module
    · subst equal
      rw [ownStatus, linked]
      simp
    · rw [moduleStatus_eq_of_get (others other equal)]
  constructor
  · intro other
    by_cases equal : other = module
    · subst equal
      exact .inr ⟨record, _, startPresent, own, status, rfl, rfl, rfl,
        .inl rfl⟩
    · rw [others other equal]
      exact traversal.touched other
  · intro other
    rw [List.mem_cons, traversal.stacked other]
    by_cases equal : other = module
    · subst equal
      simp [inside, ownStatus]
    · rw [moduleStatus_eq_of_get (others other equal)]
      simp [equal]
  · intro other member
    rcases List.mem_cons.mp member with rfl | within
    · exact ⟨_, index, index, own, rfl, rfl, Nat.lt_succ_self index⟩
    · obtain ⟨found, number, ancestor, foundPresent, numbered, low, less⟩ :=
        traversal.numbered other within
      refine ⟨found, number, ancestor, ?_, numbered, low,
        Nat.lt_succ_of_lt less⟩
      rw [others other (apart other within)]
      exact foundPresent
  · rw [sameCompleted]
    have ownIndex : dfs after module = index := by
      rw [dfs, own]
      rfl
    apply traversal.link.push fresh
    · rintro ⟨_, evaluated⟩
      rw [linked] at evaluated
      cases evaluated
    · exact fun other member => dfs_eq_of_get (others other (apart other member))
    · exact fun other member => low_eq_of_get (others other (apart other member))
    · intro other member
      obtain ⟨found, number, _, foundPresent, numbered, _, less⟩ :=
        traversal.numbered other member
      rw [ownIndex, dfs, foundPresent]
      simpa [numbered] using less
    · rw [ownIndex, low, own]
      rfl
  · intro other completed
    rw [sameCompleted] at completed
    refine traversal.components_of_get ?_ completed
    intro done finished
    apply others
    rintro rfl
    rw [finished.2] at linked
    cases linked

/-- A module on the stack takes over the ancestor index of a dependency on the
stack. -/
theorem lower (traversal : Traversal start graph runtime stack index)
    {module dependency : ModuleRecordId} (member : module ∈ stack)
    (dependencyMember : dependency ∈ stack)
    (edge : Edge start module dependency) :
    Traversal start graph
      (runtime.update module (Evaluator.lowerAncestor
        ((runtime.get dependency).bind EvaluationRecord.dfsAncestorIndex)))
      stack index ∧
    low (runtime.update module (Evaluator.lowerAncestor
      ((runtime.get dependency).bind EvaluationRecord.dfsAncestorIndex)))
        module = min (low runtime module) (low runtime dependency) := by
  obtain ⟨record, number, ancestor, present, numbered, lowered, less⟩ :=
    traversal.numbered module member
  obtain ⟨_, _, dependencyAncestor, dependencyPresent, _, dependencyLow, _⟩ :=
    traversal.numbered dependency dependencyMember
  have evaluating := ((traversal.stacked module).mp member).2
  rw [dependencyPresent, Option.bind_some, dependencyLow]
  generalize updated : runtime.update module
    (Evaluator.lowerAncestor (some dependencyAncestor)) = after
  have own : after.get module = some
      { record with
        dfsAncestorIndex := some (min ancestor dependencyAncestor) } := by
    rw [← updated, get_update_self, present, Option.map_some,
      Evaluator.lowerAncestor, lowered]
    rfl
  have others : ∀ other, other ≠ module →
      after.get other = runtime.get other := by
    intro other apart
    rw [← updated]
    exact get_update_of_ne runtime _ apart
  have sameStatus : ∀ other,
      after.moduleStatus other = runtime.moduleStatus other := by
    intro other
    by_cases equal : other = module
    · subst equal
      rw [moduleStatus_of_get own, moduleStatus_of_get present]
    · exact moduleStatus_eq_of_get (others other equal)
  have sameIndex : dfs after = dfs runtime := by
    funext other
    by_cases equal : other = module
    · subst equal
      rw [dfs, dfs, own, present]
      rfl
    · exact dfs_eq_of_get (others other equal)
  have sameCompleted : Completed start after = Completed start runtime := by
    funext other
    rw [Completed, Completed, sameStatus]
  have ownLow : low after module =
      min (low runtime module) (low runtime dependency) := by
    rw [low, low, low, own, present, dependencyPresent]
    simp [lowered, dependencyLow]
  refine ⟨?_, ownLow⟩
  constructor
  · intro other
    by_cases equal : other = module
    · subst equal
      rcases traversal.touched other with
        same | ⟨before, found, was, became, moved⟩
      · rw [moduleStatus_eq_of_get same] at evaluating
        have startLinked := edge.1
        rw [evaluating] at startLinked
        cases startLinked
      · cases became.symm.trans present
        exact .inr ⟨before, _, was, own, moved.linked, moved.requests,
          moved.hasTla, moved.order, moved.status⟩
    · rw [others other equal]
      exact traversal.touched other
  · intro other
    rw [sameStatus]
    exact traversal.stacked other
  · intro other otherMember
    by_cases equal : other = module
    · subst equal
      exact ⟨_, number, _, own, numbered, rfl, less⟩
    · rw [others other equal]
      exact traversal.numbered other otherMember
  · rw [sameIndex, sameCompleted]
    apply traversal.link.lower member dependencyMember edge ownLow
    exact fun other apart => low_eq_of_get (others other apart)
  · intro other completed
    rw [sameCompleted] at completed
    refine traversal.components_of_get ?_ completed
    intro done finished
    apply others
    rintro rfl
    rw [finished.2] at evaluating
    cases evaluating

theorem record_executed
    (traversal : Traversal start graph runtime stack index)
    (executed : List ModuleRecordId) :
    Traversal start graph { runtime with executed } stack index :=
  ⟨traversal.touched, traversal.stacked, traversal.numbered, traversal.link,
    traversal.components⟩

theorem popComponent_spec {root : ModuleRecordId}
    {above base : List ModuleRecordId} (fresh : root ∉ above)
    (distinct : above.Nodup) (runtime : EvaluationRuntime) :
    (Evaluator.popComponent root (above ++ root :: base) runtime).2 = base ∧
    (Evaluator.popComponent root (above ++ root :: base) runtime).1.executed =
      runtime.executed ∧
    ∀ module,
      (Evaluator.popComponent root (above ++ root :: base) runtime).1.get
        module =
        if module ∈ root :: above then
          (runtime.get module).map (Evaluator.closeComponent root)
        else runtime.get module := by
  induction above generalizing runtime with
  | nil =>
      simp only [List.nil_append, Evaluator.popComponent, if_true]
      refine ⟨trivial, rfl, ?_⟩
      intro module
      rw [get_update]
      by_cases equal : module = root
      · subst equal
        simp
      · simp [equal]
  | cons popped above induction =>
      have apart : popped ≠ root := by
        rintro rfl
        exact fresh List.mem_cons_self
      have later : root ∉ above :=
        fun member => fresh (List.mem_cons_of_mem popped member)
      obtain ⟨poppedFresh, distinct⟩ := List.nodup_cons.mp distinct
      obtain ⟨rest, executed, records⟩ := induction later distinct
        (runtime.update popped (Evaluator.closeComponent root))
      simp only [List.cons_append, Evaluator.popComponent, if_neg apart]
      refine ⟨rest, executed, ?_⟩
      intro module
      rw [records module]
      by_cases equal : module = popped
      · subst equal
        have outside : module ∉ root :: above := by
          simp [apart, poppedFresh]
        rw [if_neg outside, get_update_self, if_pos (by simp)]
      · rw [get_update_of_ne runtime _ equal]
        simp [equal]

section Pop

variable {module : ModuleRecordId} {above base : List ModuleRecordId}
  (traversal : Traversal start graph runtime (above ++ module :: base) index)

include traversal in
theorem above_nodup : module ∉ above ∧ above.Nodup := by
  have distinct : (above ++ module :: base).Nodup := by
    refine traversal.link.descending.imp ?_
    rintro upper lower less rfl
    exact Nat.lt_irrefl _ less
  obtain ⟨aboveDistinct, _, apart⟩ := List.nodup_append.mp distinct
  exact ⟨fun member => apart module member module List.mem_cons_self rfl,
    aboveDistinct⟩

/-- The members of a component that is taken off the stack. -/
theorem component_first
    (isolated : LowLink.Isolated (Edge start) (Completed start runtime) module
      above)
    (traversal : Traversal start graph runtime (above ++ module :: base) index)
    {other : ModuleRecordId} (mutually : SameComponent start other module) :
    other ∈ module :: above := by
  have kept : Completed start runtime other ∨ other ∈ module :: above := by
    have path := mutually.2
    clear mutually
    induction path with
    | refl => exact .inr List.mem_cons_self
    | tail _ edge induction =>
        rcases induction with done | member
        · exact .inl (traversal.link.closed_edge _ _ done edge)
        · exact isolated _ member _ edge
  rcases kept with done | member
  · exact absurd (traversal.completed_of_reaches done mutually.1)
      (traversal.link.apart module (by simp))
  · exact member

include traversal in
theorem pop (synchronous : Synchronous start graph)
    (visited : Visited (Edge start) (Completed start runtime) (dfs runtime)
      (low runtime) (above ++ module :: base) module above)
    (isolated : LowLink.Isolated (Edge start) (Completed start runtime) module
      above) :
    Traversal start graph
      (Evaluator.popComponent module (above ++ module :: base) runtime).1
      base index := by
  obtain ⟨fresh, distinct⟩ := traversal.above_nodup
  obtain ⟨_, _, records⟩ := @popComponent_spec module above base fresh distinct
    runtime
  generalize
    (Evaluator.popComponent module (above ++ module :: base) runtime).1 =
      after at records
  have within : ∀ other ∈ module :: above,
      other ∈ above ++ module :: base :=
    fun other member => LowLink.mem_stack_iff.mpr (.inl member)
  have closedRecord : ∀ other ∈ module :: above, ∃ record,
      runtime.get other = some record ∧
      after.get other = some { record with
        cycleRoot := some module, status := .evaluated } := by
    intro other member
    obtain ⟨record, _, _, present, _⟩ :=
      traversal.numbered other (within other member)
    obtain ⟨inside, evaluating⟩ :=
      (traversal.stacked other).mp (within other member)
    refine ⟨record, present, ?_⟩
    have order := traversal.noOrder synchronous inside present
    rw [moduleStatus_of_get present] at evaluating
    rw [records other, if_pos member, present]
    simp [Evaluator.closeComponent, evaluating, order]
  have otherRecord : ∀ other, other ∉ module :: above →
      after.get other = runtime.get other := by
    intro other outside
    rw [records other, if_neg outside]
  have sameIndex : dfs after = dfs runtime := by
    funext other
    by_cases member : other ∈ module :: above
    · obtain ⟨record, present, became⟩ := closedRecord other member
      rw [dfs, dfs, present, became]
      rfl
    · exact dfs_eq_of_get (otherRecord other member)
  have sameLow : low after = low runtime := by
    funext other
    by_cases member : other ∈ module :: above
    · obtain ⟨record, present, became⟩ := closedRecord other member
      rw [low, low, present, became]
      rfl
    · exact low_eq_of_get (otherRecord other member)
  have startLinked : ∀ other ∈ module :: above,
      start.moduleStatus other = .linked :=
    fun other member =>
      traversal.start_linked_of_mem synchronous (within other member)
  have completes : ∀ other, Completed start after other ↔
      Completed start runtime other ∨ other ∈ module :: above := by
    intro other
    by_cases member : other ∈ module :: above
    · obtain ⟨record, present, became⟩ := closedRecord other member
      rw [Completed, moduleStatus_of_get became]
      simp [startLinked other member, member]
    · rw [Completed, moduleStatus_eq_of_get (otherRecord other member)]
      simp only [member, or_false]
      exact Iff.rfl
  have below : ∀ other ∈ base, other ∉ module :: above := by
    intro other member inside
    have less := traversal.link.index_below member
    rcases List.mem_cons.mp inside with rfl | higher
    · exact Nat.lt_irrefl _ less
    · have := traversal.link.index_above higher
      omega
  constructor
  · intro other
    by_cases member : other ∈ module :: above
    · obtain ⟨record, present, became⟩ := closedRecord other member
      rcases traversal.touched other with
        same | ⟨before, found, was, wasNow, moved⟩
      · have evaluating := ((traversal.stacked other).mp (within other member)).2
        rw [moduleStatus_eq_of_get same, startLinked other member] at evaluating
        cases evaluating
      · cases wasNow.symm.trans present
        exact .inr ⟨before, _, was, became, moved.linked, moved.requests,
          moved.hasTla, moved.order, .inr rfl⟩
    · rw [otherRecord other member]
      exact traversal.touched other
  · intro other
    by_cases member : other ∈ module :: above
    · obtain ⟨record, _, became⟩ := closedRecord other member
      rw [moduleStatus_of_get became]
      constructor
      · intro inBase
        exact absurd member (below other inBase)
      · rintro ⟨_, status⟩
        cases status
    · rw [moduleStatus_eq_of_get (otherRecord other member),
        ← traversal.stacked other, LowLink.mem_stack_iff]
      simp [member]
  · intro other member
    rw [otherRecord other (below other member)]
    exact traversal.numbered other (LowLink.mem_stack_iff.mpr (.inr member))
  · rw [sameIndex, sameLow]
    exact traversal.link.pop isolated completes
  · intro other completed
    by_cases member : other ∈ module :: above
    · obtain ⟨record, _, became⟩ := closedRecord other member
      refine ⟨_, module, became, rfl, ⟨?_, ?_⟩, ?_⟩
      · exact LowLink.reaches_entered traversal.link visited isolated member
      · rcases List.mem_cons.mp member with rfl | higher
        · exact .refl
        · exact visited.reached other higher
      · intro another mutually
        rw [sameIndex]
        rcases List.mem_cons.mp (component_first isolated traversal mutually)
          with rfl | higher
        · exact Nat.le_refl _
        · exact Nat.le_of_lt (traversal.link.index_above higher)
    · have before : Completed start runtime other := by
        rcases (completes other).mp completed with done | inside
        · exact done
        · exact absurd inside member
      refine traversal.components_of_get ?_ before
      intro done finished
      apply otherRecord
      intro inside
      exact traversal.link.apart done (within done inside) finished

end Pop

end Steps

end Traversal

end Fusor.Modules
