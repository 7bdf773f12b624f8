import Fusor.Modules.EvaluationRefinement

/-!
# Correctness of module evaluation

In a graph without top-level await evaluation does what the recursive
specification does if and only if the specification does not abandon a linked
module when it meets one that failed earlier.  Where nothing failed earlier
the two always agree, every module of the graph is evaluated on success, and
its cycle root is the member of its component that was entered first.
-/

namespace Fusor.Modules

open EvaluationRuntime Fusor.Graph Relation

/-- No linked module is among the requests that a failed walk abandons. -/
def Completion.SparesLinked : Completion → Prop
  | .throw walk _ abandoned =>
      ∀ module ∈ abandoned, walk.runtime.moduleStatus module ≠ .linked
  | _ => True

instance : DecidablePred Completion.SparesLinked
  | .throw walk _ abandoned => inferInstanceAs (Decidable
      (∀ module ∈ abandoned, walk.runtime.moduleStatus module ≠ .linked))
  | .normal _ => inferInstanceAs (Decidable True)
  | .stuck => inferInstanceAs (Decidable True)

/-- Evaluation has the result of the specification, starts the same bodies in
the same order and leaves the same statuses. -/
def EvaluatesAsSpecified (bodies : ModuleRecordId → Option EvaluationError)
    (runtime : EvaluationRuntime) (root : ModuleRecordId) : Prop :=
  ∃ after, Spec.evaluate bodies runtime root =
      some (after, (evaluateModule bodies runtime root).2) ∧
    (evaluateModule bodies runtime root).1.executed = after.executed ∧
    ∀ module, (evaluateModule bodies runtime root).1.moduleStatus module =
      after.moduleStatus module

section Outcome

variable {start : EvaluationRuntime} {root : ModuleRecordId}
  {bodies : ModuleRecordId → Option EvaluationError}

theorem walk_agrees (synchronous : Synchronous start (InGraph start root)) :
    Agrees start (InGraph start root) bodies start start [] 0 root []
      (Spec.walk bodies start root) := by
  have begun := Traversal.begin synchronous
  exact inner_agrees synchronous start.modules.length root start start [] 0 []
    .refl rfl begun begun List.countP_le_length

theorem run_finished {runtime : EvaluationRuntime}
    {stack : List ModuleRecordId} {index : Nat} :
    Evaluator.run bodies ⟨runtime, [], stack, index⟩ = (runtime, none) := by
  rw [Evaluator.run]
  rfl

/-- A completed walk leaves the root evaluated and nothing on the stack. -/
theorem NormalAgrees.root_evaluated
    (synchronous : Synchronous start (InGraph start root))
    (linked : start.moduleStatus root = .linked) {walk : Walk}
    {after : EvaluationRuntime}
    (agrees : NormalAgrees start (InGraph start root) bodies start start [] 0
      root [] walk after) :
    walk.stack = [] ∧ walk.runtime.moduleStatus root = .evaluated := by
  obtain ⟨nodes, equal, opened⟩ := agrees.specVisit.left
  rw [List.append_nil] at equal
  have empty : walk.stack = [] := by
    refine agrees.specTraversal.link.eq_nil ?_
    intro node member
    rw [equal] at member
    exact opened.unclosed node member
  refine ⟨empty, ?_⟩
  have inside : InGraph start root root := .refl
  rcases LoopState.visited_of_start_linked synchronous agrees.specTraversal
    inside linked agrees.specVisit.entered with evaluating | evaluated
  · have member := (agrees.specTraversal.stacked root).mpr ⟨inside, evaluating⟩
    rw [empty] at member
    cases member
  · exact evaluated

theorem evaluateModule_of_normal
    (synchronous : Synchronous start (InGraph start root))
    (linked : start.moduleStatus root = .linked) {walk : Walk}
    {after : EvaluationRuntime}
    (agrees : NormalAgrees start (InGraph start root) bodies start start [] 0
      root [] walk after) :
    (evaluateModule bodies start root).2 = .ok () ∧
      (evaluateModule bodies start root).1.forget = walk.runtime.forget := by
  have evaluated : after.moduleStatus root = .evaluated := by
    rw [moduleStatus_congr agrees.same]
    exact (agrees.root_evaluated synchronous linked).2
  have computed : evaluateModule bodies start root =
      (after.update root (settleCapability .fulfilled), .ok ()) := by
    simp only [evaluateModule, linked, agrees.run, run_finished,
      evaluationResult, evaluated]
  rw [computed]
  exact ⟨rfl, (forget_settleCapability after root _).trans agrees.same⟩

theorem evaluateModule_of_throw (linked : start.moduleStatus root = .linked)
    {walk : Walk} {error : EvaluationError} {after : EvaluationRuntime}
    (run : Evaluator.run bodies ⟨start, [.enter root], [], 0⟩ =
      (after, some (error, walk.stack)))
    (same : after.forget = walk.runtime.forget) :
    (evaluateModule bodies start root).2 = .error error ∧
      (evaluateModule bodies start root).1.forget =
        (markErrored walk.stack error walk.runtime).forget := by
  have computed : evaluateModule bodies start root =
      (failEvaluation root walk.stack error after, .error error) := by
    simp only [evaluateModule, linked, run]
  rw [computed]
  refine ⟨rfl, ?_⟩
  rw [failEvaluation, forget_settleCapability]
  exact forget_markErrored_congr error walk.stack same

/-- Unless it abandons a linked module, the specification is met in
everything but the ancestor indices. -/
theorem evaluate_eq (synchronous : Synchronous start (InGraph start root))
    (linked : start.moduleStatus root = .linked)
    (spares : (Spec.walk bodies start root).SparesLinked) :
    ∃ after, Spec.evaluate bodies start root =
        some (after, (evaluateModule bodies start root).2) ∧
      (evaluateModule bodies start root).1.forget = after.forget := by
  have agrees := @walk_agrees start root bodies synchronous
  rw [Spec.evaluate]
  cases completion : Spec.walk bodies start root with
  | stuck =>
      rw [completion] at agrees
      exact agrees.elim
  | normal walk =>
      rw [completion] at agrees
      obtain ⟨after, agrees⟩ := agrees
      obtain ⟨result, same⟩ := evaluateModule_of_normal synchronous linked agrees
      exact ⟨walk.runtime, by rw [result], same⟩
  | throw walk error abandoned =>
      rw [completion] at agrees spares
      obtain ⟨after, run, same⟩ := agrees.same spares
      obtain ⟨result, forgotten⟩ := evaluateModule_of_throw linked run same
      exact ⟨markErrored walk.stack error walk.runtime, by rw [result],
        forgotten⟩

end Outcome

section Marking

theorem get_markErrored (stack : List ModuleRecordId)
    (error : EvaluationError) (runtime : EvaluationRuntime)
    (module : ModuleRecordId) :
    (markErrored stack error runtime).get module =
      if module ∈ stack then (runtime.get module).map fun record =>
        { record with evaluationError := some error, status := .errored }
      else runtime.get module := by
  induction stack with
  | nil => rfl
  | cons marked stack induction =>
      rw [markErrored, List.foldr_cons, ← markErrored, get_update]
      by_cases own : module = marked
      · subst own
        rw [if_pos rfl, induction, if_pos List.mem_cons_self]
        split
        · cases runtime.get module <;> rfl
        · rfl
      · rw [if_neg own, induction]
        simp [own]

theorem moduleStatus_markErrored_of_not_mem {stack : List ModuleRecordId}
    {error : EvaluationError} {runtime : EvaluationRuntime}
    {module : ModuleRecordId} (outside : module ∉ stack) :
    (markErrored stack error runtime).moduleStatus module =
      runtime.moduleStatus module := by
  apply moduleStatus_eq_of_get
  rw [get_markErrored, if_neg outside]

theorem executed_markErrored (stack : List ModuleRecordId)
    (error : EvaluationError) (runtime : EvaluationRuntime) :
    (markErrored stack error runtime).executed = runtime.executed := by
  induction stack with
  | nil => rfl
  | cons module stack induction => exact induction

theorem settles_markErrored (stack : List ModuleRecordId)
    (error : EvaluationError) (runtime : EvaluationRuntime) :
    Evaluator.Settles runtime (markErrored stack error runtime) := by
  induction stack with
  | nil => exact .refl runtime
  | cons module stack induction =>
      exact induction.trans (.update fun record same => by cases same)

/-- What is done after the loop makes no module linked. -/
theorem settles_evaluateModule {start : EvaluationRuntime}
    {root : ModuleRecordId} (linked : start.moduleStatus root = .linked)
    (bodies : ModuleRecordId → Option EvaluationError) :
    Evaluator.Settles
      (Evaluator.run bodies ⟨start, [.enter root], [], 0⟩).1
      (evaluateModule bodies start root).1 := by
  simp only [evaluateModule, linked]
  split
  · rename_i after completed
    rw [completed]
    rw [evaluationResult]
    split
    · exact .refl after
    · exact .update fun _ same => same
    · exact .update fun _ same => same
    · exact .refl after
  · rename_i after error stack failed
    rw [failed]
    exact (settles_markErrored stack error after).trans
      (.update fun _ same => same)

end Marking

section Siblings

variable {start : EvaluationRuntime} {root : ModuleRecordId}
  {bodies : ModuleRecordId → Option EvaluationError}

/-- A linked module that the specification abandons is entered. -/
theorem sparesLinked_of_asSpecified
    (synchronous : Synchronous start (InGraph start root))
    (linked : start.moduleStatus root = .linked)
    (evaluates : EvaluatesAsSpecified bodies start root) :
    (Spec.walk bodies start root).SparesLinked := by
  obtain ⟨after, specified, _, statuses⟩ := evaluates
  have agrees := @walk_agrees start root bodies synchronous
  rw [Spec.evaluate] at specified
  cases completion : Spec.walk bodies start root with
  | stuck => exact trivial
  | normal walk => exact trivial
  | throw walk error abandoned =>
      rw [completion] at agrees specified
      intro module member stillLinked
      obtain ⟨other, otherLinked, moved⟩ :=
        agrees.differs module member stillLinked
      simp only [Option.some.injEq, Prod.mk.injEq] at specified
      apply moved
      have outside : other ∉ walk.stack := by
        intro inside
        rw [((agrees.traversal.stacked other).mp inside).2] at otherLinked
        cases otherLinked
      have final := statuses other
      rw [← specified.1, moduleStatus_markErrored_of_not_mem outside,
        otherLinked] at final
      exact settles_evaluateModule linked bodies other final

/-- The modules of a graph are among any that contain the root and what they
request. -/
theorem mem_of_inGraph {modules : List ModuleRecordId}
    (member : root ∈ modules)
    (requested : ∀ module ∈ modules,
      ∀ dependency ∈ start.moduleDependencies module, dependency ∈ modules)
    {module : ModuleRecordId} (inside : InGraph start root module) :
    module ∈ modules := by
  induction inside with
  | refl => exact member
  | tail _ follows induction => exact requested _ induction _ follows

/-- A graph whose evaluated modules are their own components. -/
theorem Synchronous.of_modules {modules : List ModuleRecordId}
    (member : root ∈ modules)
    (requested : ∀ module ∈ modules,
      ∀ dependency ∈ start.moduleDependencies module, dependency ∈ modules)
    (records : ∀ module ∈ modules,
      (start.moduleStatus module = .linked ∨
        start.moduleStatus module = .evaluated ∨
        start.moduleStatus module = .errored) ∧
      start.moduleHasTla module = false ∧
      (start.get module).bind EvaluationRecord.asyncEvaluationOrder = none ∧
      start.cycleRoot module = module) :
    Synchronous start (InGraph start root) := by
  have within : ∀ module, InGraph start root module → module ∈ modules :=
    fun module inside => mem_of_inGraph member requested inside
  constructor
  · intro module dependency inside follows
    exact inside.tail follows
  · intro module inside
    exact (records module (within module inside)).1
  · intro module inside
    exact (records module (within module inside)).2.1
  · intro module record inside present
    have order := (records module (within module inside)).2.2.1
    rw [present] at order
    exact order
  · intro module inside evaluated
    rw [(records module (within module inside)).2.2.2]
    exact ⟨inside, evaluated⟩
  · intro module inside _
    exact (records module (within module inside)).2.2.2

end Siblings

/-- A module that failed earlier stops its later siblings exactly when none of
them is still linked. -/
theorem evaluateModule_asSpecified_iff
    (bodies : ModuleRecordId → Option EvaluationError)
    (runtime : EvaluationRuntime) (root : ModuleRecordId)
    (synchronous : Synchronous runtime (InGraph runtime root))
    (linked : runtime.moduleStatus root = .linked) :
    EvaluatesAsSpecified bodies runtime root ↔
      (Spec.walk bodies runtime root).SparesLinked := by
  constructor
  · exact sparesLinked_of_asSpecified synchronous linked
  · intro spares
    obtain ⟨after, specified, same⟩ := evaluate_eq synchronous linked spares
    exact ⟨after, specified, executed_congr same,
      fun module => moduleStatus_congr same module⟩

section FailedSibling

/-- A module record that requests some modules. -/
def requesting (dependencies : List ModuleRecordId) (status : ModuleStatus) :
    EvaluationRecord :=
  { requests := dependencies.map fun dependency => ⟨some dependency, false⟩
    hasTla := false
    status := status
    dfsIndex := none
    dfsAncestorIndex := none
    cycleRoot := none
    evaluationError :=
      if status = .errored then some (.exception 7) else none
    pendingAsyncDependencies := 0
    asyncEvaluationOrder := none
    asyncParentModules := []
    topLevelCapability := none }

/-- The root requests a module that failed earlier and then a linked one. -/
def failedSibling : EvaluationRuntime :=
  { modules := [requesting [1, 2] .linked, requesting [] .errored,
      requesting [] .linked]
    executed := []
    activations := []
    moduleAsyncEvaluationCount := 0 }

theorem failedSibling_synchronous :
    Synchronous failedSibling (InGraph failedSibling 0) :=
  @Synchronous.of_modules _ 0 [0, 1, 2] (by decide) (by decide)
    (by decide)

/-- The linked sibling is evaluated although the specification stops before
it. -/
theorem failedSibling_not_asSpecified :
    Synchronous failedSibling (InGraph failedSibling 0) ∧
    failedSibling.moduleStatus 0 = .linked ∧
    ¬ EvaluatesAsSpecified (fun _ => none) failedSibling 0 := by
  refine ⟨failedSibling_synchronous, by decide, ?_⟩
  intro evaluates
  have spares := sparesLinked_of_asSpecified failedSibling_synchronous
    (by decide) evaluates
  exact absurd spares (by decide)

/-- With the failed module last the sibling is evaluated on both sides. -/
def failedLast : EvaluationRuntime :=
  { failedSibling with
    modules := [requesting [2, 1] .linked, requesting [] .errored,
      requesting [] .linked] }

theorem evaluateModule_asSpecified_iff_failedLast :
    EvaluatesAsSpecified (fun _ => none) failedLast 0 := by
  have synchronous : Synchronous failedLast (InGraph failedLast 0) :=
    @Synchronous.of_modules _ 0 [0, 1, 2] (by decide) (by decide)
      (by decide)
  exact (evaluateModule_asSpecified_iff (fun _ => none) failedLast 0
    synchronous (by decide)).mpr (by decide)

end FailedSibling

section Components

/-- Two modules that request each other, directly or through others. -/
def StronglyConnected (start : EvaluationRuntime)
    (module other : ModuleRecordId) : Prop :=
  InGraph start module other ∧ InGraph start other module

/-- A graph to be evaluated for the first time: nothing failed, nothing is
deferred, and what an evaluated module requests is evaluated. -/
structure Evaluable (start : EvaluationRuntime)
    (graph : ModuleRecordId → Prop) : Prop where
  synchronous : Synchronous start graph
  eager : ∀ module record, graph module → start.get module = some record →
    ∀ request ∈ record.requests, request.deferred = false
  unfailed : ∀ module, graph module → start.moduleStatus module ≠ .errored
  clean : ∀ module, graph module → start.moduleStatus module = .evaluated →
    start.cycleRootEvaluationError module = none
  closed : ∀ module dependency, graph module →
    start.moduleStatus module = .evaluated →
    dependency ∈ start.moduleDependencies module →
    start.moduleStatus dependency = .evaluated

variable {start runtime : EvaluationRuntime} {root : ModuleRecordId}
  {graph : ModuleRecordId → Prop} {stack : List ModuleRecordId} {index : Nat}

namespace Evaluable

variable (evaluable : Evaluable start graph)

include evaluable in
theorem mem_moduleEvaluationList_iff {module dependency : ModuleRecordId}
    (inside : graph module) :
    dependency ∈ start.moduleEvaluationList module ↔
      dependency ∈ start.moduleDependencies module := by
  cases present : start.get module with
  | none =>
      rw [moduleEvaluationList, moduleDependencies, present]
  | some record =>
      rw [moduleEvaluationList_eq evaluable.synchronous.requested
        evaluable.synchronous.noTla inside present, mem_eagerDependencies,
        mem_moduleDependencies present]
      constructor
      · rintro ⟨request, member, _, requested⟩
        exact ⟨request, member, requested⟩
      · rintro ⟨request, member, requested⟩
        exact ⟨request, member,
          evaluable.eager module record inside present request member,
          requested⟩

include evaluable in
theorem status_cases {module : ModuleRecordId} (inside : graph module) :
    start.moduleStatus module = .linked ∨
      start.moduleStatus module = .evaluated := by
  rcases evaluable.synchronous.settled module inside with
    status | status | status
  · exact .inl status
  · exact .inr status
  · exact absurd status (evaluable.unfailed module inside)

include evaluable in
theorem inGraph_of_reaches {module other : ModuleRecordId}
    (inside : graph module) (path : InGraph start module other) :
    graph other := by
  induction path with
  | refl => exact inside
  | tail _ follows induction =>
      exact evaluable.synchronous.requested _ _ induction follows

include evaluable in
theorem evaluated_of_reaches {module other : ModuleRecordId}
    (inside : graph module) (path : InGraph start module other)
    (evaluated : start.moduleStatus module = .evaluated) :
    start.moduleStatus other = .evaluated := by
  induction path with
  | refl => exact evaluated
  | tail path follows induction =>
      exact evaluable.closed _ _ (evaluable.inGraph_of_reaches inside path)
        induction follows

include evaluable in
/-- A path to a linked module leads through linked modules. -/
theorem reaches_of_requests {module other : ModuleRecordId}
    (inside : graph module) (path : InGraph start module other)
    (linked : start.moduleStatus other = .linked) :
    ReflTransGen (Edge start) module other := by
  have linkedBefore : ∀ before, graph before → InGraph start before other →
      start.moduleStatus before = .linked := by
    intro before beforeInside rest
    rcases evaluable.status_cases beforeInside with status | status
    · exact status
    · rw [evaluable.evaluated_of_reaches beforeInside rest status] at linked
      cases linked
  unfold InGraph at path
  induction path using ReflTransGen.head_induction_on with
  | refl => exact .refl
  | head first rest induction =>
      have nextInside := evaluable.synchronous.requested _ _ inside first
      refine .head ⟨?_, ?_, ?_⟩ (induction nextInside)
      · exact linkedBefore _ inside (.head first rest)
      · exact linkedBefore _ nextInside rest
      · exact (evaluable.mem_moduleEvaluationList_iff inside).mpr first

include evaluable in
theorem requests_of_reaches {module other : ModuleRecordId}
    (inside : graph module) (path : ReflTransGen (Edge start) module other) :
    InGraph start module other := by
  induction path with
  | refl => exact .refl
  | tail path edge induction =>
      refine .tail induction ?_
      exact (evaluable.mem_moduleEvaluationList_iff
        (Traversal.reaches_inGraph evaluable.synchronous inside path)).mp
          edge.2.2

include evaluable in
theorem sameComponent_iff {module other : ModuleRecordId}
    (inside : graph module) (linked : start.moduleStatus module = .linked) :
    SameComponent start module other ↔ StronglyConnected start module other := by
  constructor
  · rintro ⟨forth, back⟩
    exact ⟨evaluable.requests_of_reaches inside forth,
      evaluable.requests_of_reaches (Traversal.reaches_inGraph
        evaluable.synchronous inside forth) back⟩
  · rintro ⟨forth, back⟩
    have otherInside := evaluable.inGraph_of_reaches inside forth
    have otherLinked : start.moduleStatus other = .linked := by
      rcases evaluable.status_cases otherInside with status | status
      · exact status
      · rw [evaluable.evaluated_of_reaches otherInside back status] at linked
        cases linked
    exact ⟨evaluable.reaches_of_requests inside forth otherLinked,
      evaluable.reaches_of_requests otherInside back linked⟩

include evaluable in
/-- What an evaluated module requests is evaluated, at any point of a walk. -/
theorem evaluated_dependency
    (traversal : Traversal start graph runtime stack index)
    {module dependency : ModuleRecordId} (inside : graph module)
    (evaluated : runtime.moduleStatus module = .evaluated)
    (follows : dependency ∈ start.moduleDependencies module) :
    runtime.moduleStatus dependency = .evaluated := by
  have dependencyInside :=
    evaluable.synchronous.requested _ _ inside follows
  have unchanged : start.moduleStatus dependency = .evaluated →
      runtime.moduleStatus dependency = .evaluated := by
    intro status
    rw [moduleStatus_eq_of_get (traversal.get_of_start_ne_linked
      (by rw [status]; decide))]
    exact status
  rcases evaluable.status_cases inside with linked | status
  · rcases evaluable.status_cases dependencyInside with
      dependencyLinked | dependencyStatus
    · exact (traversal.link.closed_edge _ _ ⟨linked, evaluated⟩
        ⟨linked, dependencyLinked,
          (evaluable.mem_moduleEvaluationList_iff inside).mpr follows⟩).2
    · exact unchanged dependencyStatus
  · exact unchanged (evaluable.closed _ _ inside status follows)

include evaluable in
theorem evaluated_of_inGraph
    (traversal : Traversal start graph runtime stack index)
    {module other : ModuleRecordId} (inside : graph module)
    (evaluated : runtime.moduleStatus module = .evaluated)
    (path : InGraph start module other) :
    runtime.moduleStatus other = .evaluated := by
  induction path with
  | refl => exact evaluated
  | tail path follows induction =>
      exact evaluable.evaluated_dependency traversal
        (evaluable.inGraph_of_reaches inside path) induction follows

end Evaluable

/-- What the evaluation of a graph for the first time leaves. -/
structure EvaluatesGraph (bodies : ModuleRecordId → Option EvaluationError)
    (start : EvaluationRuntime) (root : ModuleRecordId)
    (after : EvaluationRuntime) (result : Except EvaluationError Unit) :
    Prop where
  specified : ∃ specified, Spec.evaluate bodies start root =
    some (specified, result) ∧ after.forget = specified.forget
  once : ∃ added, after.executed = start.executed ++ added ∧ added.Nodup ∧
    ∀ module ∈ added, start.moduleStatus module = .linked
  success : result = .ok () → ∀ module, InGraph start root module →
    after.moduleStatus module = .evaluated ∧
    (start.moduleStatus module = .linked →
      ∃ record first, after.get module = some record ∧
        record.cycleRoot = some first ∧
        StronglyConnected start module first ∧
        ∀ other, StronglyConnected start first other →
          dfs after first ≤ dfs after other)
  failure : ∀ error, result = .error error → ∃ walk abandoned,
    Spec.walk bodies start root = .throw walk error abandoned ∧
    (∃ thrower, after.executed.getLast? = some thrower ∧
      bodies thrower = some error) ∧
    ∀ module, InGraph start root module →
      (module ∈ walk.stack ∧ after.moduleStatus module = .errored ∧
        after.moduleEvaluationError module = error) ∨
      (module ∉ walk.stack ∧ after.moduleStatus module = .evaluated ∧
        ∀ other, StronglyConnected start module other →
          after.moduleStatus other = .evaluated) ∨
      (module ∉ walk.stack ∧ after.moduleStatus module = .linked)

section Leaves

variable {bodies : ModuleRecordId → Option EvaluationError}
  {after : EvaluationRuntime} {walk : Walk}

theorem evaluatesGraph_of_normal
    (evaluable : Evaluable start (InGraph start root))
    (linked : start.moduleStatus root = .linked)
    (completion : Spec.walk bodies start root = .normal walk)
    (agrees : NormalAgrees start (InGraph start root) bodies start start [] 0
      root [] walk after) :
    EvaluatesGraph bodies start root (evaluateModule bodies start root).1
      (evaluateModule bodies start root).2 := by
  obtain ⟨result, same⟩ :=
    evaluateModule_of_normal evaluable.synchronous linked agrees
  obtain ⟨_, rootEvaluated⟩ :=
    agrees.root_evaluated evaluable.synchronous linked
  rw [result]
  constructor
  · exact ⟨walk.runtime, by rw [Spec.evaluate, completion], same⟩
  · obtain ⟨added, executed, distinct, modules⟩ := agrees.specVisit.frame.ran
    refine ⟨added, ?_, distinct, fun module member =>
      (modules module member).1⟩
    rw [executed_congr same]
    exact executed
  · intro _ module inside
    have evaluated := evaluable.evaluated_of_inGraph agrees.specTraversal .refl
      rootEvaluated inside
    refine ⟨?_, ?_⟩
    · rw [moduleStatus_congr same]
      exact evaluated
    · intro wasLinked
      obtain ⟨record, first, present, rooted, component, smallest⟩ :=
        agrees.specTraversal.components module ⟨wasLinked, evaluated⟩
      have connected := (evaluable.sameComponent_iff inside wasLinked).mp
        component
      have firstInside := evaluable.inGraph_of_reaches inside connected.1
      have firstLinked := (agrees.specTraversal.completed_of_reaches
        ⟨wasLinked, evaluated⟩ component.1).1
      have records := get_forget_congr same module
      rw [present] at records
      cases found : (evaluateModule bodies start root).1.get module with
      | none =>
          rw [found] at records
          cases records
      | some final =>
          rw [found] at records
          simp only [Option.map_some, Option.some.injEq] at records
          have finalRoot : final.cycleRoot = some first := by
            rw [← rooted]
            exact (congrArg EvaluationRecord.cycleRoot records :)
          refine ⟨final, first, rfl, finalRoot, connected, ?_⟩
          intro other otherConnected
          have mutually := (evaluable.sameComponent_iff firstInside
            firstLinked).mpr otherConnected
          rw [Frame.dfs_eq_of_forget (get_forget_congr same first),
            Frame.dfs_eq_of_forget (get_forget_congr same other)]
          exact smallest other ⟨mutually.2, mutually.1⟩
  · intro error failed
    cases failed

theorem evaluatesGraph_of_throw
    (evaluable : Evaluable start (InGraph start root))
    (linked : start.moduleStatus root = .linked) {error : EvaluationError}
    {abandoned : List ModuleRecordId}
    (completion : Spec.walk bodies start root = .throw walk error abandoned)
    (agrees : ThrowAgrees start (InGraph start root) bodies
      ⟨start, [.enter root], [], 0⟩ start walk error abandoned) :
    EvaluatesGraph bodies start root (evaluateModule bodies start root).1
      (evaluateModule bodies start root).2 := by
  have thrown : abandoned = [] ∧ ∃ thrower,
      walk.runtime.executed.getLast? = some thrower ∧
        bodies thrower = some error := by
    rcases agrees.cause with thrown | ⟨failed, inside, errored⟩
    · exact thrown
    · exact absurd errored (evaluable.unfailed failed inside)
  obtain ⟨nothing, thrower, last, throws⟩ := thrown
  subst nothing
  obtain ⟨final, run, runSame⟩ := agrees.same
    fun module member => absurd member List.not_mem_nil
  obtain ⟨result, same⟩ := evaluateModule_of_throw linked run runSame
  have executed : (evaluateModule bodies start root).1.executed =
      walk.runtime.executed := by
    rw [executed_congr same, executed_markErrored]
  have traversal := agrees.traversal
  rw [result]
  constructor
  · exact ⟨_, by rw [Spec.evaluate, completion], same⟩
  · obtain ⟨added, equal, distinct, modules⟩ := agrees.frame.ran
    refine ⟨added, ?_, distinct, fun module member =>
      (modules module member).1⟩
    rw [executed]
    exact equal
  · intro failed
    cases failed
  · intro other failed
    cases failed
    refine ⟨walk, [], completion, ⟨thrower, ?_, throws⟩, ?_⟩
    · rw [executed]
      exact last
    · intro module inside
      rw [moduleStatus_congr same, moduleEvaluationError_congr same]
      by_cases member : module ∈ walk.stack
      · left
        obtain ⟨record, _, _, present, _⟩ := traversal.numbered module member
        refine ⟨member, ?_, ?_⟩
        · rw [moduleStatus, get_markErrored, if_pos member, present]
          rfl
        · rw [moduleEvaluationError, get_markErrored, if_pos member, present]
          rfl
      · right
        rw [moduleStatus_markErrored_of_not_mem member]
        rcases traversal.status_cases evaluable.synchronous inside with
          status | status | status | status
        · exact .inr ⟨member, status⟩
        · exact absurd ((traversal.stacked module).mpr ⟨inside, status⟩) member
        · refine .inl ⟨member, status, ?_⟩
          intro other connected
          have evaluated := evaluable.evaluated_of_inGraph traversal inside
            status connected.1
          have outside : other ∉ walk.stack := by
            intro otherMember
            rw [((traversal.stacked other).mp otherMember).2] at evaluated
            cases evaluated
          rw [moduleStatus_congr same,
            moduleStatus_markErrored_of_not_mem outside]
          exact evaluated
        · have before := traversal.start_errored status
          rw [moduleStatus_eq_of_get before] at status
          exact absurd status (evaluable.unfailed module inside)

theorem evaluatesGraph_of_evaluated
    (evaluable : Evaluable start (InGraph start root))
    (evaluated : start.moduleStatus root = .evaluated) :
    EvaluatesGraph bodies start root (evaluateModule bodies start root).1
      (evaluateModule bodies start root).2 := by
  have clean := evaluable.clean root .refl evaluated
  have computed : evaluateModule bodies start root = (start, .ok ()) := by
    simp only [evaluateModule, evaluated, clean]
  rw [computed]
  constructor
  · refine ⟨start, ?_, rfl⟩
    rw [Spec.evaluate, Spec.walk, Spec.start, inner_of_visited _ (.inr evaluated)]
  · exact ⟨[], by simp, List.nodup_nil, by simp⟩
  · intro _ module inside
    have done := evaluable.evaluated_of_reaches .refl inside evaluated
    refine ⟨done, ?_⟩
    intro linked
    rw [done] at linked
    cases linked
  · intro error failed
    cases failed

end Leaves

end Components

/-- Evaluation of a graph without top-level await refines the recursive
specification. -/
theorem evaluateModule_refines
    (bodies : ModuleRecordId → Option EvaluationError)
    (runtime : EvaluationRuntime) (root : ModuleRecordId)
    (evaluable : Evaluable runtime (InGraph runtime root)) :
    EvaluatesGraph bodies runtime root (evaluateModule bodies runtime root).1
      (evaluateModule bodies runtime root).2 := by
  rcases evaluable.status_cases .refl with linked | evaluated
  · have agrees := @walk_agrees runtime root bodies evaluable.synchronous
    cases completion : Spec.walk bodies runtime root with
    | stuck =>
        rw [completion] at agrees
        exact agrees.elim
    | normal walk =>
        rw [completion] at agrees
        obtain ⟨after, agrees⟩ := agrees
        exact evaluatesGraph_of_normal evaluable linked completion agrees
    | throw walk error abandoned =>
        rw [completion] at agrees
        exact evaluatesGraph_of_throw evaluable linked completion agrees
  · exact evaluatesGraph_of_evaluated evaluable evaluated

section FirstEvaluation

/-- A root over a cycle of two modules and a third one. -/
def cyclicGraph : EvaluationRuntime :=
  { modules := [requesting [1, 3] .linked, requesting [2] .linked,
      requesting [1, 3] .linked, requesting [] .linked]
    executed := []
    activations := []
    moduleAsyncEvaluationCount := 0 }

theorem evaluateModule_refines_cyclicGraph :
    EvaluatesGraph (fun module => if module = 3 then some (.exception 5) else none)
      cyclicGraph 0
      (evaluateModule (fun module =>
        if module = 3 then some (.exception 5) else none) cyclicGraph 0).1
      (evaluateModule (fun module =>
        if module = 3 then some (.exception 5) else none) cyclicGraph 0).2 := by
  have within : ∀ module, InGraph cyclicGraph 0 module →
      module ∈ [0, 1, 2, 3] :=
    fun module inside => mem_of_inGraph (by decide) (by decide) inside
  have linked : ∀ module ∈ [0, 1, 2, 3],
      cyclicGraph.moduleStatus module = .linked := by decide
  have eager : ∀ module ∈ [0, 1, 2, 3],
      ∀ record ∈ cyclicGraph.get module, ∀ request ∈ record.requests,
        request.deferred = false := by decide
  apply evaluateModule_refines
  constructor
  · exact @Synchronous.of_modules _ 0 [0, 1, 2, 3] (by decide) (by decide)
      (by decide)
  · intro module record inside present
    exact eager module (within module inside) record present
  · intro module inside
    rw [linked module (within module inside)]
    decide
  · intro module inside evaluated
    rw [linked module (within module inside)] at evaluated
    cases evaluated
  · intro module dependency inside evaluated
    rw [linked module (within module inside)] at evaluated
    cases evaluated

/-- An evaluated module between two linked ones. -/
def staleGraph : EvaluationRuntime :=
  { modules := [requesting [1] .linked, requesting [2] .evaluated,
      requesting [] .linked]
    executed := []
    activations := []
    moduleAsyncEvaluationCount := 0 }

/-- A linked module behind an evaluated one is not evaluated. -/
theorem staleGraph_not_evaluated :
    Synchronous staleGraph (InGraph staleGraph 0) ∧
    (∀ module, InGraph staleGraph 0 module →
      staleGraph.moduleStatus module = .linked ∨
        staleGraph.moduleStatus module = .evaluated) ∧
    (∀ module other, StronglyConnected staleGraph module other →
      module = other) ∧
    (evaluateModule (fun _ => none) staleGraph 0).2 = .ok () ∧
    InGraph staleGraph 0 2 ∧
    (evaluateModule (fun _ => none) staleGraph 0).1.moduleStatus 2 =
      .linked := by
  have synchronous : Synchronous staleGraph (InGraph staleGraph 0) :=
    @Synchronous.of_modules _ 0 [0, 1, 2] (by decide) (by decide) (by decide)
  have settled : ∀ module ∈ [0, 1, 2],
      staleGraph.moduleStatus module = .linked ∨
        staleGraph.moduleStatus module = .evaluated := by decide
  have ascends : ∀ module dependency,
      dependency ∈ staleGraph.moduleDependencies module →
        module ≤ dependency := by
    intro module dependency member
    match module with
    | 0 => exact Nat.zero_le dependency
    | 1 =>
        rw [List.mem_singleton.mp member]
        decide
    | 2 => cases member
    | module + 3 => cases member
  have upwards : ∀ module other, InGraph staleGraph module other →
      module ≤ other := by
    intro module other path
    induction path with
    | refl => exact Nat.le_refl module
    | tail _ follows induction =>
        exact Nat.le_trans induction (ascends _ _ follows)
  have computed : (Spec.evaluate (fun _ => none) staleGraph 0).map
      (fun outcome => (outcome.1.moduleStatus 2, outcome.2)) =
        some (.linked, .ok ()) := rfl
  obtain ⟨after, specified, same⟩ := @evaluate_eq staleGraph 0 (fun _ => none)
    synchronous (by decide) (by decide)
  rw [specified] at computed
  simp only [Option.map_some, Option.some.injEq, Prod.mk.injEq] at computed
  refine ⟨synchronous, ?_, ?_, computed.2, ?_, ?_⟩
  · exact fun module inside => settled module
      (mem_of_inGraph (by decide) (by decide) inside)
  · intro module other connected
    exact Nat.le_antisymm (upwards _ _ connected.1) (upwards _ _ connected.2)
  · have first : InGraph staleGraph 0 1 :=
      .single (show 1 ∈ staleGraph.moduleDependencies 0 by decide)
    exact first.tail (show 2 ∈ staleGraph.moduleDependencies 1 by decide)
  · rw [moduleStatus_congr same]
    exact computed.1

end FirstEvaluation

end Fusor.Modules
