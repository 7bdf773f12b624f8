import Fusor.Modules.Linking

/-!
# Module evaluation

`evaluate_module` walks the module graph with an explicit list of work items.
The bodies of the modules are given by how they complete, and every body that
is started is recorded.  Promises are reduced to the way they are settled, and
their allocation is taken to succeed.
-/

namespace Fusor.Modules

inductive ModuleStatus where
  | new
  | unlinked
  | linking
  | linked
  | evaluating
  | evaluatingAsync
  | evaluated
  | errored
  deriving DecidableEq

inductive EvaluationError where
  | exception (value : Nat)
  | expectedLinked (status : ModuleStatus)
  | endedIn (status : ModuleStatus)
  | errored
  deriving DecidableEq

/-- How a promise is settled, if it is. -/
inductive Settlement where
  | pending
  | fulfilled
  | rejected (error : EvaluationError)
  deriving DecidableEq

/-- A static request with the module the host resolved it to. -/
structure EvaluationRequest where
  dependency : Option ModuleRecordId
  deferred : Bool
  deriving DecidableEq

/-- The parts of a module record that evaluation reads and writes. -/
structure EvaluationRecord where
  requests : List EvaluationRequest
  hasTla : Bool
  status : ModuleStatus
  dfsIndex : Option Nat
  dfsAncestorIndex : Option Nat
  cycleRoot : Option ModuleRecordId
  evaluationError : Option EvaluationError
  pendingAsyncDependencies : Nat
  asyncEvaluationOrder : Option Nat
  asyncParentModules : List ModuleRecordId
  topLevelCapability : Option Settlement
  deriving DecidableEq

/-- The module records, the bodies started so far, and the asynchronous
activations whose promises are observed. -/
structure EvaluationRuntime where
  modules : List EvaluationRecord
  executed : List ModuleRecordId
  activations : List ModuleRecordId
  moduleAsyncEvaluationCount : Nat
  deriving DecidableEq

namespace EvaluationRuntime

def get (runtime : EvaluationRuntime) (module : ModuleRecordId) :
    Option EvaluationRecord :=
  runtime.modules[module]?

def update (runtime : EvaluationRuntime) (module : ModuleRecordId)
    (change : EvaluationRecord → EvaluationRecord) : EvaluationRuntime :=
  { runtime with modules := runtime.modules.modify module change }

def moduleStatus (runtime : EvaluationRuntime) (module : ModuleRecordId) :
    ModuleStatus :=
  ((runtime.get module).map EvaluationRecord.status).getD .new

def moduleHasTla (runtime : EvaluationRuntime) (module : ModuleRecordId) :
    Bool :=
  ((runtime.get module).map EvaluationRecord.hasTla).getD false

def moduleEvaluationError (runtime : EvaluationRuntime)
    (module : ModuleRecordId) : EvaluationError :=
  ((runtime.get module).bind EvaluationRecord.evaluationError).getD .errored

/-- `r.cycle_root.unwrap_or(dep)`. -/
def cycleRoot (runtime : EvaluationRuntime) (module : ModuleRecordId) :
    ModuleRecordId :=
  ((runtime.get module).bind EvaluationRecord.cycleRoot).getD module

def cycleRootEvaluationError (runtime : EvaluationRuntime)
    (module : ModuleRecordId) : Option EvaluationError := do
  let _ ← runtime.get module
  let root ← runtime.get (runtime.cycleRoot module)
  root.evaluationError

def appendNew (list : List ModuleRecordId) (additional : ModuleRecordId) :
    List ModuleRecordId :=
  if additional ∈ list then list else list ++ [additional]

/-- The requested modules without repetition. -/
def moduleDependencies (runtime : EvaluationRuntime)
    (module : ModuleRecordId) : List ModuleRecordId :=
  match runtime.get module with
  | none => []
  | some record =>
      record.requests.foldl
        (fun found request => request.dependency.toList.foldl appendNew found)
        []

def isModuleSccEvaluated (runtime : EvaluationRuntime)
    (module : ModuleRecordId) : Bool :=
  match runtime.get module with
  | none => false
  | some record =>
      match record.cycleRoot with
      | some root =>
          ((runtime.get root).map EvaluationRecord.status) == some .evaluated
      | none => record.status == .evaluated

/-- The modules seen and the ones found.  A call deeper than the number of
modules meets only modules seen before. -/
def gatherAsyncTransitiveDependencies (runtime : EvaluationRuntime) :
    Nat → ModuleRecordId → List ModuleRecordId × List ModuleRecordId →
      List ModuleRecordId × List ModuleRecordId
  | 0, _, found => found
  | depth + 1, module, (seen, out) =>
      if module ∈ seen then (seen, out)
      else
        let seen := module :: seen
        match runtime.get module with
        | none => (seen, out)
        | some record =>
            if record.status = .evaluating ∨ record.status = .errored ∨
                runtime.isModuleSccEvaluated module then (seen, out)
            else if runtime.moduleHasTla module then (seen, out ++ [module])
            else
              (runtime.moduleDependencies module).foldl
                (fun found dependency =>
                  runtime.gatherAsyncTransitiveDependencies depth dependency
                    found)
                (seen, out)

/-- The modules that a request adds to the evaluation list. -/
def requestedModules (runtime : EvaluationRuntime)
    (request : EvaluationRequest) : List ModuleRecordId :=
  match request.dependency with
  | none => []
  | some dependency =>
      if request.deferred then
        (runtime.gatherAsyncTransitiveDependencies (runtime.modules.length + 2)
          dependency ([], [])).2
      else [dependency]

def moduleEvaluationList (runtime : EvaluationRuntime)
    (module : ModuleRecordId) : List ModuleRecordId :=
  match runtime.get module with
  | none => []
  | some record =>
      record.requests.foldl
        (fun list request => (runtime.requestedModules request).foldl appendNew
          list) []

end EvaluationRuntime

open EvaluationRuntime

def Settlement.settle (outcome : Settlement) : Settlement → Settlement
  | .pending => outcome
  | settled => settled

/-- Settles the top-level capability of a module, if it has one. -/
def settleCapability (outcome : Settlement) (record : EvaluationRecord) :
    EvaluationRecord :=
  { record with
    topLevelCapability := record.topLevelCapability.map outcome.settle }

def ensureTopLevelCapability (runtime : EvaluationRuntime)
    (module : ModuleRecordId) : EvaluationRuntime :=
  runtime.update module fun record =>
    { record with
      topLevelCapability := some (record.topLevelCapability.getD .pending) }

inductive EvalWorkItem where
  | enter (module : ModuleRecordId)
  | execute (module : ModuleRecordId) (evaluationList : List ModuleRecordId)
  deriving DecidableEq

/-- The loop state of `evaluate_module`; the tops of the work list and of the
stack come first. -/
structure Evaluator where
  runtime : EvaluationRuntime
  work : List EvalWorkItem
  stack : List ModuleRecordId
  index : Nat
  deriving DecidableEq

inductive EvalStep where
  | more (evaluator : Evaluator)
  | finished (runtime : EvaluationRuntime)
  | failed (evaluator : Evaluator) (error : EvaluationError)

/-- Marks the modules of the stack as errored. -/
def markErrored (stack : List ModuleRecordId) (error : EvaluationError)
    (runtime : EvaluationRuntime) : EvaluationRuntime :=
  stack.foldr
    (fun module runtime => runtime.update module fun record =>
      { record with evaluationError := some error, status := .errored })
    runtime

def failEvaluation (root : ModuleRecordId) (stack : List ModuleRecordId)
    (error : EvaluationError) (runtime : EvaluationRuntime) :
    EvaluationRuntime :=
  (markErrored stack error runtime).update root
    (settleCapability (.rejected error))

namespace Evaluator

def startEvaluating (index : Nat) (record : EvaluationRecord) :
    EvaluationRecord :=
  { record with
    status := .evaluating
    dfsIndex := some index
    dfsAncestorIndex := some index
    pendingAsyncDependencies := 0 }

def enterWork (runtime : EvaluationRuntime)
    (evaluationList : List ModuleRecordId) : List EvalWorkItem :=
  (evaluationList.filter (runtime.moduleStatus · = .linked)).map .enter

def enter (evaluator : Evaluator) (module : ModuleRecordId)
    (work : List EvalWorkItem) : EvalStep :=
  match evaluator.runtime.moduleStatus module with
  | .evaluated => .more { evaluator with work }
  | .evaluating => .more { evaluator with work }
  | .evaluatingAsync => .more { evaluator with work }
  | .errored =>
      .failed evaluator (evaluator.runtime.moduleEvaluationError module)
  | .linked =>
      let runtime :=
        evaluator.runtime.update module (startEvaluating evaluator.index)
      let evaluationList := runtime.moduleEvaluationList module
      .more
        { runtime
          work := enterWork runtime evaluationList ++
            .execute module evaluationList :: work
          stack := module :: evaluator.stack
          index := evaluator.index + 1 }
  | status => .failed evaluator (.expectedLinked status)

/-- `dfs_ancestor_index.unwrap_or(u32::MAX).min(..)`. -/
def lowerAncestor (dependency : Option Nat) (record : EvaluationRecord) :
    EvaluationRecord :=
  { record with
    dfsAncestorIndex := some (min (record.dfsAncestorIndex.getD (2 ^ 32 - 1))
      (dependency.getD (2 ^ 32 - 1))) }

def awaitDependency (runtime : EvaluationRuntime)
    (module dependency : ModuleRecordId) : EvaluationRuntime :=
  if ((runtime.get dependency).bind
      EvaluationRecord.asyncEvaluationOrder).isSome then
    (runtime.update module fun record =>
      { record with
        pendingAsyncDependencies := record.pendingAsyncDependencies + 1 }).update
      dependency fun record =>
        { record with asyncParentModules := record.asyncParentModules ++ [module] }
  else runtime

/-- The dependency bookkeeping of `Execute`. -/
def bookkeep (module : ModuleRecordId) :
    List ModuleRecordId → EvaluationRuntime →
      Except (EvaluationError × EvaluationRuntime) EvaluationRuntime
  | [], runtime => .ok runtime
  | dependency :: rest, runtime =>
      if runtime.moduleStatus dependency = .evaluating then
        let ancestor :=
          (runtime.get dependency).bind EvaluationRecord.dfsAncestorIndex
        let runtime := runtime.update module (lowerAncestor ancestor)
        bookkeep module rest (awaitDependency runtime module dependency)
      else
        let root := runtime.cycleRoot dependency
        if runtime.moduleStatus root = .errored then
          .error (runtime.moduleEvaluationError root, runtime)
        else bookkeep module rest (awaitDependency runtime module root)

def executeAsyncModule (runtime : EvaluationRuntime)
    (module : ModuleRecordId) : EvaluationRuntime :=
  { runtime with
    executed := runtime.executed ++ [module]
    activations := runtime.activations ++ [module] }

def executeModuleBody (bodies : ModuleRecordId → Option EvaluationError)
    (runtime : EvaluationRuntime) (module : ModuleRecordId) :
    EvaluationRuntime × Option EvaluationError :=
  ({ runtime with executed := runtime.executed ++ [module] }, bodies module)

/-- Starts the body of a module, or leaves it to its asynchronous
dependencies. -/
def executeModule (bodies : ModuleRecordId → Option EvaluationError)
    (runtime : EvaluationRuntime) (module : ModuleRecordId) :
    EvaluationRuntime × Option EvaluationError :=
  let pending := ((runtime.get module).map
    EvaluationRecord.pendingAsyncDependencies).getD 0
  if 0 < pending ∨ runtime.moduleHasTla module then
    let order := runtime.moduleAsyncEvaluationCount + 1
    let runtime := { runtime with moduleAsyncEvaluationCount := order }.update
      module fun record => { record with asyncEvaluationOrder := some order }
    if pending = 0 then (executeAsyncModule runtime module, none)
    else (runtime, none)
  else executeModuleBody bodies runtime module

def closeComponent (root : ModuleRecordId) (record : EvaluationRecord) :
    EvaluationRecord :=
  { record with
    cycleRoot := some root
    status :=
      if record.status = .errored then .errored
      else if record.asyncEvaluationOrder.isSome then .evaluatingAsync
      else .evaluated }

/-- Pops the stack down to the root of a component. -/
def popComponent (root : ModuleRecordId) :
    List ModuleRecordId → EvaluationRuntime →
      EvaluationRuntime × List ModuleRecordId
  | [], runtime => (runtime, [])
  | popped :: stack, runtime =>
      let runtime := runtime.update popped (closeComponent root)
      if popped = root then (runtime, stack) else popComponent root stack runtime

/-- The module closes its component: its ancestor index is its own. -/
def closesComponent (runtime : EvaluationRuntime) (module : ModuleRecordId) :
    Bool :=
  match runtime.get module with
  | some record =>
      record.dfsIndex.isSome && record.dfsIndex == record.dfsAncestorIndex
  | none => false

def finishModule (runtime : EvaluationRuntime) (stack : List ModuleRecordId)
    (module : ModuleRecordId) : EvaluationRuntime × List ModuleRecordId :=
  if closesComponent runtime module then popComponent module stack runtime
  else (runtime, stack)

def execute (bodies : ModuleRecordId → Option EvaluationError)
    (evaluator : Evaluator) (module : ModuleRecordId)
    (evaluationList : List ModuleRecordId) (work : List EvalWorkItem) :
    EvalStep :=
  match bookkeep module evaluationList evaluator.runtime with
  | .error (error, runtime) => .failed { evaluator with runtime } error
  | .ok runtime =>
      match executeModule bodies runtime module with
      | (runtime, some error) => .failed { evaluator with runtime } error
      | (runtime, none) =>
          let (runtime, stack) := finishModule runtime evaluator.stack module
          .more { evaluator with runtime, work, stack }

def step (bodies : ModuleRecordId → Option EvaluationError)
    (evaluator : Evaluator) : EvalStep :=
  match evaluator.work with
  | [] => .finished evaluator.runtime
  | .enter module :: work => evaluator.enter module work
  | .execute module evaluationList :: work =>
      evaluator.execute bodies module evaluationList work

section Termination

/-- The modules that have not been entered. -/
def linkedCount (runtime : EvaluationRuntime) : Nat :=
  runtime.modules.countP (·.status = .linked)

/-- No module becomes linked. -/
def Settles (before after : EvaluationRuntime) : Prop :=
  ∀ module, after.moduleStatus module = .linked →
    before.moduleStatus module = .linked

theorem countP_linked_le {old new : List EvaluationRecord}
    (settles : ∀ module : Nat,
      (new[module]?.map EvaluationRecord.status).getD .new = .linked →
        (old[module]?.map EvaluationRecord.status).getD .new = .linked) :
    new.countP (·.status = .linked) ≤ old.countP (·.status = .linked) := by
  induction new generalizing old with
  | nil => simp
  | cons record new induction =>
      have head := settles 0
      cases old with
      | nil =>
          have rest := @induction [] fun module => settles (module + 1)
          have other : record.status ≠ .linked := by
            intro linked
            cases head linked
          simp only [List.countP_cons, List.countP_nil] at rest ⊢
          rw [if_neg (by simpa using other)]
          omega
      | cons first old =>
          have rest := @induction old fun module => settles (module + 1)
          rw [List.countP_cons, List.countP_cons]
          by_cases linked : record.status = .linked
          · have before : first.status = .linked := head linked
            simp only [linked, before]
            omega
          · rw [if_neg (by simpa using linked)]
            omega

namespace Settles

variable {before middle after : EvaluationRuntime}

theorem refl (runtime : EvaluationRuntime) : Settles runtime runtime :=
  fun _ linked => linked

theorem trans (first : Settles before middle) (second : Settles middle after) :
    Settles before after :=
  fun module linked => first module (second module linked)

theorem update {runtime : EvaluationRuntime} {module : ModuleRecordId}
    {change : EvaluationRecord → EvaluationRecord}
    (keeps : ∀ record, (change record).status = .linked →
      record.status = .linked) :
    Settles runtime (runtime.update module change) := by
  intro other
  simp only [moduleStatus, EvaluationRuntime.get, EvaluationRuntime.update,
    List.getElem?_modify]
  cases runtime.modules[other]? with
  | none => simp
  | some record =>
      by_cases own : module = other
      · simpa [own] using keeps record
      · simp [own]

theorem linkedCount_le (settles : Settles before after) :
    linkedCount after ≤ linkedCount before :=
  countP_linked_le settles

end Settles

theorem countP_modify_lt {modules : List EvaluationRecord}
    {module : ModuleRecordId} {change : EvaluationRecord → EvaluationRecord}
    {record : EvaluationRecord} (present : modules[module]? = some record)
    (before : record.status = .linked)
    (after : (change record).status ≠ .linked) :
    (modules.modify module change).countP (·.status = .linked) <
      modules.countP (·.status = .linked) := by
  induction modules generalizing module with
  | nil => cases present
  | cons first modules induction =>
      cases module with
      | zero =>
          cases present
          simp only [List.modify_zero_cons, List.countP_cons]
          simp [before, after]
      | succ module =>
          have less := @induction module present
          simp only [List.modify_succ_cons, List.countP_cons]
          omega

theorem settles_awaitDependency (runtime : EvaluationRuntime)
    (module dependency : ModuleRecordId) :
    Settles runtime (awaitDependency runtime module dependency) := by
  rw [awaitDependency]
  split
  · refine (Settles.update ?_).trans (Settles.update ?_)
    · exact fun _ same => same
    · exact fun _ same => same
  · exact .refl runtime

/-- The runtime that the bookkeeping leaves, also when it fails. -/
def bookkept :
    Except (EvaluationError × EvaluationRuntime) EvaluationRuntime →
      EvaluationRuntime
  | .ok runtime => runtime
  | .error (_, runtime) => runtime

theorem settles_bookkeep (module : ModuleRecordId)
    (dependencies : List ModuleRecordId) (runtime : EvaluationRuntime) :
    Settles runtime (bookkept (bookkeep module dependencies runtime)) := by
  induction dependencies generalizing runtime with
  | nil => exact .refl runtime
  | cons dependency rest induction =>
      unfold bookkeep
      split
      · refine (Settles.update ?_).trans
          ((settles_awaitDependency _ _ _).trans (induction _))
        exact fun _ same => same
      · simp only
        split
        · exact .refl runtime
        · exact (settles_awaitDependency _ _ _).trans (induction _)

theorem settles_executeModule
    (bodies : ModuleRecordId → Option EvaluationError)
    (runtime : EvaluationRuntime) (module : ModuleRecordId) :
    Settles runtime (executeModule bodies runtime module).1 := by
  have ordered : ∀ order : Option Nat, Settles runtime
      { runtime with
        modules := runtime.modules.modify module fun record =>
          { record with asyncEvaluationOrder := order } } := by
    intro order
    exact Settles.update fun _ same => same
  unfold executeModule
  simp only
  split
  · split
    · exact ordered _
    · exact ordered _
  · exact Settles.refl runtime

theorem closeComponent_status_ne (root : ModuleRecordId)
    (record : EvaluationRecord) :
    (closeComponent root record).status ≠ .linked := by
  simp only [closeComponent]
  split
  · simp
  · split <;> simp

theorem settles_popComponent (root : ModuleRecordId)
    (stack : List ModuleRecordId) (runtime : EvaluationRuntime) :
    Settles runtime (popComponent root stack runtime).1 := by
  induction stack generalizing runtime with
  | nil => exact .refl runtime
  | cons popped stack induction =>
      have closes : Settles runtime
          (runtime.update popped (closeComponent root)) :=
        Settles.update fun record same =>
          absurd same (closeComponent_status_ne root record)
      unfold popComponent
      simp only
      split
      · exact closes
      · exact closes.trans (induction _)

theorem settles_finishModule (runtime : EvaluationRuntime)
    (stack : List ModuleRecordId) (module : ModuleRecordId) :
    Settles runtime (finishModule runtime stack module).1 := by
  rw [finishModule]
  split
  · exact settles_popComponent module stack runtime
  · exact .refl runtime

/-- The runtime that a step leaves. -/
def EvalStep.runtime : EvalStep → EvaluationRuntime
  | .more evaluator => evaluator.runtime
  | .finished runtime => runtime
  | .failed evaluator _ => evaluator.runtime

theorem settles_enter (evaluator : Evaluator) (module : ModuleRecordId)
    (work : List EvalWorkItem) :
    Settles evaluator.runtime
      (EvalStep.runtime (evaluator.enter module work)) := by
  unfold enter
  split
  · exact .refl _
  · exact .refl _
  · exact .refl _
  · exact .refl _
  · exact Settles.update fun record same => by
      simp [startEvaluating] at same
  · exact .refl _

theorem settles_execute (bodies : ModuleRecordId → Option EvaluationError)
    (evaluator : Evaluator) (module : ModuleRecordId)
    (evaluationList : List ModuleRecordId) (work : List EvalWorkItem) :
    Settles evaluator.runtime (EvalStep.runtime
      (evaluator.execute bodies module evaluationList work)) := by
  have booked := settles_bookkeep module evaluationList evaluator.runtime
  unfold execute
  split
  · rename_i error runtime failed
    rw [failed] at booked
    exact booked
  · rename_i runtime done
    rw [done] at booked
    have executed := settles_executeModule bodies runtime module
    split
    · rename_i after error thrown
      rw [thrown] at executed
      exact booked.trans executed
    · rename_i after completed
      rw [completed] at executed
      exact booked.trans
        (executed.trans (settles_finishModule after evaluator.stack module))

theorem settles_step (bodies : ModuleRecordId → Option EvaluationError)
    (evaluator : Evaluator) :
    Settles evaluator.runtime (EvalStep.runtime (step bodies evaluator)) := by
  unfold step
  split
  · exact .refl _
  · exact settles_enter evaluator _ _
  · exact settles_execute bodies evaluator _ _ _

theorem exists_of_moduleStatus {runtime : EvaluationRuntime}
    {module : ModuleRecordId} {status : ModuleStatus}
    (stands : runtime.moduleStatus module = status) (old : status ≠ .new) :
    ∃ record, runtime.get module = some record ∧ record.status = status := by
  rw [moduleStatus] at stands
  cases present : runtime.get module with
  | none =>
      rw [present] at stands
      exact absurd stands.symm old
  | some record =>
      rw [present] at stands
      exact ⟨record, rfl, stands⟩

/-- Entering a module uses it up, and everything else shortens the work. -/
theorem step_decreases {bodies : ModuleRecordId → Option EvaluationError}
    {evaluator next : Evaluator} (stepped : step bodies evaluator = .more next) :
    Prod.Lex (· < ·) (· < ·) (linkedCount next.runtime, next.work.length)
      (linkedCount evaluator.runtime, evaluator.work.length) := by
  have settles := settles_step bodies evaluator
  rw [stepped] at settles
  have shorter : ∀ {item : EvalWorkItem} {work : List EvalWorkItem},
      evaluator.work = item :: work → next.work = work →
      Prod.Lex (· < ·) (· < ·) (linkedCount next.runtime, next.work.length)
        (linkedCount evaluator.runtime, evaluator.work.length) := by
    intro item work was became
    rw [was, became]
    rcases Nat.lt_or_eq_of_le settles.linkedCount_le with strict | same
    · exact .left _ _ strict
    · have same : linkedCount next.runtime = linkedCount evaluator.runtime :=
        same
      rw [same]
      exact .right _ (Nat.lt_succ_self _)
  unfold step at stepped
  cases pending : evaluator.work with
  | nil =>
      rw [pending] at stepped
      cases stepped
  | cons item work =>
      rw [pending] at stepped
      rw [← pending]
      cases item with
      | enter module =>
          simp only [enter] at stepped
          split at stepped
          · cases stepped
            exact shorter pending rfl
          · cases stepped
            exact shorter pending rfl
          · cases stepped
            exact shorter pending rfl
          · cases stepped
          · rename_i linked
            cases stepped
            obtain ⟨record, present, stands⟩ :=
              exists_of_moduleStatus linked (by decide)
            apply Prod.Lex.left
            exact countP_modify_lt present stands (by simp [startEvaluating])
          · cases stepped
      | execute module evaluationList =>
          simp only [execute] at stepped
          split at stepped
          · cases stepped
          · split at stepped
            · cases stepped
            · cases stepped
              exact shorter pending rfl

end Termination

/-- The loop of `evaluate_module`. -/
def run (bodies : ModuleRecordId → Option EvaluationError)
    (evaluator : Evaluator) :
    EvaluationRuntime × Option (EvaluationError × List ModuleRecordId) :=
  match stepped : step bodies evaluator with
  | .finished runtime => (runtime, none)
  | .failed after error => (after.runtime, some (error, after.stack))
  | .more next => run bodies next
termination_by (linkedCount evaluator.runtime, evaluator.work.length)
decreasing_by exact step_decreases stepped

section Running

variable {bodies : ModuleRecordId → Option EvaluationError}
  {evaluator : Evaluator}

theorem run_more {next : Evaluator}
    (stepped : step bodies evaluator = .more next) :
    run bodies evaluator = run bodies next := by
  rw [run]
  split
  · rename_i other
    rw [other] at stepped
    cases stepped
  · rename_i other
    rw [other] at stepped
    cases stepped
  · rename_i other
    rw [other] at stepped
    cases stepped
    rfl

theorem run_failed {after : Evaluator} {error : EvaluationError}
    (stepped : step bodies evaluator = .failed after error) :
    run bodies evaluator = (after.runtime, some (error, after.stack)) := by
  rw [run]
  split
  · rename_i other
    rw [other] at stepped
    cases stepped
  · rename_i other
    rw [other] at stepped
    cases stepped
    rfl
  · rename_i other
    rw [other] at stepped
    cases stepped

/-- No module becomes linked in a run. -/
theorem settles_run (bodies : ModuleRecordId → Option EvaluationError)
    (evaluator : Evaluator) :
    Settles evaluator.runtime (run bodies evaluator).1 := by
  have settles := settles_step bodies evaluator
  rw [run]
  split
  · rename_i stepped
    rw [stepped] at settles
    exact settles
  · rename_i stepped
    rw [stepped] at settles
    exact settles
  · rename_i next stepped
    rw [stepped] at settles
    exact settles.trans (settles_run bodies next)
termination_by (linkedCount evaluator.runtime, evaluator.work.length)
decreasing_by
  rename_i stepped _
  exact step_decreases stepped

end Running

end Evaluator

/-- What the loop leaves is the result for the status of the root. -/
def evaluationResult (root : ModuleRecordId) (runtime : EvaluationRuntime) :
    EvaluationRuntime × Except EvaluationError Unit :=
  match runtime.moduleStatus root with
  | .errored => (runtime, .error (runtime.moduleEvaluationError root))
  | .evaluatingAsync => (ensureTopLevelCapability runtime root, .ok ())
  | .evaluated => (runtime.update root (settleCapability .fulfilled), .ok ())
  | status => (runtime, .error (.endedIn status))

def evaluateModule (bodies : ModuleRecordId → Option EvaluationError)
    (runtime : EvaluationRuntime) (root : ModuleRecordId) :
    EvaluationRuntime × Except EvaluationError Unit :=
  match runtime.moduleStatus root with
  | .evaluated =>
      match runtime.cycleRootEvaluationError root with
      | some error => (runtime, .error error)
      | none => (runtime, .ok ())
  | .evaluatingAsync =>
      match runtime.cycleRootEvaluationError root with
      | some error => (runtime, .error error)
      | none => (ensureTopLevelCapability runtime root, .ok ())
  | .errored => (runtime, .error (runtime.moduleEvaluationError root))
  | .linked =>
      match Evaluator.run bodies ⟨runtime, [.enter root], [], 0⟩ with
      | (runtime, none) => evaluationResult root runtime
      | (runtime, some (error, stack)) =>
          (failEvaluation root stack error runtime, .error error)
  | status => (runtime, .error (.expectedLinked status))

end Fusor.Modules
