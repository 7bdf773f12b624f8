import Fusor.Modules.Evaluation

/-!
# The recursive specification of module evaluation

`InnerModuleEvaluation` of the language standard, for modules without
top-level await.  It recurses into each requested module and does the
bookkeeping for it before it turns to the next one.  Besides the state, an
abrupt completion carries the requests that were still to be visited when an
earlier failure was met.
-/

namespace Fusor.Modules

open EvaluationRuntime

/-- The requested modules of the requests that are not deferred. -/
def eagerDependencies (requests : List EvaluationRequest) :
    List ModuleRecordId :=
  requests.foldl
    (fun list request =>
      (if request.deferred then [] else request.dependency.toList).foldl
        appendNew list) []

/-- The state of the recursion; the top of the stack comes first. -/
structure Walk where
  runtime : EvaluationRuntime
  stack : List ModuleRecordId
  index : Nat
  deriving DecidableEq

inductive Completion where
  | normal (walk : Walk)
  | throw (walk : Walk) (error : EvaluationError)
      (abandoned : List ModuleRecordId)
  | stuck
  deriving DecidableEq

/-- Goes on after a normal completion. -/
def Completion.andThen (completion : Completion)
    (next : Walk → Completion) : Completion :=
  match completion with
  | .normal walk => next walk
  | .throw walk error abandoned => .throw walk error abandoned
  | .stuck => .stuck

namespace Spec

/-- The modules that a module requests and does not defer, each of them once
and in the order of the source. -/
def requestedModules (runtime : EvaluationRuntime) (module : ModuleRecordId) :
    List ModuleRecordId :=
  match runtime.get module with
  | none => []
  | some record => eagerDependencies record.requests

/-- The bookkeeping for one requested module. -/
def accountFor (module required : ModuleRecordId) (walk : Walk) : Completion :=
  if walk.runtime.moduleStatus required = .evaluating then
    let ancestor :=
      (walk.runtime.get required).bind EvaluationRecord.dfsAncestorIndex
    .normal
      { walk with
        runtime :=
          walk.runtime.update module (Evaluator.lowerAncestor ancestor) }
  else
    let root := walk.runtime.cycleRoot required
    if walk.runtime.moduleStatus root = .errored then
      .throw walk (walk.runtime.moduleEvaluationError root) []
    else .normal walk

/-- The loop over the requested modules. -/
def evaluateRequested (inner : ModuleRecordId → Walk → Completion)
    (module : ModuleRecordId) : List ModuleRecordId → Walk → Completion
  | [], walk => .normal walk
  | required :: rest, walk =>
      match inner required walk with
      | .normal visited =>
          (accountFor module required visited).andThen fun accounted =>
            evaluateRequested inner module rest accounted
      | .throw thrown error abandoned =>
          .throw thrown error
            (if walk.runtime.moduleStatus required = .errored then rest
            else abandoned)
      | .stuck => .stuck

/-- The body of a module and the end of its component. -/
def executeRequested (bodies : ModuleRecordId → Option EvaluationError)
    (module : ModuleRecordId) (walk : Walk) : Completion :=
  let runtime :=
    { walk.runtime with executed := walk.runtime.executed ++ [module] }
  match bodies module with
  | some error => .throw { walk with runtime } error []
  | none =>
      let finished := Evaluator.finishModule runtime walk.stack module
      .normal { walk with runtime := finished.1, stack := finished.2 }

/-- `InnerModuleEvaluation`, recursing at most `depth` deep. -/
def innerModuleEvaluation (bodies : ModuleRecordId → Option EvaluationError) :
    Nat → ModuleRecordId → Walk → Completion
  | depth, module, walk =>
      match walk.runtime.moduleStatus module with
      | .evaluated => .normal walk
      | .evaluating => .normal walk
      | .errored =>
          .throw walk (walk.runtime.moduleEvaluationError module) []
      | .linked =>
          match depth with
          | 0 => .stuck
          | depth + 1 =>
              let runtime := walk.runtime.update module
                (Evaluator.startEvaluating walk.index)
              (evaluateRequested (innerModuleEvaluation bodies depth) module
                (requestedModules runtime module)
                ⟨runtime, module :: walk.stack, walk.index + 1⟩).andThen
                  (executeRequested bodies module)
      | _ => .stuck

def start (runtime : EvaluationRuntime) : Walk :=
  ⟨runtime, [], 0⟩

/-- The walk that `Evaluate` starts; every nested call enters a module. -/
def walk (bodies : ModuleRecordId → Option EvaluationError)
    (runtime : EvaluationRuntime) (root : ModuleRecordId) : Completion :=
  innerModuleEvaluation bodies runtime.modules.length root (start runtime)

/-- `Evaluate`: the modules on the stack share the error of a failed walk. -/
def evaluate (bodies : ModuleRecordId → Option EvaluationError)
    (runtime : EvaluationRuntime) (root : ModuleRecordId) :
    Option (EvaluationRuntime × Except EvaluationError Unit) :=
  match walk bodies runtime root with
  | .normal walk => some (walk.runtime, .ok ())
  | .throw walk error _ =>
      some (markErrored walk.stack error walk.runtime, .error error)
  | .stuck => none

end Spec

section Forgetting

/-- A record without the numbers that only evaluation itself reads and without
its promise. -/
def EvaluationRecord.forget (record : EvaluationRecord) : EvaluationRecord :=
  { record with dfsAncestorIndex := none, topLevelCapability := none }

def EvaluationRuntime.forget (runtime : EvaluationRuntime) :
    EvaluationRuntime :=
  { runtime with modules := runtime.modules.map EvaluationRecord.forget }

theorem get_update (runtime : EvaluationRuntime)
    (module other : ModuleRecordId)
    (change : EvaluationRecord → EvaluationRecord) :
    (runtime.update module change).get other =
      if other = module then (runtime.get module).map change
      else runtime.get other := by
  simp only [EvaluationRuntime.get, update, List.getElem?_modify]
  by_cases same : module = other
  · subst same
    simp
  · have apart : other ≠ module := fun equal => same equal.symm
    simp [same, apart]

@[simp]
theorem get_update_self (runtime : EvaluationRuntime)
    (module : ModuleRecordId) (change : EvaluationRecord → EvaluationRecord) :
    (runtime.update module change).get module =
      (runtime.get module).map change := by
  rw [get_update, if_pos rfl]

theorem get_update_of_ne (runtime : EvaluationRuntime)
    {module other : ModuleRecordId}
    (change : EvaluationRecord → EvaluationRecord) (apart : other ≠ module) :
    (runtime.update module change).get other = runtime.get other := by
  rw [get_update, if_neg apart]

theorem get_forget (runtime : EvaluationRuntime) (module : ModuleRecordId) :
    runtime.forget.get module =
      (runtime.get module).map EvaluationRecord.forget := by
  simp [EvaluationRuntime.get, EvaluationRuntime.forget]

/-- Runtimes are told apart by their records and the three lists. -/
theorem EvaluationRuntime.ext_get {left right : EvaluationRuntime}
    (records : ∀ module, left.get module = right.get module)
    (executed : left.executed = right.executed)
    (activations : left.activations = right.activations)
    (count : left.moduleAsyncEvaluationCount =
      right.moduleAsyncEvaluationCount) : left = right := by
  obtain ⟨leftModules, _, _, _⟩ := left
  obtain ⟨rightModules, _, _, _⟩ := right
  have same : leftModules = rightModules := List.ext_getElem? records
  cases same
  cases executed
  cases activations
  cases count
  rfl

theorem moduleStatus_forget (runtime : EvaluationRuntime)
    (module : ModuleRecordId) :
    runtime.forget.moduleStatus module = runtime.moduleStatus module := by
  rw [moduleStatus, moduleStatus, get_forget]
  cases runtime.get module <;> rfl

theorem moduleEvaluationError_forget (runtime : EvaluationRuntime)
    (module : ModuleRecordId) :
    runtime.forget.moduleEvaluationError module =
      runtime.moduleEvaluationError module := by
  rw [moduleEvaluationError, moduleEvaluationError, get_forget]
  cases runtime.get module <;> rfl

variable {left right : EvaluationRuntime}

theorem moduleStatus_congr (same : left.forget = right.forget)
    (module : ModuleRecordId) :
    left.moduleStatus module = right.moduleStatus module := by
  rw [← moduleStatus_forget left, same, moduleStatus_forget]

theorem moduleEvaluationError_congr (same : left.forget = right.forget)
    (module : ModuleRecordId) :
    left.moduleEvaluationError module = right.moduleEvaluationError module := by
  rw [← moduleEvaluationError_forget left, same, moduleEvaluationError_forget]

theorem get_forget_congr (same : left.forget = right.forget)
    (module : ModuleRecordId) :
    (left.get module).map EvaluationRecord.forget =
      (right.get module).map EvaluationRecord.forget := by
  rw [← get_forget, same, get_forget]

theorem executed_congr (same : left.forget = right.forget) :
    left.executed = right.executed := by
  have equal := congrArg EvaluationRuntime.executed same
  exact equal

theorem activations_congr (same : left.forget = right.forget) :
    left.activations = right.activations := by
  have equal := congrArg EvaluationRuntime.activations same
  exact equal

theorem moduleAsyncEvaluationCount_congr (same : left.forget = right.forget) :
    left.moduleAsyncEvaluationCount = right.moduleAsyncEvaluationCount := by
  have equal := congrArg EvaluationRuntime.moduleAsyncEvaluationCount same
  exact equal

/-- A change that does not read what is forgotten keeps the agreement. -/
theorem forget_update_congr (same : left.forget = right.forget)
    (module : ModuleRecordId)
    {change : EvaluationRecord → EvaluationRecord}
    (blind : ∀ record, (change record).forget = (change record.forget).forget) :
    (left.update module change).forget =
      (right.update module change).forget := by
  apply EvaluationRuntime.ext_get
  · intro other
    rw [get_forget, get_forget, get_update, get_update]
    by_cases own : other = module
    · rw [if_pos own, if_pos own]
      have agree := get_forget_congr same module
      cases leftRecord : left.get module with
      | none =>
          cases rightRecord : right.get module with
          | none => rfl
          | some record => rw [leftRecord, rightRecord] at agree; cases agree
      | some first =>
          cases rightRecord : right.get module with
          | none => rw [leftRecord, rightRecord] at agree; cases agree
          | some second =>
              rw [leftRecord, rightRecord] at agree
              have agree : first.forget = second.forget := by
                simpa using agree
              simp only [Option.map_some]
              rw [blind first, blind second, agree]
    · rw [if_neg own, if_neg own]
      exact get_forget_congr same other
  · exact (executed_congr same :)
  · exact (activations_congr same :)
  · exact (moduleAsyncEvaluationCount_congr same :)

/-- A change of what is forgotten is not seen. -/
theorem forget_update_of_hidden (runtime : EvaluationRuntime)
    (module : ModuleRecordId)
    {change : EvaluationRecord → EvaluationRecord}
    (hidden : ∀ record, (change record).forget = record.forget) :
    (runtime.update module change).forget = runtime.forget := by
  apply EvaluationRuntime.ext_get
  · intro other
    rw [get_forget, get_forget, get_update]
    by_cases own : other = module
    · subst own
      rw [if_pos rfl]
      cases runtime.get other with
      | none => rfl
      | some record => simp [hidden record]
    · rw [if_neg own]
  · rfl
  · rfl
  · rfl

theorem forget_lowerAncestor (runtime : EvaluationRuntime)
    (module : ModuleRecordId) (ancestor : Option Nat) :
    (runtime.update module (Evaluator.lowerAncestor ancestor)).forget =
      runtime.forget :=
  forget_update_of_hidden runtime module fun _ => rfl

theorem forget_startEvaluating_congr (same : left.forget = right.forget)
    (module : ModuleRecordId) (index : Nat) :
    (left.update module (Evaluator.startEvaluating index)).forget =
      (right.update module (Evaluator.startEvaluating index)).forget :=
  forget_update_congr same module fun _ => rfl

theorem forget_executed_congr (same : left.forget = right.forget)
    (module : ModuleRecordId) :
    { left with executed := left.executed ++ [module] }.forget =
      { right with executed := right.executed ++ [module] }.forget := by
  apply EvaluationRuntime.ext_get
  · intro other
    rw [get_forget, get_forget]
    exact get_forget_congr same other
  · exact congrArg (· ++ [module]) (executed_congr same)
  · exact (activations_congr same :)
  · exact (moduleAsyncEvaluationCount_congr same :)

theorem forget_popComponent_congr (root : ModuleRecordId)
    (stack : List ModuleRecordId) (same : left.forget = right.forget) :
    (Evaluator.popComponent root stack left).1.forget =
      (Evaluator.popComponent root stack right).1.forget ∧
    (Evaluator.popComponent root stack left).2 =
      (Evaluator.popComponent root stack right).2 := by
  induction stack generalizing left right with
  | nil => exact ⟨same, rfl⟩
  | cons popped stack induction =>
      have closes : (left.update popped
          (Evaluator.closeComponent root)).forget =
          (right.update popped (Evaluator.closeComponent root)).forget :=
        forget_update_congr same popped fun _ => rfl
      simp only [Evaluator.popComponent]
      split
      · exact ⟨closes, rfl⟩
      · exact induction closes

theorem forget_markErrored_congr (error : EvaluationError)
    (stack : List ModuleRecordId) (same : left.forget = right.forget) :
    (markErrored stack error left).forget =
      (markErrored stack error right).forget := by
  induction stack with
  | nil => exact same
  | cons module stack induction =>
      exact forget_update_congr induction module fun _ => rfl

theorem forget_settleCapability (runtime : EvaluationRuntime)
    (module : ModuleRecordId) (outcome : Settlement) :
    (runtime.update module (settleCapability outcome)).forget =
      runtime.forget :=
  forget_update_of_hidden runtime module fun _ => rfl

end Forgetting

end Fusor.Modules
