import Fusor.Modules.EvaluationTraversal

/-!
# Module evaluation refines the recursive specification

The work list visits the dependencies of a module before it does the
bookkeeping for any of them, where the recursion alternates.  The ancestor
indices found on the way differ, but the states agree in everything else as
long as the recursion meets no module that failed earlier.
-/

namespace Fusor.Modules

open EvaluationRuntime Fusor.Graph Relation

section Frames

/-- What a part of a walk leaves alone, and the bodies that it starts. -/
structure Frame (before after : EvaluationRuntime) : Prop where
  kept : ∀ module, before.moduleStatus module ≠ .linked →
    (after.get module).map EvaluationRecord.forget =
      (before.get module).map EvaluationRecord.forget
  ran : ∃ added, after.executed = before.executed ++ added ∧ added.Nodup ∧
    ∀ module ∈ added, before.moduleStatus module = .linked ∧
      after.moduleStatus module ≠ .linked

namespace Frame

variable {before middle after : EvaluationRuntime}

theorem moduleStatus_eq_of_forget {left right : EvaluationRuntime}
    {module : ModuleRecordId}
    (same : (left.get module).map EvaluationRecord.forget =
      (right.get module).map EvaluationRecord.forget) :
    left.moduleStatus module = right.moduleStatus module := by
  rw [← moduleStatus_forget left, ← moduleStatus_forget right]
  apply moduleStatus_eq_of_get
  rw [get_forget, get_forget]
  exact same

theorem dfs_eq_of_forget {left right : EvaluationRuntime}
    {module : ModuleRecordId}
    (same : (left.get module).map EvaluationRecord.forget =
      (right.get module).map EvaluationRecord.forget) :
    dfs left module = dfs right module := by
  have forgotten : ∀ runtime : EvaluationRuntime,
      dfs runtime module = (((runtime.get module).map
        EvaluationRecord.forget).bind EvaluationRecord.dfsIndex).getD 0 := by
    intro runtime
    rw [dfs]
    cases runtime.get module <;> rfl
  rw [forgotten left, forgotten right, same]

theorem refl (runtime : EvaluationRuntime) : Frame runtime runtime :=
  ⟨fun _ _ => rfl, [], by simp, List.nodup_nil, by simp⟩

theorem status_kept (frame : Frame before after) {module : ModuleRecordId}
    (entered : before.moduleStatus module ≠ .linked) :
    after.moduleStatus module = before.moduleStatus module :=
  moduleStatus_eq_of_forget (frame.kept module entered)

theorem settles (frame : Frame before after) :
    Evaluator.Settles before after := by
  intro module linked
  by_cases was : before.moduleStatus module = .linked
  · exact was
  · rw [← frame.status_kept was]
    exact linked

theorem not_linked (frame : Frame before after) {module : ModuleRecordId}
    (entered : before.moduleStatus module ≠ .linked) :
    after.moduleStatus module ≠ .linked :=
  fun linked => entered (frame.settles module linked)

theorem trans (first : Frame before middle) (second : Frame middle after) :
    Frame before after := by
  obtain ⟨firstAdded, firstEqual, firstDistinct, firstModules⟩ := first.ran
  obtain ⟨secondAdded, secondEqual, secondDistinct, secondModules⟩ := second.ran
  constructor
  · intro module entered
    rw [second.kept module (first.not_linked entered)]
    exact first.kept module entered
  · refine ⟨firstAdded ++ secondAdded, ?_, ?_, ?_⟩
    · rw [secondEqual, firstEqual, List.append_assoc]
    · refine List.nodup_append.mpr ⟨firstDistinct, secondDistinct, ?_⟩
      rintro module member _ otherMember rfl
      exact (firstModules module member).2 (secondModules module otherMember).1
    · intro module member
      rcases List.mem_append.mp member with inFirst | inSecond
      · obtain ⟨was, entered⟩ := firstModules module inFirst
        exact ⟨was, second.not_linked entered⟩
      · obtain ⟨was, entered⟩ := secondModules module inSecond
        exact ⟨first.settles module was, entered⟩

theorem of_forget {before' after' : EvaluationRuntime}
    (frame : Frame before after) (sameBefore : before.forget = before'.forget)
    (sameAfter : after.forget = after'.forget) : Frame before' after' := by
  obtain ⟨added, equal, distinct, modules⟩ := frame.ran
  constructor
  · intro module entered
    rw [← get_forget_congr sameBefore, ← get_forget_congr sameAfter]
    apply frame.kept
    rw [moduleStatus_congr sameBefore]
    exact entered
  · refine ⟨added, ?_, distinct, ?_⟩
    · rw [← executed_congr sameAfter, ← executed_congr sameBefore]
      exact equal
    · intro module member
      rw [← moduleStatus_congr sameBefore, ← moduleStatus_congr sameAfter]
      exact modules module member

/-- A change of ancestor indices only. -/
theorem of_forget_eq (same : after.forget = before.forget) :
    Frame before after :=
  (refl before).of_forget rfl same.symm

theorem completed_kept {start : EvaluationRuntime} (frame : Frame before after)
    {module : ModuleRecordId} (completed : Completed start before module) :
    Completed start after module := by
  refine ⟨completed.1, ?_⟩
  rw [frame.status_kept (by rw [completed.2]; decide)]
  exact completed.2

end Frame

theorem Frame.enter {before : EvaluationRuntime} {module : ModuleRecordId}
    (linked : before.moduleStatus module = .linked) (index : Nat) :
    Frame before (before.update module (Evaluator.startEvaluating index)) := by
  refine ⟨?_, [], by simp [update], List.nodup_nil, by simp⟩
  intro other entered
  rw [get_update_of_ne]
  rintro rfl
  exact entered linked

/-- Entering a module and starting its body around a part of a walk. -/
theorem Frame.around {before inner after : EvaluationRuntime}
    {module : ModuleRecordId} {index : Nat}
    (linked : before.moduleStatus module = .linked)
    (frame : Frame (before.update module (Evaluator.startEvaluating index))
      inner)
    (kept : ∀ other, before.moduleStatus other ≠ .linked →
      (after.get other).map EvaluationRecord.forget =
        (inner.get other).map EvaluationRecord.forget)
    (stays : ∀ other, inner.moduleStatus other ≠ .linked →
      after.moduleStatus other ≠ .linked)
    (executed : after.executed = inner.executed ++ [module]) :
    Frame before after := by
  obtain ⟨record, present, _⟩ :=
    Evaluator.exists_of_moduleStatus linked (by decide)
  have others : ∀ other, other ≠ module →
      (before.update module (Evaluator.startEvaluating index)).get other =
        before.get other :=
    fun other apart => get_update_of_ne before _ apart
  have own : (before.update module
      (Evaluator.startEvaluating index)).moduleStatus module = .evaluating := by
    rw [moduleStatus, get_update_self, present]
    rfl
  have apart : ∀ other, before.moduleStatus other ≠ .linked →
      other ≠ module := by
    rintro other entered rfl
    exact entered linked
  obtain ⟨added, equal, distinct, modules⟩ := frame.ran
  have wasLinked : ∀ other ∈ added,
      other ≠ module ∧ before.moduleStatus other = .linked := by
    intro other member
    have was := (modules other member).1
    have different : other ≠ module := by
      rintro rfl
      rw [own] at was
      cases was
    rw [moduleStatus_eq_of_get (others other different)] at was
    exact ⟨different, was⟩
  constructor
  · intro other entered
    rw [kept other entered]
    rw [frame.kept other]
    · rw [others other (apart other entered)]
    · rw [moduleStatus_eq_of_get (others other (apart other entered))]
      exact entered
  · refine ⟨added ++ [module], ?_, ?_, ?_⟩
    · rw [executed, equal, List.append_assoc]
      rfl
    · refine List.nodup_append.mpr ⟨distinct, List.nodup_singleton module, ?_⟩
      intro other member last lastMember same
      rw [List.mem_singleton.mp lastMember] at same
      exact (wasLinked other member).1 same
    · intro other member
      rcases List.mem_append.mp member with inside | last
      · exact ⟨(wasLinked other inside).2,
          stays other (modules other inside).2⟩
      · rw [List.mem_singleton.mp last]
        refine ⟨linked, stays module (frame.not_linked ?_)⟩
        rw [own]
        decide

end Frames

section Visits

/-- A completed visit of a module. -/
structure Visit (start before after : EvaluationRuntime)
    (stack stack' : List ModuleRecordId) (module : ModuleRecordId) : Prop where
  frame : Frame before after
  low_kept : ∀ other, before.moduleStatus other ≠ .linked →
    low after other = low before other
  entered : after.moduleStatus module ≠ .linked
  left : ∃ nodes, stack' = nodes ++ stack ∧
    LeftOpen (Edge start) (Completed start after) (dfs after) (low after)
      stack' module nodes

theorem Visit.skip (start : EvaluationRuntime) {runtime : EvaluationRuntime}
    (stack : List ModuleRecordId) {module : ModuleRecordId}
    (entered : runtime.moduleStatus module ≠ .linked) :
    Visit start runtime runtime stack stack module :=
  ⟨Frame.refl runtime, fun _ _ => rfl, entered, [], rfl, LeftOpen.nil module⟩

/-- The visit of a module while its dependencies are visited; `before` is the
state right after it was entered. -/
structure Looping (start : EvaluationRuntime)
    (graph : ModuleRecordId → Prop) (before runtime : EvaluationRuntime)
    (module : ModuleRecordId) (above base : List ModuleRecordId)
    (index : Nat) : Prop where
  traversal : Traversal start graph runtime (above ++ module :: base) index
  frame : Frame before runtime
  low_kept : ∀ other, before.moduleStatus other ≠ .linked →
    other ≠ module → low runtime other = low before other
  visited : Visited (Edge start) (Completed start runtime) (dfs runtime)
    (low runtime) (above ++ module :: base) module above

/-- The dependencies that the ancestor index of a module accounts for. -/
def Processed (start runtime : EvaluationRuntime) (module : ModuleRecordId)
    (stack dependencies : List ModuleRecordId) : Prop :=
  ∀ dependency ∈ dependencies, Edge start module dependency →
    Completed start runtime dependency ∨
      (dependency ∈ stack ∧ low runtime module ≤ low runtime dependency)

/-- The dependencies that have been visited. -/
def Entered (runtime : EvaluationRuntime)
    (dependencies : List ModuleRecordId) : Prop :=
  ∀ dependency ∈ dependencies,
    runtime.moduleStatus dependency = .evaluating ∨
      runtime.moduleStatus dependency = .evaluated

namespace Looping

variable {start before runtime : EvaluationRuntime}
  {graph : ModuleRecordId → Prop} {module : ModuleRecordId}
  {above base : List ModuleRecordId} {index : Nat}

theorem mem_stack : module ∈ above ++ module :: base := by simp

theorem evaluating
    (looping : Looping start graph before runtime module above base index) :
    graph module ∧ runtime.moduleStatus module = .evaluating :=
  (looping.traversal.stacked module).mp mem_stack

theorem begin (traversal : Traversal start graph before (module :: base) index) :
    Looping start graph before before module [] base index :=
  ⟨traversal, Frame.refl before, fun _ _ _ => rfl, Visited.nil module⟩

theorem visit (synchronous : Synchronous start graph)
    (looping : Looping start graph before runtime module above base index)
    {after : EvaluationRuntime} {stack : List ModuleRecordId} {later : Nat}
    {dependency : ModuleRecordId}
    (requested : dependency ∈ start.moduleEvaluationList module)
    (visit : Visit start runtime after (above ++ module :: base) stack
      dependency)
    (traversal : Traversal start graph after stack later) :
    ∃ nodes, stack = nodes ++ above ++ module :: base ∧
      Looping start graph before after module (nodes ++ above) base later := by
  obtain ⟨nodes, equal, opened⟩ := visit.left
  subst equal
  refine ⟨nodes, by simp, ?_⟩
  have onStack : ∀ other ∈ above ++ module :: base,
      runtime.moduleStatus other ≠ .linked := by
    intro other member
    rw [((looping.traversal.stacked other).mp member).2]
    decide
  have ownEvaluating := looping.evaluating.2
  constructor
  · simpa using traversal
  · exact looping.frame.trans visit.frame
  · intro other entered apart
    rw [visit.low_kept other (looping.frame.not_linked entered)]
    exact looping.low_kept other entered apart
  · have kept : Visited (Edge start) (Completed start after) (dfs after)
        (low after) (nodes ++ (above ++ module :: base)) module above := by
      refine looping.visited.mono ?_ ?_ ?_ ?_ ?_
      · exact fun other member => List.mem_append_left _ member
      · intro other member
        exact Frame.dfs_eq_of_forget
          (visit.frame.kept other (onStack other member))
      · intro other member
        exact visit.low_kept other
          (onStack other (List.mem_append_left _ member))
      · exact fun other completed => visit.frame.completed_kept completed
      · exact fun other member => List.mem_append_right nodes member
    rw [List.append_assoc]
    cases nodes with
    | nil => simpa using kept
    | cons first nodes =>
        refine kept.adopt ⟨?_, ?_, requested⟩ opened
        · exact looping.traversal.start_linked_of_mem synchronous mem_stack
        · have member := (opened.bounded first List.mem_cons_self).1
          exact traversal.start_linked_of_mem synchronous
            (List.mem_append_left _ member)

theorem lower
    (looping : Looping start graph before runtime module above base index)
    {dependency : ModuleRecordId}
    (member : dependency ∈ above ++ module :: base)
    (edge : Edge start module dependency) :
    Looping start graph before
      (runtime.update module (Evaluator.lowerAncestor
        ((runtime.get dependency).bind EvaluationRecord.dfsAncestorIndex)))
      module above base index := by
  obtain ⟨traversal, _⟩ := looping.traversal.lower mem_stack member edge
  have same := forget_lowerAncestor runtime module
    ((runtime.get dependency).bind EvaluationRecord.dfsAncestorIndex)
  obtain ⟨fresh, _⟩ := looping.traversal.above_nodup
  constructor
  · exact traversal
  · exact looping.frame.trans (Frame.of_forget_eq same)
  · intro other entered apart
    rw [low_eq_of_get (get_update_of_ne runtime _ apart)]
    exact looping.low_kept other entered apart
  · refine looping.visited.mono ?_ ?_ ?_ ?_ ?_
    · exact fun other inside => List.mem_append_left _ inside
    · exact fun other _ =>
        Frame.dfs_eq_of_forget (get_forget_congr same other)
    · intro other inside
      apply low_eq_of_get
      apply get_update_of_ne
      rintro rfl
      exact fresh inside
    · intro other completed
      exact (Frame.of_forget_eq same).completed_kept completed
    · exact fun other inside => inside

end Looping

theorem Processed.mono {start before after : EvaluationRuntime}
    {module : ModuleRecordId}
    {stack stack' dependencies : List ModuleRecordId}
    (processed : Processed start before module stack dependencies)
    (completes : ∀ other, Completed start before other →
      Completed start after other)
    (grows : ∀ other ∈ stack, other ∈ stack')
    (bound : ∀ other ∈ stack, low before module ≤ low before other →
      low after module ≤ low after other) :
    Processed start after module stack' dependencies := by
  intro dependency member edge
  rcases processed dependency member edge with done | ⟨inside, less⟩
  · exact .inl (completes dependency done)
  · exact .inr ⟨grows dependency inside, bound dependency inside less⟩

theorem Entered.mono {before after : EvaluationRuntime}
    {dependencies : List ModuleRecordId}
    (entered : Entered before dependencies) (frame : Frame before after) :
    Entered after dependencies := by
  intro dependency member
  rw [frame.status_kept]
  · exact entered dependency member
  · rcases entered dependency member with status | status
    · rw [status]
      decide
    · rw [status]
      decide

end Visits

section Bookkeeping

variable {start before runtime : EvaluationRuntime}
  {graph : ModuleRecordId → Prop} {module : ModuleRecordId}
  {above base : List ModuleRecordId} {index : Nat}

/-- The effect of the bookkeeping for one visited dependency. -/
def accountDependency (module dependency : ModuleRecordId)
    (runtime : EvaluationRuntime) : EvaluationRuntime :=
  if runtime.moduleStatus dependency = .evaluating then
    runtime.update module (Evaluator.lowerAncestor
      ((runtime.get dependency).bind EvaluationRecord.dfsAncestorIndex))
  else runtime

theorem forget_account (module dependency : ModuleRecordId)
    (runtime : EvaluationRuntime) :
    (accountDependency module dependency runtime).forget = runtime.forget := by
  rw [accountDependency]
  split
  · exact forget_lowerAncestor runtime module _
  · rfl

theorem Looping.account (synchronous : Synchronous start graph)
    (looping : Looping start graph before runtime module above base index)
    {dependency : ModuleRecordId}
    (requested : dependency ∈ start.moduleEvaluationList module) :
    Looping start graph before
      (accountDependency module dependency runtime) module above base index := by
  rw [accountDependency]
  split
  · rename_i evaluating
    have member : dependency ∈ above ++ module :: base :=
      (looping.traversal.stacked dependency).mpr
        ⟨Traversal.dependency_inGraph synchronous looping.evaluating.1
          requested, evaluating⟩
    exact looping.lower member
      ⟨looping.traversal.start_linked_of_mem synchronous Looping.mem_stack,
        looping.traversal.start_linked_of_mem synchronous member, requested⟩
  · exact looping

/-- The ancestor index of a module accounts for one dependency more. -/
theorem Processed.account (synchronous : Synchronous start graph)
    (looping : Looping start graph before runtime module above base index)
    {dependency : ModuleRecordId} {dependencies : List ModuleRecordId}
    (requested : dependency ∈ start.moduleEvaluationList module)
    (visited : runtime.moduleStatus dependency = .evaluating ∨
      runtime.moduleStatus dependency = .evaluated)
    (processed : Processed start runtime module (above ++ module :: base)
      dependencies) :
    Processed start (accountDependency module dependency runtime) module
      (above ++ module :: base) (dependencies ++ [dependency]) := by
  have same := forget_account module dependency runtime
  have completes : ∀ other, Completed start runtime other →
      Completed start (accountDependency module dependency runtime) other :=
    fun other completed => (Frame.of_forget_eq same).completed_kept completed
  have bounds : (∀ other, low runtime module ≤ low runtime other →
      low (accountDependency module dependency runtime) module ≤
        low (accountDependency module dependency runtime) other) ∧
      (runtime.moduleStatus dependency = .evaluating →
        low (accountDependency module dependency runtime) module ≤
          low (accountDependency module dependency runtime) dependency) := by
    rw [accountDependency]
    split
    · rename_i evaluating
      have member : dependency ∈ above ++ module :: base :=
        (looping.traversal.stacked dependency).mpr
          ⟨Traversal.dependency_inGraph synchronous looping.evaluating.1
            requested, evaluating⟩
      obtain ⟨_, lowered⟩ := looping.traversal.lower Looping.mem_stack member
        ⟨looping.traversal.start_linked_of_mem synchronous Looping.mem_stack,
          looping.traversal.start_linked_of_mem synchronous member, requested⟩
      constructor
      · intro other less
        by_cases equal : other = module
        · rw [equal]
        · rw [lowered, low_eq_of_get (get_update_of_ne runtime _ equal)]
          exact Nat.le_trans (Nat.min_le_left _ _) less
      · intro _
        by_cases equal : dependency = module
        · rw [equal]
        · rw [lowered, low_eq_of_get (get_update_of_ne runtime _ equal)]
          exact Nat.min_le_right _ _
    · rename_i done
      exact ⟨fun _ less => less, fun evaluating => absurd evaluating done⟩
  intro other member edge
  rcases List.mem_append.mp member with inside | last
  · exact processed.mono completes (fun _ member => member)
      (fun other _ => bounds.1 other) other inside edge
  · rw [List.mem_singleton.mp last] at edge ⊢
    rcases visited with evaluating | evaluated
    · exact .inr ⟨(looping.traversal.stacked dependency).mpr
        ⟨Traversal.dependency_inGraph synchronous looping.evaluating.1
          requested, evaluating⟩, bounds.2 evaluating⟩
    · exact .inl (completes dependency ⟨edge.2.1, evaluated⟩)

/-- The cycle root of a visited dependency has not failed. -/
theorem Traversal.root_not_errored {stack : List ModuleRecordId}
    (synchronous : Synchronous start graph)
    (traversal : Traversal start graph runtime stack index)
    {dependency : ModuleRecordId} (inside : graph dependency)
    (visited : runtime.moduleStatus dependency = .evaluating ∨
      runtime.moduleStatus dependency = .evaluated)
    (done : runtime.moduleStatus dependency ≠ .evaluating) :
    graph (runtime.cycleRoot dependency) ∧
      runtime.moduleStatus (runtime.cycleRoot dependency) ≠ .errored := by
  rcases visited with evaluating | evaluated
  · exact absurd evaluating done
  · obtain ⟨rootInside, status⟩ :=
      traversal.cycleRoot_of_evaluated synchronous inside evaluated
    refine ⟨rootInside, ?_⟩
    rw [status]
    decide

theorem Traversal.accountFor_eq {stack : List ModuleRecordId}
    (synchronous : Synchronous start graph)
    (traversal : Traversal start graph runtime stack index)
    {dependency : ModuleRecordId} (inside : graph dependency)
    (visited : runtime.moduleStatus dependency = .evaluating ∨
      runtime.moduleStatus dependency = .evaluated) :
    Spec.accountFor module dependency ⟨runtime, stack, index⟩ =
      .normal ⟨accountDependency module dependency runtime, stack, index⟩ := by
  rw [Spec.accountFor, accountDependency]
  by_cases evaluating : runtime.moduleStatus dependency = .evaluating
  · simp only [if_pos evaluating]
  · have root := (traversal.root_not_errored synchronous inside visited
      evaluating).2
    simp only [if_neg evaluating, if_neg root]

theorem Traversal.awaitDependency_eq {stack : List ModuleRecordId}
    (synchronous : Synchronous start graph)
    (traversal : Traversal start graph runtime stack index)
    {dependency : ModuleRecordId} (inside : graph dependency) :
    Evaluator.awaitDependency runtime module dependency = runtime := by
  rw [Evaluator.awaitDependency, if_neg]
  cases present : runtime.get dependency with
  | none => simp
  | some record => simp [traversal.noOrder synchronous inside present]

theorem Looping.bookkeep_cons (synchronous : Synchronous start graph)
    (looping : Looping start graph before runtime module above base index)
    {dependency : ModuleRecordId}
    (requested : dependency ∈ start.moduleEvaluationList module)
    (visited : runtime.moduleStatus dependency = .evaluating ∨
      runtime.moduleStatus dependency = .evaluated)
    (rest : List ModuleRecordId) :
    Evaluator.bookkeep module (dependency :: rest) runtime =
      Evaluator.bookkeep module rest (accountDependency module dependency runtime) := by
  have inside := Traversal.dependency_inGraph synchronous looping.evaluating.1
    requested
  have accounted := looping.account synchronous requested
  rw [Evaluator.bookkeep]
  by_cases evaluating : runtime.moduleStatus dependency = .evaluating
  · rw [accountDependency, if_pos evaluating] at accounted ⊢
    simp only [if_pos evaluating]
    rw [accounted.traversal.awaitDependency_eq synchronous inside]
  · obtain ⟨rootInside, root⟩ := looping.traversal.root_not_errored synchronous
      inside visited evaluating
    simp only [if_neg evaluating, if_neg root, accountDependency]
    rw [looping.traversal.awaitDependency_eq synchronous rootInside]

/-- The bookkeeping of a module after all its dependencies were visited. -/
theorem Looping.bookkeep (synchronous : Synchronous start graph)
    {rest done : List ModuleRecordId}
    (requested : ∀ dependency ∈ rest,
      dependency ∈ start.moduleEvaluationList module)
    (looping : Looping start graph before runtime module above base index)
    (processed : Processed start runtime module (above ++ module :: base) done)
    (entered : Entered runtime rest) :
    ∃ after, Evaluator.bookkeep module rest runtime = .ok after ∧
      after.forget = runtime.forget ∧
      Looping start graph before after module above base index ∧
      Processed start after module (above ++ module :: base) (done ++ rest) := by
  induction rest generalizing runtime done with
  | nil =>
      refine ⟨runtime, rfl, rfl, looping, ?_⟩
      rw [List.append_nil]
      exact processed
  | cons dependency rest induction =>
      have own := requested dependency List.mem_cons_self
      have visited := entered dependency List.mem_cons_self
      have same := forget_account module dependency runtime
      obtain ⟨after, booked, forgotten, looped, accounted⟩ := induction
        (fun other member => requested other (List.mem_cons_of_mem _ member))
        (looping.account synchronous own)
        (Processed.account synchronous looping own visited processed)
        (Entered.mono
          (fun other member => entered other (List.mem_cons_of_mem _ member))
          (Frame.of_forget_eq same))
      refine ⟨after, ?_, forgotten.trans same, looped, ?_⟩
      · rw [looping.bookkeep_cons synchronous own visited]
        exact booked
      · rw [List.append_assoc] at accounted
        exact accounted

/-- The bookkeeping stops at the first dependency that failed earlier. -/
theorem Looping.bookkeep_errored (synchronous : Synchronous start graph)
    {done rest : List ModuleRecordId} {failed : ModuleRecordId}
    (requested : ∀ dependency ∈ done ++ failed :: rest,
      dependency ∈ start.moduleEvaluationList module)
    (looping : Looping start graph before runtime module above base index)
    (entered : Entered runtime done)
    (errored : runtime.moduleStatus failed = .errored) :
    ∃ after, Evaluator.bookkeep module (done ++ failed :: rest) runtime =
        .error (runtime.moduleEvaluationError failed, after) ∧
      after.forget = runtime.forget := by
  induction done generalizing runtime with
  | nil =>
      refine ⟨runtime, ?_, rfl⟩
      have inside := Traversal.dependency_inGraph synchronous
        looping.evaluating.1 (requested failed List.mem_cons_self)
      have root := looping.traversal.cycleRoot_of_errored synchronous inside
        errored
      have done : runtime.moduleStatus failed ≠ .evaluating := by
        rw [errored]
        decide
      rw [List.nil_append, Evaluator.bookkeep]
      simp only [if_neg done, root, if_pos errored]
  | cons dependency done induction =>
      have own := requested dependency List.mem_cons_self
      have visited := entered dependency List.mem_cons_self
      have same := forget_account module dependency runtime
      obtain ⟨after, booked, forgotten⟩ := induction
        (fun other member => requested other (List.mem_cons_of_mem _ member))
        (looping.account synchronous own)
        (Entered.mono
          (fun other member => entered other (List.mem_cons_of_mem _ member))
          (Frame.of_forget_eq same))
        (by
          rw [moduleStatus_congr same]
          exact errored)
      refine ⟨after, ?_, forgotten.trans same⟩
      rw [List.cons_append, looping.bookkeep_cons synchronous own visited,
        booked, moduleEvaluationError_congr same]

end Bookkeeping

section Finishing

variable {start before runtime : EvaluationRuntime}
  {graph : ModuleRecordId → Prop} {module : ModuleRecordId}
  {above base : List ModuleRecordId} {entry index : Nat}

theorem Processed.edges
    (processed : Processed start runtime module (above ++ module :: base)
      (start.moduleEvaluationList module)) (target : ModuleRecordId)
    (edge : Edge start module target) :
    Completed start runtime target ∨ (target ∈ above ++ module :: base ∧
      low runtime module ≤ low runtime target) :=
  processed target edge.2.2 edge

/-- The test of the ancestor index depends on the graph alone. -/
theorem Looping.closesComponent_iff
    (looping : Looping start graph before runtime module above base index)
    (processed : Processed start runtime module (above ++ module :: base)
      (start.moduleEvaluationList module)) :
    Evaluator.closesComponent runtime module = true ↔
      LowLink.Isolated (Edge start) (Completed start runtime) module above := by
  obtain ⟨record, number, ancestor, present, numbered, lowered, _⟩ :=
    looping.traversal.numbered module Looping.mem_stack
  have numberEqual : dfs runtime module = number := by
    rw [dfs, present]
    simp [numbered]
  have lowEqual : low runtime module = ancestor := by
    rw [low, present]
    simp [lowered]
  rw [← looping.traversal.link.closes_iff looping.visited processed.edges,
    numberEqual, lowEqual, Evaluator.closesComponent, present]
  simp [numbered, lowered]

/-- The bodies that were started do not matter to the loop. -/
theorem Looping.record_executed
    (looping : Looping start graph before runtime module above base index)
    (executed : List ModuleRecordId) :
    Visited (Edge start) (Completed start { runtime with executed })
      (dfs { runtime with executed }) (low { runtime with executed })
      (above ++ module :: base) module above :=
  ⟨looping.visited.settled, looping.visited.unclosed, looping.visited.reached,
    looping.visited.child⟩

section Entered

variable (traversal : Traversal start graph before base entry)
  (linked : before.moduleStatus module = .linked)
  (looping : Looping start graph
    (before.update module (Evaluator.startEvaluating entry)) runtime module
    above base index)

include traversal linked looping in
/-- The nodes that the visit of a module puts on the stack were linked. -/
theorem linked_of_mem_above {other : ModuleRecordId}
    (member : other ∈ module :: above) :
    before.moduleStatus other = .linked := by
  by_cases entered : before.moduleStatus other = .linked
  · exact entered
  · have apart : other ≠ module := by
      rintro rfl
      exact entered linked
    have inside : other ∈ above := (List.mem_cons.mp member).resolve_left apart
    have same : (before.update module
        (Evaluator.startEvaluating entry)).moduleStatus other =
        before.moduleStatus other :=
      moduleStatus_eq_of_get (get_update_of_ne before _ apart)
    have kept := looping.frame.status_kept (by
      rw [same]
      exact entered)
    obtain ⟨inGraph, evaluating⟩ := (looping.traversal.stacked other).mp
      (List.mem_append_left _ inside)
    rw [kept, same] at evaluating
    have below := looping.traversal.link.index_below
      ((traversal.stacked other).mpr ⟨inGraph, evaluating⟩)
    have higher := looping.traversal.link.index_above inside
    omega

include linked looping in
theorem low_of_entered {other : ModuleRecordId}
    (entered : before.moduleStatus other ≠ .linked) :
    low runtime other = low before other := by
  have apart : other ≠ module := by
    rintro rfl
    exact entered linked
  have unchanged := get_update_of_ne before
    (Evaluator.startEvaluating entry) apart
  rw [looping.low_kept other _ apart, low_eq_of_get unchanged]
  rw [moduleStatus_eq_of_get unchanged]
  exact entered

include traversal linked looping in
/-- The end of the visit of a module, whether or not it closes its
component. -/
theorem finish_visit (synchronous : Synchronous start graph)
    (processed : Processed start runtime module (above ++ module :: base)
      (start.moduleEvaluationList module))
    {after : EvaluationRuntime} {stack : List ModuleRecordId}
    (finished : Evaluator.finishModule
      { runtime with executed := runtime.executed ++ [module] }
      (above ++ module :: base) module = (after, stack)) :
    Traversal start graph after stack index ∧
      Visit start before after base stack module := by
  have settles := Evaluator.settles_finishModule
    { runtime with executed := runtime.executed ++ [module] }
    (above ++ module :: base) module
  rw [finished] at settles
  have stays : ∀ other, runtime.moduleStatus other ≠ .linked →
      after.moduleStatus other ≠ .linked :=
    fun other entered linkedAfter => entered (settles other linkedAfter)
  have ownEntered : after.moduleStatus module ≠ .linked := by
    apply stays
    rw [looping.evaluating.2]
    decide
  have recorded := looping.traversal.record_executed
    (runtime.executed ++ [module])
  have test := looping.closesComponent_iff processed
  rw [Evaluator.finishModule] at finished
  by_cases closes : Evaluator.closesComponent runtime module = true
  · have isolated := test.mp closes
    have closes : Evaluator.closesComponent
        { runtime with executed := runtime.executed ++ [module] } module =
          true := closes
    rw [if_pos closes] at finished
    obtain ⟨fresh, distinct⟩ := looping.traversal.above_nodup
    obtain ⟨rest, executed, records⟩ :=
      @Traversal.popComponent_spec module above base fresh distinct
        { runtime with executed := runtime.executed ++ [module] }
    have popped := recorded.pop synchronous
      (looping.record_executed (runtime.executed ++ [module])) isolated
    rw [finished] at rest executed records popped
    simp only at rest executed records popped
    subst rest
    have others : ∀ other, before.moduleStatus other ≠ .linked →
        after.get other = runtime.get other := by
      intro other entered
      rw [records other, if_neg]
      · rfl
      · intro member
        exact entered (linked_of_mem_above traversal linked looping member)
    refine ⟨popped, ?_, ?_, ownEntered, [], rfl, LeftOpen.nil module⟩
    · refine looping.frame.around linked ?_ stays executed
      intro other entered
      rw [others other entered]
    · intro other entered
      rw [low_eq_of_get (others other entered)]
      exact low_of_entered linked looping entered
  · have stands : ¬ Evaluator.closesComponent
        { runtime with executed := runtime.executed ++ [module] } module =
          true := closes
    rw [if_neg stands] at finished
    cases finished
    refine ⟨recorded, ?_, ?_, ownEntered, above ++ [module], by simp, ?_⟩
    · exact looping.frame.around linked (fun _ _ => rfl) stays rfl
    · intro other entered
      exact low_of_entered linked looping entered
    · have opened := looping.traversal.link.leftOpen looping.visited
        processed.edges (by
          rw [ne_eq, looping.traversal.link.closes_iff looping.visited
            processed.edges, ← test]
          exact closes)
      exact ⟨opened.settled, opened.unclosed, opened.reached, opened.bounded⟩

include linked looping in
/-- The frame of a visit that the body of the module ends. -/
theorem frame_of_throw :
    Frame before { runtime with executed := runtime.executed ++ [module] } :=
  looping.frame.around linked (fun _ _ => rfl) (fun _ entered => entered) rfl

include linked looping in
theorem executeModule_eq (synchronous : Synchronous start graph)
    (bodies : ModuleRecordId → Option EvaluationError) :
    Evaluator.executeModule bodies runtime module =
      ({ runtime with executed := runtime.executed ++ [module] },
        bodies module) := by
  obtain ⟨record, present, _⟩ :=
    Evaluator.exists_of_moduleStatus linked (by decide)
  have entered : (before.update module
      (Evaluator.startEvaluating entry)).get module =
      some (Evaluator.startEvaluating entry record) := by
    rw [get_update_self, present]
    rfl
  have kept := looping.frame.kept module (by
    rw [moduleStatus_of_get entered, Evaluator.startEvaluating]
    simp)
  obtain ⟨found, _, _, foundPresent, _⟩ :=
    looping.traversal.numbered module Looping.mem_stack
  have pending : found.pendingAsyncDependencies = 0 := by
    rw [foundPresent, entered] at kept
    simp only [Option.map_some, Option.some.injEq] at kept
    exact congrArg EvaluationRecord.pendingAsyncDependencies kept
  have noTla := looping.traversal.noTla synchronous looping.evaluating.1
  simp [Evaluator.executeModule, foundPresent, pending, noTla,
    Evaluator.executeModuleBody]

end Entered

end Finishing

section Simulation

variable {start : EvaluationRuntime} {graph : ModuleRecordId → Prop}
  {bodies : ModuleRecordId → Option EvaluationError}

/-- The run of the work list fails as the recursion does, unless the recursion
abandons a linked module. -/
structure ThrowAgrees (start : EvaluationRuntime)
    (graph : ModuleRecordId → Prop)
    (bodies : ModuleRecordId → Option EvaluationError)
    (evaluator : Evaluator) (before : EvaluationRuntime) (walk : Walk)
    (error : EvaluationError) (abandoned : List ModuleRecordId) : Prop where
  traversal : Traversal start graph walk.runtime walk.stack walk.index
  frame : Frame before walk.runtime
  cause : (abandoned = [] ∧ ∃ thrower,
      walk.runtime.executed.getLast? = some thrower ∧
        bodies thrower = some error) ∨
    ∃ failed, graph failed ∧ start.moduleStatus failed = .errored
  same : (∀ module ∈ abandoned, walk.runtime.moduleStatus module ≠ .linked) →
    ∃ after, Evaluator.run bodies evaluator = (after, some (error, walk.stack)) ∧
      after.forget = walk.runtime.forget
  differs : ∀ module ∈ abandoned,
    walk.runtime.moduleStatus module = .linked →
    ∃ other, walk.runtime.moduleStatus other = .linked ∧
      (Evaluator.run bodies evaluator).1.moduleStatus other ≠ .linked

/-- The run of the work list completes the visit as the recursion does. -/
structure NormalAgrees (start : EvaluationRuntime)
    (graph : ModuleRecordId → Prop)
    (bodies : ModuleRecordId → Option EvaluationError)
    (code spec : EvaluationRuntime) (stack : List ModuleRecordId)
    (index : Nat) (module : ModuleRecordId) (work : List EvalWorkItem)
    (walk : Walk) (after : EvaluationRuntime) : Prop where
  run : Evaluator.run bodies ⟨code, .enter module :: work, stack, index⟩ =
    Evaluator.run bodies ⟨after, work, walk.stack, walk.index⟩
  same : after.forget = walk.runtime.forget
  traversal : Traversal start graph after walk.stack walk.index
  specTraversal : Traversal start graph walk.runtime walk.stack walk.index
  visit : Visit start code after stack walk.stack module
  specVisit : Visit start spec walk.runtime stack walk.stack module

def Agrees (start : EvaluationRuntime) (graph : ModuleRecordId → Prop)
    (bodies : ModuleRecordId → Option EvaluationError)
    (code spec : EvaluationRuntime) (stack : List ModuleRecordId)
    (index : Nat) (module : ModuleRecordId) (work : List EvalWorkItem) :
    Completion → Prop
  | .normal walk => ∃ after, NormalAgrees start graph bodies code spec stack
      index module work walk after
  | .throw walk error abandoned => ThrowAgrees start graph bodies
      ⟨code, .enter module :: work, stack, index⟩ spec walk error abandoned
  | .stuck => False

/-- The same for the loop over the dependencies of a module. -/
structure LoopAgrees (start : EvaluationRuntime)
    (graph : ModuleRecordId → Prop)
    (bodies : ModuleRecordId → Option EvaluationError)
    (evaluator : Evaluator) (code spec : EvaluationRuntime)
    (module : ModuleRecordId) (base : List ModuleRecordId)
    (work : List EvalWorkItem) (walk : Walk) (after : EvaluationRuntime)
    (above : List ModuleRecordId) : Prop where
  stack : walk.stack = above ++ module :: base
  run : Evaluator.run bodies evaluator = Evaluator.run bodies
    ⟨after, .execute module (start.moduleEvaluationList module) :: work,
      walk.stack, walk.index⟩
  same : after.forget = walk.runtime.forget
  looping : Looping start graph code after module above base walk.index
  specLooping : Looping start graph spec walk.runtime module above base
    walk.index
  processed : Processed start walk.runtime module (above ++ module :: base)
    (start.moduleEvaluationList module)
  entered : Entered walk.runtime (start.moduleEvaluationList module)

def LoopCompletes (start : EvaluationRuntime) (graph : ModuleRecordId → Prop)
    (bodies : ModuleRecordId → Option EvaluationError)
    (evaluator : Evaluator) (code spec : EvaluationRuntime)
    (module : ModuleRecordId) (base : List ModuleRecordId)
    (work : List EvalWorkItem) : Completion → Prop
  | .normal walk => ∃ after above, LoopAgrees start graph bodies evaluator code
      spec module base work walk after above
  | .throw walk error abandoned =>
      ThrowAgrees start graph bodies evaluator spec walk error abandoned
  | .stuck => False

/-- Steps of the work list before the loop do not matter. -/
theorem LoopCompletes.of_run {evaluator next : Evaluator}
    {code spec : EvaluationRuntime} {module : ModuleRecordId}
    {base : List ModuleRecordId} {work : List EvalWorkItem}
    {completion : Completion}
    (completes : LoopCompletes start graph bodies next code spec module base
      work completion)
    (run : Evaluator.run bodies evaluator = Evaluator.run bodies next) :
    LoopCompletes start graph bodies evaluator code spec module base work
      completion := by
  cases completion with
  | normal walk =>
      obtain ⟨after, above, agrees⟩ := completes
      exact ⟨after, above, agrees.stack, run.trans agrees.run, agrees.same,
        agrees.looping, agrees.specLooping, agrees.processed, agrees.entered⟩
  | throw walk error abandoned =>
      refine ⟨completes.traversal, completes.frame, completes.cause, ?_, ?_⟩
      · rw [run]
        exact completes.same
      · rw [run]
        exact completes.differs
  | stuck => exact completes.elim

theorem run_enter_skip {runtime : EvaluationRuntime}
    {module : ModuleRecordId} {work : List EvalWorkItem}
    {stack : List ModuleRecordId} {index : Nat}
    (visited : runtime.moduleStatus module = .evaluating ∨
      runtime.moduleStatus module = .evaluated) :
    Evaluator.run bodies ⟨runtime, .enter module :: work, stack, index⟩ =
      Evaluator.run bodies ⟨runtime, work, stack, index⟩ := by
  apply Evaluator.run_more
  rcases visited with status | status
  · simp [Evaluator.step, Evaluator.enter, status]
  · simp [Evaluator.step, Evaluator.enter, status]

/-- The work items of visited modules do nothing. -/
theorem run_skip {runtime : EvaluationRuntime} {rest : List ModuleRecordId}
    {work : List EvalWorkItem} {stack : List ModuleRecordId} {index : Nat}
    (entered : Entered runtime rest) :
    Evaluator.run bodies ⟨runtime, rest.map .enter ++ work, stack, index⟩ =
      Evaluator.run bodies ⟨runtime, work, stack, index⟩ := by
  induction rest with
  | nil => rfl
  | cons module rest induction =>
      rw [List.map_cons, List.cons_append,
        run_enter_skip (entered module List.mem_cons_self)]
      exact induction fun other member =>
        entered other (List.mem_cons_of_mem module member)

theorem step_enter_linked {runtime : EvaluationRuntime}
    {module : ModuleRecordId} {work : List EvalWorkItem}
    {stack : List ModuleRecordId} {index : Nat}
    (linked : runtime.moduleStatus module = .linked) :
    Evaluator.step bodies ⟨runtime, .enter module :: work, stack, index⟩ =
      .more
        { runtime :=
            runtime.update module (Evaluator.startEvaluating index)
          work :=
            Evaluator.enterWork
              (runtime.update module (Evaluator.startEvaluating index))
              ((runtime.update module
                (Evaluator.startEvaluating index)).moduleEvaluationList module)
            ++ .execute module ((runtime.update module
                (Evaluator.startEvaluating index)).moduleEvaluationList
                  module) :: work
          stack := module :: stack
          index := index + 1 } := by
  simp only [Evaluator.step, Evaluator.enter, linked]

/-- A linked module among the work items does not stay linked. -/
theorem run_enters {runtime : EvaluationRuntime} {rest : List ModuleRecordId}
    {work : List EvalWorkItem} {stack : List ModuleRecordId} {index : Nat}
    (known : ∀ module ∈ rest, runtime.moduleStatus module = .linked ∨
      runtime.moduleStatus module = .evaluating ∨
      runtime.moduleStatus module = .evaluated)
    {module : ModuleRecordId} (member : module ∈ rest)
    (linked : runtime.moduleStatus module = .linked) :
    ∃ other, runtime.moduleStatus other = .linked ∧
      (Evaluator.run bodies
        ⟨runtime, rest.map .enter ++ work, stack, index⟩).1.moduleStatus other ≠
          .linked := by
  induction rest with
  | nil => cases member
  | cons first rest induction =>
      rw [List.map_cons, List.cons_append]
      rcases known first List.mem_cons_self with status | visited
      · refine ⟨first, status, ?_⟩
        intro stays
        rw [Evaluator.run_more (step_enter_linked status)] at stays
        have before := Evaluator.settles_run bodies _ first stays
        obtain ⟨record, present, _⟩ :=
          Evaluator.exists_of_moduleStatus status (by decide)
        rw [moduleStatus, get_update_self, present] at before
        cases before
      · have apart : module ≠ first := by
          rintro rfl
          rw [linked] at visited
          rcases visited with status | status <;> cases status
        rw [run_enter_skip visited]
        apply induction
        · exact fun other inside => known other (List.mem_cons_of_mem _ inside)
        · exact (List.mem_cons.mp member).resolve_left apart

/-- The recursion to one depth agrees with the work list. -/
def InnerAgrees (start : EvaluationRuntime) (graph : ModuleRecordId → Prop)
    (bodies : ModuleRecordId → Option EvaluationError) (depth : Nat) : Prop :=
  ∀ (module : ModuleRecordId) (code spec : EvaluationRuntime)
    (stack : List ModuleRecordId) (index : Nat) (work : List EvalWorkItem),
    graph module → code.forget = spec.forget →
    Traversal start graph code stack index →
    Traversal start graph spec stack index →
    Evaluator.linkedCount spec ≤ depth →
    Agrees start graph bodies code spec stack index module work
      (Spec.innerModuleEvaluation bodies depth module ⟨spec, stack, index⟩)

theorem inner_of_visited {spec : EvaluationRuntime} {module : ModuleRecordId}
    {stack : List ModuleRecordId} {index : Nat} (depth : Nat)
    (visited : spec.moduleStatus module = .evaluating ∨
      spec.moduleStatus module = .evaluated) :
    Spec.innerModuleEvaluation bodies depth module ⟨spec, stack, index⟩ =
      .normal ⟨spec, stack, index⟩ := by
  unfold Spec.innerModuleEvaluation
  rcases visited with status | status
  · simp [status]
  · simp [status]

theorem inner_of_errored {spec : EvaluationRuntime} {module : ModuleRecordId}
    {stack : List ModuleRecordId} {index : Nat} (depth : Nat)
    (errored : spec.moduleStatus module = .errored) :
    Spec.innerModuleEvaluation bodies depth module ⟨spec, stack, index⟩ =
      .throw ⟨spec, stack, index⟩ (spec.moduleEvaluationError module) [] := by
  unfold Spec.innerModuleEvaluation
  simp [errored]

/-- The states of both sides while the dependencies of a module are visited. -/
structure LoopState (start : EvaluationRuntime)
    (graph : ModuleRecordId → Prop) (code₀ spec₀ code spec : EvaluationRuntime)
    (module : ModuleRecordId) (above base done : List ModuleRecordId)
    (index : Nat) : Prop where
  same : code.forget = spec.forget
  looping : Looping start graph code₀ code module above base index
  specLooping : Looping start graph spec₀ spec module above base index
  processed : Processed start spec module (above ++ module :: base) done
  entered : Entered spec done

namespace LoopState

variable {code₀ spec₀ code spec : EvaluationRuntime}
  {module dependency : ModuleRecordId}
  {above base done : List ModuleRecordId} {index : Nat}

theorem account (synchronous : Synchronous start graph)
    (state : LoopState start graph code₀ spec₀ code spec module above base done
      index)
    (requested : dependency ∈ start.moduleEvaluationList module)
    (visited : spec.moduleStatus dependency = .evaluating ∨
      spec.moduleStatus dependency = .evaluated) :
    LoopState start graph code₀ spec₀ code
      (accountDependency module dependency spec) module above base
      (done ++ [dependency]) index := by
  have same := forget_account module dependency spec
  constructor
  · exact state.same.trans same.symm
  · exact state.looping
  · exact state.specLooping.account synchronous requested
  · exact Processed.account synchronous state.specLooping requested visited
      state.processed
  · apply Entered.mono _ (Frame.of_forget_eq same)
    intro other member
    rcases List.mem_append.mp member with inside | last
    · exact state.entered other inside
    · rw [List.mem_singleton.mp last]
      exact visited

theorem visit (synchronous : Synchronous start graph)
    (state : LoopState start graph code₀ spec₀ code spec module above base done
      index)
    (requested : dependency ∈ start.moduleEvaluationList module)
    {work : List EvalWorkItem} {walk : Walk} {after : EvaluationRuntime}
    (agrees : NormalAgrees start graph bodies code spec
      (above ++ module :: base) index dependency work walk after) :
    ∃ nodes, walk.stack = nodes ++ above ++ module :: base ∧
      LoopState start graph code₀ spec₀ after walk.runtime module
        (nodes ++ above) base done walk.index := by
  obtain ⟨nodes, stack, looping⟩ := state.looping.visit synchronous requested
    agrees.visit agrees.traversal
  obtain ⟨specNodes, specStack, specLooping⟩ := state.specLooping.visit
    synchronous requested agrees.specVisit agrees.specTraversal
  have equal : specNodes = nodes := by
    rw [stack, List.append_assoc, List.append_assoc] at specStack
    exact (List.append_cancel_right specStack).symm
  subst equal
  have onStack : ∀ other ∈ above ++ module :: base,
      spec.moduleStatus other ≠ .linked := by
    intro other member
    rw [((state.specLooping.traversal.stacked other).mp member).2]
    decide
  refine ⟨specNodes, stack, agrees.same, looping, specLooping, ?_, ?_⟩
  · refine state.processed.mono ?_ ?_ ?_
    · exact fun other completed =>
        agrees.specVisit.frame.completed_kept completed
    · intro other member
      rw [List.append_assoc]
      exact List.mem_append_right specNodes member
    · intro other member less
      rw [agrees.specVisit.low_kept module (onStack module Looping.mem_stack),
        agrees.specVisit.low_kept other (onStack other member)]
      exact less
  · exact state.entered.mono agrees.specVisit.frame

theorem visited_of_start_linked (synchronous : Synchronous start graph)
    {stack : List ModuleRecordId}
    (traversal : Traversal start graph spec stack index)
    (inside : graph dependency)
    (linked : start.moduleStatus dependency = .linked)
    (entered : spec.moduleStatus dependency ≠ .linked) :
    spec.moduleStatus dependency = .evaluating ∨
      spec.moduleStatus dependency = .evaluated := by
  rcases traversal.status_cases synchronous inside with
    status | status | status | status
  · exact absurd status entered
  · exact .inl status
  · exact .inr status
  · rw [← moduleStatus_eq_of_get (traversal.start_errored status),
      status] at linked
    cases linked

/-- The recursion meets a dependency that failed earlier. -/
theorem throwAgrees (synchronous : Synchronous start graph)
    {rest : List ModuleRecordId} {work : List EvalWorkItem}
    {pushed : ModuleRecordId → Bool}
    (list : start.moduleEvaluationList module = done ++ dependency :: rest)
    (wasLinked : ∀ other ∈ dependency :: rest, pushed other →
      start.moduleStatus other = .linked)
    (isPushed : ∀ other ∈ dependency :: rest,
      spec.moduleStatus other = .linked → pushed other)
    (state : LoopState start graph code₀ spec₀ code spec module above base done
      index)
    (errored : spec.moduleStatus dependency = .errored) :
    ThrowAgrees start graph bodies
      ⟨code, ((dependency :: rest).filter pushed).map .enter ++
        .execute module (start.moduleEvaluationList module) :: work,
        above ++ module :: base, index⟩
      spec₀ ⟨spec, above ++ module :: base, index⟩
      (spec.moduleEvaluationError dependency) rest := by
  have traversal := state.specLooping.traversal
  have requested : ∀ other ∈ done ++ dependency :: rest,
      other ∈ start.moduleEvaluationList module := by
    intro other member
    rw [list]
    exact member
  have inGraph : ∀ other ∈ dependency :: rest, graph other := by
    intro other member
    exact Traversal.dependency_inGraph synchronous
      state.looping.evaluating.1
      (requested other (List.mem_append_right done member))
  have notPushed : pushed dependency = false := by
    cases pushing : pushed dependency with
    | false => rfl
    | true =>
        have linked := wasLinked dependency List.mem_cons_self pushing
        rw [← moduleStatus_eq_of_get (traversal.start_errored errored),
          errored] at linked
        cases linked
  rw [List.filter_cons, notPushed, if_neg (by decide)]
  have known : ∀ other ∈ rest.filter pushed,
      code.moduleStatus other = .linked ∨
      code.moduleStatus other = .evaluating ∨
      code.moduleStatus other = .evaluated := by
    intro other member
    obtain ⟨inside, pushing⟩ := List.mem_filter.mp member
    have later := List.mem_cons_of_mem dependency inside
    rw [moduleStatus_congr state.same]
    by_cases linked : spec.moduleStatus other = .linked
    · exact .inl linked
    · exact .inr (visited_of_start_linked synchronous traversal
        (inGraph other later) (wasLinked other later pushing) linked)
  constructor
  · exact traversal
  · exact state.specLooping.frame
  · refine .inr ⟨dependency, inGraph dependency List.mem_cons_self, ?_⟩
    rw [← moduleStatus_eq_of_get (traversal.start_errored errored)]
    exact errored
  · intro none
    have entered : Entered code (rest.filter pushed) := by
      intro other member
      refine (known other member).resolve_left ?_
      rw [moduleStatus_congr state.same]
      exact none other (List.mem_filter.mp member).1
    have doneEntered : Entered code done := by
      intro other member
      rw [moduleStatus_congr state.same]
      exact state.entered other member
    obtain ⟨after, booked, forgotten⟩ := state.looping.bookkeep_errored
      synchronous requested doneEntered (by
        rw [moduleStatus_congr state.same]
        exact errored)
    refine ⟨after, ?_, forgotten.trans state.same⟩
    have stepped : Evaluator.step bodies
        ⟨code, .execute module (done ++ dependency :: rest) :: work,
          above ++ module :: base, index⟩ =
        .failed ⟨after, .execute module (done ++ dependency :: rest) :: work,
          above ++ module :: base, index⟩
          (code.moduleEvaluationError dependency) := by
      simp only [Evaluator.step, Evaluator.execute, booked]
    rw [run_skip entered, list, Evaluator.run_failed stepped,
      moduleEvaluationError_congr state.same]
  · intro other member linked
    obtain ⟨found, foundLinked, moved⟩ := @run_enters bodies code
      (rest.filter pushed)
      (.execute module (start.moduleEvaluationList module) :: work)
      (above ++ module :: base) index known other
      (List.mem_filter.mpr ⟨member,
        isPushed other (List.mem_cons_of_mem dependency member) linked⟩)
      (by
        rw [moduleStatus_congr state.same]
        exact linked)
    rw [moduleStatus_congr state.same] at foundLinked
    exact ⟨found, foundLinked, moved⟩

end LoopState

/-- The loop over the dependencies of a module on both sides. -/
theorem loop_agrees (synchronous : Synchronous start graph) {depth : Nat}
    (inner : InnerAgrees start graph bodies depth)
    {code₀ spec₀ code spec : EvaluationRuntime} {module : ModuleRecordId}
    {above base done rest : List ModuleRecordId} {index : Nat}
    {work : List EvalWorkItem} {pushed : ModuleRecordId → Bool}
    (list : start.moduleEvaluationList module = done ++ rest)
    (wasLinked : ∀ other ∈ rest, pushed other →
      start.moduleStatus other = .linked)
    (isPushed : ∀ other ∈ rest, spec.moduleStatus other = .linked →
      pushed other)
    (state : LoopState start graph code₀ spec₀ code spec module above base done
      index)
    (enough : Evaluator.linkedCount spec ≤ depth) :
    LoopCompletes start graph bodies
      ⟨code, (rest.filter pushed).map .enter ++
        .execute module (start.moduleEvaluationList module) :: work,
        above ++ module :: base, index⟩ code₀ spec₀ module base work
      (Spec.evaluateRequested (Spec.innerModuleEvaluation bodies depth) module
        rest ⟨spec, above ++ module :: base, index⟩) := by
  induction rest generalizing code spec above done index with
  | nil =>
      rw [List.append_nil] at list
      refine ⟨code, above, rfl, rfl, state.same, state.looping,
        state.specLooping, ?_, ?_⟩
      · rw [list]
        exact state.processed
      · rw [list]
        exact state.entered
  | cons dependency rest induction =>
      have requested : dependency ∈ start.moduleEvaluationList module := by
        simp [list]
      have inside := Traversal.dependency_inGraph synchronous
        state.looping.evaluating.1 requested
      have traversal := state.specLooping.traversal
      have listAfter : start.moduleEvaluationList module =
          (done ++ [dependency]) ++ rest := by simp [list]
      have wasLinkedAfter : ∀ other ∈ rest, pushed other →
          start.moduleStatus other = .linked :=
        fun other member => wasLinked other (List.mem_cons_of_mem _ member)
      rw [Spec.evaluateRequested]
      have skipped : spec.moduleStatus dependency = .evaluating ∨
          spec.moduleStatus dependency = .evaluated →
          LoopCompletes start graph bodies
            ⟨code, ((dependency :: rest).filter pushed).map .enter ++
              .execute module (start.moduleEvaluationList module) :: work,
              above ++ module :: base, index⟩ code₀ spec₀ module base work
            ((Spec.accountFor module dependency
              ⟨spec, above ++ module :: base, index⟩).andThen fun accounted =>
                Spec.evaluateRequested (Spec.innerModuleEvaluation bodies depth)
                  module rest accounted) := by
        intro visited
        have same := forget_account module dependency spec
        rw [traversal.accountFor_eq synchronous inside visited]
        have next := @induction code
          (accountDependency module dependency spec) above
          (done ++ [dependency]) index listAfter wasLinkedAfter
          (by
            intro other member linked
            rw [moduleStatus_congr same] at linked
            exact isPushed other (List.mem_cons_of_mem _ member) linked)
          (state.account synchronous requested visited)
          (Nat.le_trans (Frame.of_forget_eq same).settles.linkedCount_le enough)
        have codeVisited : code.moduleStatus dependency = .evaluating ∨
            code.moduleStatus dependency = .evaluated := by
          rw [moduleStatus_congr state.same]
          exact visited
        rw [List.filter_cons]
        split
        · rw [List.map_cons, List.cons_append]
          exact next.of_run (run_enter_skip codeVisited)
        · exact next
      rcases traversal.status_cases synchronous inside with
        linked | evaluating | evaluated | errored
      · have agrees := inner dependency code spec (above ++ module :: base) index
          ((rest.filter pushed).map .enter ++
            .execute module (start.moduleEvaluationList module) :: work)
          inside state.same state.looping.traversal traversal enough
        have filtered : (dependency :: rest).filter pushed =
            dependency :: rest.filter pushed := by
          rw [List.filter_cons,
            if_pos (isPushed dependency List.mem_cons_self linked)]
        rw [filtered, List.map_cons, List.cons_append]
        cases completion : Spec.innerModuleEvaluation bodies depth dependency
          ⟨spec, above ++ module :: base, index⟩ with
        | stuck =>
            rw [completion] at agrees
            exact agrees.elim
        | throw walk error abandoned =>
            rw [completion] at agrees
            have other : ¬ spec.moduleStatus dependency = .errored := by
              rw [linked]
              decide
            simp only [if_neg other]
            exact ⟨agrees.traversal,
              state.specLooping.frame.trans agrees.frame, agrees.cause,
              agrees.same, agrees.differs⟩
        | normal walk =>
            rw [completion] at agrees
            obtain ⟨after, agrees⟩ := agrees
            obtain ⟨nodes, stack, visited⟩ := state.visit synchronous requested
              agrees
            obtain ⟨runtime, walkStack, walkIndex⟩ := walk
            simp only at stack
            subst stack
            have entered : runtime.moduleStatus dependency = .evaluating ∨
                runtime.moduleStatus dependency = .evaluated :=
              LoopState.visited_of_start_linked synchronous
                agrees.specTraversal inside (traversal.start_linked linked)
                agrees.specVisit.entered
            have same := forget_account module dependency runtime
            have frame := agrees.specVisit.frame.trans
              (Frame.of_forget_eq same)
            simp only
            rw [agrees.specTraversal.accountFor_eq synchronous inside entered]
            have next := @induction after
              (accountDependency module dependency runtime) (nodes ++ above)
              (done ++ [dependency]) walkIndex listAfter wasLinkedAfter
              (by
                intro other member stillLinked
                exact isPushed other (List.mem_cons_of_mem _ member)
                  (frame.settles other stillLinked))
              (visited.account synchronous requested entered)
              (Nat.le_trans frame.settles.linkedCount_le enough)
            exact next.of_run agrees.run
      · rw [inner_of_visited depth (.inl evaluating)]
        exact skipped (.inl evaluating)
      · rw [inner_of_visited depth (.inr evaluated)]
        exact skipped (.inr evaluated)
      · rw [inner_of_errored depth errored]
        simp only [if_pos errored]
        exact state.throwAgrees synchronous list wasLinked isPushed errored

section Body

variable {code spec after : EvaluationRuntime} {module : ModuleRecordId}
  {stack above : List ModuleRecordId} {index : Nat}
  {work : List EvalWorkItem} {walk : Walk} {evaluator : Evaluator}

theorem finishModule_congr
    (looping : Looping start graph
      (code.update module (Evaluator.startEvaluating index)) after module above
      stack walk.index)
    (specLooping : Looping start graph
      (spec.update module (Evaluator.startEvaluating index)) walk.runtime module
      above stack walk.index)
    (processed : Processed start after module (above ++ module :: stack)
      (start.moduleEvaluationList module))
    (specProcessed : Processed start walk.runtime module
      (above ++ module :: stack) (start.moduleEvaluationList module))
    (same : after.forget = walk.runtime.forget) :
    (Evaluator.finishModule
      { after with executed := after.executed ++ [module] }
      (above ++ module :: stack) module).1.forget =
    (Evaluator.finishModule
      { walk.runtime with executed := walk.runtime.executed ++ [module] }
      (above ++ module :: stack) module).1.forget ∧
    (Evaluator.finishModule
      { after with executed := after.executed ++ [module] }
      (above ++ module :: stack) module).2 =
    (Evaluator.finishModule
      { walk.runtime with executed := walk.runtime.executed ++ [module] }
      (above ++ module :: stack) module).2 := by
  have sameCompleted : Completed start after =
      Completed start walk.runtime := by
    funext other
    rw [Completed, Completed, moduleStatus_congr same]
  have executed := forget_executed_congr same module
  have test : Evaluator.closesComponent after module = true ↔
      Evaluator.closesComponent walk.runtime module = true := by
    rw [looping.closesComponent_iff processed,
      specLooping.closesComponent_iff specProcessed, sameCompleted]
  rw [Evaluator.finishModule, Evaluator.finishModule]
  by_cases closes : Evaluator.closesComponent after module = true
  · have specCloses := test.mp closes
    have closes : Evaluator.closesComponent
        { after with executed := after.executed ++ [module] } module =
          true := closes
    have specCloses : Evaluator.closesComponent
        { walk.runtime with executed := walk.runtime.executed ++ [module] }
          module = true := specCloses
    rw [if_pos closes, if_pos specCloses]
    exact forget_popComponent_congr module _ executed
  · have specStands : ¬ Evaluator.closesComponent walk.runtime module = true :=
      fun specCloses => closes (test.mpr specCloses)
    have stands : ¬ Evaluator.closesComponent
        { after with executed := after.executed ++ [module] } module =
          true := closes
    have specStands : ¬ Evaluator.closesComponent
        { walk.runtime with executed := walk.runtime.executed ++ [module] }
          module = true := specStands
    rw [if_neg stands, if_neg specStands]
    exact ⟨executed, rfl⟩

/-- The body of a module after its dependencies on both sides. -/
theorem execute_agrees (synchronous : Synchronous start graph)
    (linked : spec.moduleStatus module = .linked)
    (same : code.forget = spec.forget)
    (traversal : Traversal start graph code stack index)
    (specTraversal : Traversal start graph spec stack index)
    (loop : LoopAgrees start graph bodies evaluator
      (code.update module (Evaluator.startEvaluating index))
      (spec.update module (Evaluator.startEvaluating index)) module stack work
      walk after above)
    (entering : Evaluator.run bodies
      ⟨code, .enter module :: work, stack, index⟩ =
        Evaluator.run bodies evaluator) :
    Agrees start graph bodies code spec stack index module work
      (Spec.executeRequested bodies module walk) := by
  have codeLinked : code.moduleStatus module = .linked := by
    rw [moduleStatus_congr same]
    exact linked
  have entered : Entered after (start.moduleEvaluationList module) := by
    intro dependency member
    rw [moduleStatus_congr loop.same]
    exact loop.entered dependency member
  have nothing : Processed start after module (above ++ module :: stack) [] :=
    fun _ member => absurd member List.not_mem_nil
  obtain ⟨booked, bookkeeping, forgotten, looping, processed⟩ :=
    loop.looping.bookkeep synchronous (fun _ member => member) nothing entered
  rw [List.nil_append] at processed
  have bookedSame : booked.forget = walk.runtime.forget :=
    forgotten.trans loop.same
  have executing := executeModule_eq codeLinked looping synchronous bodies
  rw [Spec.executeRequested]
  cases thrown : bodies module with
  | some error =>
      have stepped : Evaluator.step bodies
          ⟨after, .execute module (start.moduleEvaluationList module) :: work,
            walk.stack, walk.index⟩ =
          .failed
            ⟨{ booked with executed := booked.executed ++ [module] },
              .execute module (start.moduleEvaluationList module) :: work,
              walk.stack, walk.index⟩ error := by
        simp only [Evaluator.step, Evaluator.execute, bookkeeping, executing,
          thrown]
      constructor
      · have recorded := loop.specLooping.traversal.record_executed
          (walk.runtime.executed ++ [module])
        rw [← loop.stack] at recorded
        exact recorded
      · exact frame_of_throw linked loop.specLooping
      · exact .inl ⟨rfl, module, List.getLast?_concat, thrown⟩
      · intro _
        refine ⟨_, ?_, forget_executed_congr bookedSame module⟩
        rw [entering, loop.run, Evaluator.run_failed stepped]
      · intro other member
        cases member
  | none =>
      obtain ⟨sameFinish, sameStack⟩ := finishModule_congr looping
        loop.specLooping processed loop.processed bookedSame
      obtain ⟨final, finalStack, finish⟩ : ∃ final finalStack,
          Evaluator.finishModule
            { booked with executed := booked.executed ++ [module] }
            (above ++ module :: stack) module = (final, finalStack) :=
        ⟨_, _, rfl⟩
      obtain ⟨specFinal, specStack, specFinish⟩ : ∃ final finalStack,
          Evaluator.finishModule
            { walk.runtime with executed := walk.runtime.executed ++ [module] }
            (above ++ module :: stack) module = (final, finalStack) :=
        ⟨_, _, rfl⟩
      rw [finish, specFinish] at sameFinish sameStack
      simp only at sameFinish sameStack
      subst sameStack
      obtain ⟨finalTraversal, visit⟩ := finish_visit traversal codeLinked
        looping synchronous processed finish
      obtain ⟨specFinalTraversal, specVisit⟩ := finish_visit specTraversal
        linked loop.specLooping synchronous loop.processed specFinish
      rw [← loop.stack] at finish specFinish
      simp only
      rw [specFinish]
      refine ⟨final, ?_, sameFinish, finalTraversal, specFinalTraversal, visit,
        specVisit⟩
      rw [entering, loop.run]
      apply Evaluator.run_more
      simp only [Evaluator.step, Evaluator.execute, bookkeeping, executing,
        thrown]
      rw [finish]

end Body

theorem linkedCount_pos {runtime : EvaluationRuntime}
    {module : ModuleRecordId}
    (linked : runtime.moduleStatus module = .linked) (index : Nat) :
    Evaluator.linkedCount
      (runtime.update module (Evaluator.startEvaluating index)) <
        Evaluator.linkedCount runtime := by
  obtain ⟨record, present, status⟩ :=
    Evaluator.exists_of_moduleStatus linked (by decide)
  exact Evaluator.countP_modify_lt present status
    (by simp [Evaluator.startEvaluating])

/-- A module that is not linked is not entered on either side. -/
theorem inner_agrees_of_entered (synchronous : Synchronous start graph)
    {code spec : EvaluationRuntime} {module : ModuleRecordId}
    {stack : List ModuleRecordId} {index : Nat} {work : List EvalWorkItem}
    (depth : Nat) (inside : graph module) (same : code.forget = spec.forget)
    (traversal : Traversal start graph code stack index)
    (specTraversal : Traversal start graph spec stack index)
    (entered : spec.moduleStatus module ≠ .linked) :
    Agrees start graph bodies code spec stack index module work
      (Spec.innerModuleEvaluation bodies depth module
        ⟨spec, stack, index⟩) := by
  have skip : spec.moduleStatus module = .evaluating ∨
      spec.moduleStatus module = .evaluated →
      Agrees start graph bodies code spec stack index module work
        (Spec.innerModuleEvaluation bodies depth module
          ⟨spec, stack, index⟩) := by
    intro visited
    rw [inner_of_visited depth visited]
    refine ⟨code, run_enter_skip ?_, same, traversal, specTraversal,
      Visit.skip start stack ?_, Visit.skip start stack entered⟩
    · rw [moduleStatus_congr same]
      exact visited
    · rw [moduleStatus_congr same]
      exact entered
  rcases specTraversal.status_cases synchronous inside with
    linked | evaluating | evaluated | errored
  · exact absurd linked entered
  · exact skip (.inl evaluating)
  · exact skip (.inr evaluated)
  · rw [inner_of_errored depth errored]
    have codeErrored : code.moduleStatus module = .errored := by
      rw [moduleStatus_congr same]
      exact errored
    refine ⟨specTraversal, Frame.refl spec, ?_, ?_, ?_⟩
    · refine .inr ⟨module, inside, ?_⟩
      rw [← moduleStatus_eq_of_get (specTraversal.start_errored errored)]
      exact errored
    · intro _
      refine ⟨code, ?_, same⟩
      rw [← moduleEvaluationError_congr same]
      have stepped : Evaluator.step bodies
          ⟨code, .enter module :: work, stack, index⟩ =
          .failed ⟨code, .enter module :: work, stack, index⟩
            (code.moduleEvaluationError module) := by
        simp only [Evaluator.step, Evaluator.enter, codeErrored]
      rw [Evaluator.run_failed stepped]
    · intro other member
      cases member

/-- The work list does what the recursion does. -/
theorem inner_agrees (synchronous : Synchronous start graph) (depth : Nat) :
    InnerAgrees start graph bodies depth := by
  induction depth with
  | zero =>
      intro module code spec stack index work inside same traversal
        specTraversal enough
      apply inner_agrees_of_entered synchronous 0 inside same traversal
        specTraversal
      intro linked
      have positive := linkedCount_pos linked index
      omega
  | succ depth induction =>
      intro module code spec stack index work inside same traversal
        specTraversal enough
      by_cases linked : spec.moduleStatus module = .linked
      · have codeLinked : code.moduleStatus module = .linked := by
          rw [moduleStatus_congr same]
          exact linked
        have entered := traversal.enter inside codeLinked
        have specEntered := specTraversal.enter inside linked
        have enteredSame := forget_startEvaluating_congr same module index
        have smaller := linkedCount_pos linked index
        have loop := @loop_agrees start graph bodies synchronous depth induction
          _ _ _ _ module [] stack [] (start.moduleEvaluationList module)
          (index + 1) work
          (fun dependency => decide ((code.update module
            (Evaluator.startEvaluating index)).moduleStatus dependency =
              .linked)) rfl
          (by
            intro other _ pushed
            exact entered.start_linked (of_decide_eq_true pushed))
          (by
            intro other _ stillLinked
            rw [decide_eq_true_iff, moduleStatus_congr enteredSame]
            exact stillLinked)
          ⟨enteredSame, .begin entered, .begin specEntered,
            fun _ member => absurd member List.not_mem_nil,
            fun _ member => absurd member List.not_mem_nil⟩
          (by omega)
        have entering := Evaluator.run_more (@step_enter_linked bodies code
          module work stack index codeLinked)
        rw [entered.moduleEvaluationList_start synchronous inside] at entering
        have unfolded : Spec.innerModuleEvaluation bodies (depth + 1) module
            ⟨spec, stack, index⟩ =
            (Spec.evaluateRequested
              (Spec.innerModuleEvaluation bodies depth) module
              (start.moduleEvaluationList module)
              ⟨spec.update module (Evaluator.startEvaluating index),
                module :: stack, index + 1⟩).andThen
                  (Spec.executeRequested bodies module) := by
          rw [← specEntered.requestedModules_start synchronous inside]
          conv => lhs; unfold Spec.innerModuleEvaluation
          simp only [linked]
        rw [unfolded]
        rw [List.nil_append] at loop
        cases completion : Spec.evaluateRequested
          (Spec.innerModuleEvaluation bodies depth) module
          (start.moduleEvaluationList module)
          ⟨spec.update module (Evaluator.startEvaluating index),
            module :: stack, index + 1⟩ with
        | stuck =>
            rw [completion] at loop
            exact loop.elim
        | throw walk error abandoned =>
            rw [completion] at loop
            refine ⟨loop.traversal, ?_, loop.cause, ?_, ?_⟩
            · exact (Frame.enter linked index).trans loop.frame
            · rw [entering]
              exact loop.same
            · rw [entering]
              exact loop.differs
        | normal walk =>
            rw [completion] at loop
            obtain ⟨after, above, agrees⟩ := loop
            exact execute_agrees synchronous linked same traversal specTraversal
              agrees entering
      · exact inner_agrees_of_entered synchronous (depth + 1) inside same
          traversal specTraversal linked

end Simulation

end Fusor.Modules
