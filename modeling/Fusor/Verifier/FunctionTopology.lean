import Fusor.Verifier.FunctionGraph

/-!
# Correctness of the topology stages

The records that pass their checks form a directed multigraph.  The stages
succeed exactly when it has no cycle and the root reaches every function, and
the depth they report is the number of functions on the longest path from the
root.
-/

namespace Fusor.Verifier

open Fusor.Graph Fusor.Support

/-- One function has another among its constants. -/
def Nests (functions : List UnverifiedCompilerFunction) (parent child : Nat) :
    Prop :=
  ∃ constant ∈ targetsAt functions parent, constant.2.toNat = child

/-- A path of nested functions from the root. -/
structure NestingPath (functions : List UnverifiedCompilerFunction)
    (root : Nat) (path : List Nat) : Prop where
  starts : path.head? = some root
  nests : path.IsChain (Nests functions)

section Valid

variable {functions : List UnverifiedCompilerFunction}

theorem validateFunctionRecord_of_mem
    (valid : validateFunctionRecords functions = .ok ()) {index : Nat}
    {function : UnverifiedCompilerFunction}
    (stored : functions[index]? = some function) :
    validateFunctionRecord functions index function = .ok () := by
  have each := forM_eq_ok_iff.mp valid (function, index)
    (List.mem_zipIdx_iff_getElem?.mpr stored)
  exact each

theorem functionId_of_lt {index : Nat} (small : index < 2 ^ 32) :
    functionId index = .ok (UInt32.ofNat index) := by
  unfold functionId
  rw [if_pos small]

/-- What the checks of a record establish. -/
theorem validateFunctionRecord_ok {index : Nat}
    {function : UnverifiedCompilerFunction}
    (checked : validateFunctionRecord functions index function = .ok ()) :
    function.constants.length = function.constantPoolLen.toNat ∧
      ∀ constant ∈ functionConstantTargets function.constants,
        constant.2.toNat < functions.length := by
  unfold validateFunctionRecord at checked
  obtain ⟨id, _, checked⟩ := bind_eq_ok_iff.mp checked
  split at checked
  · cases checked
  rename_i same
  refine ⟨not_not.mp same, ?_⟩
  intro constant member
  have bounded := forM_eq_ok_iff.mp checked constant member
  obtain ⟨target, found, _⟩ := bind_eq_ok_iff.mp bounded
  unfold constantTargetIndex at found
  split at found
  · rename_i inside
    exact inside
  · cases found

theorem targetsAt_inside
    (valid : validateFunctionRecords functions = .ok ()) (index : Nat) :
    ∀ constant ∈ targetsAt functions index,
      constant.2.toNat < functions.length := by
  intro constant member
  unfold targetsAt at member
  cases stored : functions[index]? with
  | none => simp [stored] at member
  | some function =>
      rw [stored] at member
      exact (validateFunctionRecord_ok
        (validateFunctionRecord_of_mem valid stored)).2 constant member

theorem length_targetsAt
    (valid : validateFunctionRecords functions = .ok ()) (index : Nat) :
    (targetsAt functions index).length < 2 ^ 32 := by
  unfold targetsAt
  cases stored : functions[index]? with
  | none => simp
  | some function =>
      have declared := (validateFunctionRecord_ok
        (validateFunctionRecord_of_mem valid stored)).1
      have small := function.constantPoolLen.toNat_lt
      have most : (functionConstantTargets function.constants).length ≤
          function.constants.zipIdx.length := List.length_filterMap_le _ _
      rw [List.length_zipIdx] at most
      simp only [Option.map_some, Option.getD_some]
      omega

/-- The functions as a graph. -/
def graphOf (valid : validateFunctionRecords functions = .ok ()) :
    Multigraph where
  size := functions.length
  targets index := (targetsAt functions index).map fun constant =>
    constant.2.toNat
  closed := by
    intro source _ target member
    obtain ⟨constant, listed, rfl⟩ := List.mem_map.mp member
    exact targetsAt_inside valid source constant listed

theorem edge_graphOf (valid : validateFunctionRecords functions = .ok ())
    (source target : Nat) :
    (graphOf valid).Edge source target ↔ Nests functions source target := by
  unfold Multigraph.Edge Nests graphOf
  simp only [List.mem_map]
  constructor
  · exact fun edge => edge.2
  · rintro ⟨constant, listed, same⟩
    refine ⟨?_, constant, listed, same⟩
    by_contra outside
    rw [targetsAt, List.getElem?_eq_none (Nat.le_of_not_lt outside)] at listed
    cases listed

theorem constantTargetIndex_of_lt {constant : Nat × FunctionTemplateId}
    (parent : FunctionTemplateId)
    (inside : constant.2.toNat < functions.length) :
    constantTargetIndex parent constant functions.length =
      .ok constant.2.toNat := by
  unfold constantTargetIndex
  rw [if_pos inside]

/-- A fallible fold that never fails is a fold. -/
theorem foldlM_eq_ok {α β σ : Type} {list : List α} {project : α → β}
    {fallible : σ → α → GraphResult σ} {total : σ → β → σ}
    (agrees : ∀ element ∈ list, ∀ state,
      fallible state element = .ok (total state (project element)))
    (state : σ) :
    list.foldlM fallible state = .ok ((list.map project).foldl total state) := by
  induction list generalizing state with
  | nil => rfl
  | cons first rest induction =>
      rw [List.foldlM_cons, agrees first List.mem_cons_self state,
        List.map_cons, List.foldl_cons]
      exact induction (fun element member =>
        agrees element (List.mem_cons_of_mem first member)) _

end Valid

/-! ## Counting the edges -/

section Counting

variable {functions : List UnverifiedCompilerFunction}

theorem countEdges_targets {constants : List (Nat × FunctionTemplateId)}
    (inside : ∀ constant ∈ constants,
      constant.2.toNat < functions.length)
    (parent : FunctionTemplateId) {indegrees : List Nat}
    (sized : indegrees.length = functions.length)
    (room : ∀ node, indegrees.getD node 0 + constants.length < 2 ^ 64) :
    ∃ counted, constants.foldlM (countEdge functions parent) indegrees =
        .ok counted ∧ counted.length = functions.length ∧
      ∀ node, counted.getD node 0 = indegrees.getD node 0 +
        (constants.map fun constant => constant.2.toNat).count node := by
  induction constants generalizing indegrees with
  | nil => exact ⟨indegrees, rfl, sized, by simp⟩
  | cons constant rest induction =>
      have here := inside constant List.mem_cons_self
      have within : constant.2.toNat < indegrees.length := by
        rw [sized]
        exact here
      have fits : indegrees.getD constant.2.toNat 0 + 1 < 2 ^ 64 := by
        have bound := room constant.2.toNat
        rw [List.length_cons] at bound
        omega
      have step : countEdge functions parent indegrees constant =
          .ok (indegrees.set constant.2.toNat
            (indegrees.getD constant.2.toNat 0 + 1)) := by
        unfold countEdge
        rw [constantTargetIndex_of_lt parent here]
        simp only [bind, Except.bind]
        rw [if_pos fits]
      have read := Multigraph.getD_set within
        (indegrees.getD constant.2.toNat 0 + 1)
      obtain ⟨counted, succeeds, length, counts⟩ := induction
        (fun other member => inside other (List.mem_cons_of_mem _ member))
        ((List.length_set ..).trans sized) (by
          intro node
          rw [read]
          have bound := room node
          rw [List.length_cons] at bound
          split
          · rename_i same
            rw [← same]
            omega
          · omega)
      refine ⟨counted, ?_, length, ?_⟩
      · rw [List.foldlM_cons, step]
        exact succeeds
      · intro node
        rw [counts node, read, List.map_cons, List.count_cons]
        by_cases same : node = constant.2.toNat
        · simp only [same, if_true, beq_self_eq_true]
          omega
        · simp [same, Ne.symm same]

variable (valid : validateFunctionRecords functions = .ok ())

include valid

theorem countEdges_all (few : functions.length < 2 ^ 32) {sources : List Nat}
    (inside : ∀ source ∈ sources, source < functions.length)
    (short : sources.length ≤ functions.length) :
    ∃ indegrees, sources.foldlM (countEdges functions)
        (List.replicate functions.length 0) = .ok indegrees ∧
      indegrees.length = functions.length ∧
      ∀ node, indegrees.getD node 0 = (graphOf valid).incoming sources node ∧
        indegrees.getD node 0 ≤ sources.length * (2 ^ 32 - 1) := by
  induction sources using List.reverseRecOn with
  | nil =>
      refine ⟨_, rfl, List.length_replicate, ?_⟩
      intro node
      have zero : (List.replicate functions.length 0).getD node 0 = 0 := by
        rw [List.getD_eq_getElem?_getD, List.getElem?_replicate]
        split
        · rfl
        · rfl
      rw [zero]
      exact ⟨rfl, Nat.zero_le _⟩
  | append_singleton sources source induction =>
      rw [List.length_append, List.length_singleton] at short
      obtain ⟨indegrees, earlier, sized, counts⟩ := induction
        (fun other member => inside other (List.mem_append_left _ member))
        (Nat.le_of_succ_le short)
      have own := inside source (by simp)
      have few' := length_targetsAt valid source
      obtain ⟨counted, succeeds, length, added⟩ := countEdges_targets
        (targetsAt_inside valid source) (UInt32.ofNat source) sized (by
          intro node
          have bound := (counts node).2
          have product : sources.length * (2 ^ 32 - 1) ≤
              (2 ^ 32 - 2) * (2 ^ 32 - 1) := Nat.mul_le_mul_right _ (by omega)
          omega)
      refine ⟨counted, ?_, length, ?_⟩
      · rw [List.foldlM_append, earlier]
        simp only [List.foldlM_cons, List.foldlM_nil, bind, Except.bind]
        unfold countEdges
        rw [functionId_of_lt (Nat.lt_trans own few)]
        simp only [bind, Except.bind]
        rw [succeeds]
        rfl
      · intro node
        constructor
        · rw [added node, (counts node).1]
          simp only [Multigraph.incoming, List.map_append, List.sum_append,
            List.map_cons, List.map_nil, List.sum_cons, List.sum_nil,
            Nat.add_zero]
          rfl
        · rw [added node, List.length_append, List.length_singleton]
          have bound := (counts node).2
          have most : ((targetsAt functions source).map fun constant =>
              constant.2.toNat).count node ≤ _ := List.count_le_length
          rw [List.length_map] at most
          omega

end Counting

/-! ## Ordering the functions -/

section Ordering

variable {functions : List UnverifiedCompilerFunction}
  (valid : validateFunctionRecords functions = .ok ())
  (few : functions.length < 2 ^ 32)

theorem sorting_initial {indegrees : List Nat}
    (sized : indegrees.length = functions.length)
    (counts : ∀ node, indegrees.getD node 0 =
      (graphOf valid).incoming (List.range functions.length) node) :
    (graphOf valid).Sorting [] indegrees
      ((List.range functions.length).filter fun index =>
        indegrees.getD index 0 == 0) [] := by
  refine ⟨sized, ?_, ?_, ?_, ?_, ?_⟩
  · rw [List.nil_append]
    exact List.nodup_range.filter _
  · intro node member
    exact List.mem_range.mp (List.mem_filter.mp member).1
  · intro node _
    rw [counts, List.count_nil, Nat.add_zero, Multigraph.remaining]
    congr 1
    exact (List.filter_eq_self.mpr (by simp)).symm
  · intro node small
    rw [List.nil_append, List.mem_filter, List.mem_range, beq_iff_eq]
    exact and_iff_right small
  · intro before node after split
    exact absurd split.symm (by simp)

include few

theorem releaseEdges_eq {parent : Nat} (small : parent < functions.length)
    (tables : List Nat × List Nat) :
    releaseEdges functions parent tables = .ok
      (((graphOf valid).targets parent).foldl Multigraph.release tables) := by
  unfold releaseEdges
  rw [functionId_of_lt (Nat.lt_trans small few)]
  apply foldlM_eq_ok
  intro constant member state
  unfold releaseEdge
  rw [constantTargetIndex_of_lt _ (targetsAt_inside valid parent constant member)]
  rfl

/-- As many steps as there are functions left suffice. -/
theorem drainReady_sorts {steps : Nat} {indegrees ready order : List Nat}
    (sorting : (graphOf valid).Sorting [] indegrees ready order)
    (enough : functions.length ≤ order.length + steps) :
    ∃ final sorted,
      drainReady functions steps (indegrees, ready) order =
        some (.ok (final, sorted)) ∧
      (graphOf valid).Sorting [] final [] sorted := by
  induction steps generalizing indegrees ready order with
  | zero =>
      have most := sorting.length_le
      rw [List.length_append] at most
      change _ ≤ functions.length at most
      obtain rfl : ready = [] := by
        rw [← List.length_eq_zero_iff]
        omega
      exact ⟨indegrees, order, by simp [drainReady], sorting⟩
  | succ steps induction =>
      cases ready with
      | nil => exact ⟨indegrees, order, by simp [drainReady], sorting⟩
      | cons parent ready =>
          have small : parent < functions.length :=
            sorting.inside parent (by simp)
          have released := sorting.take.releaseAll
            ((graphOf valid).closed parent small)
          obtain ⟨final, sorted, drained, last⟩ := induction released (by
            rw [List.length_append, List.length_singleton]
            omega)
          refine ⟨final, sorted, ?_, last⟩
          rw [drainReady, releaseEdges_eq valid few small]
          exact drained

/-- The order is found exactly if there is no cycle. -/
theorem buildTopologicalOrder_spec (root : FunctionTemplateId) {steps : Nat}
    (enough : functions.length ≤ steps) :
    ((graphOf valid).Acyclic ∧ ∃ order,
      buildTopologicalOrder functions steps root = some (.ok order) ∧
        (graphOf valid).Topological order) ∨
    (¬ (graphOf valid).Acyclic ∧ ∃ function,
      buildTopologicalOrder functions steps root =
        some (.error ⟨none, .cycle function⟩)) := by
  obtain ⟨indegrees, counted, sized, counts⟩ := countEdges_all valid few
    (fun source member => List.mem_range.mp member)
    (Nat.le_of_eq List.length_range)
  obtain ⟨final, order, drained, sorting⟩ := drainReady_sorts valid few
    (sorting_initial valid sized fun node => (counts node).1)
    (Nat.le_trans enough (Nat.le_add_left _ _))
  have result : buildTopologicalOrder functions steps root = some
      (if order.length ≠ functions.length then
        .error (cycleError final root) else .ok order) := by
    unfold buildTopologicalOrder
    rw [counted]
    simp only
    rw [drained]
    rfl
  by_cases all : order.length = functions.length
  · left
    have sorted := sorting.topological all
    refine ⟨sorted.acyclic, order, ?_, sorted⟩
    rw [result, if_neg (not_not.mpr all)]
  · right
    refine ⟨fun acyclic => all (sorting.all_of_acyclic acyclic), ?_⟩
    exact ⟨_, by rw [result, if_pos all]; rfl⟩

end Ordering

/-! ## Measuring the depth -/

section Depth

variable {functions : List UnverifiedCompilerFunction}
  (valid : validateFunctionRecords functions = .ok ())
  {limits : FunctionGraphVerificationLimits}
  (few : functions.length < 2 ^ 32)
  (deep : functions.length ≤ limits.maxNestingDepth.toNat)

include few deep

theorem deepenChildren_relaxes {root node greatest : Nat}
    {relaxed after depths : List Nat}
    (sorted : (graphOf valid).Topological (relaxed ++ node :: after))
    (relaxing : (graphOf valid).Relaxing root relaxed depths greatest) :
    ∃ next, deepenChildren functions limits (depths, greatest) node =
        .ok next ∧
      (graphOf valid).Relaxing root (relaxed ++ [node]) next.1 next.2 := by
  have member : node ∈ relaxed ++ node :: after := by simp
  have small : node < functions.length := by
    have listed := sorted.lists.mem_iff.mp member
    exact List.mem_range.mp listed
  unfold deepenChildren
  rw [functionId_of_lt (Nat.lt_trans small few)]
  simp only [bind, Except.bind]
  by_cases nothing : depths.getD node 0 = 0 ∨ targetsAt functions node = []
  · rw [if_pos nothing]
    refine ⟨_, rfl, relaxing.skip (nothing.imp_right fun none => ?_)⟩
    simp [graphOf, none]
  · rw [if_neg nothing]
    rw [not_or] at nothing
    obtain ⟨positive, targets⟩ := nothing
    have shallow : ∀ constant ∈ targetsAt functions node,
        depths.getD node 0 + 1 ≤ functions.length := by
      intro constant listed
      have walk := Multigraph.Walk.step (relaxing.walks node small positive)
        ((edge_graphOf valid _ _).mpr ⟨constant, listed, rfl⟩)
      have bound := sorted.count_le walk
      have inside : constant.2.toNat ∈ relaxed ++ node :: after := by
        rw [sorted.lists.mem_iff, List.mem_range]
        exact targetsAt_inside valid node constant listed
      have position := List.idxOf_lt_length_of_mem inside
      have length := sorted.lists.length_eq
      rw [List.length_range] at length
      change _ = functions.length at length
      omega
    obtain ⟨first, rest, listed⟩ := List.exists_cons_of_ne_nil targets
    have bound := shallow first (by rw [listed]; exact List.mem_cons_self)
    rw [if_pos (by omega)]
    refine ⟨_, ?_, relaxing.relax sorted positive⟩
    apply foldlM_eq_ok
    intro constant member state
    unfold deepenChild
    rw [constantTargetIndex_of_lt _
      (targetsAt_inside valid node constant member)]
    have allowed : depths.getD node 0 + 1 ≤ limits.maxNestingDepth.toNat :=
      Nat.le_trans bound deep
    simp only [bind, Except.bind, enforceLimit, if_pos allowed]
    split
    · rfl
    · rfl

theorem deepenAll_relaxes {root : Nat} {after relaxed depths : List Nat}
    {greatest : Nat}
    (sorted : (graphOf valid).Topological (relaxed ++ after))
    (relaxing : (graphOf valid).Relaxing root relaxed depths greatest) :
    ∃ next, after.foldlM (deepenChildren functions limits)
        (depths, greatest) = .ok next ∧
      (graphOf valid).Relaxing root (relaxed ++ after) next.1 next.2 := by
  induction after generalizing relaxed depths greatest with
  | nil =>
      refine ⟨_, rfl, ?_⟩
      rw [List.append_nil]
      exact relaxing
  | cons node after induction =>
      obtain ⟨next, step, further⟩ :=
        deepenChildren_relaxes valid few deep sorted relaxing
      have moved : relaxed ++ node :: after = relaxed ++ [node] ++ after := by
        simp
      obtain ⟨last, others, final⟩ := induction (moved ▸ sorted) further
      refine ⟨last, ?_, moved ▸ final⟩
      rw [List.foldlM_cons, step]
      exact others

/-- The depth is measured exactly if every function is reached. -/
theorem validateNestingDepth_spec {root : Nat}
    (bounded : root < functions.length) {order : List Nat}
    (sorted : (graphOf valid).Topological order) :
    ((∀ node < functions.length,
        Relation.ReflTransGen (graphOf valid).Edge root node) ∧
      ∃ greatest, validateNestingDepth functions root order limits =
          .ok greatest ∧
        IsGreatest {count | ∃ node, (graphOf valid).Walk root count node}
          greatest) ∨
    ((∃ node < functions.length,
        ¬ Relation.ReflTransGen (graphOf valid).Edge root node) ∧
      ∃ function, validateNestingDepth functions root order limits =
        .error ⟨none, .unreachableFunction function⟩) := by
  have whole : (graphOf valid).Topological ([] ++ order) := sorted
  obtain ⟨⟨depths, greatest⟩, measured, relaxing⟩ :=
    deepenAll_relaxes valid few deep whole
      (Multigraph.relaxing_initial bounded)
  rw [List.nil_append] at relaxing
  have reached := fun node (small : node < functions.length) =>
    relaxing.reached_iff sorted small
  unfold validateNestingDepth
  change List.foldlM _ ((List.replicate functions.length 0).set root 1, 1)
    order = _ at measured
  rw [measured]
  simp only [bind, Except.bind]
  have sized : depths.length = functions.length := relaxing.length
  cases found : depths.findIdx? (· == 0) with
  | none =>
      left
      refine ⟨?_, greatest, rfl, relaxing.isGreatest bounded sorted⟩
      intro node small
      rw [← reached node small]
      rw [List.findIdx?_eq_none_iff] at found
      have within : node < depths.length := by
        rw [sized]
        exact small
      have positive := found depths[node] (List.getElem_mem within)
      rw [List.getD_eq_getElem?_getD, List.getElem?_eq_getElem within]
      simpa using positive
  | some index =>
      right
      obtain ⟨within, zero, _⟩ :=
        List.findIdx?_eq_some_iff_getElem.mp found
      rw [sized] at within
      refine ⟨⟨index, within, ?_⟩, UInt32.ofNat index, ?_⟩
      · rw [← reached index within, not_not, List.getD_eq_getElem?_getD,
          List.getElem?_eq_getElem (by omega)]
        simpa using zero
      · simp only
        rw [functionId_of_lt (Nat.lt_trans within few)]

end Depth

/-! ## The stages together -/

section Stages

variable {functions : List UnverifiedCompilerFunction}

theorem exists_path_iff (valid : validateFunctionRecords functions = .ok ())
    {root count : Nat} :
    (∃ node, (graphOf valid).Walk root count node) ↔
      ∃ path, NestingPath functions root path ∧ path.length = count := by
  constructor
  · rintro ⟨node, walk⟩
    suffices ends : ∃ path, NestingPath functions root path ∧
        path.length = count ∧ path.getLast? = some node by
      obtain ⟨path, nesting, length, _⟩ := ends
      exact ⟨path, nesting, length⟩
    induction walk with
    | start => exact ⟨[root], ⟨rfl, List.isChain_singleton root⟩, rfl, rfl⟩
    | @step count source target _ edge induction =>
        obtain ⟨path, nesting, length, last⟩ := induction
        refine ⟨path ++ [target], ⟨?_, ?_⟩, ?_, ?_⟩
        · rw [List.head?_append, nesting.starts]
          rfl
        · rw [List.isChain_append]
          refine ⟨nesting.nests, List.isChain_singleton target, ?_⟩
          intro parent isLast child isFirst
          rw [last, Option.mem_some_iff] at isLast
          obtain rfl : target = child := by simpa using isFirst
          rw [← isLast]
          exact (edge_graphOf valid _ _).mp edge
        · rw [List.length_append, length, List.length_singleton]
        · simp
  · rintro ⟨path, nesting, rfl⟩
    suffices ends : ∀ path : List Nat, path.IsChain (Nests functions) →
        path.head? = some root → ∀ node, path.getLast? = some node →
        (graphOf valid).Walk root path.length node by
      cases last : path.getLast? with
      | none =>
          rw [List.getLast?_eq_none_iff] at last
          have starts := nesting.starts
          rw [last] at starts
          cases starts
      | some node =>
          exact ⟨node, ends path nesting.nests nesting.starts node last⟩
    intro path
    induction path using List.reverseRecOn with
    | nil =>
        intro _ starts
        cases starts
    | append_singleton path child induction =>
        intro nests starts node last
        obtain rfl : child = node := by simpa using last
        cases before : path.getLast? with
        | none =>
            rw [List.getLast?_eq_none_iff] at before
            subst before
            obtain rfl : child = root := by simpa using starts
            exact .start
        | some parent =>
            rw [List.isChain_append] at nests
            have edge := nests.2.2 parent before child rfl
            have heads : path.head? = some root := by
              cases path with
              | nil => cases before
              | cons first rest => exact starts
            rw [List.length_append, List.length_singleton]
            exact .step (induction nests.1 heads parent before)
              ((edge_graphOf valid _ _).mpr edge)

/-- The topology stages end and succeed exactly when the functions have no
cycle and are all reached from the root.  The order lists each function once,
parents before children, and the depth is that of the longest path. -/
theorem verifyTopology_correct (functions : List UnverifiedCompilerFunction)
    (root : FunctionTemplateId) (limits : FunctionGraphVerificationLimits)
    (steps : Nat) (valid : validateFunctionRecords functions = .ok ())
    (inRange : root.toNat < functions.length)
    (allowed : functions.length ≤ limits.maxFunctions.toNat)
    (deep : functions.length ≤ limits.maxNestingDepth.toNat)
    (enough : functions.length ≤ steps) :
    ∃ ordered verified,
      buildTopologicalOrder functions steps root = some ordered ∧
      verifyTopology functions steps root limits = some verified ∧
      ((∃ depth, verified = .ok depth) ↔
        (∀ function, ¬ Relation.TransGen (Nests functions) function function) ∧
        ∀ function < functions.length,
          Relation.ReflTransGen (Nests functions) root.toNat function) ∧
      (∀ order, ordered = .ok order →
        order.Perm (List.range functions.length) ∧
        ∀ parent child, Nests functions parent child →
          order.idxOf parent < order.idxOf child) ∧
      ∀ depth, verified = .ok depth →
        IsGreatest {count | ∃ path, NestingPath functions root.toNat path ∧
          path.length = count} depth := by
  have few : functions.length < 2 ^ 32 :=
    Nat.lt_of_le_of_lt allowed limits.maxFunctions.toNat_lt
  have same : (graphOf valid).Edge = Nests functions := by
    funext source target
    exact propext (edge_graphOf valid source target)
  have stages : verifyTopology functions steps root limits =
      (buildTopologicalOrder functions steps root).map fun ordered =>
        ordered >>= fun order =>
          validateNestingDepth functions root.toNat order limits := by
    have filled : functions ≠ [] := by
      rintro rfl
      exact absurd inRange (Nat.not_lt_zero _)
    have shallow : 1 ≤ limits.maxNestingDepth.toNat := by omega
    unfold verifyTopology
    simp only [if_neg filled, enforceLimit, if_pos allowed,
      if_neg (Nat.not_le.mpr inRange), if_pos shallow, valid, bind,
      Except.bind]
  rcases buildTopologicalOrder_spec valid few root enough with
    ⟨acyclic, order, built, sorted⟩ | ⟨cyclic, function, failed⟩
  · rw [built] at stages
    refine ⟨_, _, built, stages, ?_, ?_, ?_⟩
    · rcases validateNestingDepth_spec valid few deep inRange sorted with
        ⟨reached, greatest, measured, _⟩ | ⟨⟨node, small, unreached⟩, _, failed⟩
      · rw [same] at reached
        refine iff_of_true ⟨greatest, measured⟩ ⟨?_, reached⟩
        unfold Multigraph.Acyclic at acyclic
        rwa [same] at acyclic
      · rw [same] at unreached
        refine iff_of_false ?_ fun both => unreached (both.2 node small)
        rintro ⟨depth, measured⟩
        exact absurd (failed.symm.trans measured) (by simp)
    · intro other found
      cases found
      refine ⟨sorted.lists, ?_⟩
      intro parent child nests
      exact sorted.idxOf_lt ((edge_graphOf valid parent child).mpr nests)
    · intro depth verified
      rcases validateNestingDepth_spec valid few deep inRange sorted with
        ⟨_, greatest, measured, longest⟩ | ⟨_, _, failed⟩
      · have equal : greatest = depth := by
          have both := measured.symm.trans verified
          simpa using both
        rw [← equal]
        simp only [exists_path_iff valid] at longest
        exact longest
      · exact absurd (failed.symm.trans verified) (by simp)
  · rw [failed] at stages
    refine ⟨_, _, failed, stages, ?_, ?_, ?_⟩
    · refine iff_of_false ?_ fun both => cyclic ?_
      · rintro ⟨depth, verified⟩
        cases verified
      · unfold Multigraph.Acyclic
        rw [same]
        exact both.1
    · intro order found
      cases found
    · intro depth verified
      cases verified

/-- A root with two functions, one of them named twice, that share a third. -/
def sharedFunctions : List UnverifiedCompilerFunction :=
  [⟨4, [.function 1, .value, .function 2, .function 1]⟩, ⟨1, [.function 3]⟩,
    ⟨1, [.function 3]⟩, ⟨0, []⟩]

theorem verifyTopology_correct_shared :
    verifyTopology sharedFunctions 4 0 ⟨8, 8⟩ = some (.ok 3) ∧
      IsGreatest {count | ∃ path, NestingPath sharedFunctions 0 path ∧
        path.length = count} 3 := by
  have evaluated : verifyTopology sharedFunctions 4 0 ⟨8, 8⟩ =
      some (.ok 3) := by
    decide +kernel
  refine ⟨evaluated, ?_⟩
  obtain ⟨_, verified, _, result, _, _, longest⟩ :=
    verifyTopology_correct sharedFunctions 0 ⟨8, 8⟩ 4 (by decide +kernel)
      (by decide) (by decide) (by decide) (by decide)
  rw [evaluated, Option.some.injEq] at result
  exact longest 3 result.symm

end Stages

end Fusor.Verifier
