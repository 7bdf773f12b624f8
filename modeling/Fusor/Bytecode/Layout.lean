import Fusor.Bytecode.Relaxation

/-!
# The layout of a plan

Every pass that changes a width uses up one of the at most two widenings of
some branch, so relaxation ends within twice as many passes as there are
branches, and one more.  What it ends with is the least layout in which all
branches reach, or the finding that there is none, and `finish` can then
neither meet a branch that does not reach nor an instruction out of place.
-/

namespace Fusor.Bytecode

open Fusor.Support

namespace BytecodeAssembler

section Loop

variable {assembler : BytecodeAssembler}

/-- The least layout in which all branches reach, or none exists. -/
def Decided (assembler : BytecodeAssembler)
    (result : Except AssemblerError (List Nat × List Nat)) : Prop :=
  (∃ widths, result = .ok (widths, offsets widths) ∧
    assembler.Lower widths ∧ assembler.Fits widths) ∨
  (∃ index label distance,
    result = .error (.branchDisplacementOutOfRange index label distance) ∧
    ∀ other, assembler.Assignment other → ¬ assembler.Fits other)

/-- Errors other than a branch out of range and a misplaced instruction. -/
structure Ordinary (error : AssemblerError) : Prop where
  inRange : ∀ index label distance,
    error ≠ .branchDisplacementOutOfRange index label distance
  inPlace : ∀ index expected actual,
    error ≠ .layoutMismatch index expected actual

theorem chargeRelaxationPass_spec (evaluations : Nat) :
    assembler.chargeRelaxationPass evaluations =
      .ok (evaluations + assembler.items.length) ∨
    (∃ error, assembler.chargeRelaxationPass evaluations = .error error ∧
      Ordinary error ∧
      assembler.limits.maxRelaxationEvaluations.toNat <
        evaluations + assembler.items.length) := by
  simp only [chargeRelaxationPass]
  split
  · right
    split
    · exact ⟨_, rfl, ⟨by simp, by simp⟩, by omega⟩
    · exact ⟨_, rfl, ⟨by simp, by simp⟩, by omega⟩
  · exact .inl rfl

theorem relaxLoop_charge_error (some : 0 < assembler.items.length)
    {evaluations : Nat} {error : AssemblerError}
    (failed : assembler.chargeRelaxationPass evaluations = .error error)
    (widths : List Nat) :
    assembler.relaxLoop some evaluations widths = .error error := by
  rw [relaxLoop]
  split
  · rename_i other failed'
    rw [failed] at failed'
    cases failed'
    rfl
  · rename_i completed success
    rw [failed] at success
    cases success

section Run

variable (planned : assembler.TargetsPlanned)
  (few : assembler.items.length ≤ 2 ^ 32)
  (some : 0 < assembler.items.length)

include planned few

/-- One pass decides the layout or uses up a widening. -/
theorem relaxLoop_step (evaluations : Nat) {widths : List Nat}
    (lower : assembler.Lower widths)
    (charged : assembler.chargeRelaxationPass evaluations =
      .ok (evaluations + assembler.items.length)) :
    assembler.Decided (assembler.relaxLoop some evaluations widths) ∨
    (∃ widened, assembler.relaxLoop some evaluations widths =
        assembler.relaxLoop some (evaluations + assembler.items.length)
          widened ∧
      assembler.Lower widened ∧
      slack assembler.items widened < slack assembler.items widths) := by
  have sized : assembler.items.length = widths.length :=
    lower.assignment.length_eq
  have small := lower.assignment.sum_lt few
  have positions : populateInstructionPositions widths = .ok (offsets widths) :=
    populate_eq (by omega)
  have pass := relaxItems_spec planned sized small (by omega) assembler.items 0
    rfl lower.assignment
  rw [List.drop_zero] at pass
  rw [relaxLoop]
  split
  · rename_i error failed
    rw [charged] at failed
    cases failed
  rename_i completed success
  rw [charged] at success
  cases success
  simp only [positions]
  rcases pass with ⟨widened, changed, ran, pass, different⟩ |
    ⟨index, label, distance, ran, stuck⟩
  · rw [ran]
    cases changed with
    | true =>
        have wider := pass.wider
        rw [List.drop_zero] at wider
        refine .inr ⟨widened, rfl, lower.widened pass, ?_⟩
        exact (slack_mono lower.assignment pass.admitted wider).2
          (different.mp rfl).symm
    | false =>
        have same : widened = widths := by
          by_contra changed
          cases different.mpr changed
        subst same
        exact .inl (.inl ⟨widened, rfl, lower, fits_of_unchanged pass⟩)
  · rw [ran]
    refine .inl (.inr ⟨index, label, distance, rfl, ?_⟩)
    intro other assignment fits
    exact lower.not_stuck assignment fits stuck

/-- The loop decides the layout unless its budget is too small for one pass
more than there are widenings left. -/
theorem relaxLoop_spec (count evaluations : Nat) {widths : List Nat}
    (left : slack assembler.items widths ≤ count)
    (lower : assembler.Lower widths) :
    assembler.Decided (assembler.relaxLoop some evaluations widths) ∨
    (∃ error, assembler.relaxLoop some evaluations widths = .error error ∧
      Ordinary error ∧
      assembler.limits.maxRelaxationEvaluations.toNat <
        evaluations + (count + 1) * assembler.items.length) := by
  induction count generalizing evaluations widths with
  | zero =>
      rcases assembler.chargeRelaxationPass_spec evaluations with
        charged | ⟨error, failed, ordinary, exceeded⟩
      · rcases relaxLoop_step planned few some evaluations lower charged with
          decided | ⟨widened, _, _, less⟩
        · exact .inl decided
        · omega
      · refine .inr ⟨error, relaxLoop_charge_error some failed widths,
          ordinary, ?_⟩
        omega
  | succ count induction =>
      have passes : (count + 1 + 1) * assembler.items.length =
          assembler.items.length + (count + 1) * assembler.items.length := by
        rw [Nat.succ_mul (count + 1), Nat.add_comm]
      rcases assembler.chargeRelaxationPass_spec evaluations with
        charged | ⟨error, failed, ordinary, exceeded⟩
      · rcases relaxLoop_step planned few some evaluations lower charged with
          decided | ⟨widened, continues, lower, less⟩
        · exact .inl decided
        · rw [continues]
          rcases induction (evaluations + assembler.items.length)
              (by omega) lower with decided | ⟨error, failed, ordinary, exceeded⟩
          · exact .inl decided
          · exact .inr ⟨error, failed, ordinary, by omega⟩
      · refine .inr ⟨error, relaxLoop_charge_error some failed widths,
          ordinary, ?_⟩
        omega

/-- The layout of a plan is decided within its budget. -/
theorem relaxedLayout_spec :
    assembler.Decided assembler.relaxedLayout ∨
    (∃ error, assembler.relaxedLayout = .error error ∧ Ordinary error ∧
      assembler.limits.maxRelaxationEvaluations.toNat <
        (2 * assembler.items.countP isBranch + 1) *
          assembler.items.length) := by
  unfold relaxedLayout
  have lower := @lower_minimum assembler
  split
  · rename_i branches
    have nonempty : 0 < assembler.items.length := by
      obtain ⟨item, member, _⟩ := List.any_eq_true.mp branches
      exact List.length_pos_of_mem member
    have result := relaxLoop_spec planned few nonempty
      (2 * assembler.items.countP isBranch) 0 (slack_le _ _) lower
    rw [Nat.zero_add] at result
    exact result
  · rename_i branchless
    have small := lower.assignment.sum_lt few
    have positions := populate_eq (Nat.lt_trans small (by decide))
    simp only [positions]
    refine .inl (.inl ⟨_, rfl, lower, ?_⟩)
    intro position kind label target found
    refine absurd (List.any_eq_true.mpr ?_) branchless
    exact ⟨_, List.mem_of_getElem? found, rfl⟩

end Run

end Loop

/-! ## Reachable plans -/

/-- What the planning calls keep. -/
structure Planned (assembler : BytecodeAssembler) : Prop where
  inside : assembler.BindingsInside
  few : assembler.items.length ≤ 2 ^ 32
  withOpcodes : ∀ opcode atom value label,
    .withBranch opcode atom value label ∈ assembler.items →
      isWithOpcode opcode = true

theorem nextInstructionIndex_ok {assembler : BytecodeAssembler} {index : Nat}
    (success : assembler.nextInstructionIndex = .ok index) :
    assembler.items.length < 2 ^ 32 := by
  simp only [nextInstructionIndex] at success
  split at success
  · cases success
  · omega

/-- A call plans nothing, or one item for which there is room. -/
theorem call_items (assembler : BytecodeAssembler) (request : Call) :
    (assembler.call request).items = assembler.items ∨
    (∃ item, (assembler.call request).items = assembler.items ++ [item] ∧
      assembler.items.length < 2 ^ 32 ∧
      ∀ opcode atom value label,
        item = .withBranch opcode atom value label →
          isWithOpcode opcode = true) := by
  cases request with
  | newLabel =>
      simp only [call, newLabel]
      split <;> exact .inl rfl
  | bind label =>
      simp only [call, bind]
      split <;> exact .inl rfl
  | push opcode operands =>
      simp only [call, push]
      cases room : assembler.nextInstructionIndex with
      | error error => exact .inl rfl
      | ok index =>
          simp only
          cases newInstruction index opcode operands with
          | error error => exact .inl rfl
          | ok made =>
              simp only
              by_cases symbolic : containsSymbolicLabel
                  made.opcode.metadata.operandFormat = true
              · rw [if_pos symbolic]
                exact .inl rfl
              · rw [if_neg symbolic]
                refine .inr ⟨.instruction made, rfl,
                  nextInstructionIndex_ok room, ?_⟩
                intro opcode' atom value label equal
                cases equal
  | branch kind target =>
      simp only [call, branch]
      cases assembler.resolveLabel target with
      | error error => exact .inl rfl
      | ok binding =>
          cases room : assembler.nextInstructionIndex with
          | error error => exact .inl rfl
          | ok index =>
              refine .inr ⟨.branch kind target.index, rfl,
                nextInstructionIndex_ok room, ?_⟩
              intro opcode atom value label equal
              cases equal
  | withBranch opcode atom value target =>
      simp only [call, withBranch]
      cases assembler.resolveLabel target with
      | error error => exact .inl rfl
      | ok binding =>
          cases room : assembler.nextInstructionIndex with
          | error error => exact .inl rfl
          | ok index =>
              simp only
              by_cases allowed : isWithOpcode opcode = true
              · rw [if_pos allowed]
                cases newInstruction index opcode (.atomLabelU8 atom 0 value) with
                | error error => exact .inl rfl
                | ok made =>
                    refine .inr ⟨_, rfl, nextInstructionIndex_ok room, ?_⟩
                    intro opcode' atom' value' label' equal
                    cases equal
                    exact allowed
              · rw [if_neg allowed]
                exact .inl rfl

theorem Planned.call {assembler : BytecodeAssembler}
    (planned : assembler.Planned) (request : Call) :
    (assembler.call request).Planned := by
  have inside := bindingsInside_call planned.inside request
  rcases assembler.call_items request with same | ⟨item, added, room, opcodes⟩
  · exact ⟨inside, same ▸ planned.few, same ▸ planned.withOpcodes⟩
  · refine ⟨inside, ?_, ?_⟩
    · rw [added, List.length_append, List.length_singleton]
      omega
    · intro opcode atom value label member
      rw [added, List.mem_append, List.mem_singleton] at member
      rcases member with member | equal
      · exact planned.withOpcodes opcode atom value label member
      · exact opcodes opcode atom value label equal.symm

theorem planned_calls (identity : Nat) (limits : AssemblerLimits)
    (sequence : List Call) :
    ((withLimits identity limits).calls sequence).Planned := by
  have start : (withLimits identity limits).Planned := {
    inside := bindingsInside_withLimits identity limits
    few := Nat.zero_le _
    withOpcodes := by
      intro opcode atom value label member
      exact absurd member List.not_mem_nil }
  generalize withLimits identity limits = assembler at start
  induction sequence generalizing assembler with
  | nil => exact start
  | cons request rest induction => exact induction _ (start.call request)

/-! ## Threaded plans -/

theorem threadItem_withBranch {states : List BranchTargetState}
    {item : AssemblyItem} {opcode : FinalOpcode} {atom : UInt32}
    {value : UInt8} {label : Nat}
    (threaded : threadItem states item = .withBranch opcode atom value label) :
    item = .withBranch opcode atom value label := by
  cases item with
  | instruction planned => cases threaded
  | branch kind label =>
      simp only [threadItem] at threaded
      split at threaded
      all_goals first | (split at threaded <;> cases threaded) | cases threaded
  | withBranch opcode' atom' value' label' => exact threaded

/-- Redirected branches have planned targets. -/
theorem targetsPlanned_thread {assembler threaded : BytecodeAssembler}
    (planned : assembler.TargetsPlanned)
    (success : assembler.threadRedundantGotoTargets = .ok threaded) :
    threaded.TargetsPlanned ∧
      ∃ states, threaded =
        { assembler with items := assembler.items.map (threadItem states) } := by
  simp only [threadRedundantGotoTargets, bind_eq_ok_iff,
    pure_eq_ok_iff] at success
  obtain ⟨states, resolved, rfl⟩ := success
  refine ⟨?_, states, rfl⟩
  have closed : ∀ label target,
      assembler.labelGotoTarget label = some target →
        target < assembler.labelBindings.length := by
    intro label target follows
    obtain ⟨_, bound, _⟩ := labelGotoTarget_planned planned follows
    exact (List.getElem?_eq_some_iff.mp (Option.join_eq_some_iff.mp bound)).1
  have invariant := branchTargetStates_spec closed resolved
  intro item member label refers
  simp only [List.mem_map] at member
  obtain ⟨original, member, rfl⟩ := member
  simp only [List.length_map]
  cases original with
  | instruction instruction => cases refers
  | branch kind label' =>
      obtain ⟨position, bound, within⟩ := planned _ member label' rfl
      obtain ⟨label'', target, threaded, bound', within', _⟩ :=
        @threadItem_branch assembler states kind label' position planned
          invariant bound within
      rw [threaded] at refers
      cases refers
      exact ⟨target, bound', within'⟩
  | withBranch opcode atom value label' => exact planned _ member label refers

/-! ## Emission -/

theorem newInstruction_branch (index : Nat) {opcode : FinalOpcode}
    {operands : Operands} (real : opcode ≠ .invalid)
    (format : operands.format = opcode.metadata.operandFormat) :
    ∃ instruction, newInstruction index opcode operands = .ok instruction ∧
      instruction.encodedSize = opcode.metadata.instructionSize := by
  simp only [newInstruction, Instruction.new, dif_neg real, dif_pos format]
  exact ⟨_, rfl, rfl⟩

/-- A branch whose displacement fits its width is encoded in that width. -/
theorem branchInstruction_fits {kind : BranchKind} {width : Nat}
    {distance : Int} (index label : Nat)
    (supported : kind.supportsWidth width = true)
    (fits : fitsWidth width distance = true) :
    ∃ instruction, branchInstruction kind width distance index label =
        .ok instruction ∧ instruction.encodedSize = width := by
  rcases width_cases supported with rfl | rfl | rfl
  all_goals
    simp only [fitsWidth, Bool.and_eq_true, decide_eq_true_eq] at fits
    cases kind <;> first
      | (simp only [branchInstruction, branchOperands, if_pos fits]
         exact newInstruction_branch index (by decide) rfl)
      | cases supported

section Emission

variable {assembler : BytecodeAssembler} {widths : List Nat}
  (planned : assembler.TargetsPlanned)
  (few : assembler.items.length ≤ 2 ^ 32)
  (assignment : assembler.Assignment widths)

include planned few assignment in
/-- A branch that reaches is encoded in its width. -/
theorem itemInstruction_branch (fits : assembler.Fits widths) {position : Nat}
    {kind : BranchKind} {label : Nat}
    (found : assembler.items[position]? = some (.branch kind label)) :
    ∃ instruction,
      assembler.itemInstruction widths (offsets widths) position
        (.branch kind label) = .ok instruction ∧
      instruction.encodedSize = widths.getD position 0 := by
  obtain ⟨target, bound, within⟩ :=
    planned _ (List.mem_of_getElem? found) label rfl
  have small := assignment.sum_lt few
  have sized := assignment.length_eq
  have inside := (List.getElem?_eq_some_iff.mp found).1
  have first := offset_lt small position
  have second := offset_lt small target
  have reached := fits position kind label target found bound
  have measured : signedDisplacement ((offsets widths).getD position 0)
      ((offsets widths).getD target 0) =
        .ok (displacement widths position target) := by
    rw [getD_offsets (by omega), getD_offsets (by omega)]
    simp only [signedDisplacement]
    rw [if_neg (by omega), if_pos (by omega)]
    rfl
  obtain ⟨instruction, encoded, size⟩ := branchInstruction_fits position label
    (assignment.admits found) reached
  refine ⟨instruction, ?_, size⟩
  simp only [itemInstruction, targetPosition_ok_iff.mpr bound, Bind.bind,
    Except.bind, measured]
  exact encoded

theorem isWithOpcode_size {opcode : FinalOpcode}
    (allowed : isWithOpcode opcode = true) :
    opcode.metadata.instructionSize = 10 := by
  unfold isWithOpcode at allowed
  split at allowed
  all_goals first | rfl | cases allowed

include planned few assignment in
/-- Every item is encoded in its width, if at all. -/
theorem itemInstruction_size (fits : assembler.Fits widths)
    (withOpcodes : ∀ opcode atom value label,
      .withBranch opcode atom value label ∈ assembler.items →
        isWithOpcode opcode = true)
    {position : Nat} {item : AssemblyItem} {instruction : Instruction}
    (found : assembler.items[position]? = some item)
    (made : assembler.itemInstruction widths (offsets widths) position item =
      .ok instruction) :
    instruction.encodedSize = widths.getD position 0 := by
  have admitted := assignment.admits found
  cases item with
  | instruction planned =>
      cases made
      exact admitted.symm
  | branch kind label =>
      obtain ⟨other, encoded, size⟩ :=
        itemInstruction_branch planned few assignment fits found
      rw [encoded] at made
      cases made
      exact size
  | withBranch opcode atom value label =>
      simp only [itemInstruction, bind_eq_ok_iff] at made
      obtain ⟨target, _, distance, _, made⟩ := made
      rw [Instruction.encodedSize, (newInstruction_ok made).1, isWithOpcode_size
        (withOpcodes opcode atom value label (List.mem_of_getElem? found))]
      exact admitted.symm

theorem targetPosition_error {label : Nat} {error : AssemblerError}
    (failed : assembler.targetPosition label = .error error) :
    Ordinary error := by
  simp only [targetPosition] at failed
  split at failed
  · cases failed
  · cases failed
    exact ⟨by simp, by simp⟩

/-- The errors of a `with` branch. -/
theorem itemInstruction_withBranch_error {positions : List Nat}
    {position : Nat} {opcode : FinalOpcode} {atom : UInt32} {value : UInt8}
    {label : Nat} {error : AssemblerError}
    (failed : assembler.itemInstruction widths positions position
      (.withBranch opcode atom value label) = .error error) :
    Ordinary error ∨
      ∃ distance, error = .branchDisplacementOutOfRange position label
        distance := by
  simp only [itemInstruction, bind_eq_error_iff] at failed
  rcases failed with failed | ⟨target, _, failed | ⟨distance, _, failed⟩⟩
  · exact .inl (targetPosition_error failed)
  · simp only [withBranchDisplacement] at failed
    split at failed
    · cases failed
      exact .inl ⟨by simp, by simp⟩
    · split at failed
      · cases failed
      · cases failed
        exact .inr ⟨_, rfl⟩
  · simp only [newInstruction] at failed
    split at failed
    · cases failed
    · cases failed
      exact .inl ⟨by simp, by simp⟩

include planned few assignment in
/-- Emission places every instruction where the layout has it, and fails on a
displacement only at a `with` branch. -/
theorem emitItems_error (fits : assembler.Fits widths)
    (withOpcodes : ∀ opcode atom value label,
      .withBranch opcode atom value label ∈ assembler.items →
        isWithOpcode opcode = true)
    {encodedBytes position : Nat} {items : List AssemblyItem}
    {builder : BytecodeBuilder} {error : AssemblerError}
    (rest : assembler.items.drop position = items)
    (placed : builder.nextPc.toNat = offset widths position)
    (failed : assembler.emitItems widths (offsets widths) encodedBytes position
      items builder = .error error) :
    Ordinary error ∨
      ∃ (index : Nat) (opcode : FinalOpcode) (atom : UInt32) (value : UInt8)
        (label : Nat) (distance : Int),
        assembler.items[index]? = some (.withBranch opcode atom value label) ∧
        error = .branchDisplacementOutOfRange index label distance := by
  induction items generalizing position builder with
  | nil => cases failed
  | cons item items induction =>
      have inside : position < assembler.items.length := by
        have length := congrArg List.length rest
        simp only [List.length_drop, List.length_cons] at length
        omega
      have sized := assignment.length_eq
      rw [List.drop_eq_getElem_cons inside, List.cons.injEq] at rest
      obtain ⟨here, after⟩ := rest
      have found : assembler.items[position]? = some item := by
        rw [List.getElem?_eq_getElem inside, here]
      rw [emitItems] at failed
      simp only [getD_offsets (Nat.le_of_lt (sized ▸ inside))] at failed
      split at failed
      · cases failed
        exact .inl ⟨by simp, by simp⟩
      split at failed
      · cases failed
        exact .inl ⟨by simp, by simp⟩
      cases made : assembler.itemInstruction widths (offsets widths) position
          item with
      | error problem =>
          rw [made] at failed
          cases failed
          cases item with
          | instruction planned => cases made
          | branch kind label =>
              obtain ⟨other, encoded, _⟩ :=
                itemInstruction_branch planned few assignment fits found
              rw [encoded] at made
              cases made
          | withBranch opcode atom value label =>
              rcases itemInstruction_withBranch_error made with
                ordinary | ⟨distance, rfl⟩
              · exact .inl ordinary
              · exact .inr ⟨position, opcode, atom, value, label, distance,
                  found, rfl⟩
      | ok instruction =>
          rw [made] at failed
          have size := itemInstruction_size planned few assignment fits
            withOpcodes found made
          simp only at failed
          cases pushed : builder.pushInstruction true instruction with
          | mk outcome next =>
              rw [pushed] at failed
              cases outcome with
              | error problem =>
                  cases failed
                  exact .inl ⟨by simp, by simp⟩
              | ok actual =>
                  obtain ⟨_, start, _, nextPc, _⟩ :=
                    BytecodeBuilder.pushInstruction_ok_iff.mp pushed
                  have same : actual =
                      UInt32.ofNat (offset widths position) := by
                    rw [start, ← placed, UInt32.ofNat_toNat]
                  simp only [same, ne_eq, not_true_eq_false, if_false] at failed
                  rw [bind_eq_error_iff] at failed
                  rcases failed with failed | ⟨_, _, failed⟩
                  · refine induction after ?_ failed
                    rw [nextPc, placed, size]
                    exact (offset_succ (sized ▸ inside)).symm
                  · cases failed

end Emission

/-! ## The main theorem -/

theorem validateBoundLabels_error {assembler : BytecodeAssembler}
    {error : AssemblerError}
    (failed : assembler.validateBoundLabels = .error error) :
    Ordinary error := by
  simp only [validateBoundLabels] at failed
  split at failed
  · split at failed <;> cases failed <;> exact ⟨by simp, by simp⟩
  · obtain ⟨item, _, refused⟩ := forM_eq_error failed
    split at refused
    · cases refused
    · rw [bind_eq_error_iff] at refused
      rcases refused with failed | ⟨target, _, failed⟩
      · exact targetPosition_error failed
      · split at failed
        · cases failed
          exact ⟨by simp, by simp⟩
        · cases failed

theorem resolvePath_error {assembler : BytecodeAssembler}
    {states : List BranchTargetState} {path : List Nat} {current : Nat}
    {error : AssemblerError}
    (failed : assembler.resolvePath states path current = .error error) :
    Ordinary error := by
  fun_induction resolvePath assembler states path current with
  | case1 => cases failed
  | case2 => cases failed
  | case3 =>
      cases failed
      exact ⟨by simp, by simp⟩
  | case4 states path current unknown next follows induction =>
      exact induction failed
  | case5 => cases failed
  | case6 => cases failed
  | case7 => cases failed

theorem threadRedundantGotoTargets_error {assembler : BytecodeAssembler}
    {error : AssemblerError}
    (failed : assembler.threadRedundantGotoTargets = .error error) :
    Ordinary error := by
  simp only [threadRedundantGotoTargets, bind_eq_error_iff] at failed
  rcases failed with failed | ⟨states, _, failed⟩
  · obtain ⟨states, start, refused⟩ := foldlM_eq_error failed
    split at refused
    · exact resolvePath_error refused
    · cases refused
  · cases failed

/-- Relaxation of a plan ends, and with the least layout in which all branches
reach. -/
structure LayoutLeast (assembler : BytecodeAssembler) : Prop where
  ends : (2 * assembler.items.countP isBranch + 1) * assembler.items.length ≤
      assembler.limits.maxRelaxationEvaluations.toNat →
    (∃ layout, assembler.relaxedLayout = .ok layout) ∨
    (∃ index label distance, assembler.relaxedLayout =
      .error (.branchDisplacementOutOfRange index label distance))
  fits : ∀ widths positions,
    assembler.relaxedLayout = .ok (widths, positions) →
      positions = offsets widths ∧ assembler.Assignment widths ∧
        assembler.Fits widths ∧
        ∀ other, assembler.Assignment other → assembler.Fits other →
          NoWider widths other
  fails : ∀ index label distance,
    assembler.relaxedLayout =
        .error (.branchDisplacementOutOfRange index label distance) →
      ∀ other, assembler.Assignment other → ¬ assembler.Fits other

theorem layoutLeast {assembler : BytecodeAssembler}
    (planned : assembler.TargetsPlanned)
    (few : assembler.items.length ≤ 2 ^ 32) : assembler.LayoutLeast := by
  rcases relaxedLayout_spec planned few with
    (⟨widths, found, lower, fits⟩ | ⟨index, label, distance, found, none⟩) |
    ⟨error, found, ordinary, exceeded⟩
  · refine ⟨fun _ => .inl ⟨_, found⟩, ?_, ?_⟩
    · intro widths' positions' success
      rw [found] at success
      cases success
      exact ⟨rfl, lower.assignment, fits, lower.least⟩
    · intro index label distance failed
      rw [found] at failed
      cases failed
  · refine ⟨fun _ => .inr ⟨_, _, _, found⟩, ?_, ?_⟩
    · intro widths positions success
      rw [found] at success
      cases success
    · intro _ _ _ _
      exact none
  · refine ⟨fun enough => absurd exceeded (Nat.not_lt.mpr enough), ?_, ?_⟩
    · intro widths positions success
      rw [found] at success
      cases success
    · intro index label distance failed
      rw [found] at failed
      cases failed
      exact absurd rfl (ordinary.inRange _ _ _)

/-- What the layout of a plan promises `finish`: no instruction is out of
place, every branch is encoded, and a displacement is out of range only when
no layout exists or at a `with` branch. -/
structure FinishReaches (assembler : BytecodeAssembler) : Prop where
  least : ∀ threaded,
    assembler.threadRedundantGotoTargets = .ok threaded → threaded.LayoutLeast
  inPlace : ∀ index expected actual,
    assembler.finish ≠ .error (.layoutMismatch index expected actual)
  encoded : ∀ threaded widths positions (position : Nat) kind label,
    assembler.threadRedundantGotoTargets = .ok threaded →
    threaded.relaxedLayout = .ok (widths, positions) →
    threaded.items[position]? = some (.branch kind label) →
      ∃ instruction, threaded.itemInstruction widths positions position
        (.branch kind label) = .ok instruction
  outOfRange : ∀ index label distance,
    assembler.finish =
        .error (.branchDisplacementOutOfRange index label distance) →
      (∃ threaded, assembler.threadRedundantGotoTargets = .ok threaded ∧
        threaded.relaxedLayout =
          .error (.branchDisplacementOutOfRange index label distance)) ∨
      ∃ opcode atom value,
        assembler.items[index]? = some (.withBranch opcode atom value label)

section Finish

variable {assembler : BytecodeAssembler} (kept : assembler.Planned)
  (targets : assembler.TargetsPlanned)

include kept targets in
/-- What is known of the plan that is laid out. -/
theorem threaded_spec {threaded : BytecodeAssembler}
    (success : assembler.threadRedundantGotoTargets = .ok threaded) :
    threaded.TargetsPlanned ∧ threaded.items.length ≤ 2 ^ 32 ∧
      (∀ (index : Nat) opcode atom value label,
        threaded.items[index]? = some (.withBranch opcode atom value label) →
          assembler.items[index]? =
            some (.withBranch opcode atom value label)) := by
  obtain ⟨planned, states, rfl⟩ := targetsPlanned_thread targets success
  refine ⟨planned, by simpa using kept.few, ?_⟩
  intro index opcode atom value label found
  simp only [List.getElem?_map, Option.map_eq_some_iff] at found
  obtain ⟨item, found, same⟩ := found
  rw [found, threadItem_withBranch same]

include kept in
theorem finish_error {error : AssemblerError}
    (failed : assembler.finish = .error error) :
    Ordinary error ∨
    (∃ threaded, assembler.threadRedundantGotoTargets = .ok threaded ∧
      threaded.relaxedLayout = .error error ∧
      ∃ index label distance,
        error = .branchDisplacementOutOfRange index label distance) ∨
    (∃ (index : Nat) (opcode : FinalOpcode) (atom : UInt32) (value : UInt8)
      (label : Nat) (distance : Int),
      assembler.items[index]? = some (.withBranch opcode atom value label) ∧
      error = .branchDisplacementOutOfRange index label distance) := by
  rw [finish, bind_eq_error_iff] at failed
  rcases failed with failed | ⟨_, valid, failed⟩
  · exact .inl (validateBoundLabels_error failed)
  have targets := targetsPlanned_of_validate kept.inside valid
  rw [bind_eq_error_iff] at failed
  rcases failed with failed | ⟨threaded, threads, failed⟩
  · exact .inl (threadRedundantGotoTargets_error failed)
  obtain ⟨planned, few, same⟩ := threaded_spec kept targets threads
  rw [bind_eq_error_iff] at failed
  rcases relaxedLayout_spec planned few with
    (⟨widths, found, lower, fits⟩ | ⟨index, label, distance, found, none⟩) |
    ⟨problem, found, ordinary, _⟩
  · rcases failed with failed | ⟨layout, success, failed⟩
    · rw [found] at failed
      cases failed
    · rw [found] at success
      cases success
      simp only at failed
      split at failed
      · cases failed
        exact .inl ⟨by simp, by simp⟩
      split at failed
      · cases failed
        exact .inl ⟨by simp, by simp⟩
      rw [bind_eq_error_iff] at failed
      rcases failed with failed | ⟨_, _, failed⟩
      · have withOpcodes : ∀ opcode atom value label,
            .withBranch opcode atom value label ∈ threaded.items →
              isWithOpcode opcode = true := by
          intro opcode atom value label member
          obtain ⟨index, found⟩ := List.mem_iff_getElem?.mp member
          exact kept.withOpcodes opcode atom value label
            (List.mem_of_getElem? (same _ _ _ _ _ found))
        rcases emitItems_error planned few lower.assignment fits withOpcodes
            (List.drop_zero) rfl failed with
          ordinary | ⟨index, opcode, atom, value, label, distance, found, rfl⟩
        · exact .inl ordinary
        · exact .inr (.inr ⟨index, opcode, atom, value, label, distance,
            same _ _ _ _ _ found, rfl⟩)
      · cases failed
  · rcases failed with failed | ⟨layout, success, failed⟩
    · rw [found] at failed
      cases failed
      exact .inr (.inl ⟨threaded, threads, found, index, label, distance, rfl⟩)
    · rw [found] at success
      cases success
  · rcases failed with failed | ⟨layout, success, failed⟩
    · rw [found] at failed
      cases failed
      exact .inl ordinary
    · rw [found] at success
      cases success

include kept targets in
theorem finishReaches : assembler.FinishReaches := by
  refine ⟨?_, ?_, ?_, ?_⟩
  · intro threaded threads
    obtain ⟨planned, few, _⟩ := threaded_spec kept targets threads
    exact layoutLeast planned few
  · intro index expected actual failed
    rcases finish_error kept failed with
      ordinary | ⟨_, _, _, _, _, _, other⟩ | ⟨_, _, _, _, _, _, _, other⟩
    · exact absurd rfl (ordinary.inPlace index expected actual)
    · cases other
    · cases other
  · intro threaded widths positions position kind label threads laidOut found
    obtain ⟨planned, few, _⟩ := threaded_spec kept targets threads
    obtain ⟨rfl, assignment, fits, _⟩ :=
      (layoutLeast planned few).fits widths positions laidOut
    obtain ⟨instruction, made, _⟩ :=
      itemInstruction_branch planned few assignment fits found
    exact ⟨instruction, made⟩
  · intro index label distance failed
    rcases finish_error kept failed with ordinary |
      ⟨threaded, threads, laidOut, _⟩ |
      ⟨_, opcode, atom, value, _, _, found, same⟩
    · exact absurd rfl (ordinary.inRange index label distance)
    · exact .inl ⟨threaded, threads, laidOut⟩
    · cases same
      exact .inr ⟨opcode, atom, value, found⟩

end Finish

/-- Branch relaxation, for every plan that passes the check of its labels. -/
theorem relaxation_least (identity : Nat) (limits : AssemblerLimits)
    (sequence : List Call)
    (valid : ((withLimits identity limits).calls
      sequence).validateBoundLabels = .ok ()) :
    ((withLimits identity limits).calls sequence).LayoutLeast ∧
      ((withLimits identity limits).calls sequence).FinishReaches := by
  have kept := planned_calls identity limits sequence
  have targets := targetsPlanned_of_validate kept.inside valid
  exact ⟨layoutLeast targets kept.few, finishReaches kept targets⟩

private def loopPlan : List Call :=
  [.newLabel, .newLabel, .bind ⟨0, 0⟩, .push .pushTrue .none,
    .branch .ifFalse ⟨0, 1⟩, .branch .goto ⟨0, 0⟩, .bind ⟨0, 1⟩,
    .push .returnUndef .none]

/-- A loop: the layout with all branches short is found in one pass. -/
theorem relaxation_least_loop :
    ((withLimits 0 ⟨100, 100, 20⟩).calls loopPlan).relaxedLayout =
        .ok ([1, 2, 2, 1], [0, 1, 3, 5, 6]) ∧
      ((withLimits 0 ⟨100, 100, 20⟩).calls loopPlan).LayoutLeast ∧
      ((withLimits 0 ⟨100, 100, 20⟩).calls loopPlan).FinishReaches :=
  ⟨by decide +kernel,
    relaxation_least 0 ⟨100, 100, 20⟩ loopPlan (by decide +kernel)⟩

end BytecodeAssembler

end Fusor.Bytecode
