import Fusor.Verifier.Stack

/-!
# Soundness and exactness of the ordinary-stack verifier

The abstract stack machine follows recorded edges from instruction zero with
an empty stack.  An accepted body gives every instruction that machine can
reach exactly one entry depth, and no depth to any other instruction.
-/

namespace Fusor.Verifier

open Fusor.Bytecode Fusor.Support

/-! ## The abstract stack machine -/

/-- Extra slots on the taken edge of a branch. -/
def takenExtra : FinalOpcode → Nat
  | .gosub => 1
  | .withGetVar | .withDeleteVar => 1
  | .withMakeRef | .withGetRef => 2
  | _ => 0

/-- A recorded edge with the slots it carries beyond the stack effect. -/
inductive Edge (instruction : VerifiedInstruction) : Nat → Nat → Prop where
  | fallthrough {successor : Nat} :
      instruction.successors = .fallthrough successor →
      Edge instruction successor 0
  | jump {successor : Nat} :
      instruction.successors = .jump successor → Edge instruction successor 0
  | taken {taken notTaken : Nat} :
      instruction.successors = .branch taken notTaken →
      Edge instruction taken
        (takenExtra instruction.decoded.instruction.opcode)
  | notTaken {taken notTaken : Nat} :
      instruction.successors = .branch taken notTaken →
      Edge instruction notTaken 0

/-- One step of the machine from an instruction and a depth. -/
inductive StackStep (instructions : List VerifiedInstruction) :
    Nat × Nat → Nat × Nat → Prop where
  | step {index depth target extra : Nat} {instruction : VerifiedInstruction}
      {effect : StackEffect} :
      instructions[index]? = some instruction →
      instruction.decoded.instruction.stackEffect = .ok effect →
      effect.pops ≤ depth →
      Edge instruction target extra →
      StackStep instructions (index, depth)
        (target, depth - effect.pops + effect.pushes + extra)

/-- The machine arrives at an instruction with a depth on some finite run. -/
def Arrives (instructions : List VerifiedInstruction) (index depth : Nat) :
    Prop :=
  Relation.ReflTransGen (StackStep instructions) (0, 0) (index, depth)

/-! ## Entry depths -/

/-- The entry depth recorded so far. -/
def StackState.depthAt (state : StackState) (index : Nat) : Option Nat :=
  state.instructions[index]?.bind (·.entryStackDepth)

/-- Instructions up to their entry depths. -/
def SameCode (left right : List VerifiedInstruction) : Prop :=
  left.map (fun instruction => (instruction.decoded, instruction.successors)) =
    right.map (fun instruction =>
      (instruction.decoded, instruction.successors))

theorem SameCode.getElem? {left right : List VerifiedInstruction}
    (same : SameCode left right) {index : Nat}
    {instruction : VerifiedInstruction}
    (found : left[index]? = some instruction) :
    ∃ other, right[index]? = some other ∧
      other.decoded = instruction.decoded ∧
      other.successors = instruction.successors := by
  have mapped := congrArg (·[index]?) same
  simp only [List.getElem?_map, found, Option.map_some] at mapped
  obtain ⟨other, present, equality⟩ := Option.map_eq_some_iff.mp mapped.symm
  rw [Prod.mk.injEq] at equality
  exact ⟨other, present, equality.1, equality.2⟩

theorem Edge.congr {left right : VerifiedInstruction} {target extra : Nat}
    (decoded : right.decoded = left.decoded)
    (successors : right.successors = left.successors)
    (edge : Edge left target extra) : Edge right target extra := by
  cases edge with
  | fallthrough recorded => exact .fallthrough (successors.trans recorded)
  | jump recorded => exact .jump (successors.trans recorded)
  | taken recorded =>
      rw [← decoded]
      exact .taken (successors.trans recorded)
  | notTaken recorded => exact .notTaken (successors.trans recorded)

theorem StackStep.congr {left right : List VerifiedInstruction}
    (same : SameCode left right) {source target : Nat × Nat}
    (step : StackStep left source target) : StackStep right source target := by
  obtain ⟨found, effect, enough, edge⟩ := step
  obtain ⟨other, present, decoded, successors⟩ := same.getElem? found
  rw [← decoded] at effect
  exact .step present effect enough (edge.congr decoded successors)

theorem Arrives.congr {left right : List VerifiedInstruction}
    (same : SameCode left right) {index depth : Nat}
    (arrives : Arrives left index depth) : Arrives right index depth :=
  Relation.ReflTransGen.mono (fun _ _ => StackStep.congr same) _ _ arrives

/-- A state that records some more arrivals than an earlier one. -/
structure Extends (arrivals : List (Nat × Nat))
    (before after : StackState) : Prop where
  same : SameCode after.instructions before.instructions
  kept : ∀ index depth, before.depthAt index = some depth →
    after.depthAt index = some depth
  recorded : ∀ index depth, (index, depth) ∈ arrivals →
    after.depthAt index = some depth
  only : ∀ index depth, after.depthAt index = some depth →
    before.depthAt index = some depth ∨
      (index, depth) ∈ arrivals ∧ index ∈ after.worklist
  queue : ∀ index, index ∈ before.worklist → index ∈ after.worklist
  computedMax : after.computedMax = before.computedMax

theorem Extends.refl (state : StackState) : Extends [] state state :=
  ⟨rfl, fun _ _ found => found, by simp, fun _ _ found => .inl found,
    fun _ member => member, rfl⟩

theorem Extends.trans {first second : List (Nat × Nat)}
    {before middle after : StackState}
    (left : Extends first before middle)
    (right : Extends second middle after) :
    Extends (first ++ second) before after := by
  refine ⟨right.same.trans left.same, ?_, ?_, ?_, ?_,
    right.computedMax.trans left.computedMax⟩
  · intro index depth found
    exact right.kept index depth (left.kept index depth found)
  · intro index depth member
    rcases List.mem_append.mp member with earlier | later
    · exact right.kept index depth (left.recorded index depth earlier)
    · exact right.recorded index depth later
  · intro index depth found
    rcases right.only index depth found with earlier | ⟨later, queued⟩
    · rcases left.only index depth earlier with known | ⟨member, queued⟩
      · exact .inl known
      · exact .inr ⟨List.mem_append_left _ member, right.queue index queued⟩
    · exact .inr ⟨List.mem_append_right _ later, queued⟩
  · intro index member
    exact right.queue index (left.queue index member)

private theorem sameCode_set {instructions : List VerifiedInstruction}
    {target : Nat} {instruction : VerifiedInstruction} {depth : Option Nat}
    (found : instructions[target]? = some instruction) :
    SameCode (instructions.set target
      { instruction with entryStackDepth := depth }) instructions := by
  unfold SameCode
  rw [List.map_set]
  apply List.ext_getElem?
  intro index
  rw [List.getElem?_set]
  split
  · rename_i equality
    subst equality
    obtain ⟨bound, element⟩ := List.getElem?_eq_some_iff.mp found
    simp [bound, element]
  · rfl

/-- An exact join records the incoming depth at the target. -/
theorem propagateStackDepth_extends {state after : StackState}
    {target incomingDepth : Nat} {source : DecodedInstruction}
    (success : propagateStackDepth state target incomingDepth source false =
      .ok after) :
    Extends [(target, incomingDepth)] state after := by
  unfold propagateStackDepth at success
  split at success
  · cases success
  · rename_i targetInstruction found
    have bound := (List.getElem?_eq_some_iff.mp found).1
    split at success
    · rename_i unset
      cases success
      have absent : state.depthAt target = none := by
        simp [StackState.depthAt, found, unset]
      refine ⟨sameCode_set found, ?_, ?_, ?_, ?_, rfl⟩
      · intro index depth known
        have different : target ≠ index := by
          rintro rfl
          rw [absent] at known
          cases known
        simpa [StackState.depthAt, List.getElem?_set_ne different] using known
      · intro index depth member
        rw [List.mem_singleton, Prod.mk.injEq] at member
        obtain ⟨rfl, rfl⟩ := member
        simp [StackState.depthAt, bound]
      · intro index depth known
        by_cases same : target = index
        · subst same
          simp only [StackState.depthAt, List.getElem?_set_self bound,
            Option.bind_some, Option.some.injEq] at known
          exact .inr (by simp [known])
        · left
          simpa [StackState.depthAt, List.getElem?_set_ne same] using known
      · intro index member
        exact List.mem_append_left _ member
    · rename_i establishedDepth established
      split at success
      · rename_i agrees
        cases success
        refine ⟨rfl, fun _ _ known => known, ?_, fun _ _ known => .inl known,
          fun _ member => member, rfl⟩
        intro index depth member
        rw [List.mem_singleton, Prod.mk.injEq] at member
        obtain ⟨rfl, rfl⟩ := member
        simp [StackState.depthAt, found, established, agrees]
      · simp at success

/-! ## One evaluation -/

private theorem checkStackDepth_ok {limits : VerificationLimits}
    {decoded : DecodedInstruction} {depth checked : Nat}
    (success : checkStackDepth limits decoded depth = .ok checked) :
    checked = depth := by
  unfold checkStackDepth at success
  split at success
  · cases success
  · cases success
    rfl

private theorem checkEdgeDepth_ok {limits : VerificationLimits}
    {decoded : DecodedInstruction} {present : Bool} {depth : Nat}
    {checked : Option Nat}
    (success : checkEdgeDepth limits decoded present depth = .ok checked) :
    checked = if present then some depth else none := by
  unfold checkEdgeDepth at success
  split at success
  · rename_i holds
    split at success
    · rename_i found
      cases success
      rw [if_pos holds, checkStackDepth_ok found]
    · cases success
  · rename_i fails
    cases success
    rw [if_neg fails]

private theorem takenExtra_eq (opcode : FinalOpcode) :
    takenExtra opcode =
      if opcode = .gosub then 1 else withBranchValues opcode := by
  cases opcode <;> rfl

/-- The taken edge adds the slots of its opcode to the output depth. -/
theorem transferDepths_ok {limits : VerificationLimits}
    {decoded : DecodedInstruction} {entryDepth : Nat} {depths : TransferDepths}
    (success : transferDepths limits decoded entryDepth = .ok depths) :
    ∃ effect, decoded.instruction.stackEffect = .ok effect ∧
      effect.pops ≤ entryDepth ∧
      depths.outputDepth = entryDepth - effect.pops + effect.pushes ∧
      depths.takenDepth =
        depths.outputDepth + takenExtra decoded.instruction.opcode ∧
      depths.takenDepth ≤ depths.maximum := by
  unfold transferDepths at success
  split at success
  · cases success
  · rename_i effect known
    split at success
    · cases success
    · rename_i enough
      simp only [bind_eq_ok_iff, pure_eq_ok_iff] at success
      obtain ⟨outputDepth, output, subroutine, called, binding, bound, rfl⟩ :=
        success
      have outputSame := checkStackDepth_ok output
      have subroutineSame := checkEdgeDepth_ok called
      have bindingSame := checkEdgeDepth_ok bound
      refine ⟨effect, known, by omega, outputSame, ?_⟩
      rw [subroutineSame, bindingSame, takenExtra_eq]
      by_cases isGosub : decoded.instruction.opcode = .gosub
      · simp [isGosub]
      · by_cases values : withBranchValues decoded.instruction.opcode = 0
        · simp [isGosub, values]
        · simp [isGosub, values]

/-- The arrivals one evaluation records. -/
def arrivals (instruction : VerifiedInstruction) (outputDepth takenDepth : Nat) :
    List (Nat × Nat) :=
  match instruction.successors with
  | .fallthrough successor => [(successor, outputDepth)]
  | .jump successor => [(successor, outputDepth)]
  | .branch taken notTaken => [(taken, takenDepth), (notTaken, outputDepth)]
  | .terminate => []

theorem Edge.mem_arrivals {instruction : VerifiedInstruction}
    {target extra outputDepth takenDepth : Nat}
    (edge : Edge instruction target extra)
    (taken : takenDepth = outputDepth +
      takenExtra instruction.decoded.instruction.opcode) :
    (target, outputDepth + extra) ∈
      arrivals instruction outputDepth takenDepth := by
  cases edge with
  | fallthrough recorded => simp [arrivals, recorded]
  | jump recorded => simp [arrivals, recorded]
  | taken recorded => simp [arrivals, recorded, taken]
  | notTaken recorded => simp [arrivals, recorded]

theorem Edge.extra_le {instruction : VerifiedInstruction} {target extra : Nat}
    (edge : Edge instruction target extra) :
    extra ≤ takenExtra instruction.decoded.instruction.opcode := by
  cases edge with
  | taken => exact Nat.le_refl _
  | _ => exact Nat.zero_le _

theorem edge_of_mem_arrivals {instruction : VerifiedInstruction}
    {target depth outputDepth takenDepth : Nat}
    (member : (target, depth) ∈ arrivals instruction outputDepth takenDepth)
    (taken : takenDepth = outputDepth +
      takenExtra instruction.decoded.instruction.opcode) :
    ∃ extra, Edge instruction target extra ∧ depth = outputDepth + extra := by
  unfold arrivals at member
  split at member
  · rename_i recorded
    simp only [List.mem_singleton, Prod.mk.injEq] at member
    obtain ⟨rfl, rfl⟩ := member
    exact ⟨0, .fallthrough recorded, rfl⟩
  · rename_i recorded
    simp only [List.mem_singleton, Prod.mk.injEq] at member
    obtain ⟨rfl, rfl⟩ := member
    exact ⟨0, .jump recorded, rfl⟩
  · rename_i recorded
    simp only [List.mem_cons, List.not_mem_nil, or_false,
      Prod.mk.injEq] at member
    rcases member with ⟨rfl, rfl⟩ | ⟨rfl, rfl⟩
    · exact ⟨_, .taken recorded, taken⟩
    · exact ⟨0, .notTaken recorded, rfl⟩
  · simp at member

/-- Everything an evaluation does in serialized mode. -/
theorem evaluateInstruction_extends {context : StackContext}
    {state after : StackState} {current : VerifiedInstruction}
    {entryDepth : Nat} (serialized : context.requireEmptyExits = false)
    (success : evaluateInstruction context state current entryDepth =
      .ok after) :
    ∃ (effect : StackEffect) (depths : TransferDepths) (middle : StackState),
      current.decoded.instruction.stackEffect = .ok effect ∧
      effect.pops ≤ entryDepth ∧
      depths.outputDepth = entryDepth - effect.pops + effect.pushes ∧
      depths.takenDepth = depths.outputDepth +
        takenExtra current.decoded.instruction.opcode ∧
      depths.takenDepth ≤ middle.computedMax ∧
      state.computedMax ≤ middle.computedMax ∧
      middle.instructions = state.instructions ∧
      middle.worklist = state.worklist ∧
      Extends (arrivals current depths.outputDepth depths.takenDepth) middle
        after := by
  simp only [evaluateInstruction] at success
  split at success
  · cases success
  · rw [bind_eq_ok_iff] at success
    obtain ⟨depths, transferred, success⟩ := success
    obtain ⟨effect, known, enough, output, taken, bounded⟩ :=
      transferDepths_ok transferred
    refine ⟨effect, depths,
      { state with
        evaluations := state.evaluations + 1
        computedMax := max state.computedMax depths.maximum },
      known, enough, output, taken, le_max_of_le_right bounded,
      le_max_left _ _, rfl, rfl, ?_⟩
    · unfold arrivals
      cases recorded : current.successors with
      | fallthrough successor =>
          simp only [recorded] at success ⊢
          exact propagateStackDepth_extends success
      | jump successor =>
          simp only [recorded] at success ⊢
          exact propagateStackDepth_extends success
      | branch target successor =>
          simp only [recorded] at success ⊢
          rw [bind_eq_ok_iff] at success
          obtain ⟨between, first, second⟩ := success
          rw [serialized, Bool.false_and] at first
          exact (propagateStackDepth_extends first).trans
            (propagateStackDepth_extends second)
      | terminate =>
          simp only [recorded] at success ⊢
          rw [bind_eq_ok_iff] at success
          obtain ⟨_, _, finished⟩ := success
          cases finished
          exact .refl _

/-! ## The worklist invariant -/

/-- All arrivals that one recorded depth gives rise to are recorded. -/
def Closed (state : StackState) (instruction : VerifiedInstruction)
    (depth : Nat) : Prop :=
  ∃ effect, instruction.decoded.instruction.stackEffect = .ok effect ∧
    effect.pops ≤ depth ∧
    depth - effect.pops + effect.pushes ≤ state.computedMax ∧
    ∀ target extra, Edge instruction target extra →
      state.depthAt target =
        some (depth - effect.pops + effect.pushes + extra) ∧
      depth - effect.pops + effect.pushes + extra ≤ state.computedMax

/-- Recorded depths are arrivals of the machine, and each of them is closed or
still waiting in the worklist. -/
structure StackInvariant (code : List VerifiedInstruction)
    (state : StackState) : Prop where
  same : SameCode state.instructions code
  entry : state.depthAt 0 = some 0
  sound : ∀ index depth, state.depthAt index = some depth →
    Arrives code index depth
  closed : ∀ index depth instruction, state.depthAt index = some depth →
    code[index]? = some instruction →
    index ∈ state.worklist ∨ Closed state instruction depth

private theorem Closed.extends {arrivals : List (Nat × Nat)}
    {before after : StackState} {instruction : VerifiedInstruction}
    {depth : Nat} (extension : Extends arrivals before after)
    (closed : Closed before instruction depth) :
    Closed after instruction depth := by
  obtain ⟨effect, known, enough, output, edges⟩ := closed
  refine ⟨effect, known, enough, extension.computedMax ▸ output, ?_⟩
  intro target extra edge
  obtain ⟨arrived, bounded⟩ := edges target extra edge
  exact ⟨extension.kept _ _ arrived, extension.computedMax ▸ bounded⟩

private theorem Closed.raise {before after : StackState}
    {instruction : VerifiedInstruction} {depth : Nat}
    (instructions : after.instructions = before.instructions)
    (raised : before.computedMax ≤ after.computedMax)
    (closed : Closed before instruction depth) :
    Closed after instruction depth := by
  obtain ⟨effect, known, enough, output, edges⟩ := closed
  refine ⟨effect, known, enough, output.trans raised, ?_⟩
  intro target extra edge
  obtain ⟨arrived, bounded⟩ := edges target extra edge
  refine ⟨?_, bounded.trans raised⟩
  simpa [StackState.depthAt, instructions] using arrived

/-- One iteration of the worklist loop keeps the invariant. -/
theorem stackInvariant_step {code : List VerifiedInstruction}
    {context : StackContext} {state after : StackState} {index : Nat}
    {rest : List Nat} (serialized : context.requireEmptyExits = false)
    (invariant : StackInvariant code state)
    (queue : state.worklist = index :: rest)
    (success : stackStep context { state with worklist := rest } index =
      .ok after) :
    StackInvariant code after := by
  unfold stackStep at success
  split at success
  · cases success
  · rename_i current found
    have foundHere : state.instructions[index]? = some current := found
    split at success
    · rename_i unset
      cases success
      refine ⟨invariant.same, invariant.entry, invariant.sound, ?_⟩
      intro other depth instruction known codeFound
      rcases invariant.closed other depth instruction known codeFound with
        waiting | closed
      · rw [queue, List.mem_cons] at waiting
        rcases waiting with rfl | later
        · simp [StackState.depthAt, foundHere, unset] at known
        · exact .inl later
      · exact .inr closed
    · rename_i entryDepth set
      have knownHere : state.depthAt index = some entryDepth := by
        simp [StackState.depthAt, foundHere, set]
      obtain ⟨effect, depths, middle, known, enough, output, taken, bounded,
        raised, instructions, worklist, extension⟩ :=
        evaluateInstruction_extends serialized success
      have sameDepth : middle.depthAt = state.depthAt := by
        funext other
        simp [StackState.depthAt, instructions]
      obtain ⟨codeCurrent, codeFound, sameDecoded, sameSuccessors⟩ :=
        invariant.same.getElem? foundHere
      refine ⟨?_, ?_, ?_, ?_⟩
      · have sameCode := extension.same
        rw [instructions] at sameCode
        exact Eq.trans sameCode invariant.same
      · exact extension.kept 0 0 (sameDepth ▸ invariant.entry)
      · intro other depth recorded
        rcases extension.only other depth recorded with earlier | ⟨member, _⟩
        · exact invariant.sound other depth (sameDepth ▸ earlier)
        · obtain ⟨extra, edge, rfl⟩ := edge_of_mem_arrivals member taken
          rw [output]
          rw [← sameDecoded] at known
          exact (invariant.sound index entryDepth knownHere).tail
            (.step codeFound known enough (edge.congr sameDecoded sameSuccessors))
      · intro other depth instruction recorded codeOther
        rcases extension.only other depth recorded with earlier | ⟨_, waiting⟩
        · rw [sameDepth] at earlier
          by_cases here : other = index
          · subst here
            rw [knownHere] at earlier
            cases earlier
            rw [codeFound] at codeOther
            cases codeOther
            right
            refine ⟨effect, sameDecoded ▸ known, enough, ?_, ?_⟩
            · rw [extension.computedMax]
              omega
            · intro target extra edge
              have edgeHere := edge.congr sameDecoded.symm sameSuccessors.symm
              have small := edgeHere.extra_le
              rw [← output, extension.computedMax]
              exact ⟨extension.recorded _ _ (edgeHere.mem_arrivals taken),
                by omega⟩
          · rcases invariant.closed other depth instruction earlier codeOther with
              waiting | closed
            · rw [queue, List.mem_cons] at waiting
              rcases waiting with same | later
              · exact absurd same here
              · exact .inl (extension.queue other (worklist ▸ later))
            · exact .inr ((closed.raise instructions raised).extends extension)
        · exact .inl waiting

/-- The invariant holds when the worklist is empty. -/
theorem stackInvariant_analyzeStack {code : List VerifiedInstruction}
    {context : StackContext} {state final : StackState}
    (serialized : context.requireEmptyExits = false)
    (invariant : StackInvariant code state)
    (success : analyzeStack context state = .ok final) :
    StackInvariant code final ∧ final.worklist = [] := by
  induction state using analyzeStack.induct context with
  | case1 state empty =>
      rw [analyzeStack_nil empty] at success
      cases success
      exact ⟨invariant, empty⟩
  | case2 state index rest queue error failed =>
      rw [analyzeStack_cons queue, failed] at success
      cases success
  | case3 state index rest queue next stepped induction =>
      rw [analyzeStack_cons queue, stepped] at success
      exact induction
        (stackInvariant_step serialized invariant queue stepped) success

/-- Every arrival of the machine is recorded once the worklist is empty. -/
theorem depthAt_of_arrives {code : List VerifiedInstruction}
    {state : StackState} (invariant : StackInvariant code state)
    (empty : state.worklist = []) {index depth : Nat}
    (arrives : Arrives code index depth) :
    state.depthAt index = some depth ∧ depth ≤ state.computedMax := by
  unfold Arrives at arrives
  generalize config : (index, depth) = target at arrives
  induction arrives generalizing index depth with
  | refl =>
      cases config
      exact ⟨invariant.entry, Nat.zero_le _⟩
  | @tail before target _ step induction =>
      cases step with
      | @step source entry _ extra instruction effect found known enough edge =>
          cases config
          obtain ⟨recorded, _⟩ := induction rfl
          rcases invariant.closed source entry instruction recorded found with
            waiting | ⟨effect', known', _, _, edges⟩
          · rw [empty] at waiting
            cases waiting
          · rw [known] at known'
            cases known'
            exact edges _ _ edge

/-- The whole analysis, from unreached instructions. -/
theorem analyzeOrdinaryStack_spec {code : List VerifiedInstruction}
    {functionKind : FunctionKind} {limits : VerificationLimits}
    {final : StackState}
    (unreached : ∀ instruction ∈ code, instruction.entryStackDepth = none)
    (success : analyzeOrdinaryStack code functionKind limits false =
      .ok final) :
    StackInvariant code final ∧ final.worklist = [] := by
  unfold analyzeOrdinaryStack at success
  split at success
  · cases success
  · rename_i entry rest
    refine stackInvariant_analyzeStack rfl ?_ success
    refine ⟨rfl, rfl, ?_, ?_⟩
    · intro index depth recorded
      cases index with
      | zero =>
          cases recorded
          exact .refl
      | succ index =>
          simp only [StackState.depthAt, List.getElem?_cons_succ,
            Option.bind_eq_some_iff] at recorded
          obtain ⟨instruction, found, set⟩ := recorded
          rw [unreached instruction
            (List.mem_cons_of_mem _ (List.mem_of_getElem? found))] at set
          cases set
    · intro index depth instruction recorded _
      cases index with
      | zero => exact .inl (by simp)
      | succ index =>
          simp only [StackState.depthAt, List.getElem?_cons_succ,
            Option.bind_eq_some_iff] at recorded
          obtain ⟨other, found, set⟩ := recorded
          rw [unreached other
            (List.mem_cons_of_mem _ (List.mem_of_getElem? found))] at set
          cases set

/-! ## Structure -/

theorem predecodeItems_ok {bytecodeLen : Nat} {maxInstructions : UInt32}
    {items : List (Except DecodeError DecodedInstruction)}
    {body final : PredecodedBody}
    (success : predecodeItems bytecodeLen maxInstructions items body =
      .ok final) :
    ∃ decoded : List DecodedInstruction, items = decoded.map .ok ∧
      final.instructions = body.instructions ++ decoded := by
  induction items generalizing body with
  | nil =>
      cases success
      exact ⟨[], rfl, by simp⟩
  | cons item rest induction =>
      cases item with
      | error source => cases success
      | ok decoded =>
          simp only [predecodeItems] at success
          split at success
          · cases success
          · rw [bind_eq_ok_iff] at success
            obtain ⟨bitmap, _, later⟩ := success
            obtain ⟨others, same, appended⟩ := induction later
            refine ⟨decoded :: others, by simp [same], ?_⟩
            simp [appended]

/-- An instruction starts at a position. -/
def StartsAt (instructions : List DecodedInstruction) (index : Nat)
    (position : Int) : Prop :=
  ∃ target, instructions[index]? = some target ∧
    (target.pc.toNat : Int) = position

theorem resolveTarget_ok {decoded : DecodedInstruction}
    {edge : ControlFlowEdge} {position : Int}
    {instructions : List DecodedInstruction} {bitmap : List UInt64}
    {bytecodeLen index : Nat}
    (success : resolveTarget decoded edge position instructions bitmap
      bytecodeLen = .ok index) :
    StartsAt instructions index position := by
  simp only [resolveTarget] at success
  split at success
  · cases success
  · rename_i small
    split at success
    · cases success
    · rename_i inside
      split at success
      · cases success
      · split at success
        · rename_i found
          cases success
          unfold decodedInstructionIndexAt at found
          split at found
          · split at found
            · rename_i searched
              split at found
              · cases found
                obtain ⟨target, present, start⟩ :=
                  binarySearchByKey_sound searched
                refine ⟨target, present, ?_⟩
                have word : (UInt32.ofNat position.toNat).toNat =
                    position.toNat := by
                  apply UInt32.toNat_ofNat_of_lt'
                  change position.toNat < 2 ^ 32
                  omega
                rw [start, word]
                omega
              · cases found
            · cases found
          · cases found
        · cases success

/-- The position encoded in the operands of a branch or jump. -/
def EncodedTarget (decoded : DecodedInstruction) (position : Int) : Prop :=
  ∃ edge base displacement,
    relativeTargetSpec decoded = .ok (some (edge, base, displacement)) ∧
    position = decoded.pc.toNat + base + displacement

/-- Recorded successors start at the next position or at the encoded one. -/
def SuccessorsResolve (instructions : List DecodedInstruction)
    (decoded : DecodedInstruction) : VerifiedSuccessors → Prop
  | .fallthrough successor =>
      StartsAt instructions successor decoded.nextPc.toNat
  | .branch taken notTaken =>
      (∃ position, EncodedTarget decoded position ∧
        StartsAt instructions taken position) ∧
      StartsAt instructions notTaken decoded.nextPc.toNat
  | .jump successor =>
      ∃ position, EncodedTarget decoded position ∧
        StartsAt instructions successor position
  | .terminate => True

theorem resolveRelativeTarget_ok {decoded : DecodedInstruction}
    {instructions : List DecodedInstruction} {bitmap : List UInt64}
    {bytecodeLen : Nat} {target : Option Nat}
    (success : resolveRelativeTarget decoded instructions bitmap bytecodeLen =
      .ok target) {index : Nat} (present : target = some index) :
    ∃ position, EncodedTarget decoded position ∧
      StartsAt instructions index position := by
  simp only [resolveRelativeTarget, bind_eq_ok_iff] at success
  obtain ⟨spec, specified, success⟩ := success
  split at success
  · cases success
    cases present
  · rename_i edge base displacement
    simp only [bind_eq_ok_iff, pure_eq_ok_iff] at success
    obtain ⟨found, resolved, same⟩ := success
    rw [← same] at present
    cases present
    exact ⟨_, ⟨edge, base, displacement, specified, rfl⟩,
      resolveTarget_ok resolved⟩

theorem resolveStaticSuccessors_ok {current : DecodedInstruction}
    {semantics : OpcodeSemantics} {target : Option Nat}
    {instructions : List DecodedInstruction} {bitmap : List UInt64}
    {bytecodeLen : Nat} {successors : VerifiedSuccessors}
    (encoded : resolveRelativeTarget current instructions bitmap bytecodeLen =
      .ok target)
    (success : resolveStaticSuccessors current semantics target instructions
      bitmap bytecodeLen = .ok successors) :
    SuccessorsResolve instructions current successors := by
  have required : ∀ {index : Nat},
      requireEncodedTarget current target = .ok index →
      ∃ position, EncodedTarget current position ∧
        StartsAt instructions index position := by
    intro index chosen
    unfold requireEncodedTarget at chosen
    split at chosen
    · cases chosen
      exact resolveRelativeTarget_ok encoded rfl
    · cases chosen
  unfold resolveStaticSuccessors at success
  split at success
  · cases success
  · simp only [bind_eq_ok_iff, pure_eq_ok_iff] at success
    obtain ⟨successor, resolved, rfl⟩ := success
    exact resolveTarget_ok resolved
  · simp only [bind_eq_ok_iff, pure_eq_ok_iff] at success
    obtain ⟨taken, chosen, notTaken, resolved, rfl⟩ := success
    exact ⟨required chosen, resolveTarget_ok resolved⟩
  · simp only [bind_eq_ok_iff, pure_eq_ok_iff] at success
    obtain ⟨successor, chosen, rfl⟩ := success
    exact required chosen
  · cases success
    trivial

theorem validateInstruction_ok {decoded : List DecodedInstruction}
    {bitmap : List UInt64} {bytecodeLen : Nat} {domains : FunctionIndexDomains}
    {current : DecodedInstruction} {verified : VerifiedInstruction}
    (success : validateInstruction decoded bitmap bytecodeLen domains current =
      .ok verified) :
    verified.decoded = current ∧ verified.entryStackDepth = none ∧
      SuccessorsResolve decoded current verified.successors := by
  simp only [validateInstruction, bind_eq_ok_iff, pure_eq_ok_iff] at success
  obtain ⟨_, _, _, _, target, encoded, _, _, successors, resolved, rfl⟩ :=
    success
  exact ⟨rfl, rfl, resolveStaticSuccessors_ok encoded resolved⟩

private theorem map_decoded_of_forall₂ {decoded : List DecodedInstruction}
    {verified : List VerifiedInstruction}
    {property : VerifiedInstruction → Prop}
    (related : List.Forall₂ (fun current instruction =>
      instruction.decoded = current ∧ property instruction) decoded verified) :
    verified.map (·.decoded) = decoded ∧
      ∀ instruction ∈ verified, property instruction := by
  induction related with
  | nil => simp
  | cons first _ induction =>
      obtain ⟨same, holds⟩ := first
      exact ⟨by simp [same, induction.1],
        List.forall_mem_cons.mpr ⟨holds, induction.2⟩⟩

theorem validateStaticSemantics_ok {decoded : List DecodedInstruction}
    {bitmap : List UInt64} {bytecodeLen : Nat} {domains : FunctionIndexDomains}
    {functionKind : FunctionKind} {context : CompilerContext}
    {verified : List VerifiedInstruction}
    (success : validateStaticSemantics decoded bitmap bytecodeLen domains
      functionKind context = .ok verified) :
    verified.map (·.decoded) = decoded ∧
      (∀ instruction ∈ verified, instruction.entryStackDepth = none) ∧
      ∀ instruction ∈ verified,
        SuccessorsResolve decoded instruction.decoded
          instruction.successors := by
  simp only [validateStaticSemantics, bind_eq_ok_iff, pure_eq_ok_iff,
    mapM_eq_ok_iff] at success
  obtain ⟨code, related, _, _, same⟩ := success
  subst same
  have resolved : List.Forall₂
      (fun current (instruction : VerifiedInstruction) =>
        instruction.decoded = current ∧
          (instruction.entryStackDepth = none ∧
            SuccessorsResolve decoded instruction.decoded
              instruction.successors)) decoded code := by
    refine related.imp ?_
    intro current instruction validated
    obtain ⟨same, unset, resolves⟩ := validateInstruction_ok validated
    exact ⟨same, unset, same ▸ resolves⟩
  obtain ⟨same, each⟩ := map_decoded_of_forall₂ resolved
  exact ⟨same, fun instruction member => (each instruction member).1,
    fun instruction member => (each instruction member).2⟩

theorem SameCode.map_decoded {left right : List VerifiedInstruction}
    (same : SameCode left right) :
    left.map (·.decoded) = right.map (·.decoded) := by
  have projected := congrArg (List.map Prod.fst) same
  rw [List.map_map, List.map_map] at projected
  exact projected

/-! ## The main theorem -/

/-- Soundness and exactness for serialized bodies. -/
theorem verifyControlFlow_sound (body : UnverifiedFunctionBody)
    (limits : VerificationLimits) (verified : VerifiedControlFlow)
    (accepted : verifyControlFlow body limits = .ok verified) :
    (∃ stop, Tiling 0 (verified.instructions.map (·.decoded)) stop ∧
      stop.toNat = body.bytecode.length ∧
      encodeInstructions
        (verified.instructions.map (·.decoded.instruction)) =
          body.bytecode) ∧
    (∀ instruction ∈ verified.instructions,
      SuccessorsResolve (verified.instructions.map (·.decoded))
        instruction.decoded instruction.successors) ∧
    verified.computedStackSize = body.expectedStackSize.toNat ∧
    (∀ index depth, Arrives verified.instructions index depth →
      ∃ instruction effect,
        verified.instructions[index]? = some instruction ∧
        instruction.entryStackDepth = some depth ∧
        instruction.decoded.instruction.stackEffect = .ok effect ∧
        effect.pops ≤ depth ∧
        depth ≤ verified.computedStackSize ∧
        depth - effect.pops + effect.pushes ≤ verified.computedStackSize) ∧
    (∀ index instruction, verified.instructions[index]? = some instruction →
      (instruction.entryStackDepth = none ↔
        ¬∃ depth, Arrives verified.instructions index depth)) := by
  simp only [verifyControlFlow, bind_eq_ok_iff] at accepted
  obtain ⟨common, checked, accepted⟩ := accepted
  split at accepted
  · cases accepted
  rename_i expected
  cases accepted
  simp only [verifyControlFlowCommon, bind_eq_ok_iff] at checked
  obtain ⟨_, _, checked⟩ := checked
  split at checked
  · cases checked
  simp only [bind_eq_ok_iff, pure_eq_ok_iff] at checked
  obtain ⟨predecoded, decoding, header, _, context, _, code, static, final,
    analyzed, rfl⟩ := checked
  obtain ⟨sameDecoded, unreached, resolves⟩ := validateStaticSemantics_ok static
  obtain ⟨invariant, empty⟩ := analyzeOrdinaryStack_spec unreached analyzed
  have decodedFinal : final.instructions.map (·.decoded) =
      predecoded.instructions :=
    invariant.same.map_decoded.trans sameDecoded
  refine ⟨?_, ?_, not_not.mp expected, ?_, ?_⟩
  · obtain ⟨decoded, collected, appended⟩ := predecodeItems_ok decoding
    rw [List.nil_append] at appended
    obtain ⟨_, ⟨stop, tiling⟩, whole⟩ := collect_eq_map_ok_iff.mp collected
    have total := tiling.stop_eq
    rw [← whole] at total
    refine ⟨stop, ?_, ?_, ?_⟩
    · rw [decodedFinal, appended]
      exact tiling
    · simpa using total
    · have instructions := congrArg (List.map (·.instruction)) decodedFinal
      rw [List.map_map, appended] at instructions
      have encoded := congrArg encodeInstructions instructions
      exact encoded.trans whole.symm
  · intro instruction member
    obtain ⟨index, found⟩ := List.getElem?_of_mem member
    obtain ⟨other, present, decoded, successors⟩ :=
      invariant.same.getElem? found
    rw [decodedFinal, ← decoded, ← successors]
    exact resolves other (List.mem_of_getElem? present)
  · intro index depth arrives
    obtain ⟨recorded, bounded⟩ := depthAt_of_arrives invariant empty
      (arrives.congr invariant.same)
    obtain ⟨instruction, found, entry⟩ := Option.bind_eq_some_iff.mp recorded
    obtain ⟨other, present, decoded, _⟩ := invariant.same.getElem? found
    rcases invariant.closed index depth other recorded present with
      waiting | ⟨effect, known, enough, output, _⟩
    · rw [empty] at waiting
      cases waiting
    · exact ⟨instruction, effect, found, entry, decoded ▸ known, enough, bounded,
        output⟩
  · intro index instruction found
    have depthHere : final.depthAt index = instruction.entryStackDepth := by
      simp [StackState.depthAt, show final.instructions[index]? =
        some instruction from found]
    constructor
    · rintro unset ⟨depth, arrives⟩
      obtain ⟨recorded, _⟩ := depthAt_of_arrives invariant empty
        (arrives.congr invariant.same)
      rw [depthHere, unset] at recorded
      cases recorded
    · intro never
      rcases entry : instruction.entryStackDepth with _ | depth
      · rfl
      · rw [entry] at depthHere
        have arrives := invariant.sound index depth depthHere
        exact absurd ⟨depth, arrives.congr invariant.same.symm⟩ never

private def sampleBody : UnverifiedFunctionBody where
  bytecode := [FinalOpcode.gosub.encodedByte, 5, 0, 0, 0,
    FinalOpcode.returnUndef.encodedByte, FinalOpcode.ret.encodedByte]
  expectedStackSize := 1
  domains := ⟨0, 0, 0, 0, 0⟩
  functionHeader := ⟨0, 0, 0, 0⟩

private def sampleVerified : VerifiedControlFlow where
  bytecode := sampleBody.bytecode
  instructions :=
    [⟨⟨0, ⟨.gosub, .label 5, by decide, by decide⟩, 5, by decide⟩, some 0,
        .branch 2 1⟩,
      ⟨⟨5, ⟨.returnUndef, .none, by decide, by decide⟩, 6, by decide⟩, some 0,
        .terminate⟩,
      ⟨⟨6, ⟨.ret, .none, by decide, by decide⟩, 7, by decide⟩, some 1,
        .terminate⟩]
  instructionStartBitmap := [0x61]
  computedStackSize := 1
  transferEvaluations := 3
  domains := sampleBody.domains
  functionHeader := ⟨0, 0, .normal, 0, 0⟩
  compilerCaptureLayout := none
  compilerConstantLayout := none

/-- A subroutine whose return address is the only stack slot. -/
theorem verifyControlFlow_sound_gosub :
    verifyControlFlow sampleBody .untrusted = .ok sampleVerified ∧
      ∀ index depth, Arrives sampleVerified.instructions index depth →
        ∃ instruction effect,
          sampleVerified.instructions[index]? = some instruction ∧
          instruction.entryStackDepth = some depth ∧
          instruction.decoded.instruction.stackEffect = .ok effect ∧
          effect.pops ≤ depth ∧
          depth ≤ sampleVerified.computedStackSize ∧
          depth - effect.pops + effect.pushes ≤
            sampleVerified.computedStackSize :=
  ⟨by decide +kernel,
    (verifyControlFlow_sound sampleBody .untrusted sampleVerified
      (by decide +kernel)).2.2.2.1⟩

end Fusor.Verifier
