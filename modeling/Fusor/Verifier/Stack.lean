import Fusor.Verifier.Structure

/-!
# Ordinary-stack analysis and the verification pipeline

A worklist propagates one entry depth to every reachable instruction.  The two
verification modes differ in whether a serialized stack size is compared and
in what the compiler's own bodies must satisfy at their exits.
-/

namespace Fusor.Verifier

open Fusor.Bytecode Fusor.Support

/-- The state of the worklist loop. -/
structure StackState where
  instructions : List VerifiedInstruction
  worklist : List Nat
  computedMax : Nat
  evaluations : Nat

/-- Joins an incoming depth at a target, queueing it on first arrival. -/
def propagateStackDepth (state : StackState) (target incomingDepth : Nat)
    (source : DecodedInstruction) (deferGosubJoinToTypedStack : Bool) :
    Except VerificationError StackState :=
  match state.instructions[target]? with
  | none =>
      .error (.atInstruction source (.limitExceeded .instructions
        state.instructions.length (target + 1)))
  | some targetInstruction =>
      match targetInstruction.entryStackDepth with
      | none =>
          .ok { state with
            instructions := state.instructions.set target
              { targetInstruction with entryStackDepth := some incomingDepth }
            worklist := state.worklist ++ [target] }
      | some establishedDepth =>
          if establishedDepth = incomingDepth then
            .ok state
          else if deferGosubJoinToTypedStack then
            .ok state
          else
            .error (.atInstruction source (.inconsistentStackAtJoin
              targetInstruction.decoded.pc establishedDepth incomingDepth
              source.pc))

/-- The depths that executing one instruction produces. -/
structure TransferDepths where
  outputDepth : Nat
  takenDepth : Nat
  maximum : Nat

def checkStackDepth (limits : VerificationLimits)
    (decoded : DecodedInstruction) (depth : Nat) :
    Except VerificationError Nat :=
  if limits.maxStackDepth.toNat < depth then
    .error (.atInstruction decoded
      (.stackLimitExceeded depth limits.maxStackDepth))
  else
    .ok depth

/-- Values a found `with` binding leaves on the stack. -/
def withBranchValues : FinalOpcode → Nat
  | .withGetVar | .withDeleteVar => 1
  | .withMakeRef | .withGetRef => 2
  | _ => 0

/-- The checked depth of an edge that only some opcodes have. -/
def checkEdgeDepth (limits : VerificationLimits) (decoded : DecodedInstruction)
    (present : Bool) (depth : Nat) : Except VerificationError (Option Nat) :=
  if present then
    match checkStackDepth limits decoded depth with
    | .ok depth => .ok (some depth)
    | .error error => .error error
  else
    .ok none

def transferDepths (limits : VerificationLimits) (decoded : DecodedInstruction)
    (entryDepth : Nat) : Except VerificationError TransferDepths :=
  match decoded.instruction.stackEffect with
  | .error source => .error (.atInstruction decoded (.stackEffect source))
  | .ok effect =>
      if entryDepth < effect.pops then
        .error (.atInstruction decoded
          (.stackUnderflow effect.pops entryDepth))
      else do
        let opcode := decoded.instruction.opcode
        let outputDepth ← checkStackDepth limits decoded
          (entryDepth - effect.pops + effect.pushes)
        let finallySubroutineDepth ← checkEdgeDepth limits decoded
          (opcode = .gosub) (outputDepth + 1)
        let withBindingDepth ← checkEdgeDepth limits decoded
          (withBranchValues opcode ≠ 0) (outputDepth + withBranchValues opcode)
        return {
          outputDepth
          takenDepth :=
            (finallySubroutineDepth.or withBindingDepth).getD outputDepth
          maximum := max (max outputDepth (finallySubroutineDepth.getD 0))
            (withBindingDepth.getD 0) }

/-- Opcodes whose termination abandons the surrounding expression stack. -/
def abandonsExpression : FinalOpcode → Bool
  | .throw | .throwError | .tailCall | .tailCallMethod | .tailApply | .tailEval
  | .tailApplyEval => true
  | _ => false

/-- The empty-exit rule for bodies generated by the compiler. -/
def checkExit (requireEmptyExits : Bool) (functionKind : FunctionKind)
    (hasGosub : Bool) (decoded : DecodedInstruction) (outputDepth : Nat) :
    Except VerificationError Unit :=
  let opcode := decoded.instruction.opcode
  let returnsFromFinally := opcode = .ret
  let abandonsGeneratorExpression :=
    (functionKind = .generator ∨ functionKind = .asyncGenerator) ∧
      opcode = .returnAsync
  let defersTypedFinallyExit :=
    hasGosub = true ∧
      (opcode = .returnOp ∨ opcode = .returnUndef ∨ opcode = .throw)
  if requireEmptyExits = true ∧ outputDepth ≠ 0 ∧
      ¬abandonsExpression opcode = true ∧ ¬returnsFromFinally ∧
      ¬abandonsGeneratorExpression ∧ ¬defersTypedFinallyExit then
    .error (.atInstruction decoded (.nonEmptyCompilerExitStack outputDepth))
  else
    .ok ()

/-- What the whole analysis shares. -/
structure StackContext where
  limits : VerificationLimits
  requireEmptyExits : Bool
  functionKind : FunctionKind
  hasGosub : Bool

/-- Evaluates one instruction at its entry depth. -/
def evaluateInstruction (context : StackContext) (state : StackState)
    (current : VerifiedInstruction) (entryDepth : Nat) :
    Except VerificationError StackState :=
  let decoded := current.decoded
  let limit := context.limits.maxTransferEvaluations.toNat
  let evaluations := state.evaluations + 1
  if limit < evaluations then
    .error (.atInstruction decoded (.limitExceeded .transferEvaluations limit
      (min evaluations (2 ^ 64 - 1))))
  else do
    let depths ← transferDepths context.limits decoded entryDepth
    let state := { state with
      evaluations
      computedMax := max state.computedMax depths.maximum }
    match current.successors with
    | .fallthrough successor | .jump successor =>
        propagateStackDepth state successor depths.outputDepth decoded false
    | .branch taken notTaken => do
        let state ← propagateStackDepth state taken depths.takenDepth decoded
          (context.requireEmptyExits &&
            decide (decoded.instruction.opcode = .gosub))
        propagateStackDepth state notTaken depths.outputDepth decoded false
    | .terminate => do
        checkExit context.requireEmptyExits context.functionKind
          context.hasGosub decoded depths.outputDepth
        return state

/-- One iteration of the worklist loop, after popping `index`. -/
def stackStep (context : StackContext) (state : StackState) (index : Nat) :
    Except VerificationError StackState :=
  match state.instructions[index]? with
  | none =>
      .error (.root (.limitExceeded .instructions state.instructions.length
        (index + 1)))
  | some current =>
      match current.entryStackDepth with
      | none => .ok state
      | some entryDepth => evaluateInstruction context state current entryDepth

/-- Measure of the worklist loop: an evaluation is charged and queues at most
two instructions, and a skipped entry shortens the worklist. -/
def stackMeasure (context : StackContext) (state : StackState) : Nat :=
  3 * (context.limits.maxTransferEvaluations.toNat - state.evaluations) +
    state.worklist.length

theorem propagateStackDepth_progress {state after : StackState}
    {target incomingDepth : Nat} {source : DecodedInstruction} {defer : Bool}
    (success : propagateStackDepth state target incomingDepth source defer =
      .ok after) :
    after.evaluations = state.evaluations ∧
      after.worklist.length ≤ state.worklist.length + 1 := by
  unfold propagateStackDepth at success
  split at success
  · cases success
  · split at success
    · cases success
      simp
    · split at success
      · cases success
        simp
      · split at success
        · cases success
          simp
        · cases success

theorem evaluateInstruction_progress {context : StackContext}
    {state after : StackState} {current : VerifiedInstruction}
    {entryDepth : Nat}
    (success : evaluateInstruction context state current entryDepth =
      .ok after) :
    after.evaluations = state.evaluations + 1 ∧
      after.evaluations ≤ context.limits.maxTransferEvaluations.toNat ∧
      after.worklist.length ≤ state.worklist.length + 2 := by
  simp only [evaluateInstruction] at success
  split at success
  · cases success
  · rename_i charged
    rw [bind_eq_ok_iff] at success
    obtain ⟨depths, _, success⟩ := success
    split at success
    · have progress := propagateStackDepth_progress success
      simp only at progress
      omega
    · have progress := propagateStackDepth_progress success
      simp only at progress
      omega
    · rw [bind_eq_ok_iff] at success
      obtain ⟨middle, first, second⟩ := success
      have earlier := propagateStackDepth_progress first
      have later := propagateStackDepth_progress second
      simp only at earlier
      omega
    · rw [bind_eq_ok_iff] at success
      obtain ⟨_, _, finished⟩ := success
      cases finished
      refine ⟨rfl, ?_, Nat.le_add_right _ _⟩
      simp only
      omega

theorem stackMeasure_lt {context : StackContext} {state after : StackState}
    {index : Nat} {rest : List Nat} (queue : state.worklist = index :: rest)
    (success : stackStep context { state with worklist := rest } index =
      .ok after) :
    stackMeasure context after < stackMeasure context state := by
  have shorter : state.worklist.length = rest.length + 1 := by simp [queue]
  unfold stackStep at success
  split at success
  · cases success
  · split at success
    · cases success
      simp only [stackMeasure]
      omega
    · obtain ⟨same, within, queued⟩ := evaluateInstruction_progress success
      simp only at same queued
      simp only [stackMeasure]
      omega

/-- Runs the worklist to its end. -/
def analyzeStack (context : StackContext) (state : StackState) :
    Except VerificationError StackState :=
  match _queue : state.worklist with
  | [] => .ok state
  | index :: rest =>
      match _stepped : stackStep context { state with worklist := rest } index with
      | .error error => .error error
      | .ok next => analyzeStack context next
termination_by stackMeasure context state
decreasing_by exact stackMeasure_lt _queue _stepped

theorem analyzeStack_nil {context : StackContext} {state : StackState}
    (empty : state.worklist = []) : analyzeStack context state = .ok state := by
  rw [analyzeStack]
  split
  · rfl
  · rename_i queue
    rw [empty] at queue
    cases queue

theorem analyzeStack_cons {context : StackContext} {state : StackState}
    {index : Nat} {rest : List Nat} (queue : state.worklist = index :: rest) :
    analyzeStack context state =
      match stackStep context { state with worklist := rest } index with
      | .error error => .error error
      | .ok next => analyzeStack context next := by
  rw [analyzeStack]
  split
  · rename_i empty
    rw [queue] at empty
    cases empty
  · rename_i other
    rw [queue] at other
    cases other
    split <;> simp_all

/-- Entry depths and the maximum depth of the reachable instructions. -/
def analyzeOrdinaryStack (instructions : List VerifiedInstruction)
    (functionKind : FunctionKind) (limits : VerificationLimits)
    (requireEmptyExits : Bool) : Except VerificationError StackState :=
  match instructions with
  | [] => .error (.root .emptyBytecode)
  | entry :: rest =>
      let hasGosub := instructions.any
        (·.decoded.instruction.opcode = .gosub)
      analyzeStack { limits, requireEmptyExits, functionKind, hasGosub }
        { instructions := { entry with entryStackDepth := some 0 } :: rest
          worklist := [0]
          computedMax := 0
          evaluations := 0 }

/-! ## The pipeline -/

inductive StackVerificationMode where
  | serialized (expectedStackSize : UInt32)
  | compilerGenerated
deriving DecidableEq

namespace StackVerificationMode

def expectedStackSize : StackVerificationMode → Option UInt32
  | .serialized expected => some expected
  | .compilerGenerated => none

def requiresEmptyExits : StackVerificationMode → Bool
  | .serialized _ => false
  | .compilerGenerated => true

end StackVerificationMode

/-- The compiler layouts of a body, once present and valid. -/
def validateLayouts (stackMode : StackVerificationMode)
    (captureLayout : Option CompilerCaptureLayout)
    (constantLayout : Option CompilerConstantLayout)
    (domains : FunctionIndexDomains) (functionHeader : VerifiedFunctionHeader) :
    Except VerificationError CompilerContext := do
  let captureLayout ←
    match captureLayout with
    | none =>
        if stackMode.requiresEmptyExits ∧
            functionHeader.variableReferenceCount ≠ 0 then
          .error (.root (.missingCompilerCaptureLayout
            functionHeader.variableReferenceCount))
        else
          .ok none
    | some layout =>
        some <$> validateCompilerCaptureLayout layout domains functionHeader
  let constantLayout ←
    match constantLayout with
    | none =>
        if stackMode.requiresEmptyExits ∧ domains.constantPoolLen ≠ 0 then
          .error (.root (.missingCompilerConstantLayout
            domains.constantPoolLen))
        else
          .ok none
    | some layout => some <$> validateCompilerConstantLayout layout domains
  return { captureLayout, constantLayout,
           compilerGenerated := stackMode.requiresEmptyExits }

def verifyControlFlowCommon (bytecode : List UInt8)
    (domains : FunctionIndexDomains) (functionHeader : UnverifiedFunctionHeader)
    (stackMode : StackVerificationMode)
    (captureLayout : Option CompilerCaptureLayout)
    (constantLayout : Option CompilerConstantLayout)
    (limits : VerificationLimits) :
    Except VerificationError VerifiedControlFlow := do
  validateLimitsAndCounts bytecode.length domains functionHeader
    stackMode.expectedStackSize limits
  if bytecode = [] then
    .error (.root .emptyBytecode)
  else
    let predecoded ← predecodeComplete bytecode
      limits.maxInstructionsPerFunction
    let functionHeader ← validateFunctionHeader functionHeader domains
    let context ← validateLayouts stackMode captureLayout constantLayout
      domains functionHeader
    let instructions ← validateStaticSemantics predecoded.instructions
      predecoded.instructionStartBitmap bytecode.length domains
      functionHeader.kind context
    let certificate ← analyzeOrdinaryStack instructions functionHeader.kind
      limits stackMode.requiresEmptyExits
    return {
      bytecode
      instructions := certificate.instructions
      instructionStartBitmap := predecoded.instructionStartBitmap
      computedStackSize := certificate.computedMax
      transferEvaluations := certificate.evaluations
      domains
      functionHeader
      compilerCaptureLayout := context.captureLayout
      compilerConstantLayout := context.constantLayout }

/-- Verifies a serialized body against its stored stack size. -/
def verifyControlFlow (body : UnverifiedFunctionBody)
    (limits : VerificationLimits) :
    Except VerificationError VerifiedControlFlow := do
  let verified ← verifyControlFlowCommon body.bytecode body.domains
    body.functionHeader (.serialized body.expectedStackSize) none none limits
  if verified.computedStackSize ≠ body.expectedStackSize.toNat then
    .error (.root (.serializedStackSizeMismatch body.expectedStackSize
      verified.computedStackSize))
  else
    return verified

end Fusor.Verifier
