import Fusor.Bytecode.Stream

/-!
# Symbolic labels and branch relaxation

The assembler plans instructions and label references, binds every label to an
instruction position, redirects ordinary branches past chains of unconditional
gotos, widens branches to a fixed point and emits final bytecode.  Vector
reservations are granted here; a refused one only returns an error.
-/

namespace Fusor.Bytecode

/-- A label, named by the identity of its assembler and its index there. -/
structure AssemblerLabel where
  identity : Nat
  index : Nat
deriving DecidableEq

/-- A symbolic branch family. -/
inductive BranchKind where
  | ifFalse
  | ifTrue
  | goto
  | catchOp
  | gosub
deriving DecidableEq

namespace BranchKind

def longOpcode : BranchKind → FinalOpcode
  | .ifFalse => .ifFalse
  | .ifTrue => .ifTrue
  | .goto => .goto
  | .catchOp => .catchOp
  | .gosub => .gosub

def supportsWidth (kind : BranchKind) (instructionSize : Nat) : Bool :=
  match kind with
  | .ifFalse | .ifTrue => instructionSize = 2 || instructionSize = 5
  | .goto => instructionSize = 2 || instructionSize = 3 || instructionSize = 5
  | .catchOp | .gosub => instructionSize = 5

def minimumSize : BranchKind → Nat
  | .ifFalse | .ifTrue | .goto => 2
  | .catchOp | .gosub => 5

end BranchKind

/-- One planned instruction. -/
inductive AssemblyItem where
  | instruction (planned : Instruction)
  | branch (kind : BranchKind) (labelIndex : Nat)
  | withBranch (opcode : FinalOpcode) (atom : UInt32) (value : UInt8)
      (labelIndex : Nat)
deriving DecidableEq

def AssemblyItem.minimumSize : AssemblyItem → Nat
  | .instruction planned => planned.encodedSize
  | .branch kind _ => kind.minimumSize
  | .withBranch _ _ _ _ => 10

/-- What is known about the goto chain that starts at a label. -/
inductive BranchTargetState where
  | unknown
  | resolving
  | terminal (label : Nat)
  | cycle
deriving DecidableEq

structure AssemblerLimits where
  maxBytecodeBytes : UInt32
  maxInstructions : UInt32
  maxRelaxationEvaluations : UInt64
deriving DecidableEq

inductive AssemblerResource where
  | instructions
  | relaxationEvaluations
deriving DecidableEq

inductive AssemblerError where
  | limitExceeded (resource : AssemblerResource)
      (instructionIndex limit observed : Nat)
  | tooManyLabels
  | tooManyInstructions
  | foreignLabel
  | unknownLabel (labelIndex : Nat)
  | duplicateLabel (labelIndex : Nat)
  | unboundLabel (labelIndex : Nat)
  | targetAtEnd (labelIndex : Nat)
  | symbolicBranchRequired (opcode : FinalOpcode)
  | invalidInstruction (instructionIndex : Nat) (source : InstructionError)
  | encodedLengthOutOfRange (encodedBytes : Nat)
  | branchDisplacementOutOfRange (instructionIndex labelIndex : Nat)
      (displacement : Int)
  | encoding (instructionIndex : Nat) (source : EncodeError)
  | layoutMismatch (instructionIndex : Nat) (expected actual : BytecodePc)
deriving DecidableEq

structure AssembledBytecode where
  bytecode : List UInt8
  instructionPcs : List BytecodePc
deriving DecidableEq

/-- The plan: items in order, and for each label the position it names. -/
structure BytecodeAssembler where
  identity : Nat
  items : List AssemblyItem
  labelBindings : List (Option Nat)
  limits : AssemblerLimits
deriving DecidableEq

/-- Operand formats that carry a relative displacement. -/
def containsSymbolicLabel : OperandFormat → Bool
  | .label8 | .label16 | .label | .atomLabelU8 | .atomLabelU16 | .labelU16 =>
      true
  | _ => false

/-- Prefix sums of the widths, starting at zero. -/
def populateInstructionPositions (widths : List Nat) :
    Except AssemblerError (List Nat) :=
  go 0 widths
where
  go (position : Nat) : List Nat → Except AssemblerError (List Nat)
    | [] => .ok [position]
    | width :: widths =>
        if position + width < 2 ^ 64 then do
          return position :: (← go (position + width) widths)
        else
          .error (.encodedLengthOutOfRange (2 ^ 64 - 1))

/-- The distance from the byte after the opcode to the target. -/
def signedDisplacement (sourcePc targetPc : Nat) : Except AssemblerError Int :=
  if 2 ^ 64 ≤ sourcePc + 1 then
    .error (.encodedLengthOutOfRange sourcePc)
  else
    let displacement := (targetPc : Int) - ((sourcePc + 1 : Nat) : Int)
    if -(2 ^ 63) ≤ displacement ∧ displacement < 2 ^ 63 then
      .ok displacement
    else
      .error (.encodedLengthOutOfRange (max sourcePc targetPc))

/-- The candidate target when the branch itself grows by `added` bytes. -/
def candidateTarget (sourcePosition targetPosition : Nat)
    (positions : List Nat) (added : Nat) : Except AssemblerError Nat :=
  let target := positions.getD targetPosition 0
  if sourcePosition < targetPosition then
    if target + added < 2 ^ 64 then
      .ok (target + added)
    else
      .error (.encodedLengthOutOfRange target)
  else
    .ok target

/-- Whether a displacement fits the operand of a branch of this size. -/
def fitsWidth (candidate : Nat) (displacement : Int) : Bool :=
  match candidate with
  | 2 => -(2 ^ 7) ≤ displacement && displacement < 2 ^ 7
  | 3 => -(2 ^ 15) ≤ displacement && displacement < 2 ^ 15
  | 5 => -(2 ^ 31) ≤ displacement && displacement < 2 ^ 31
  | _ => false

/-- The least supported size, at least the current one, that reaches the
target. -/
def requiredBranchSize (kind : BranchKind)
    (currentSize sourcePosition targetPosition : Nat) (positions : List Nat)
    (instructionIndex labelIndex : Nat) : Except AssemblerError Nat :=
  go [2, 3, 5]
where
  go : List Nat → Except AssemblerError Nat
    | [] => do
        let widest := kind.longOpcode.metadata.instructionSize
        let widestTarget ← candidateTarget sourcePosition targetPosition
          positions (widest - currentSize)
        let displacement ←
          signedDisplacement (positions.getD sourcePosition 0) widestTarget
        .error (.branchDisplacementOutOfRange instructionIndex labelIndex
          displacement)
    | candidate :: candidates =>
        if candidate < currentSize || !kind.supportsWidth candidate then
          go candidates
        else do
          let target ← candidateTarget sourcePosition targetPosition positions
            (candidate - currentSize)
          let displacement ←
            signedDisplacement (positions.getD sourcePosition 0) target
          if fitsWidth candidate displacement then
            .ok candidate
          else
            go candidates

/-- The displacement of a `with_*` branch, whose base is its label field. -/
def withBranchDisplacement (sourcePc targetPc instructionIndex
    labelIndex : Nat) : Except AssemblerError Int32 :=
  if 2 ^ 64 ≤ sourcePc + 5 then
    .error (.encodedLengthOutOfRange sourcePc)
  else
    let displacement := (targetPc : Int) - ((sourcePc + 5 : Nat) : Int)
    if -(2 ^ 31) ≤ displacement ∧ displacement < 2 ^ 31 then
      .ok (Int32.ofInt displacement)
    else
      .error (.branchDisplacementOutOfRange instructionIndex labelIndex
        (max (-(2 ^ 63)) (min (2 ^ 63 - 1) displacement)))

/-- The opcode and operands of a branch of a given size, or `none` when the
displacement does not fit or the kind has no such size. -/
def branchOperands (kind : BranchKind) (instructionSize : Nat)
    (displacement : Int) : Option (FinalOpcode × Operands) :=
  let label8 (opcode : FinalOpcode) : Option (FinalOpcode × Operands) :=
    if -(2 ^ 7) ≤ displacement ∧ displacement < 2 ^ 7 then
      some (opcode, .label8 (Int8.ofInt displacement))
    else
      none
  let label16 (opcode : FinalOpcode) : Option (FinalOpcode × Operands) :=
    if -(2 ^ 15) ≤ displacement ∧ displacement < 2 ^ 15 then
      some (opcode, .label16 (Int16.ofInt displacement))
    else
      none
  let label (opcode : FinalOpcode) : Option (FinalOpcode × Operands) :=
    if -(2 ^ 31) ≤ displacement ∧ displacement < 2 ^ 31 then
      some (opcode, .label (Int32.ofInt displacement))
    else
      none
  match kind, instructionSize with
  | .ifFalse, 2 => label8 .ifFalse8
  | .ifFalse, 5 => label .ifFalse
  | .ifTrue, 2 => label8 .ifTrue8
  | .ifTrue, 5 => label .ifTrue
  | .goto, 2 => label8 .goto8
  | .goto, 3 => label16 .goto16
  | .goto, 5 => label .goto
  | .catchOp, 5 => label .catchOp
  | .gosub, 5 => label .gosub
  | _, _ => none

def newInstruction (instructionIndex : Nat) (opcode : FinalOpcode)
    (operands : Operands) : Except AssemblerError Instruction :=
  match Instruction.new opcode operands with
  | .ok instruction => .ok instruction
  | .error source => .error (.invalidInstruction instructionIndex source)

def branchInstruction (kind : BranchKind) (instructionSize : Nat)
    (displacement : Int) (instructionIndex labelIndex : Nat) :
    Except AssemblerError Instruction :=
  match branchOperands kind instructionSize displacement with
  | none =>
      .error (.branchDisplacementOutOfRange instructionIndex labelIndex
        displacement)
  | some (opcode, operands) => newInstruction instructionIndex opcode operands

namespace BytecodeAssembler

/-- An empty plan. -/
def withLimits (identity : Nat) (limits : AssemblerLimits) :
    BytecodeAssembler :=
  { identity, items := [], labelBindings := [], limits }

/-- Allocates a new label. -/
def newLabel (assembler : BytecodeAssembler) :
    Except AssemblerError AssemblerLabel × BytecodeAssembler :=
  let index := assembler.labelBindings.length
  if index < 2 ^ 32 then
    (.ok { identity := assembler.identity, index },
      { assembler with labelBindings := assembler.labelBindings ++ [none] })
  else
    (.error .tooManyLabels, assembler)

/-- The binding of a label issued by this assembler. -/
def resolveLabel (assembler : BytecodeAssembler) (label : AssemblerLabel) :
    Except AssemblerError (Option Nat) :=
  if assembler.identity ≠ label.identity then
    .error .foreignLabel
  else
    match assembler.labelBindings[label.index]? with
    | some binding => .ok binding
    | none => .error (.unknownLabel label.index)

/-- Binds a label to the next planned instruction. -/
def bind (assembler : BytecodeAssembler) (label : AssemblerLabel) :
    Except AssemblerError Unit × BytecodeAssembler :=
  match assembler.resolveLabel label with
  | .error error => (.error error, assembler)
  | .ok (some _) => (.error (.duplicateLabel label.index), assembler)
  | .ok none =>
      (.ok (), { assembler with
        labelBindings :=
          assembler.labelBindings.set label.index assembler.items.length })

def nextInstructionIndex (assembler : BytecodeAssembler) :
    Except AssemblerError Nat :=
  let instructionIndex := assembler.items.length
  if 2 ^ 32 ≤ instructionIndex then
    .error .tooManyInstructions
  else
    let observed := instructionIndex + 1
    let limit := assembler.limits.maxInstructions.toNat
    if limit < observed then
      .error (.limitExceeded .instructions instructionIndex limit observed)
    else
      .ok instructionIndex

def pushItem (assembler : BytecodeAssembler) (item : AssemblyItem) :
    BytecodeAssembler :=
  { assembler with items := assembler.items ++ [item] }

/-- Plans one non-symbolic instruction. -/
def push (assembler : BytecodeAssembler) (opcode : FinalOpcode)
    (operands : Operands) : Except AssemblerError Nat × BytecodeAssembler :=
  match assembler.nextInstructionIndex with
  | .error error => (.error error, assembler)
  | .ok instructionIndex =>
      match newInstruction instructionIndex opcode operands with
      | .error error => (.error error, assembler)
      | .ok instruction =>
          if containsSymbolicLabel instruction.opcode.metadata.operandFormat then
            (.error (.symbolicBranchRequired opcode), assembler)
          else
            (.ok instructionIndex,
              assembler.pushItem (.instruction instruction))

/-- Plans a symbolic branch. -/
def branch (assembler : BytecodeAssembler) (kind : BranchKind)
    (target : AssemblerLabel) : Except AssemblerError Nat × BytecodeAssembler :=
  match assembler.resolveLabel target with
  | .error error => (.error error, assembler)
  | .ok _ =>
      match assembler.nextInstructionIndex with
      | .error error => (.error error, assembler)
      | .ok instructionIndex =>
          (.ok instructionIndex, assembler.pushItem (.branch kind target.index))

def isWithOpcode : FinalOpcode → Bool
  | .withGetVar | .withPutVar | .withDeleteVar | .withMakeRef | .withGetRef =>
      true
  | _ => false

/-- Plans a symbolic `with_*` branch. -/
def withBranch (assembler : BytecodeAssembler) (opcode : FinalOpcode)
    (atom : UInt32) (value : UInt8) (target : AssemblerLabel) :
    Except AssemblerError Nat × BytecodeAssembler :=
  match assembler.resolveLabel target with
  | .error error => (.error error, assembler)
  | .ok _ =>
      match assembler.nextInstructionIndex with
      | .error error => (.error error, assembler)
      | .ok instructionIndex =>
          if isWithOpcode opcode then
            match newInstruction instructionIndex opcode
                (.atomLabelU8 atom 0 value) with
            | .error error => (.error error, assembler)
            | .ok _ =>
                (.ok instructionIndex, assembler.pushItem
                  (.withBranch opcode atom value target.index))
          else
            (.error (.invalidInstruction instructionIndex
              (.operandFormatMismatch opcode opcode.metadata.operandFormat
                .atomLabelU8)), assembler)

/-- The position a bound label names. -/
def targetPosition (assembler : BytecodeAssembler) (labelIndex : Nat) :
    Except AssemblerError Nat :=
  match assembler.labelBindings[labelIndex]? with
  | some (some position) => .ok position
  | _ => .error (.unknownLabel labelIndex)

/-- The label an item refers to, if any. -/
def itemLabel : AssemblyItem → Option Nat
  | .branch _ labelIndex => some labelIndex
  | .withBranch _ _ _ labelIndex => some labelIndex
  | .instruction _ => none

def validateBoundLabels (assembler : BytecodeAssembler) :
    Except AssemblerError Unit :=
  match assembler.labelBindings.findIdx? Option.isNone with
  | some index =>
      if index < 2 ^ 32 then
        .error (.unboundLabel index)
      else
        .error .tooManyLabels
  | none =>
      assembler.items.forM fun item =>
        match itemLabel item with
        | none => .ok ()
        | some labelIndex => do
            let target ← assembler.targetPosition labelIndex
            if target = assembler.items.length then
              .error (.targetAtEnd labelIndex)

/-- The label of the unconditional goto that a label names, if it is one. -/
def labelGotoTarget (assembler : BytecodeAssembler) (labelIndex : Nat) :
    Option Nat :=
  match assembler.labelBindings[labelIndex]? with
  | some (some position) =>
      match assembler.items[position]? with
      | some (.branch .goto target) => some target
      | _ => none
  | _ => none

/-- Gives every label of a drained path the same state. -/
def settlePath (states : List BranchTargetState) (path : List Nat)
    (state : BranchTargetState) : List BranchTargetState :=
  path.foldl (fun states label => states.set label state) states

theorem count_unknown_set_lt {states : List BranchTargetState} {current : Nat}
    (unknown : states[current]? = some .unknown) :
    (states.set current .resolving).count .unknown < states.count .unknown := by
  obtain ⟨bound, element⟩ := List.getElem?_eq_some_iff.mp unknown
  have member : BranchTargetState.unknown ∈ states :=
    element ▸ List.getElem_mem bound
  have positive := List.count_pos_iff.mpr member
  rw [List.count_set bound, element]
  simp only [beq_self_eq_true, if_true, reduceCtorEq, beq_iff_eq, if_false]
  omega

/-- Follows gotos from `current`, the labels behind it being on `path`.  The
states never have an index past the label table: see `resolvePath_spec`. -/
def resolvePath (assembler : BytecodeAssembler)
    (states : List BranchTargetState) (path : List Nat) (current : Nat) :
    Except AssemblerError (List BranchTargetState) :=
  match _unknown : states[current]? with
  | none => .ok states
  | some .unknown =>
      match assembler.labelGotoTarget current with
      | none =>
          if current < 2 ^ 32 then
            .ok (settlePath (states.set current .resolving) (path ++ [current])
              (.terminal current))
          else
            .error .tooManyLabels
      | some next =>
          assembler.resolvePath (states.set current .resolving)
            (path ++ [current]) next
  | some .resolving | some .cycle => .ok (settlePath states path .cycle)
  | some (.terminal label) => .ok (settlePath states path (.terminal label))
termination_by states.count .unknown
decreasing_by exact count_unknown_set_lt _unknown

/-- The state of every label, resolving each unknown one in index order. -/
def branchTargetStates (assembler : BytecodeAssembler) :
    Except AssemblerError (List BranchTargetState) :=
  let labelCount := assembler.labelBindings.length
  (List.range labelCount).foldlM
    (fun states start =>
      if states[start]? = some .unknown then
        assembler.resolvePath states [] start
      else
        .ok states)
    (List.replicate labelCount .unknown)

/-- An ordinary branch is redirected to the end of its label's goto chain. -/
def threadItem (states : List BranchTargetState) (item : AssemblyItem) :
    AssemblyItem :=
  match item with
  | .branch kind labelIndex =>
      match kind with
      | .ifFalse | .ifTrue | .goto =>
          match states[labelIndex]? with
          | some (.terminal target) => .branch kind target
          | _ => item
      | .catchOp | .gosub => item
  | _ => item

def threadRedundantGotoTargets (assembler : BytecodeAssembler) :
    Except AssemblerError BytecodeAssembler := do
  let states ← assembler.branchTargetStates
  return { assembler with items := assembler.items.map (threadItem states) }

/-- One pass over the plan that widens every branch that cannot reach. -/
def relaxItems (assembler : BytecodeAssembler) (positions : List Nat) :
    Nat → List AssemblyItem → List Nat → Except AssemblerError (List Nat × Bool)
  | position, item :: items, width :: widths => do
      let (width, grew) ←
        match item with
        | .branch kind labelIndex => do
            let targetPosition ← assembler.targetPosition labelIndex
            if 2 ^ 32 ≤ position then
              .error .tooManyInstructions
            else
              let desired ← requiredBranchSize kind width position
                targetPosition positions position labelIndex
              pure (if width < desired then (desired, true) else (width, false))
        | _ => pure (width, false)
      let (widths, changed) ←
        assembler.relaxItems positions (position + 1) items widths
      return (width :: widths, grew || changed)
  | _, _, widths => .ok (widths, false)

/-- Charges one relaxation evaluation per planned instruction. -/
def chargeRelaxationPass (assembler : BytecodeAssembler) (completed : Nat) :
    Except AssemblerError Nat :=
  let requested := assembler.items.length
  let limit := assembler.limits.maxRelaxationEvaluations.toNat
  let remaining := limit - completed
  if remaining < requested then
    if remaining < 2 ^ 32 then
      .error (.limitExceeded .relaxationEvaluations remaining limit
        (min (limit + 1) (2 ^ 64 - 1)))
    else
      .error .tooManyInstructions
  else
    .ok (completed + requested)

theorem chargeRelaxationPass_lt {assembler : BytecodeAssembler}
    {evaluations completed : Nat} (planned : 0 < assembler.items.length)
    (charged : assembler.chargeRelaxationPass evaluations = .ok completed) :
    assembler.limits.maxRelaxationEvaluations.toNat - completed <
      assembler.limits.maxRelaxationEvaluations.toNat - evaluations := by
  simp only [chargeRelaxationPass] at charged
  split at charged
  · split at charged <;> cases charged
  · cases charged
    omega

/-- Relaxation passes until none changes a width.  Every pass is charged, so
the remaining budget decreases. -/
def relaxLoop (assembler : BytecodeAssembler)
    (planned : 0 < assembler.items.length) (evaluations : Nat)
    (widths : List Nat) : Except AssemblerError (List Nat × List Nat) :=
  match _charged : assembler.chargeRelaxationPass evaluations with
  | .error error => .error error
  | .ok completed =>
      match populateInstructionPositions widths with
      | .error error => .error error
      | .ok positions =>
          match assembler.relaxItems positions 0 assembler.items widths with
          | .error error => .error error
          | .ok (widened, true) => assembler.relaxLoop planned completed widened
          | .ok (widened, false) => .ok (widened, positions)
termination_by
  assembler.limits.maxRelaxationEvaluations.toNat - evaluations
decreasing_by exact chargeRelaxationPass_lt planned _charged

def isBranch : AssemblyItem → Bool
  | .branch _ _ => true
  | _ => false

/-- Final widths and positions of the plan. -/
def relaxedLayout (assembler : BytecodeAssembler) :
    Except AssemblerError (List Nat × List Nat) :=
  let widths := assembler.items.map AssemblyItem.minimumSize
  if branches : assembler.items.any isBranch then
    assembler.relaxLoop (List.length_pos_iff.mpr (by aesop)) 0 widths
  else do
    return (widths, ← populateInstructionPositions widths)

/-- The final instruction of a planned item. -/
def itemInstruction (assembler : BytecodeAssembler)
    (widths positions : List Nat) (position : Nat) :
    AssemblyItem → Except AssemblerError Instruction
  | .instruction planned => .ok planned
  | .branch kind labelIndex => do
      let targetPosition ← assembler.targetPosition labelIndex
      let displacement ← signedDisplacement (positions.getD position 0)
        (positions.getD targetPosition 0)
      branchInstruction kind (widths.getD position 0) displacement position
        labelIndex
  | .withBranch opcode atom value labelIndex => do
      let targetPosition ← assembler.targetPosition labelIndex
      let displacement ← withBranchDisplacement (positions.getD position 0)
        (positions.getD targetPosition 0) position labelIndex
      newInstruction position opcode (.atomLabelU8 atom displacement value)

/-- Encodes the items in order, checking each against the layout. -/
def emitItems (assembler : BytecodeAssembler) (widths positions : List Nat)
    (encodedBytes : Nat) :
    Nat → List AssemblyItem → BytecodeBuilder →
      Except AssemblerError (List BytecodePc × BytecodeBuilder)
  | _, [], builder => .ok ([], builder)
  | position, item :: items, builder =>
      let expectedPosition := positions.getD position 0
      if 2 ^ 32 ≤ position then
        .error .tooManyInstructions
      else if 2 ^ 32 ≤ expectedPosition then
        .error (.encodedLengthOutOfRange encodedBytes)
      else
        let expected := UInt32.ofNat expectedPosition
        match assembler.itemInstruction widths positions position item with
        | .error error => .error error
        | .ok instruction =>
            match builder.pushInstruction true instruction with
            | (.error source, _) => .error (.encoding position source)
            | (.ok actual, builder) =>
                if actual ≠ expected then
                  .error (.layoutMismatch position expected actual)
                else do
                  let (pcs, builder) ← assembler.emitItems widths positions
                    encodedBytes (position + 1) items builder
                  return (actual :: pcs, builder)

/-- Resolves labels, relaxes branches and emits final bytecode. -/
def finish (assembler : BytecodeAssembler) :
    Except AssemblerError AssembledBytecode := do
  assembler.validateBoundLabels
  let threaded ← assembler.threadRedundantGotoTargets
  let (widths, positions) ← threaded.relaxedLayout
  match positions.getLast? with
  | none => .error (.encodedLengthOutOfRange 0)
  | some encodedBytes =>
      if 2 ^ 32 ≤ encodedBytes then
        .error (.encodedLengthOutOfRange encodedBytes)
      else
        let (instructionPcs, builder) ← threaded.emitItems widths positions
          encodedBytes 0 threaded.items
          (BytecodeBuilder.withByteLimit threaded.limits.maxBytecodeBytes)
        return { bytecode := builder.bytes, instructionPcs }

/-- One call of the planning interface. -/
inductive Call where
  | newLabel
  | bind (label : AssemblerLabel)
  | push (opcode : FinalOpcode) (operands : Operands)
  | branch (kind : BranchKind) (target : AssemblerLabel)
  | withBranch (opcode : FinalOpcode) (atom : UInt32) (value : UInt8)
      (target : AssemblerLabel)

/-- The plan after a call, whatever the call returned. -/
def call (assembler : BytecodeAssembler) : Call → BytecodeAssembler
  | .newLabel => assembler.newLabel.2
  | .bind label => (assembler.bind label).2
  | .push opcode operands => (assembler.push opcode operands).2
  | .branch kind target => (assembler.branch kind target).2
  | .withBranch opcode atom value target =>
      (assembler.withBranch opcode atom value target).2

/-- The plan after a sequence of calls. -/
def calls (assembler : BytecodeAssembler) (sequence : List Call) :
    BytecodeAssembler :=
  sequence.foldl call assembler

end BytecodeAssembler

end Fusor.Bytecode
