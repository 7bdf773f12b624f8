import Fusor.Support.BinarySearch
import Fusor.Support.Result
import Fusor.Verifier.Header

/-!
# Predecoding, operands and successors

The complete body is decoded and its instruction boundaries are recorded in a
bitmap.  Every instruction then has its operand indices checked and its
successors resolved to instruction indices, whether or not it is reachable.
-/

namespace Fusor.Verifier

open Fusor.Bytecode Fusor.Support

/-! ## Predecoding -/

structure PredecodedBody where
  instructions : List DecodedInstruction
  instructionStartBitmap : List UInt64

/-- One zero word for every 64 bytes. -/
def allocateBoundaryBitmap (bytecodeLen : Nat) : List UInt64 :=
  List.replicate ((bytecodeLen + 63) / 64) 0

def boundaryBit (offset : Nat) : UInt64 := 1 <<< UInt64.ofNat (offset % 64)

def markInstructionStart (bitmap : List UInt64) (bytecodeLen : Nat)
    (pc : BytecodePc) : Except VerificationError (List UInt64) :=
  let offset := pc.toNat
  match bitmap[offset / 64]? with
  | none => .error (.fromDecode (.pcOutOfBounds pc bytecodeLen))
  | some word => .ok (bitmap.set (offset / 64) (word ||| boundaryBit offset))

def isInstructionStart (bitmap : List UInt64) (bytecodeLen : Nat)
    (pc : BytecodePc) : Bool :=
  let offset := pc.toNat
  if bytecodeLen ≤ offset then
    false
  else
    match bitmap[offset / 64]? with
    | none => false
    | some word => word &&& boundaryBit offset ≠ 0

/-- Consumes the decoder's items, counting and marking each instruction. -/
def predecodeItems (bytecodeLen : Nat) (maxInstructions : UInt32) :
    List (Except DecodeError DecodedInstruction) → PredecodedBody →
      Except VerificationError PredecodedBody
  | [], body => .ok body
  | .error source :: _, _ => .error (.fromDecode source)
  | .ok decoded :: rest, body =>
      let observed := body.instructions.length + 1
      if maxInstructions.toNat < observed then
        .error (.atInstruction decoded (.limitExceeded .instructions
          maxInstructions.toNat observed))
      else do
        let bitmap ← markInstructionStart body.instructionStartBitmap
          bytecodeLen decoded.pc
        predecodeItems bytecodeLen maxInstructions rest
          { instructions := body.instructions ++ [decoded]
            instructionStartBitmap := bitmap }

/-- Decodes the complete body and records every instruction boundary. -/
def predecodeComplete (bytecode : List UInt8) (maxInstructions : UInt32) :
    Except VerificationError PredecodedBody :=
  predecodeItems bytecode.length maxInstructions
    (InstructionDecoder.new bytecode).collect
    { instructions := []
      instructionStartBitmap := allocateBoundaryBitmap bytecode.length }

/-! ## Opcode semantics -/

inductive SuccessorShape where
  | fallthrough
  | branch
  | jump
  | terminate
deriving DecidableEq

inductive OpcodeSemantics where
  | invalid
  | ordinary
  | conditional
  | jump
  | terminate
  | unsupported (feature : UnsupportedVerifierFeature) (shape : SuccessorShape)
deriving DecidableEq

def OpcodeSemantics.successorShape : OpcodeSemantics → Option SuccessorShape
  | .invalid => none
  | .ordinary => some .fallthrough
  | .conditional => some .branch
  | .jump => some .jump
  | .terminate => some .terminate
  | .unsupported _ shape => some shape

/-- The capability policy of the verifier. -/
def opcodeSemantics : FinalOpcode → OpcodeSemantics
  | .invalid => .invalid
  | .ifFalse | .ifTrue | .ifFalse8 | .ifTrue8 | .catchOp | .gosub
  | .withGetVar | .withDeleteVar | .withMakeRef | .withGetRef => .conditional
  | .goto | .goto8 | .goto16 => .jump
  | .tailCall | .tailCallMethod | .tailApply | .tailEval | .tailApplyEval
  | .returnOp | .returnUndef | .returnAsync | .throw | .throwError | .ret =>
      .terminate
  | .pushConst | .fClosure | .pushConst8 | .fClosure8 =>
      .unsupported .constantPoolTyping .fallthrough
  | .defineClassComputed => .unsupported .rawFunctionStack .fallthrough
  | .eval | .applyEval => .unsupported .evalScopeMetadata .fallthrough
  | .closeLoc | .makeLocRef | .makeArgRef | .makeVarRefRef | .makeVarRef =>
      .unsupported .capturedBindingMetadata .fallthrough
  | .withPutVar => .unsupported .withEnvironmentBranches .branch
  | .forOfStart | .forAwaitOfStart | .forOfNext | .forAwaitOfNext
  | .iteratorGetValueDone | .iteratorClose | .iteratorNext | .iteratorCall =>
      .unsupported .iteratorMarkers .fallthrough
  | .copyDataProperties => .unsupported .packedStackOffsets .fallthrough
  | _ => .ordinary

/-! ## Operand indices -/

def validateIndex (decoded : DecodedInstruction) (domain : OperandIndexDomain)
    (index len : UInt32) : Except VerificationError Unit :=
  if len ≤ index then
    .error (.atInstruction decoded (.indexOutOfBounds domain index len))
  else
    .ok ()

def impliedLocalIndex : FinalOpcode → Option UInt32
  | .getLoc0 | .putLoc0 | .setLoc0 => some 0
  | .getLoc1 | .putLoc1 | .setLoc1 => some 1
  | .getLoc2 | .putLoc2 | .setLoc2 => some 2
  | .getLoc3 | .putLoc3 | .setLoc3 => some 3
  | _ => none

def impliedArgumentIndex : FinalOpcode → Option UInt32
  | .getArg0 | .putArg0 | .setArg0 => some 0
  | .getArg1 | .putArg1 | .setArg1 => some 1
  | .getArg2 | .putArg2 | .setArg2 => some 2
  | .getArg3 | .putArg3 | .setArg3 => some 3
  | _ => none

def impliedClosureVariableIndex : FinalOpcode → Option UInt32
  | .getVarRef0 | .putVarRef0 | .setVarRef0 => some 0
  | .getVarRef1 | .putVarRef1 | .setVarRef1 => some 1
  | .getVarRef2 | .putVarRef2 | .setVarRef2 => some 2
  | .getVarRef3 | .putVarRef3 | .setVarRef3 => some 3
  | _ => none

/-- Checks an index implied by the opcode of a short form. -/
def validateImpliedIndex (decoded : DecodedInstruction)
    (domain : OperandIndexDomain) (expected : OperandFormat)
    (implied : Option UInt32) (len : UInt32) : Except VerificationError Unit :=
  match implied with
  | none =>
      .error (.atInstruction decoded (.missingControlFlowOperand expected))
  | some index => validateIndex decoded domain index len

def validateOperandIndices (decoded : DecodedInstruction)
    (domains : FunctionIndexDomains) : Except VerificationError Unit := do
  let opcode := decoded.instruction.opcode
  let operands := decoded.instruction.operands
  match operands.atomPoolIndex with
  | some index => validateIndex decoded .atomPool index domains.atomPoolLen
  | none => .ok ()
  match operands with
  | .const index =>
      validateIndex decoded .constantPool index domains.constantPoolLen
  | .const8 index =>
      validateIndex decoded .constantPool index.toUInt32 domains.constantPoolLen
  | .loc index => validateIndex decoded .loc index.toUInt32 domains.localCount
  | .loc8 index => validateIndex decoded .loc index.toUInt32 domains.localCount
  | .arg index =>
      validateIndex decoded .argument index.toUInt32 domains.argumentCount
  | .varRef index =>
      validateIndex decoded .closureVariable index.toUInt32
        domains.closureVarCount
  | .atomU16 _ value =>
      match opcode with
      | .makeLocRef =>
          validateIndex decoded .loc value.toUInt32 domains.localCount
      | .makeArgRef =>
          validateIndex decoded .argument value.toUInt32 domains.argumentCount
      | .makeVarRefRef =>
          validateIndex decoded .closureVariable value.toUInt32
            domains.closureVarCount
      | _ => .ok ()
  | .noneLoc =>
      validateImpliedIndex decoded .loc .noneLoc (impliedLocalIndex opcode)
        domains.localCount
  | .noneArg =>
      validateImpliedIndex decoded .argument .noneArg
        (impliedArgumentIndex opcode) domains.argumentCount
  | .noneVarRef =>
      validateImpliedIndex decoded .closureVariable .noneVarRef
        (impliedClosureVariableIndex opcode) domains.closureVarCount
  | _ => .ok ()

/-- The secondary operand an instruction misuses, if any. -/
def invalidSecondaryOperand (domains : FunctionIndexDomains)
    (opcode : FinalOpcode) (operands : Operands) :
    Option (SecondaryOperandField × UInt32) :=
  let rejected (condition : Bool) (field : SecondaryOperandField)
      (value : UInt32) : Option (SecondaryOperandField × UInt32) :=
    if condition then some (field, value) else none
  match opcode, operands with
  | .specialObject, .u8 value =>
      rejected (6 < value) .specialObjectKind value.toUInt32
  | .rest, .u16 value =>
      rejected (domains.argumentCount < value.toUInt32) .restFirstArgument
        value.toUInt32
  | .apply, .u16 value => rejected (2 < value) .applyMagic value.toUInt32
  | .throwError, .atomU8 _ value =>
      rejected (4 < value) .throwErrorKind value.toUInt32
  | .defineMethod, .atomU8 _ value =>
      rejected (value &&& ~~~7 ≠ 0 || value &&& 3 = 3) .defineMethodFlags
        value.toUInt32
  | .defineMethodComputed, .u8 value =>
      rejected (value &&& ~~~7 ≠ 0 || value &&& 3 = 3) .defineMethodFlags
        value.toUInt32
  | .definePrivateField, .u8 value =>
      rejected (3 < value) .definePrivateFieldKind value.toUInt32
  | .defineClass, .atomU8 _ value | .defineClassComputed, .atomU8 _ value =>
      rejected (3 < value) .defineClassFlags value.toUInt32
  | .withGetVar, .atomLabelU8 _ _ value | .withPutVar, .atomLabelU8 _ _ value
  | .withDeleteVar, .atomLabelU8 _ _ value
  | .withMakeRef, .atomLabelU8 _ _ value
  | .withGetRef, .atomLabelU8 _ _ value =>
      rejected (1 < value) .isWith value.toUInt32
  | .iteratorCall, .u8 value =>
      rejected (2 < value) .iteratorCallFlags value.toUInt32
  | _, _ => none

def validateSecondaryOperands (decoded : DecodedInstruction)
    (domains : FunctionIndexDomains) : Except VerificationError Unit :=
  match invalidSecondaryOperand domains decoded.instruction.opcode
      decoded.instruction.operands with
  | some (field, value) =>
      .error (.atInstruction decoded (.invalidSecondaryOperand field value))
  | none => .ok ()

/-! ## Targets -/

/-- The index of the instruction that starts at a position. -/
def decodedInstructionIndexAt (instructions : List DecodedInstruction)
    (bitmap : List UInt64) (bytecodeLen : Nat) (pc : BytecodePc) :
    Option Nat :=
  if isInstructionStart bitmap bytecodeLen pc then
    match binarySearchByKey instructions pc.toNat (·.pc.toNat) with
    | some index => if index < 2 ^ 32 then some index else none
    | none => none
  else
    none

def resolveTarget (decoded : DecodedInstruction) (edge : ControlFlowEdge)
    (target : Int) (instructions : List DecodedInstruction)
    (bitmap : List UInt64) (bytecodeLen : Nat) :
    Except VerificationError Nat :=
  let invalid (reason : InvalidControlFlowTargetReason) : VerificationError :=
    .atInstruction decoded
      (.invalidControlFlowTarget edge target bytecodeLen reason)
  if 2 ^ 32 ≤ bytecodeLen then
    .error (.root (.limitExceeded .bytecodeBytes (2 ^ 32 - 1) bytecodeLen))
  else if target < 0 ∨ (bytecodeLen : Int) ≤ target then
    .error (invalid .outsideBytecode)
  else if decoded.instruction.opcode = .catchOp ∧ target = 0 then
    .error (invalid .catchTargetZero)
  else
    match decodedInstructionIndexAt instructions bitmap bytecodeLen
        (UInt32.ofNat target.toNat) with
    | some index => .ok index
    | none => .error (invalid .notInstructionBoundary)

/-- The edge, the displacement base and the displacement of an instruction
with an encoded target. -/
def relativeTargetSpec (decoded : DecodedInstruction) :
    Except VerificationError (Option (ControlFlowEdge × Int × Int)) :=
  let missing (expected : OperandFormat) :
      Except VerificationError (Option (ControlFlowEdge × Int × Int)) :=
    .error (.atInstruction decoded (.missingControlFlowOperand expected))
  match decoded.instruction.opcode with
  | .ifFalse8 | .ifTrue8 =>
      match decoded.instruction.operands with
      | .label8 displacement => .ok (some (.branch, 1, displacement.toInt))
      | _ => missing .label8
  | .ifFalse | .ifTrue =>
      match decoded.instruction.operands with
      | .label displacement => .ok (some (.branch, 1, displacement.toInt))
      | _ => missing .label
  | .goto8 =>
      match decoded.instruction.operands with
      | .label8 displacement => .ok (some (.jump, 1, displacement.toInt))
      | _ => missing .label8
  | .goto16 =>
      match decoded.instruction.operands with
      | .label16 displacement => .ok (some (.jump, 1, displacement.toInt))
      | _ => missing .label16
  | .goto =>
      match decoded.instruction.operands with
      | .label displacement => .ok (some (.jump, 1, displacement.toInt))
      | _ => missing .label
  | .catchOp =>
      match decoded.instruction.operands with
      | .label displacement => .ok (some (.catchHandler, 1, displacement.toInt))
      | _ => missing .label
  | .gosub =>
      match decoded.instruction.operands with
      | .label displacement =>
          .ok (some (.finallySubroutine, 1, displacement.toInt))
      | _ => missing .label
  | .withGetVar | .withPutVar | .withDeleteVar | .withMakeRef | .withGetRef =>
      match decoded.instruction.operands with
      | .atomLabelU8 _ label _ => .ok (some (.withBinding, 5, label.toInt))
      | _ => missing .atomLabelU8
  | _ => .ok none

def resolveRelativeTarget (decoded : DecodedInstruction)
    (instructions : List DecodedInstruction) (bitmap : List UInt64)
    (bytecodeLen : Nat) : Except VerificationError (Option Nat) := do
  match ← relativeTargetSpec decoded with
  | none => return none
  | some (edge, baseDelta, displacement) =>
      let target := (decoded.pc.toNat : Int) + baseDelta + displacement
      let index ← resolveTarget decoded edge target instructions bitmap
        bytecodeLen
      return some index

def resolveFallthrough (decoded : DecodedInstruction)
    (instructions : List DecodedInstruction) (bitmap : List UInt64)
    (bytecodeLen : Nat) : Except VerificationError Nat :=
  resolveTarget decoded .fallthrough decoded.nextPc.toNat instructions bitmap
    bytecodeLen

def validateGosubContinuation (decoded : DecodedInstruction)
    (instructions : List DecodedInstruction) (bitmap : List UInt64)
    (bytecodeLen : Nat) : Except VerificationError Unit :=
  if decoded.instruction.opcode ≠ .gosub then
    .ok ()
  else do
    let _ ← resolveTarget decoded .finallyContinuation decoded.nextPc.toNat
      instructions bitmap bytecodeLen
    return ()

def requireEncodedTarget (decoded : DecodedInstruction)
    (target : Option Nat) : Except VerificationError Nat :=
  match target with
  | some index => .ok index
  | none =>
      .error (.atInstruction decoded (.missingControlFlowOperand
        decoded.instruction.opcode.metadata.operandFormat))

/-! ## Static semantics -/

def resolveStaticSuccessors (current : DecodedInstruction)
    (semantics : OpcodeSemantics) (target : Option Nat)
    (instructions : List DecodedInstruction) (bitmap : List UInt64)
    (bytecodeLen : Nat) : Except VerificationError VerifiedSuccessors :=
  match semantics.successorShape with
  | none =>
      .error (.atInstruction current (.decode (.invalidOpcode current.pc
        FinalOpcode.invalid.encodedByte .reservedInvalid)))
  | some .fallthrough => do
      return .fallthrough
        (← resolveFallthrough current instructions bitmap bytecodeLen)
  | some .branch => do
      let taken ← requireEncodedTarget current target
      let notTaken ← resolveFallthrough current instructions bitmap bytecodeLen
      return .branch taken notTaken
  | some .jump => do
      return .jump (← requireEncodedTarget current target)
  | some .terminate => .ok .terminate

def validateFunctionKindOpcode (decoded : DecodedInstruction)
    (functionKind : FunctionKind) : Except VerificationError Unit :=
  let requirement : Option FunctionKindRequirement :=
    match decoded.instruction.opcode with
    | .tailCall | .tailCallMethod | .tailApply | .tailEval | .tailApplyEval
    | .returnOp | .returnUndef => some .normal
    | .initialYield | .yield => some .generator
    | .yieldStar => some .synchronousGenerator
    | .asyncYieldStar => some .asyncGenerator
    | .await => some .async
    | .returnAsync => some .nonNormal
    | _ => none
  match requirement with
  | none => .ok ()
  | some requirement =>
      if requirement.accepts functionKind then
        .ok ()
      else
        .error (.atInstruction decoded
          (.opcodeNotAllowedForFunctionKind functionKind requirement))

def validateCompilerConstantKind (decoded : DecodedInstruction)
    (constantLayout : CompilerConstantLayout) :
    Except VerificationError Unit :=
  let access : Option (UInt32 × CompilerConstantKind) :=
    match decoded.instruction.opcode, decoded.instruction.operands with
    | .pushConst, .const index => some (index, .value)
    | .pushConst8, .const8 index => some (index.toUInt32, .value)
    | .fClosure, .const index => some (index, .function)
    | .fClosure8, .const8 index => some (index.toUInt32, .function)
    | _, _ => none
  match access with
  | none =>
      .error (.atInstruction decoded (.missingControlFlowOperand
        decoded.instruction.opcode.metadata.operandFormat))
  | some (index, expected) =>
      match constantLayout.kinds[index.toNat]? with
      | none =>
          .error (.atInstruction decoded (.indexOutOfBounds .constantPool index
            (UInt32.ofNat (min constantLayout.kinds.length (2 ^ 32 - 1)))))
      | some actual =>
          if expected = .value ∧ actual = .function then
            .error (.atInstruction decoded
              (.unsupportedOpcodeSemantics .rawFunctionStack))
          else if actual ≠ expected then
            .error (.atInstruction decoded
              (.compilerConstantKindMismatch index expected actual))
          else
            .ok ()

def validateCompilerCloseLoc (decoded : DecodedInstruction)
    (captureLayout : CompilerCaptureLayout) : Except VerificationError Unit :=
  match decoded.instruction.operands with
  | .loc index =>
      if captureLayout.isScopedLocal index.toUInt32 then
        .ok ()
      else
        .error (.atInstruction decoded
          (.closeLocRequiresScopedCapture index.toUInt32))
  | _ =>
      .error (.atInstruction decoded (.missingControlFlowOperand .loc))

/-- Opcodes whose metadata the whole-function verifier proves later. -/
def isDeferredCompilerOpcode : FinalOpcode → Bool
  | .forOfStart | .forAwaitOfStart | .forOfNext | .forAwaitOfNext
  | .iteratorGetValueDone | .iteratorClose | .iteratorNext | .iteratorCall
  | .copyDataProperties | .eval | .applyEval | .makeVarRefRef => true
  | _ => false

/-- The compiler metadata that static validation may consult. -/
structure CompilerContext where
  captureLayout : Option CompilerCaptureLayout
  constantLayout : Option CompilerConstantLayout
  compilerGenerated : Bool

def validateOpcodeCapability (decoded : DecodedInstruction)
    (context : CompilerContext) : Except VerificationError Unit :=
  match opcodeSemantics decoded.instruction.opcode with
  | .unsupported feature _ =>
      let unsupported : Except VerificationError Unit :=
        .error (.atInstruction decoded (.unsupportedOpcodeSemantics feature))
      match decoded.instruction.opcode with
      | .closeLoc =>
          match context.captureLayout with
          | some captureLayout => validateCompilerCloseLoc decoded captureLayout
          | none => unsupported
      | .pushConst | .fClosure | .pushConst8 | .fClosure8 =>
          match context.constantLayout with
          | some constantLayout =>
              validateCompilerConstantKind decoded constantLayout
          | none => unsupported
      | opcode =>
          if context.compilerGenerated && isDeferredCompilerOpcode opcode then
            .ok ()
          else
            unsupported
  | _ => .ok ()

/-- Operand checks and successors of one instruction. -/
def validateInstruction (decoded : List DecodedInstruction)
    (bitmap : List UInt64) (bytecodeLen : Nat) (domains : FunctionIndexDomains)
    (current : DecodedInstruction) :
    Except VerificationError VerifiedInstruction := do
  validateOperandIndices current domains
  validateSecondaryOperands current domains
  let target ← resolveRelativeTarget current decoded bitmap bytecodeLen
  validateGosubContinuation current decoded bitmap bytecodeLen
  let successors ← resolveStaticSuccessors current
    (opcodeSemantics current.instruction.opcode) target decoded bitmap
    bytecodeLen
  return { decoded := current, entryStackDepth := none, successors }

/-- Every instruction with its successors, before stack analysis. -/
def validateStaticSemantics (decoded : List DecodedInstruction)
    (bitmap : List UInt64) (bytecodeLen : Nat) (domains : FunctionIndexDomains)
    (functionKind : FunctionKind) (context : CompilerContext) :
    Except VerificationError (List VerifiedInstruction) := do
  let verified ← decoded.mapM
    (validateInstruction decoded bitmap bytecodeLen domains)
  verified.forM fun instruction => do
    validateOpcodeCapability instruction.decoded context
    validateFunctionKindOpcode instruction.decoded functionKind
  return verified

end Fusor.Verifier
