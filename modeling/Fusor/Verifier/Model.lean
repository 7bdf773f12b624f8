import Fusor.Bytecode.Stream

/-!
# Verifier inputs, limits and certificates

Function metadata, index domains, resource limits and structured errors of
the control-flow verifier.  Allocation failures have no counterpart here: a
refused reservation only turns an accepted body into a rejected one.
-/

namespace Fusor.Verifier

open Fusor.Bytecode

/-- The function execution kind, stored in bits four and five of the flags. -/
inductive FunctionKind where
  | normal
  | generator
  | async
  | asyncGenerator
deriving DecidableEq

def FunctionKind.fromSerializedFlags (flags : UInt16) : FunctionKind :=
  match (flags &&& 0x30).toNat with
  | 0 => .normal
  | 16 => .generator
  | 32 => .async
  | _ => .asyncGenerator

inductive FunctionKindRequirement where
  | normal
  | generator
  | synchronousGenerator
  | async
  | asyncGenerator
  | nonNormal
deriving DecidableEq

def FunctionKindRequirement.accepts :
    FunctionKindRequirement → FunctionKind → Bool
  | .normal, kind => kind = .normal
  | .generator, kind => kind = .generator || kind = .asyncGenerator
  | .synchronousGenerator, kind => kind = .generator
  | .async, kind => kind = .async || kind = .asyncGenerator
  | .asyncGenerator, kind => kind = .asyncGenerator
  | .nonNormal, kind => kind ≠ .normal

inductive FunctionHeaderFlag where
  | hasPrototype
  | derivedClassConstructor
deriving DecidableEq

inductive FunctionBitField where
  | serializedFlags
  | jsMode
deriving DecidableEq

structure UnverifiedFunctionHeader where
  serializedFlags : UInt16
  jsMode : UInt8
  definedArgumentCount : UInt32
  variableReferenceCount : UInt32
deriving DecidableEq

/-- A bit of the serialized function flags. -/
def hasFlagBit (flags : UInt16) (bit : UInt16) : Bool :=
  flags &&& (1 <<< bit) ≠ 0

structure VerifiedFunctionHeader where
  flags : UInt16
  mode : UInt8
  kind : FunctionKind
  definedArgumentCount : UInt32
  variableReferenceCount : UInt32
deriving DecidableEq

structure FunctionIndexDomains where
  atomPoolLen : UInt32
  constantPoolLen : UInt32
  argumentCount : UInt32
  localCount : UInt32
  closureVarCount : UInt32
deriving DecidableEq

/-- Maximum argument, local, closure-reference or stack count. -/
def maxFunctionIndexEntries : UInt32 := 65534

/-- Structural maximum operand-stack depth. -/
def maxOperandStackDepth : UInt32 := 65534

structure VerificationLimits where
  maxBytecodeBytesPerFunction : UInt32
  maxInstructionsPerFunction : UInt32
  maxConstantsPerFunction : UInt32
  maxAtomPoolEntries : UInt32
  maxTransferEvaluations : UInt64
  maxStackDepth : UInt32
deriving DecidableEq

/-- The default limits, for untrusted bytecode. -/
def VerificationLimits.untrusted : VerificationLimits where
  maxBytecodeBytesPerFunction := 16 * 1024 * 1024
  maxInstructionsPerFunction := 4194304
  maxConstantsPerFunction := 262144
  maxAtomPoolEntries := 1048576
  maxTransferEvaluations := 33554432
  maxStackDepth := maxOperandStackDepth

inductive VerificationResource where
  | bytecodeBytes
  | instructions
  | constants
  | atomPoolEntries
  | transferEvaluations
  | stackDepth
deriving DecidableEq

inductive CompilerCapturedBinding where
  | argument (index : UInt32)
  | functionLocal (index : UInt32)
  | scopedLocal (index : UInt32)
deriving DecidableEq

inductive CompilerCapturedBindingIdentity where
  | argument (index : UInt32)
  | loc (index : UInt32)
deriving DecidableEq

def CompilerCapturedBinding.identity :
    CompilerCapturedBinding → CompilerCapturedBindingIdentity
  | .argument index => .argument index
  | .functionLocal index => .loc index
  | .scopedLocal index => .loc index

structure CompilerCaptureLayout where
  bindings : List CompilerCapturedBinding
  mappedArguments : Option (List UInt32)
deriving DecidableEq

inductive CompilerConstantKind where
  | value
  | function
deriving DecidableEq

structure CompilerConstantLayout where
  kinds : List CompilerConstantKind
deriving DecidableEq

inductive FunctionCountDomain where
  | arguments
  | locals
  | variableReferences
  | closureVariables
  | expectedStackSize
deriving DecidableEq

inductive OperandIndexDomain where
  | atomPool
  | constantPool
  | loc
  | argument
  | closureVariable
deriving DecidableEq

inductive SecondaryOperandField where
  | specialObjectKind
  | restFirstArgument
  | applyMagic
  | throwErrorKind
  | defineMethodFlags
  | definePrivateFieldKind
  | defineClassFlags
  | isWith
  | iteratorCallFlags
deriving DecidableEq

inductive ControlFlowEdge where
  | fallthrough
  | branch
  | jump
  | catchHandler
  | finallySubroutine
  | finallyContinuation
  | withBinding
deriving DecidableEq

inductive InvalidControlFlowTargetReason where
  | outsideBytecode
  | notInstructionBoundary
  | catchTargetZero
deriving DecidableEq

inductive UnsupportedVerifierFeature where
  | constantPoolTyping
  | rawFunctionStack
  | evalScopeMetadata
  | capturedBindingMetadata
  | withEnvironmentBranches
  | iteratorMarkers
  | packedStackOffsets
deriving DecidableEq

inductive VerificationErrorKind where
  | emptyBytecode
  | limitExceeded (resource : VerificationResource) (limit observed : Nat)
  | metadataCountOutOfRange (domain : FunctionCountDomain)
      (value maximum : UInt32)
  | disallowedFunctionBits (field : FunctionBitField)
      (value allowedMask disallowedBits : UInt16)
  | definedArgumentCountOutOfRange (defined argumentCount : UInt32)
  | variableReferenceCountOutOfRange
      (variableReferences argumentCount localCount : UInt32)
  | compilerCaptureCountMismatch (variableReferences : UInt32) (captures : Nat)
  | missingCompilerCaptureLayout (variableReferences : UInt32)
  | compilerConstantCountMismatch (declared : UInt32) (entries : Nat)
  | missingCompilerConstantLayout (constants : UInt32)
  | compilerConstantKindMismatch (index : UInt32)
      (expected actual : CompilerConstantKind)
  | compilerCaptureIndexOutOfBounds (binding : CompilerCapturedBinding)
      (len : UInt32)
  | duplicateCompilerCapture (binding : CompilerCapturedBinding)
  | compilerMappedArgumentIndexOutOfBounds (index len : UInt32)
  | compilerMappedArgumentsNotAscending (previous index : UInt32)
  | closeLocRequiresScopedCapture (loc : UInt32)
  | functionFlagNotAllowedForKind (flag : FunctionHeaderFlag)
      (kind : FunctionKind) (requirement : FunctionKindRequirement)
  | conflictingFunctionFlags (first second : FunctionHeaderFlag)
  | invalidStackLimit (value maximum : UInt32)
  | decode (source : DecodeError)
  | indexOutOfBounds (domain : OperandIndexDomain) (index len : UInt32)
  | invalidSecondaryOperand (field : SecondaryOperandField) (value : UInt32)
  | invalidControlFlowTarget (edge : ControlFlowEdge) (target : Int)
      (bytecodeLen : Nat) (reason : InvalidControlFlowTargetReason)
  | missingControlFlowOperand (expected : OperandFormat)
  | unsupportedOpcodeSemantics (feature : UnsupportedVerifierFeature)
  | opcodeNotAllowedForFunctionKind (kind : FunctionKind)
      (requirement : FunctionKindRequirement)
  | stackEffect (source : StackEffectError)
  | stackUnderflow (required available : Nat)
  | stackLimitExceeded (depth : Nat) (limit : UInt32)
  | inconsistentStackAtJoin (target : BytecodePc)
      (establishedDepth incomingDepth : Nat) (incomingFrom : BytecodePc)
  | nonEmptyCompilerExitStack (remaining : Nat)
  | serializedStackSizeMismatch (serialized : UInt32) (computed : Nat)
deriving DecidableEq

/-- A verifier failure, with the instruction it is about when there is one. -/
structure VerificationError where
  pc : Option BytecodePc
  opcode : Option FinalOpcode
  kind : VerificationErrorKind
deriving DecidableEq

namespace VerificationError

def root (kind : VerificationErrorKind) : VerificationError :=
  { pc := none, opcode := none, kind }

def atInstruction (decoded : DecodedInstruction)
    (kind : VerificationErrorKind) : VerificationError :=
  { pc := some decoded.pc, opcode := some decoded.instruction.opcode, kind }

/-- The position and opcode a decode error is about. -/
def fromDecode (source : DecodeError) : VerificationError :=
  let (pc, opcode) : BytecodePc × Option FinalOpcode :=
    match source with
    | .pcOutOfBounds pc _ => (pc, none)
    | .missingOpcode pc _ _ => (pc, none)
    | .invalidOpcode pc _ _ => (pc, none)
    | .truncatedOperands pc opcode _ _ => (pc, some opcode)
    | .operandDecoding pc opcode _ => (pc, some opcode)
    | .nextPcOverflow pc _ => (pc, none)
  { pc := some pc, opcode, kind := .decode source }

end VerificationError

/-- A body as read from serialized bytecode. -/
structure UnverifiedFunctionBody where
  bytecode : List UInt8
  expectedStackSize : UInt32
  domains : FunctionIndexDomains
  functionHeader : UnverifiedFunctionHeader
deriving DecidableEq

/-- Recorded successors, as indices into the instruction list. -/
inductive VerifiedSuccessors where
  | fallthrough (successor : Nat)
  | branch (taken notTaken : Nat)
  | jump (successor : Nat)
  | terminate
deriving DecidableEq

structure VerifiedInstruction where
  decoded : DecodedInstruction
  entryStackDepth : Option Nat
  successors : VerifiedSuccessors
deriving DecidableEq

structure VerifiedControlFlow where
  bytecode : List UInt8
  instructions : List VerifiedInstruction
  instructionStartBitmap : List UInt64
  computedStackSize : Nat
  transferEvaluations : Nat
  domains : FunctionIndexDomains
  functionHeader : VerifiedFunctionHeader
  compilerCaptureLayout : Option CompilerCaptureLayout
  compilerConstantLayout : Option CompilerConstantLayout
deriving DecidableEq

end Fusor.Verifier
