import Fusor.Verifier.Model

/-!
# Limits, counts, headers and compiler layouts

The checks made before and after predecoding that do not look at single
instructions.
-/

namespace Fusor.Verifier

open Fusor.Bytecode

def checkStructuralCount (domain : FunctionCountDomain) (value : UInt32) :
    Except VerificationError Unit :=
  if maxFunctionIndexEntries < value then
    .error (.root (.metadataCountOutOfRange domain value
      maxFunctionIndexEntries))
  else
    .ok ()

def checkLimit (resource : VerificationResource) (observed limit : Nat) :
    Except VerificationError Unit :=
  if limit < observed then
    .error (.root (.limitExceeded resource limit observed))
  else
    .ok ()

/-- Checks the limits themselves and every count declared by the body. -/
def validateLimitsAndCounts (bytecodeLen : Nat)
    (domains : FunctionIndexDomains) (functionHeader : UnverifiedFunctionHeader)
    (expectedStackSize : Option UInt32) (limits : VerificationLimits) :
    Except VerificationError Unit :=
  if maxOperandStackDepth < limits.maxStackDepth then
    .error (.root (.invalidStackLimit limits.maxStackDepth
      maxOperandStackDepth))
  else do
    checkLimit .bytecodeBytes bytecodeLen
      limits.maxBytecodeBytesPerFunction.toNat
    checkLimit .constants domains.constantPoolLen.toNat
      limits.maxConstantsPerFunction.toNat
    checkLimit .atomPoolEntries domains.atomPoolLen.toNat
      limits.maxAtomPoolEntries.toNat
    checkStructuralCount .arguments domains.argumentCount
    checkStructuralCount .locals domains.localCount
    checkStructuralCount .variableReferences
      functionHeader.variableReferenceCount
    checkStructuralCount .closureVariables domains.closureVarCount
    match expectedStackSize with
    | none => .ok ()
    | some expected => do
        checkStructuralCount .expectedStackSize expected
        checkLimit .stackDepth expected.toNat limits.maxStackDepth.toNat

def serializedFunctionFlagsMask : UInt16 := 0x1fff

def jsModeMask : UInt8 := 0x01

/-- The flag that a non-normal function may not carry, if it carries one. -/
def invalidKindFlag (flags : UInt16) : Option FunctionHeaderFlag :=
  if hasFlagBit flags 0 then
    some .hasPrototype
  else if hasFlagBit flags 2 then
    some .derivedClassConstructor
  else
    none

def validateFunctionHeader (header : UnverifiedFunctionHeader)
    (domains : FunctionIndexDomains) :
    Except VerificationError VerifiedFunctionHeader :=
  let flags := header.serializedFlags
  let unknownFlags := flags &&& ~~~serializedFunctionFlagsMask
  let unknownMode := header.jsMode &&& ~~~jsModeMask
  let kind := FunctionKind.fromSerializedFlags flags
  if unknownFlags ≠ 0 then
    .error (.root (.disallowedFunctionBits .serializedFlags flags
      serializedFunctionFlagsMask unknownFlags))
  else if unknownMode ≠ 0 then
    .error (.root (.disallowedFunctionBits .jsMode header.jsMode.toUInt16
      jsModeMask.toUInt16 unknownMode.toUInt16))
  else if domains.argumentCount < header.definedArgumentCount then
    .error (.root (.definedArgumentCountOutOfRange header.definedArgumentCount
      domains.argumentCount))
  else if domains.argumentCount.toNat + domains.localCount.toNat <
      header.variableReferenceCount.toNat then
    .error (.root (.variableReferenceCountOutOfRange
      header.variableReferenceCount domains.argumentCount domains.localCount))
  else if hasFlagBit flags 0 && hasFlagBit flags 2 then
    .error (.root (.conflictingFunctionFlags .hasPrototype
      .derivedClassConstructor))
  else
    let verified : VerifiedFunctionHeader :=
      { flags, mode := header.jsMode, kind,
        definedArgumentCount := header.definedArgumentCount,
        variableReferenceCount := header.variableReferenceCount }
    match kind, invalidKindFlag flags with
    | .normal, _ => .ok verified
    | _, none => .ok verified
    | kind, some flag =>
        .error (.root (.functionFlagNotAllowedForKind flag kind .normal))

def validateCompilerConstantLayout (layout : CompilerConstantLayout)
    (domains : FunctionIndexDomains) :
    Except VerificationError CompilerConstantLayout :=
  if layout.kinds.length ≠ domains.constantPoolLen.toNat then
    .error (.root (.compilerConstantCountMismatch domains.constantPoolLen
      layout.kinds.length))
  else
    .ok layout

/-- Each captured binding lies in its frame domain. -/
def validateCaptureIndices (domains : FunctionIndexDomains) :
    List CompilerCapturedBinding → Except VerificationError Unit
  | [] => .ok ()
  | binding :: rest =>
      let (index, len) : UInt32 × UInt32 :=
        match binding with
        | .argument index => (index, domains.argumentCount)
        | .functionLocal index => (index, domains.localCount)
        | .scopedLocal index => (index, domains.localCount)
      if len ≤ index then
        .error (.root (.compilerCaptureIndexOutOfBounds binding len))
      else
        validateCaptureIndices domains rest

/-- Mapped argument positions are in range and strictly ascending. -/
def validateMappedArguments (domains : FunctionIndexDomains) :
    Option UInt32 → List UInt32 → Except VerificationError Unit
  | _, [] => .ok ()
  | previous, index :: rest =>
      if domains.argumentCount ≤ index then
        .error (.root (.compilerMappedArgumentIndexOutOfBounds index
          domains.argumentCount))
      else
        match previous with
        | some previous =>
            if index ≤ previous then
              .error (.root (.compilerMappedArgumentsNotAscending previous
                index))
            else
              validateMappedArguments domains (some index) rest
        | none => validateMappedArguments domains (some index) rest

/-- No frame binding is captured twice.  `seen` are the identities inserted so
far. -/
def validateDistinctCaptures (seen : List CompilerCapturedBindingIdentity) :
    List CompilerCapturedBinding → Except VerificationError Unit
  | [] => .ok ()
  | binding :: rest =>
      if binding.identity ∈ seen then
        .error (.root (.duplicateCompilerCapture binding))
      else
        validateDistinctCaptures (binding.identity :: seen) rest

def validateCompilerCaptureLayout (layout : CompilerCaptureLayout)
    (domains : FunctionIndexDomains) (functionHeader : VerifiedFunctionHeader) :
    Except VerificationError CompilerCaptureLayout :=
  if layout.bindings.length ≠ functionHeader.variableReferenceCount.toNat then
    .error (.root (.compilerCaptureCountMismatch
      functionHeader.variableReferenceCount layout.bindings.length))
  else do
    validateCaptureIndices domains layout.bindings
    match layout.mappedArguments with
    | none => validateDistinctCaptures [] layout.bindings
    | some mappedArguments => do
        validateMappedArguments domains none mappedArguments
        validateDistinctCaptures [] layout.bindings
    return layout

/-- Whether a local is captured as a scoped local. -/
def CompilerCaptureLayout.isScopedLocal (layout : CompilerCaptureLayout)
    (loc : UInt32) : Bool :=
  layout.bindings.find? (·.identity = .loc loc) = some (.scopedLocal loc)

end Fusor.Verifier
