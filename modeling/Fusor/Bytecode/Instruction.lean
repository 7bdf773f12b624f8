import Fusor.Bytecode.Opcode
import Fusor.Wire.LittleEndian

/-!
# Typed operands and validated instructions

Operands are encoded into at most ten little-endian bytes whose number is
fixed by their format.  An `Instruction` carries the two facts its
constructor checks, so a decoded or pushed instruction always has operands of
the format its opcode declares.
-/

namespace Fusor.Bytecode

open Fusor.Wire

/-- Maximum encoded operand width in the opcode schema. -/
def maxEncodedOperandBytes : Nat := 10

/-- Lossless typed operands, one variant per operand format. -/
inductive Operands where
  | none
  | noneInt
  | noneLoc
  | noneArg
  | noneVarRef
  | u8 (value : UInt8)
  | i8 (value : Int8)
  | loc8 (index : UInt8)
  | const8 (index : UInt8)
  | label8 (displacement : Int8)
  | u16 (value : UInt16)
  | i16 (value : Int16)
  | label16 (displacement : Int16)
  | nPop (argumentCount : UInt16)
  | nPopX
  | nPopU16 (argumentCount scopeIndex : UInt16)
  | loc (index : UInt16)
  | arg (index : UInt16)
  | varRef (index : UInt16)
  | u32 (value : UInt32)
  | i32 (value : Int32)
  | const (index : UInt32)
  | label (displacement : Int32)
  | atom (index : UInt32)
  | atomU8 (atom : UInt32) (value : UInt8)
  | atomU16 (atom : UInt32) (value : UInt16)
  | atomLabelU8 (atom : UInt32) (label : Int32) (value : UInt8)
  | atomLabelU16 (atom : UInt32) (label : Int32) (value : UInt16)
  | labelU16 (label : Int32) (value : UInt16)
deriving DecidableEq

/-- Failure to encode typed operands. -/
inductive OperandEncodeError where
  | bufferCapacityExceeded (format : OperandFormat) (capacityBytes : Nat)
  | schemaWidthMismatch (format : OperandFormat)
      (expectedBytes actualBytes : Nat)
deriving DecidableEq

/-- Failure to decode a typed operand payload. -/
inductive OperandDecodeError where
  | lengthMismatch (format : OperandFormat) (expectedBytes actualBytes : Nat)
deriving DecidableEq

namespace Operands

def format : Operands → OperandFormat
  | .none => .none
  | .noneInt => .noneInt
  | .noneLoc => .noneLoc
  | .noneArg => .noneArg
  | .noneVarRef => .noneVarRef
  | .u8 _ => .u8
  | .i8 _ => .i8
  | .loc8 _ => .loc8
  | .const8 _ => .const8
  | .label8 _ => .label8
  | .u16 _ => .u16
  | .i16 _ => .i16
  | .label16 _ => .label16
  | .nPop _ => .nPop
  | .nPopX => .nPopX
  | .nPopU16 _ _ => .nPopU16
  | .loc _ => .loc
  | .arg _ => .arg
  | .varRef _ => .varRef
  | .u32 _ => .u32
  | .i32 _ => .i32
  | .const _ => .const
  | .label _ => .label
  | .atom _ => .atom
  | .atomU8 _ _ => .atomU8
  | .atomU16 _ _ => .atomU16
  | .atomLabelU8 _ _ _ => .atomLabelU8
  | .atomLabelU16 _ _ _ => .atomLabelU16
  | .labelU16 _ _ => .labelU16

/-- The dynamic argument count stored in the operands, if any. -/
def dynamicArgumentCount : Operands → Option UInt16
  | .nPop argumentCount => some argumentCount
  | .nPopU16 argumentCount _ => some argumentCount
  | _ => Option.none

/-- The function-local atom-pool index carried by an atom operand. -/
def atomPoolIndex : Operands → Option UInt32
  | .atom index => some index
  | .atomU8 index _ => some index
  | .atomU16 index _ => some index
  | .atomLabelU8 index _ _ => some index
  | .atomLabelU16 index _ _ => some index
  | _ => Option.none

/-- Appends bytes to the fixed-capacity operand buffer. -/
def pushBytes (format : OperandFormat) (output bytes : List UInt8) :
    Except OperandEncodeError (List UInt8) :=
  if output.length + bytes.length ≤ maxEncodedOperandBytes then
    .ok (output ++ bytes)
  else
    .error (.bufferCapacityExceeded format maxEncodedOperandBytes)

/-- The pushes made for each variant, in order. -/
def pushAll (operands : Operands) : Except OperandEncodeError (List UInt8) :=
  let push := pushBytes operands.format
  match operands with
  | .none | .noneInt | .noneLoc | .noneArg | .noneVarRef | .nPopX => .ok []
  | .u8 value | .loc8 value | .const8 value => push [] [value]
  | .i8 value | .label8 value => push [] [value.toUInt8]
  | .u16 value | .loc value | .arg value | .varRef value | .nPop value =>
      push [] (le16 value)
  | .i16 value | .label16 value => push [] (le16 value.toUInt16)
  | .nPopU16 argumentCount scopeIndex => do
      push (← push [] (le16 argumentCount)) (le16 scopeIndex)
  | .u32 value | .const value | .atom value => push [] (le32 value)
  | .i32 value | .label value => push [] (le32 value.toUInt32)
  | .atomU8 index value => do push (← push [] (le32 index)) [value]
  | .atomU16 index value => do push (← push [] (le32 index)) (le16 value)
  | .atomLabelU8 index target value => do
      push (← push (← push [] (le32 index)) (le32 target.toUInt32)) [value]
  | .atomLabelU16 index target value => do
      push (← push (← push [] (le32 index)) (le32 target.toUInt32))
        (le16 value)
  | .labelU16 target value => do
      push (← push [] (le32 target.toUInt32)) (le16 value)

/-- Encodes the operands, checking the width declared by their format. -/
def encode (operands : Operands) : Except OperandEncodeError (List UInt8) := do
  let output ← operands.pushAll
  let expected := operands.format.operandWidth
  if output.length ≠ expected then
    .error (.schemaWidthMismatch operands.format expected output.length)
  else
    .ok output

def readU8 (bytes : List UInt8) (offset : Nat) : Option UInt8 :=
  bytes[offset]?

def readU16 (bytes : List UInt8) (offset : Nat) : Option UInt16 := do
  return ofLe16 [← readU8 bytes offset, ← readU8 bytes (offset + 1)]

def readI16 (bytes : List UInt8) (offset : Nat) : Option Int16 := do
  return (ofLe16 [← readU8 bytes offset, ← readU8 bytes (offset + 1)]).toInt16

def readU32 (bytes : List UInt8) (offset : Nat) : Option UInt32 := do
  return ofLe32 [← readU8 bytes offset, ← readU8 bytes (offset + 1),
    ← readU8 bytes (offset + 2), ← readU8 bytes (offset + 3)]

def readI32 (bytes : List UInt8) (offset : Nat) : Option Int32 := do
  return (ofLe32 [← readU8 bytes offset, ← readU8 bytes (offset + 1),
    ← readU8 bytes (offset + 2), ← readU8 bytes (offset + 3)]).toInt32

/-- The typed reads made for each format; `none` is a read past the end. -/
def readFormat (bytes : List UInt8) : OperandFormat → Option Operands
  | .none => some .none
  | .noneInt => some .noneInt
  | .noneLoc => some .noneLoc
  | .noneArg => some .noneArg
  | .noneVarRef => some .noneVarRef
  | .u8 => return .u8 (← readU8 bytes 0)
  | .i8 => return .i8 (← readU8 bytes 0).toInt8
  | .loc8 => return .loc8 (← readU8 bytes 0)
  | .const8 => return .const8 (← readU8 bytes 0)
  | .label8 => return .label8 (← readU8 bytes 0).toInt8
  | .u16 => return .u16 (← readU16 bytes 0)
  | .i16 => return .i16 (← readI16 bytes 0)
  | .label16 => return .label16 (← readI16 bytes 0)
  | .nPop => return .nPop (← readU16 bytes 0)
  | .nPopX => some .nPopX
  | .nPopU16 => return .nPopU16 (← readU16 bytes 0) (← readU16 bytes 2)
  | .loc => return .loc (← readU16 bytes 0)
  | .arg => return .arg (← readU16 bytes 0)
  | .varRef => return .varRef (← readU16 bytes 0)
  | .u32 => return .u32 (← readU32 bytes 0)
  | .i32 => return .i32 (← readI32 bytes 0)
  | .const => return .const (← readU32 bytes 0)
  | .label => return .label (← readI32 bytes 0)
  | .atom => return .atom (← readU32 bytes 0)
  | .atomU8 => return .atomU8 (← readU32 bytes 0) (← readU8 bytes 4)
  | .atomU16 => return .atomU16 (← readU32 bytes 0) (← readU16 bytes 4)
  | .atomLabelU8 =>
      return .atomLabelU8 (← readU32 bytes 0) (← readI32 bytes 4)
        (← readU8 bytes 8)
  | .atomLabelU16 =>
      return .atomLabelU16 (← readU32 bytes 0) (← readI32 bytes 4)
        (← readU16 bytes 8)
  | .labelU16 => return .labelU16 (← readI32 bytes 0) (← readU16 bytes 4)

/-- Decodes exactly one operand payload of the selected format. -/
def decode (format : OperandFormat) (bytes : List UInt8) :
    Except OperandDecodeError Operands :=
  let malformed := OperandDecodeError.lengthMismatch format
    format.operandWidth bytes.length
  if bytes.length ≠ format.operandWidth then
    .error malformed
  else
    match readFormat bytes format with
    | some operands => .ok operands
    | Option.none => .error malformed

/-- The operand bytes as one flat string. -/
def bytes : Operands → List UInt8
  | .none | .noneInt | .noneLoc | .noneArg | .noneVarRef | .nPopX => []
  | .u8 value | .loc8 value | .const8 value => [value]
  | .i8 value | .label8 value => [value.toUInt8]
  | .u16 value | .loc value | .arg value | .varRef value | .nPop value =>
      le16 value
  | .i16 value | .label16 value => le16 value.toUInt16
  | .nPopU16 argumentCount scopeIndex => le16 argumentCount ++ le16 scopeIndex
  | .u32 value | .const value | .atom value => le32 value
  | .i32 value | .label value => le32 value.toUInt32
  | .atomU8 index value => le32 index ++ [value]
  | .atomU16 index value => le32 index ++ le16 value
  | .atomLabelU8 index target value =>
      le32 index ++ (le32 target.toUInt32 ++ [value])
  | .atomLabelU16 index target value =>
      le32 index ++ (le32 target.toUInt32 ++ le16 value)
  | .labelU16 target value => le32 target.toUInt32 ++ le16 value

@[simp] theorem length_bytes (operands : Operands) :
    operands.bytes.length = operands.format.operandWidth := by
  cases operands <;> simp [bytes, format, OperandFormat.operandWidth]

/-- Neither encoder error is reachable: the buffer and the schema fit. -/
theorem encode_eq (operands : Operands) :
    operands.encode = .ok operands.bytes := by
  have pushed : operands.pushAll = .ok operands.bytes := by
    cases operands <;>
      simp [pushAll, pushBytes, bytes, maxEncodedOperandBytes, bind,
        Except.bind]
  simp [encode, pushed, bind, Except.bind]

/-- The reads of a format recover every operand field from its bytes. -/
theorem readFormat_bytes (operands : Operands) :
    readFormat operands.bytes operands.format = some operands := by
  cases operands with
  | u16 value =>
      change some (Operands.u16 (ofLe16 (le16 value))) = _
      rw [ofLe16_le16]
  | loc value =>
      change some (Operands.loc (ofLe16 (le16 value))) = _
      rw [ofLe16_le16]
  | arg value =>
      change some (Operands.arg (ofLe16 (le16 value))) = _
      rw [ofLe16_le16]
  | varRef value =>
      change some (Operands.varRef (ofLe16 (le16 value))) = _
      rw [ofLe16_le16]
  | nPop value =>
      change some (Operands.nPop (ofLe16 (le16 value))) = _
      rw [ofLe16_le16]
  | i16 value =>
      change some (Operands.i16 (ofLe16 (le16 value.toUInt16)).toInt16) = _
      rw [ofLe16_le16, Int16.toInt16_toUInt16]
  | label16 value =>
      change some (Operands.label16 (ofLe16 (le16 value.toUInt16)).toInt16) = _
      rw [ofLe16_le16, Int16.toInt16_toUInt16]
  | nPopU16 argumentCount scopeIndex =>
      change some (Operands.nPopU16 (ofLe16 (le16 argumentCount))
        (ofLe16 (le16 scopeIndex))) = _
      rw [ofLe16_le16, ofLe16_le16]
  | u32 value =>
      change some (Operands.u32 (ofLe32 (le32 value))) = _
      rw [ofLe32_le32]
  | const value =>
      change some (Operands.const (ofLe32 (le32 value))) = _
      rw [ofLe32_le32]
  | atom value =>
      change some (Operands.atom (ofLe32 (le32 value))) = _
      rw [ofLe32_le32]
  | i32 value =>
      change some (Operands.i32 (ofLe32 (le32 value.toUInt32)).toInt32) = _
      rw [ofLe32_le32, Int32.toInt32_toUInt32]
  | label value =>
      change some (Operands.label (ofLe32 (le32 value.toUInt32)).toInt32) = _
      rw [ofLe32_le32, Int32.toInt32_toUInt32]
  | atomU8 index value =>
      change some (Operands.atomU8 (ofLe32 (le32 index)) value) = _
      rw [ofLe32_le32]
  | atomU16 index value =>
      change some (Operands.atomU16 (ofLe32 (le32 index))
        (ofLe16 (le16 value))) = _
      rw [ofLe32_le32, ofLe16_le16]
  | atomLabelU8 index target value =>
      change some (Operands.atomLabelU8 (ofLe32 (le32 index))
        (ofLe32 (le32 target.toUInt32)).toInt32 value) = _
      rw [ofLe32_le32, ofLe32_le32, Int32.toInt32_toUInt32]
  | atomLabelU16 index target value =>
      change some (Operands.atomLabelU16 (ofLe32 (le32 index))
        (ofLe32 (le32 target.toUInt32)).toInt32 (ofLe16 (le16 value))) = _
      rw [ofLe32_le32, ofLe32_le32, ofLe16_le16, Int32.toInt32_toUInt32]
  | labelU16 target value =>
      change some (Operands.labelU16 (ofLe32 (le32 target.toUInt32)).toInt32
        (ofLe16 (le16 value))) = _
      rw [ofLe32_le32, ofLe16_le16, Int32.toInt32_toUInt32]
  | _ => rfl

theorem decode_bytes (operands : Operands) :
    decode operands.format operands.bytes = .ok operands := by
  simp [decode, readFormat_bytes]

section Reads

variable {bytes : List UInt8} {offset : Nat}

private theorem drop_of_readU8 {value : UInt8}
    (read : readU8 bytes offset = some value) :
    bytes.drop offset = value :: bytes.drop (offset + 1) := by
  obtain ⟨bound, found⟩ := List.getElem?_eq_some_iff.mp read
  rw [List.drop_eq_getElem_cons bound, found]

private theorem drop_of_readU16 {value : UInt16}
    (read : readU16 bytes offset = some value) :
    bytes.drop offset = le16 value ++ bytes.drop (offset + 2) := by
  simp only [readU16, bind, pure, Option.bind_eq_some_iff,
    Option.some.injEq] at read
  obtain ⟨low, readLow, high, readHigh, rfl⟩ := read
  rw [drop_of_readU8 readLow, drop_of_readU8 readHigh, le16_ofLe16 rfl]
  rfl

private theorem drop_of_readU32 {value : UInt32}
    (read : readU32 bytes offset = some value) :
    bytes.drop offset = le32 value ++ bytes.drop (offset + 4) := by
  simp only [readU32, bind, pure, Option.bind_eq_some_iff,
    Option.some.injEq] at read
  obtain ⟨first, readFirst, second, readSecond, third, readThird, fourth,
    readFourth, rfl⟩ := read
  rw [drop_of_readU8 readFirst, drop_of_readU8 readSecond,
    drop_of_readU8 readThird, drop_of_readU8 readFourth, le32_ofLe32 rfl]
  rfl

private theorem drop_of_readI16 {value : Int16}
    (read : readI16 bytes offset = some value) :
    bytes.drop offset = le16 value.toUInt16 ++ bytes.drop (offset + 2) := by
  apply drop_of_readU16
  simp only [readI16, bind, pure, Option.bind_eq_some_iff,
    Option.some.injEq] at read
  obtain ⟨low, readLow, high, readHigh, rfl⟩ := read
  simp [readU16, readLow, readHigh]

private theorem drop_of_readI32 {value : Int32}
    (read : readI32 bytes offset = some value) :
    bytes.drop offset = le32 value.toUInt32 ++ bytes.drop (offset + 4) := by
  apply drop_of_readU32
  simp only [readI32, bind, pure, Option.bind_eq_some_iff,
    Option.some.injEq] at read
  obtain ⟨first, readFirst, second, readSecond, third, readThird, fourth,
    readFourth, rfl⟩ := read
  simp [readU32, readFirst, readSecond, readThird, readFourth]

end Reads

/-- What a format reads is a prefix of the bytes it is read from. -/
theorem bytes_of_readFormat {bytes : List UInt8} {format : OperandFormat}
    {operands : Operands} (read : readFormat bytes format = some operands) :
    operands.format = format ∧
      bytes = operands.bytes ++ bytes.drop format.operandWidth := by
  cases format <;>
    simp only [readFormat, bind, pure, Option.bind_eq_some_iff,
      Option.some.injEq] at read
  case none | noneInt | noneLoc | noneArg | noneVarRef | nPopX =>
      subst read
      exact ⟨rfl, rfl⟩
  case u8 | i8 | loc8 | const8 | label8 =>
      obtain ⟨value, found, rfl⟩ := read
      exact ⟨rfl, drop_of_readU8 found⟩
  case u16 | nPop | loc | arg | varRef =>
      obtain ⟨value, found, rfl⟩ := read
      exact ⟨rfl, drop_of_readU16 found⟩
  case i16 | label16 =>
      obtain ⟨value, found, rfl⟩ := read
      exact ⟨rfl, drop_of_readI16 found⟩
  case u32 | const | atom =>
      obtain ⟨value, found, rfl⟩ := read
      exact ⟨rfl, drop_of_readU32 found⟩
  case i32 | label =>
      obtain ⟨value, found, rfl⟩ := read
      exact ⟨rfl, drop_of_readI32 found⟩
  case nPopU16 =>
      obtain ⟨argumentCount, first, scopeIndex, second, rfl⟩ := read
      refine ⟨rfl, (drop_of_readU16 first).trans ?_⟩
      rw [drop_of_readU16 second]
      rfl
  case atomU8 =>
      obtain ⟨index, first, value, second, rfl⟩ := read
      refine ⟨rfl, (drop_of_readU32 first).trans ?_⟩
      rw [drop_of_readU8 second]
      rfl
  case atomU16 =>
      obtain ⟨index, first, value, second, rfl⟩ := read
      refine ⟨rfl, (drop_of_readU32 first).trans ?_⟩
      rw [drop_of_readU16 second]
      rfl
  case atomLabelU8 =>
      obtain ⟨index, first, target, second, value, third, rfl⟩ := read
      refine ⟨rfl, (drop_of_readU32 first).trans ?_⟩
      rw [drop_of_readI32 second, drop_of_readU8 third]
      rfl
  case atomLabelU16 =>
      obtain ⟨index, first, target, second, value, third, rfl⟩ := read
      refine ⟨rfl, (drop_of_readU32 first).trans ?_⟩
      rw [drop_of_readI32 second, drop_of_readU16 third]
      rfl
  case labelU16 =>
      obtain ⟨target, first, value, second, rfl⟩ := read
      refine ⟨rfl, (drop_of_readI32 first).trans ?_⟩
      rw [drop_of_readU16 second]
      rfl

/-- A decoded payload is exactly the encoding of the operands it yields. -/
theorem bytes_of_decode {format : OperandFormat} {bytes : List UInt8}
    {operands : Operands} (decoded : decode format bytes = .ok operands) :
    operands.format = format ∧ operands.bytes = bytes := by
  simp only [decode] at decoded
  split at decoded
  · cases decoded
  · rename_i width
    split at decoded
    · rename_i read
      cases decoded
      obtain ⟨same, whole⟩ := bytes_of_readFormat read
      refine ⟨same, ?_⟩
      rw [List.drop_eq_nil_of_le (by omega), List.append_nil] at whole
      exact whole.symm
    · cases decoded

end Operands

/-- Failure to construct a validated instruction. -/
inductive InstructionError where
  | reservedOpcode
  | operandFormatMismatch (opcode : FinalOpcode)
      (expected actual : OperandFormat)
deriving DecidableEq

/-- The number of stack values popped and pushed by an instruction. -/
structure StackEffect where
  pops : Nat
  pushes : Nat
deriving DecidableEq

/-- Failure to resolve an opcode's complete stack effect. -/
inductive StackEffectError where
  | missingArgumentCount (opcode : FinalOpcode)
  | unexpectedArgumentCount (opcode : FinalOpcode) (argumentCount : UInt16)
  | invalidImplicitArgumentOpcode (opcode : FinalOpcode)
deriving DecidableEq

namespace StackEffect

def withAdditionalPops (effect : StackEffect) (additionalPops : Nat) :
    StackEffect :=
  { effect with pops := effect.pops + additionalPops }

end StackEffect

def OpcodeMetadata.baseStackEffect (metadata : OpcodeMetadata) : StackEffect :=
  { pops := metadata.basePops, pushes := metadata.basePushes }

/-- Resolves the full stack effect of an opcode. -/
def FinalOpcode.stackEffect (opcode : FinalOpcode)
    (argumentCount : Option UInt16) : Except StackEffectError StackEffect :=
  let metadata := opcode.metadata
  let base := metadata.baseStackEffect
  match metadata.operandFormat with
  | .nPop | .nPopU16 =>
      match argumentCount with
      | some count => .ok (base.withAdditionalPops count.toNat)
      | none => .error (.missingArgumentCount opcode)
  | .nPopX =>
      match argumentCount with
      | some count => .error (.unexpectedArgumentCount opcode count)
      | none =>
          match opcode with
          | .call0 => .ok (base.withAdditionalPops 0)
          | .call1 => .ok (base.withAdditionalPops 1)
          | .call2 => .ok (base.withAdditionalPops 2)
          | .call3 => .ok (base.withAdditionalPops 3)
          | _ => .error (.invalidImplicitArgumentOpcode opcode)
  | _ =>
      match argumentCount with
      | some count => .error (.unexpectedArgumentCount opcode count)
      | none => .ok base

/-- A validated final instruction. -/
structure Instruction where
  opcode : FinalOpcode
  operands : Operands
  opcode_ne_invalid : opcode ≠ .invalid
  format_eq : operands.format = opcode.metadata.operandFormat
deriving DecidableEq

namespace Instruction

/-- Checked construction from an opcode and its operands. -/
def new (opcode : FinalOpcode) (operands : Operands) :
    Except InstructionError Instruction :=
  if reserved : opcode = .invalid then
    .error .reservedOpcode
  else if format : operands.format = opcode.metadata.operandFormat then
    .ok ⟨opcode, operands, reserved, format⟩
  else
    .error (.operandFormatMismatch opcode opcode.metadata.operandFormat
      operands.format)

def encodedSize (instruction : Instruction) : Nat :=
  instruction.opcode.metadata.instructionSize

/-- The complete stack effect.  The derived-class form of `define_class`
consumes one value more than the opcode table says. -/
def stackEffect (instruction : Instruction) :
    Except StackEffectError StackEffect :=
  let ordinary :=
    instruction.opcode.stackEffect instruction.operands.dynamicArgumentCount
  match instruction.opcode, instruction.operands with
  | .defineClass, .atomU8 _ value =>
      if value &&& 1 ≠ 0 then .ok { pops := 3, pushes := 2 } else ordinary
  | _, _ => ordinary

/-- The opcode byte followed by the operand bytes. -/
def bytes (instruction : Instruction) : List UInt8 :=
  instruction.opcode.encodedByte :: instruction.operands.bytes

@[simp] theorem length_bytes (instruction : Instruction) :
    instruction.bytes.length = instruction.encodedSize := by
  simp [bytes, encodedSize, FinalOpcode.instructionSize_eq,
    instruction.format_eq]

theorem encodedSize_pos (instruction : Instruction) :
    0 < instruction.encodedSize := by
  rw [← length_bytes]
  exact Nat.succ_pos _

theorem encodedSize_le (instruction : Instruction) :
    instruction.encodedSize ≤ 11 := by
  rw [encodedSize, FinalOpcode.instructionSize_eq]
  generalize instruction.opcode.metadata.operandFormat = format
  cases format <;> decide

end Instruction

end Fusor.Bytecode
