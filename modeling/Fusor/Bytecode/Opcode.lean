import Mathlib.Data.List.Range

/-!
# Final opcodes and their metadata

The opcode order, the encoded sizes, the operand formats and the base stack
effects are those of the generated opcode table.  An opcode's encoded byte is
its position in that table; byte zero is the reserved `invalid` sentinel.
-/

namespace Fusor.Bytecode

/-- The encoding of an opcode's operands. -/
inductive OperandFormat where
  | none
  | noneInt
  | noneLoc
  | noneArg
  | noneVarRef
  | u8
  | i8
  | loc8
  | const8
  | label8
  | u16
  | i16
  | label16
  | nPop
  | nPopX
  | nPopU16
  | loc
  | arg
  | varRef
  | u32
  | i32
  | const
  | label
  | atom
  | atomU8
  | atomU16
  | atomLabelU8
  | atomLabelU16
  | labelU16
deriving DecidableEq

/-- Number of encoded operand bytes after the one-byte opcode. -/
def OperandFormat.operandWidth : OperandFormat → Nat
  | .none | .noneInt | .noneLoc | .noneArg | .noneVarRef | .nPopX => 0
  | .u8 | .i8 | .loc8 | .const8 | .label8 => 1
  | .u16 | .i16 | .label16 | .nPop | .loc | .arg | .varRef => 2
  | .nPopU16 | .u32 | .i32 | .const | .label | .atom => 4
  | .atomU8 => 5
  | .atomU16 | .labelU16 => 6
  | .atomLabelU8 => 9
  | .atomLabelU16 => 10

/-- A final bytecode opcode, in encoded-byte order. -/
inductive FinalOpcode where
  | invalid | pushI32 | pushConst | fClosure | pushAtomValue | privateSymbol
  | undefined | null | pushThis | pushFalse | pushTrue | object
  | specialObject | rest | drop | nip | nip1 | dup | dup1 | dup2 | dup3
  | insert2 | insert3 | insert4 | perm3 | perm4 | perm5 | swap | swap2
  | rot3l | rot3r | rot4l | rot5l | callConstructor | call | tailCall
  | callMethod | tailCallMethod | arrayFrom | apply | returnOp | returnUndef
  | checkCtorReturn | checkCtor | initCtor | checkBrand | addBrand
  | returnAsync | throw | throwError | eval | applyEval | regExp | getSuper
  | importOp | importDefer | getVarUndef | getVar | putVar | putVarInit
  | getRefValue | putRefValue | getField | getField2 | putField
  | getPrivateField | putPrivateField | definePrivateField | getArrayEl
  | getArrayEl2 | getArrayEl3 | putArrayEl | getSuperValue | putSuperValue
  | defineField | setName | setNameComputed | setProto | setHomeObject
  | defineArrayEl | append | copyDataProperties | defineMethod
  | defineMethodComputed | defineClass | defineClassComputed | getLoc
  | putLoc | setLoc | getArg | putArg | setArg | getVarRef | putVarRef
  | setVarRef | setLocUninitialized | getLocCheck | putLocCheck | setLocCheck
  | putLocCheckInit | getLocCheckThis | getVarRefCheck | putVarRefCheck
  | putVarRefCheckInit | closeLoc | ifFalse | ifTrue | goto | catchOp | gosub
  | ret | nipCatch | toObject | toPropKey | withGetVar | withPutVar
  | withDeleteVar | withMakeRef | withGetRef | makeLocRef | makeArgRef
  | makeVarRefRef | makeVarRef | forInStart | forOfStart | forAwaitOfStart
  | forInNext | forOfNext | forAwaitOfNext | iteratorCheckObject
  | iteratorGetValueDone | iteratorClose | iteratorNext | iteratorCall
  | initialYield | yield | yieldStar | asyncYieldStar | await | neg | plus
  | dec | inc | postDec | postInc | decLoc | incLoc | addLoc | not | lnot
  | typeof | delete | deleteVar | mul | div | mod | add | sub | pow | shl
  | sar | shr | lt | lte | gt | gte | instanceOf | inOp | eq | neq | strictEq
  | strictNeq | and | xor | or | isUndefinedOrNull | privateIn
  | pushBigIntI32 | nop | pushMinus1 | push0 | push1 | push2 | push3 | push4
  | push5 | push6 | push7 | pushI8 | pushI16 | pushConst8 | fClosure8
  | pushEmptyString | getLoc8 | putLoc8 | setLoc8 | getLoc0 | getLoc1
  | getLoc2 | getLoc3 | putLoc0 | putLoc1 | putLoc2 | putLoc3 | setLoc0
  | setLoc1 | setLoc2 | setLoc3 | getArg0 | getArg1 | getArg2 | getArg3
  | putArg0 | putArg1 | putArg2 | putArg3 | setArg0 | setArg1 | setArg2
  | setArg3 | getVarRef0 | getVarRef1 | getVarRef2 | getVarRef3 | putVarRef0
  | putVarRef1 | putVarRef2 | putVarRef3 | setVarRef0 | setVarRef1
  | setVarRef2 | setVarRef3 | getLength | ifFalse8 | ifTrue8 | goto8 | goto16
  | call0 | call1 | call2 | call3 | isUndefined | isNull | typeofIsUndefined
  | typeofIsFunction | tailApply | tailEval | tailApplyEval | importMeta
deriving DecidableEq

/-- Static metadata for one final opcode. -/
structure OpcodeMetadata where
  instructionSize : Nat
  basePops : Nat
  basePushes : Nat
  operandFormat : OperandFormat
deriving DecidableEq

namespace FinalOpcode

/-- Every final opcode in encoded-byte order, including `invalid`. -/
def allFinalOpcodes : List FinalOpcode :=
  [
    .invalid, .pushI32, .pushConst, .fClosure, .pushAtomValue,
    .privateSymbol, .undefined, .null, .pushThis, .pushFalse, .pushTrue,
    .object, .specialObject, .rest, .drop, .nip, .nip1, .dup, .dup1, .dup2,
    .dup3, .insert2, .insert3, .insert4, .perm3, .perm4, .perm5, .swap,
    .swap2, .rot3l, .rot3r, .rot4l, .rot5l, .callConstructor, .call,
    .tailCall, .callMethod, .tailCallMethod, .arrayFrom, .apply, .returnOp,
    .returnUndef, .checkCtorReturn, .checkCtor, .initCtor, .checkBrand,
    .addBrand, .returnAsync, .throw, .throwError, .eval, .applyEval, .regExp,
    .getSuper, .importOp, .importDefer, .getVarUndef, .getVar, .putVar,
    .putVarInit, .getRefValue, .putRefValue, .getField, .getField2,
    .putField, .getPrivateField, .putPrivateField, .definePrivateField,
    .getArrayEl, .getArrayEl2, .getArrayEl3, .putArrayEl, .getSuperValue,
    .putSuperValue, .defineField, .setName, .setNameComputed, .setProto,
    .setHomeObject, .defineArrayEl, .append, .copyDataProperties,
    .defineMethod, .defineMethodComputed, .defineClass, .defineClassComputed,
    .getLoc, .putLoc, .setLoc, .getArg, .putArg, .setArg, .getVarRef,
    .putVarRef, .setVarRef, .setLocUninitialized, .getLocCheck, .putLocCheck,
    .setLocCheck, .putLocCheckInit, .getLocCheckThis, .getVarRefCheck,
    .putVarRefCheck, .putVarRefCheckInit, .closeLoc, .ifFalse, .ifTrue,
    .goto, .catchOp, .gosub, .ret, .nipCatch, .toObject, .toPropKey,
    .withGetVar, .withPutVar, .withDeleteVar, .withMakeRef, .withGetRef,
    .makeLocRef, .makeArgRef, .makeVarRefRef, .makeVarRef, .forInStart,
    .forOfStart, .forAwaitOfStart, .forInNext, .forOfNext, .forAwaitOfNext,
    .iteratorCheckObject, .iteratorGetValueDone, .iteratorClose,
    .iteratorNext, .iteratorCall, .initialYield, .yield, .yieldStar,
    .asyncYieldStar, .await, .neg, .plus, .dec, .inc, .postDec, .postInc,
    .decLoc, .incLoc, .addLoc, .not, .lnot, .typeof, .delete, .deleteVar,
    .mul, .div, .mod, .add, .sub, .pow, .shl, .sar, .shr, .lt, .lte, .gt,
    .gte, .instanceOf, .inOp, .eq, .neq, .strictEq, .strictNeq, .and, .xor,
    .or, .isUndefinedOrNull, .privateIn, .pushBigIntI32, .nop, .pushMinus1,
    .push0, .push1, .push2, .push3, .push4, .push5, .push6, .push7, .pushI8,
    .pushI16, .pushConst8, .fClosure8, .pushEmptyString, .getLoc8, .putLoc8,
    .setLoc8, .getLoc0, .getLoc1, .getLoc2, .getLoc3, .putLoc0, .putLoc1,
    .putLoc2, .putLoc3, .setLoc0, .setLoc1, .setLoc2, .setLoc3, .getArg0,
    .getArg1, .getArg2, .getArg3, .putArg0, .putArg1, .putArg2, .putArg3,
    .setArg0, .setArg1, .setArg2, .setArg3, .getVarRef0, .getVarRef1,
    .getVarRef2, .getVarRef3, .putVarRef0, .putVarRef1, .putVarRef2,
    .putVarRef3, .setVarRef0, .setVarRef1, .setVarRef2, .setVarRef3,
    .getLength, .ifFalse8, .ifTrue8, .goto8, .goto16, .call0, .call1, .call2,
    .call3, .isUndefined, .isNull, .typeofIsUndefined, .typeofIsFunction,
    .tailApply, .tailEval, .tailApplyEval, .importMeta ]

/-- The row of the opcode table for this opcode. -/
def metadata : FinalOpcode → OpcodeMetadata
  | .invalid => ⟨1, 0, 0, .none⟩
  | .pushI32 => ⟨5, 0, 1, .i32⟩
  | .pushConst => ⟨5, 0, 1, .const⟩
  | .fClosure => ⟨5, 0, 1, .const⟩
  | .pushAtomValue => ⟨5, 0, 1, .atom⟩
  | .privateSymbol => ⟨5, 0, 1, .atom⟩
  | .undefined => ⟨1, 0, 1, .none⟩
  | .null => ⟨1, 0, 1, .none⟩
  | .pushThis => ⟨1, 0, 1, .none⟩
  | .pushFalse => ⟨1, 0, 1, .none⟩
  | .pushTrue => ⟨1, 0, 1, .none⟩
  | .object => ⟨1, 0, 1, .none⟩
  | .specialObject => ⟨2, 0, 1, .u8⟩
  | .rest => ⟨3, 0, 1, .u16⟩
  | .drop => ⟨1, 1, 0, .none⟩
  | .nip => ⟨1, 2, 1, .none⟩
  | .nip1 => ⟨1, 3, 2, .none⟩
  | .dup => ⟨1, 1, 2, .none⟩
  | .dup1 => ⟨1, 2, 3, .none⟩
  | .dup2 => ⟨1, 2, 4, .none⟩
  | .dup3 => ⟨1, 3, 6, .none⟩
  | .insert2 => ⟨1, 2, 3, .none⟩
  | .insert3 => ⟨1, 3, 4, .none⟩
  | .insert4 => ⟨1, 4, 5, .none⟩
  | .perm3 => ⟨1, 3, 3, .none⟩
  | .perm4 => ⟨1, 4, 4, .none⟩
  | .perm5 => ⟨1, 5, 5, .none⟩
  | .swap => ⟨1, 2, 2, .none⟩
  | .swap2 => ⟨1, 4, 4, .none⟩
  | .rot3l => ⟨1, 3, 3, .none⟩
  | .rot3r => ⟨1, 3, 3, .none⟩
  | .rot4l => ⟨1, 4, 4, .none⟩
  | .rot5l => ⟨1, 5, 5, .none⟩
  | .callConstructor => ⟨3, 2, 1, .nPop⟩
  | .call => ⟨3, 1, 1, .nPop⟩
  | .tailCall => ⟨3, 1, 0, .nPop⟩
  | .callMethod => ⟨3, 2, 1, .nPop⟩
  | .tailCallMethod => ⟨3, 2, 0, .nPop⟩
  | .arrayFrom => ⟨3, 0, 1, .nPop⟩
  | .apply => ⟨3, 3, 1, .u16⟩
  | .returnOp => ⟨1, 1, 0, .none⟩
  | .returnUndef => ⟨1, 0, 0, .none⟩
  | .checkCtorReturn => ⟨1, 1, 2, .none⟩
  | .checkCtor => ⟨1, 0, 0, .none⟩
  | .initCtor => ⟨1, 0, 1, .none⟩
  | .checkBrand => ⟨1, 2, 2, .none⟩
  | .addBrand => ⟨1, 2, 0, .none⟩
  | .returnAsync => ⟨1, 1, 0, .none⟩
  | .throw => ⟨1, 1, 0, .none⟩
  | .throwError => ⟨6, 0, 0, .atomU8⟩
  | .eval => ⟨5, 1, 1, .nPopU16⟩
  | .applyEval => ⟨3, 2, 1, .u16⟩
  | .regExp => ⟨1, 2, 1, .none⟩
  | .getSuper => ⟨1, 1, 1, .none⟩
  | .importOp => ⟨1, 2, 1, .none⟩
  | .importDefer => ⟨1, 2, 1, .none⟩
  | .getVarUndef => ⟨3, 0, 1, .varRef⟩
  | .getVar => ⟨3, 0, 1, .varRef⟩
  | .putVar => ⟨3, 1, 0, .varRef⟩
  | .putVarInit => ⟨3, 1, 0, .varRef⟩
  | .getRefValue => ⟨1, 2, 3, .none⟩
  | .putRefValue => ⟨1, 3, 0, .none⟩
  | .getField => ⟨5, 1, 1, .atom⟩
  | .getField2 => ⟨5, 1, 2, .atom⟩
  | .putField => ⟨5, 2, 0, .atom⟩
  | .getPrivateField => ⟨1, 2, 1, .none⟩
  | .putPrivateField => ⟨1, 3, 0, .none⟩
  | .definePrivateField => ⟨2, 3, 1, .u8⟩
  | .getArrayEl => ⟨1, 2, 1, .none⟩
  | .getArrayEl2 => ⟨1, 2, 2, .none⟩
  | .getArrayEl3 => ⟨1, 2, 3, .none⟩
  | .putArrayEl => ⟨1, 3, 0, .none⟩
  | .getSuperValue => ⟨1, 3, 1, .none⟩
  | .putSuperValue => ⟨1, 4, 0, .none⟩
  | .defineField => ⟨5, 2, 1, .atom⟩
  | .setName => ⟨5, 1, 1, .atom⟩
  | .setNameComputed => ⟨1, 2, 2, .none⟩
  | .setProto => ⟨1, 2, 1, .none⟩
  | .setHomeObject => ⟨1, 2, 2, .none⟩
  | .defineArrayEl => ⟨1, 3, 2, .none⟩
  | .append => ⟨1, 3, 2, .none⟩
  | .copyDataProperties => ⟨2, 3, 3, .u8⟩
  | .defineMethod => ⟨6, 2, 1, .atomU8⟩
  | .defineMethodComputed => ⟨2, 3, 1, .u8⟩
  | .defineClass => ⟨6, 2, 2, .atomU8⟩
  | .defineClassComputed => ⟨6, 3, 3, .atomU8⟩
  | .getLoc => ⟨3, 0, 1, .loc⟩
  | .putLoc => ⟨3, 1, 0, .loc⟩
  | .setLoc => ⟨3, 1, 1, .loc⟩
  | .getArg => ⟨3, 0, 1, .arg⟩
  | .putArg => ⟨3, 1, 0, .arg⟩
  | .setArg => ⟨3, 1, 1, .arg⟩
  | .getVarRef => ⟨3, 0, 1, .varRef⟩
  | .putVarRef => ⟨3, 1, 0, .varRef⟩
  | .setVarRef => ⟨3, 1, 1, .varRef⟩
  | .setLocUninitialized => ⟨3, 0, 0, .loc⟩
  | .getLocCheck => ⟨3, 0, 1, .loc⟩
  | .putLocCheck => ⟨3, 1, 0, .loc⟩
  | .setLocCheck => ⟨3, 1, 1, .loc⟩
  | .putLocCheckInit => ⟨3, 1, 0, .loc⟩
  | .getLocCheckThis => ⟨3, 0, 1, .loc⟩
  | .getVarRefCheck => ⟨3, 0, 1, .varRef⟩
  | .putVarRefCheck => ⟨3, 1, 0, .varRef⟩
  | .putVarRefCheckInit => ⟨3, 1, 0, .varRef⟩
  | .closeLoc => ⟨3, 0, 0, .loc⟩
  | .ifFalse => ⟨5, 1, 0, .label⟩
  | .ifTrue => ⟨5, 1, 0, .label⟩
  | .goto => ⟨5, 0, 0, .label⟩
  | .catchOp => ⟨5, 0, 1, .label⟩
  | .gosub => ⟨5, 0, 0, .label⟩
  | .ret => ⟨1, 1, 0, .none⟩
  | .nipCatch => ⟨1, 2, 1, .none⟩
  | .toObject => ⟨1, 1, 1, .none⟩
  | .toPropKey => ⟨1, 1, 1, .none⟩
  | .withGetVar => ⟨10, 1, 0, .atomLabelU8⟩
  | .withPutVar => ⟨10, 2, 1, .atomLabelU8⟩
  | .withDeleteVar => ⟨10, 1, 0, .atomLabelU8⟩
  | .withMakeRef => ⟨10, 1, 0, .atomLabelU8⟩
  | .withGetRef => ⟨10, 1, 0, .atomLabelU8⟩
  | .makeLocRef => ⟨7, 0, 2, .atomU16⟩
  | .makeArgRef => ⟨7, 0, 2, .atomU16⟩
  | .makeVarRefRef => ⟨7, 0, 2, .atomU16⟩
  | .makeVarRef => ⟨5, 0, 2, .atom⟩
  | .forInStart => ⟨1, 1, 1, .none⟩
  | .forOfStart => ⟨1, 1, 3, .none⟩
  | .forAwaitOfStart => ⟨1, 1, 3, .none⟩
  | .forInNext => ⟨1, 1, 3, .none⟩
  | .forOfNext => ⟨2, 3, 5, .u8⟩
  | .forAwaitOfNext => ⟨1, 3, 4, .none⟩
  | .iteratorCheckObject => ⟨1, 1, 1, .none⟩
  | .iteratorGetValueDone => ⟨1, 2, 3, .none⟩
  | .iteratorClose => ⟨1, 3, 0, .none⟩
  | .iteratorNext => ⟨1, 4, 4, .none⟩
  | .iteratorCall => ⟨2, 4, 5, .u8⟩
  | .initialYield => ⟨1, 0, 0, .none⟩
  | .yield => ⟨1, 1, 2, .none⟩
  | .yieldStar => ⟨1, 1, 2, .none⟩
  | .asyncYieldStar => ⟨1, 1, 2, .none⟩
  | .await => ⟨1, 1, 1, .none⟩
  | .neg => ⟨1, 1, 1, .none⟩
  | .plus => ⟨1, 1, 1, .none⟩
  | .dec => ⟨1, 1, 1, .none⟩
  | .inc => ⟨1, 1, 1, .none⟩
  | .postDec => ⟨1, 1, 2, .none⟩
  | .postInc => ⟨1, 1, 2, .none⟩
  | .decLoc => ⟨2, 0, 0, .loc8⟩
  | .incLoc => ⟨2, 0, 0, .loc8⟩
  | .addLoc => ⟨2, 1, 0, .loc8⟩
  | .not => ⟨1, 1, 1, .none⟩
  | .lnot => ⟨1, 1, 1, .none⟩
  | .typeof => ⟨1, 1, 1, .none⟩
  | .delete => ⟨1, 2, 1, .none⟩
  | .deleteVar => ⟨5, 0, 1, .atom⟩
  | .mul => ⟨1, 2, 1, .none⟩
  | .div => ⟨1, 2, 1, .none⟩
  | .mod => ⟨1, 2, 1, .none⟩
  | .add => ⟨1, 2, 1, .none⟩
  | .sub => ⟨1, 2, 1, .none⟩
  | .pow => ⟨1, 2, 1, .none⟩
  | .shl => ⟨1, 2, 1, .none⟩
  | .sar => ⟨1, 2, 1, .none⟩
  | .shr => ⟨1, 2, 1, .none⟩
  | .lt => ⟨1, 2, 1, .none⟩
  | .lte => ⟨1, 2, 1, .none⟩
  | .gt => ⟨1, 2, 1, .none⟩
  | .gte => ⟨1, 2, 1, .none⟩
  | .instanceOf => ⟨1, 2, 1, .none⟩
  | .inOp => ⟨1, 2, 1, .none⟩
  | .eq => ⟨1, 2, 1, .none⟩
  | .neq => ⟨1, 2, 1, .none⟩
  | .strictEq => ⟨1, 2, 1, .none⟩
  | .strictNeq => ⟨1, 2, 1, .none⟩
  | .and => ⟨1, 2, 1, .none⟩
  | .xor => ⟨1, 2, 1, .none⟩
  | .or => ⟨1, 2, 1, .none⟩
  | .isUndefinedOrNull => ⟨1, 1, 1, .none⟩
  | .privateIn => ⟨1, 2, 1, .none⟩
  | .pushBigIntI32 => ⟨5, 0, 1, .i32⟩
  | .nop => ⟨1, 0, 0, .none⟩
  | .pushMinus1 => ⟨1, 0, 1, .noneInt⟩
  | .push0 => ⟨1, 0, 1, .noneInt⟩
  | .push1 => ⟨1, 0, 1, .noneInt⟩
  | .push2 => ⟨1, 0, 1, .noneInt⟩
  | .push3 => ⟨1, 0, 1, .noneInt⟩
  | .push4 => ⟨1, 0, 1, .noneInt⟩
  | .push5 => ⟨1, 0, 1, .noneInt⟩
  | .push6 => ⟨1, 0, 1, .noneInt⟩
  | .push7 => ⟨1, 0, 1, .noneInt⟩
  | .pushI8 => ⟨2, 0, 1, .i8⟩
  | .pushI16 => ⟨3, 0, 1, .i16⟩
  | .pushConst8 => ⟨2, 0, 1, .const8⟩
  | .fClosure8 => ⟨2, 0, 1, .const8⟩
  | .pushEmptyString => ⟨1, 0, 1, .none⟩
  | .getLoc8 => ⟨2, 0, 1, .loc8⟩
  | .putLoc8 => ⟨2, 1, 0, .loc8⟩
  | .setLoc8 => ⟨2, 1, 1, .loc8⟩
  | .getLoc0 => ⟨1, 0, 1, .noneLoc⟩
  | .getLoc1 => ⟨1, 0, 1, .noneLoc⟩
  | .getLoc2 => ⟨1, 0, 1, .noneLoc⟩
  | .getLoc3 => ⟨1, 0, 1, .noneLoc⟩
  | .putLoc0 => ⟨1, 1, 0, .noneLoc⟩
  | .putLoc1 => ⟨1, 1, 0, .noneLoc⟩
  | .putLoc2 => ⟨1, 1, 0, .noneLoc⟩
  | .putLoc3 => ⟨1, 1, 0, .noneLoc⟩
  | .setLoc0 => ⟨1, 1, 1, .noneLoc⟩
  | .setLoc1 => ⟨1, 1, 1, .noneLoc⟩
  | .setLoc2 => ⟨1, 1, 1, .noneLoc⟩
  | .setLoc3 => ⟨1, 1, 1, .noneLoc⟩
  | .getArg0 => ⟨1, 0, 1, .noneArg⟩
  | .getArg1 => ⟨1, 0, 1, .noneArg⟩
  | .getArg2 => ⟨1, 0, 1, .noneArg⟩
  | .getArg3 => ⟨1, 0, 1, .noneArg⟩
  | .putArg0 => ⟨1, 1, 0, .noneArg⟩
  | .putArg1 => ⟨1, 1, 0, .noneArg⟩
  | .putArg2 => ⟨1, 1, 0, .noneArg⟩
  | .putArg3 => ⟨1, 1, 0, .noneArg⟩
  | .setArg0 => ⟨1, 1, 1, .noneArg⟩
  | .setArg1 => ⟨1, 1, 1, .noneArg⟩
  | .setArg2 => ⟨1, 1, 1, .noneArg⟩
  | .setArg3 => ⟨1, 1, 1, .noneArg⟩
  | .getVarRef0 => ⟨1, 0, 1, .noneVarRef⟩
  | .getVarRef1 => ⟨1, 0, 1, .noneVarRef⟩
  | .getVarRef2 => ⟨1, 0, 1, .noneVarRef⟩
  | .getVarRef3 => ⟨1, 0, 1, .noneVarRef⟩
  | .putVarRef0 => ⟨1, 1, 0, .noneVarRef⟩
  | .putVarRef1 => ⟨1, 1, 0, .noneVarRef⟩
  | .putVarRef2 => ⟨1, 1, 0, .noneVarRef⟩
  | .putVarRef3 => ⟨1, 1, 0, .noneVarRef⟩
  | .setVarRef0 => ⟨1, 1, 1, .noneVarRef⟩
  | .setVarRef1 => ⟨1, 1, 1, .noneVarRef⟩
  | .setVarRef2 => ⟨1, 1, 1, .noneVarRef⟩
  | .setVarRef3 => ⟨1, 1, 1, .noneVarRef⟩
  | .getLength => ⟨1, 1, 1, .none⟩
  | .ifFalse8 => ⟨2, 1, 0, .label8⟩
  | .ifTrue8 => ⟨2, 1, 0, .label8⟩
  | .goto8 => ⟨2, 0, 0, .label8⟩
  | .goto16 => ⟨3, 0, 0, .label16⟩
  | .call0 => ⟨1, 1, 1, .nPopX⟩
  | .call1 => ⟨1, 1, 1, .nPopX⟩
  | .call2 => ⟨1, 1, 1, .nPopX⟩
  | .call3 => ⟨1, 1, 1, .nPopX⟩
  | .isUndefined => ⟨1, 1, 1, .none⟩
  | .isNull => ⟨1, 1, 1, .none⟩
  | .typeofIsUndefined => ⟨1, 1, 1, .none⟩
  | .typeofIsFunction => ⟨1, 1, 1, .none⟩
  | .tailApply => ⟨3, 3, 0, .u16⟩
  | .tailEval => ⟨5, 1, 0, .nPopU16⟩
  | .tailApplyEval => ⟨3, 2, 0, .u16⟩
  | .importMeta => ⟨1, 0, 1, .none⟩

/-- The encoded opcode byte: the opcode's position in the table. -/
def encodedByte (opcode : FinalOpcode) : UInt8 :=
  UInt8.ofNat opcode.ctorIdx

/-- Table lookup, including the reserved sentinel. -/
def fromTableByte (byte : UInt8) : Option FinalOpcode :=
  allFinalOpcodes[byte.toNat]?

end FinalOpcode

/-- Failure to decode one final opcode byte. -/
inductive FinalOpcodeDecodeError where
  | reservedInvalid
  | unknown (byte : UInt8)
deriving DecidableEq

namespace FinalOpcode

/-- Checks and decodes one final opcode byte. -/
def decode (byte : UInt8) : Except FinalOpcodeDecodeError FinalOpcode :=
  match fromTableByte byte with
  | some .invalid => .error .reservedInvalid
  | some opcode => .ok opcode
  | none => .error (.unknown byte)

private theorem map_ctorIdx_allFinalOpcodes :
    allFinalOpcodes.map FinalOpcode.ctorIdx = List.range 249 := by
  decide +kernel

private theorem allFinalOpcodes_eq :
    allFinalOpcodes = (List.range 249).map FinalOpcode.ofNat := by
  decide +kernel

theorem ctorIdx_lt (opcode : FinalOpcode) : opcode.ctorIdx < 249 := by
  cases opcode <;> decide

theorem allFinalOpcodes_getElem?_ctorIdx (opcode : FinalOpcode) :
    allFinalOpcodes[opcode.ctorIdx]? = some opcode := by
  rw [allFinalOpcodes_eq, List.getElem?_map,
    List.getElem?_range (ctorIdx_lt opcode), Option.map_some, ofNat_ctorIdx]

theorem ctorIdx_of_getElem? {position : Nat} {opcode : FinalOpcode}
    (found : allFinalOpcodes[position]? = some opcode) :
    opcode.ctorIdx = position := by
  have mapped : (allFinalOpcodes.map FinalOpcode.ctorIdx)[position]? =
      some opcode.ctorIdx := by
    simp [found]
  rw [map_ctorIdx_allFinalOpcodes] at mapped
  obtain ⟨_, equality⟩ := List.getElem?_eq_some_iff.mp mapped
  simpa using equality.symm

theorem toNat_encodedByte (opcode : FinalOpcode) :
    opcode.encodedByte.toNat = opcode.ctorIdx := by
  have bound := ctorIdx_lt opcode
  simp only [encodedByte, UInt8.toNat_ofNat']
  omega

/-- Every opcode other than the sentinel is read back from its byte. -/
theorem decode_encodedByte {opcode : FinalOpcode}
    (valid : opcode ≠ .invalid) :
    decode opcode.encodedByte = .ok opcode := by
  have lookup : fromTableByte opcode.encodedByte = some opcode := by
    rw [fromTableByte, toNat_encodedByte]
    exact allFinalOpcodes_getElem?_ctorIdx opcode
  unfold decode
  rw [lookup]
  split
  · next equality => exact absurd (Option.some.inj equality) valid
  · next equality => rw [Option.some.inj equality]
  · next equality => cases equality

/-- A successfully decoded byte is the encoding of the decoded opcode. -/
theorem encodedByte_of_decode {byte : UInt8} {opcode : FinalOpcode}
    (decoded : decode byte = .ok opcode) :
    opcode.encodedByte = byte ∧ opcode ≠ .invalid := by
  unfold decode at decoded
  split at decoded
  · cases decoded
  · next found notInvalid lookup =>
      cases decoded
      refine ⟨?_, fun equality => notInvalid (by rw [← equality])⟩
      have position := ctorIdx_of_getElem? lookup
      apply UInt8.toNat.inj
      rw [toNat_encodedByte, position]
  · cases decoded

/-- The declared instruction size is one opcode byte plus the operands. -/
theorem instructionSize_eq (opcode : FinalOpcode) :
    opcode.metadata.instructionSize =
      opcode.metadata.operandFormat.operandWidth + 1 := by
  cases opcode <;> rfl

end FinalOpcode

end Fusor.Bytecode
