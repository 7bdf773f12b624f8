import Fusor.Bytecode.Instruction

/-!
# Instruction streams

Checked decoding of one instruction and of a whole stream, and the bounded
builder that appends encoded instructions.  Byte positions are 32-bit; a
position converts to a slice index without loss on every supported host, so
the host-representability errors of the source have no counterpart here.
-/

namespace Fusor.Bytecode

/-- A byte offset into a bytecode stream. -/
abbrev BytecodePc := UInt32

/-- Adds a byte count to a 32-bit word, returning `none` on overflow. -/
def checkedAdd (value : UInt32) (bytes : Nat) : Option UInt32 :=
  if value.toNat + bytes < 2 ^ 32 then
    some (UInt32.ofNat (value.toNat + bytes))
  else
    none

theorem checkedAdd_eq_some_iff {value next : UInt32} {bytes : Nat} :
    checkedAdd value bytes = some next ↔
      next.toNat = value.toNat + bytes := by
  unfold checkedAdd
  constructor
  · intro added
    split at added
    · rename_i bound
      cases added
      exact UInt32.toNat_ofNat_of_lt' bound
    · cases added
  · intro sum
    have bound : next.toNat < 2 ^ 32 := next.toNat_lt
    rw [if_pos (by omega), ← sum, UInt32.ofNat_toNat]

theorem exists_toNat_eq_add (value : UInt32) (bytes : Nat)
    (bounded : value.toNat + bytes < 2 ^ 32) :
    ∃ next : UInt32, next.toNat = value.toNat + bytes :=
  ⟨UInt32.ofNat (value.toNat + bytes), UInt32.toNat_ofNat_of_lt' bounded⟩

/-- A decoded instruction and its bytecode positions. -/
structure DecodedInstruction where
  pc : BytecodePc
  instruction : Instruction
  nextPc : BytecodePc
  nextPc_eq : nextPc.toNat = pc.toNat + instruction.encodedSize
deriving DecidableEq

/-- Failure to decode one instruction. -/
inductive DecodeError where
  | pcOutOfBounds (pc : BytecodePc) (bytecodeLen : Nat)
  | missingOpcode (pc : BytecodePc) (expectedBytes remainingBytes : Nat)
  | invalidOpcode (pc : BytecodePc) (opcodeByte : UInt8)
      (source : FinalOpcodeDecodeError)
  | truncatedOperands (pc : BytecodePc) (opcode : FinalOpcode)
      (expectedBytes remainingBytes : Nat)
  | operandDecoding (pc : BytecodePc) (opcode : FinalOpcode)
      (source : OperandDecodeError)
  | nextPcOverflow (pc : BytecodePc) (instructionSize : Nat)
deriving DecidableEq

/-- Decodes one final instruction at `pc`. -/
def decodeInstruction (bytecode : List UInt8) (pc : BytecodePc) :
    Except DecodeError DecodedInstruction :=
  let index := pc.toNat
  if bytecode.length < index then
    .error (.pcOutOfBounds pc bytecode.length)
  else
    match bytecode[index]? with
    | none => .error (.missingOpcode pc 1 (bytecode.length - index))
    | some opcodeByte =>
        match opcodeDecoded : FinalOpcode.decode opcodeByte with
        | .error source => .error (.invalidOpcode pc opcodeByte source)
        | .ok opcode =>
            let format := opcode.metadata.operandFormat
            let expectedOperands := format.operandWidth
            let operandStart := index + 1
            let remainingOperands := bytecode.length - operandStart
            if remainingOperands < expectedOperands then
              .error (.truncatedOperands pc opcode expectedOperands
                remainingOperands)
            else
              match operandsDecoded : Operands.decode format
                  ((bytecode.drop operandStart).take expectedOperands) with
              | .error source => .error (.operandDecoding pc opcode source)
              | .ok operands =>
                  let instruction : Instruction :=
                    ⟨opcode, operands,
                      (FinalOpcode.encodedByte_of_decode opcodeDecoded).2,
                      (Operands.bytes_of_decode operandsDecoded).1⟩
                  let instructionSize := opcode.metadata.instructionSize
                  match added : checkedAdd pc instructionSize with
                  | none => .error (.nextPcOverflow pc instructionSize)
                  | some nextPc =>
                      .ok ⟨pc, instruction, nextPc,
                        checkedAdd_eq_some_iff.mp added⟩

/-- A decoded instruction's encoding stands in the stream at its position. -/
theorem bytes_of_decodeInstruction {bytecode : List UInt8} {pc : BytecodePc}
    {decoded : DecodedInstruction}
    (success : decodeInstruction bytecode pc = .ok decoded) :
    decoded.pc = pc ∧
      bytecode.drop pc.toNat =
        decoded.instruction.bytes ++ bytecode.drop decoded.nextPc.toNat := by
  simp only [decodeInstruction] at success
  split at success
  · cases success
  · split at success
    · cases success
    · rename_i opcodeByte found
      split at success
      · cases success
      · rename_i opcode opcodeDecoded
        split at success
        · cases success
        · split at success
          · cases success
          · rename_i operands operandsDecoded
            split at success
            · cases success
            · rename_i nextPc added
              cases success
              refine ⟨rfl, ?_⟩
              obtain ⟨bound, element⟩ := List.getElem?_eq_some_iff.mp found
              have opcodeByte_eq :=
                (FinalOpcode.encodedByte_of_decode opcodeDecoded).1
              have operandBytes := (Operands.bytes_of_decode operandsDecoded).2
              have sum := checkedAdd_eq_some_iff.mp added
              rw [FinalOpcode.instructionSize_eq] at sum
              have after : nextPc.toNat = pc.toNat + 1 +
                  opcode.metadata.operandFormat.operandWidth := by
                omega
              rw [List.drop_eq_getElem_cons bound, element]
              simp only [Instruction.bytes, opcodeByte_eq, operandBytes]
              have tail := List.take_append_drop
                opcode.metadata.operandFormat.operandWidth
                (bytecode.drop (pc.toNat + 1))
              rw [List.drop_drop] at tail
              rw [after, List.cons_append, tail]

/-- An encoding in the stream decodes to the instruction it encodes. -/
theorem decodeInstruction_of_bytes {bytecode rest : List UInt8}
    {decoded : DecodedInstruction}
    (stands : bytecode.drop decoded.pc.toNat =
      decoded.instruction.bytes ++ rest) :
    decodeInstruction bytecode decoded.pc = .ok decoded := by
  obtain ⟨pc, instruction, nextPc, sum⟩ := decoded
  simp only at stands
  have length := congrArg List.length stands
  simp only [List.length_drop, List.length_append,
    Instruction.length_bytes] at length
  have positive := instruction.encodedSize_pos
  have size : instruction.encodedSize =
      instruction.opcode.metadata.operandFormat.operandWidth + 1 :=
    FinalOpcode.instructionSize_eq _
  have opcodeByte : bytecode[pc.toNat]? =
      some instruction.opcode.encodedByte := by
    rw [← List.head?_drop, stands]
    rfl
  have operandBytes :
      (bytecode.drop (pc.toNat + 1)).take
          instruction.opcode.metadata.operandFormat.operandWidth =
        instruction.operands.bytes := by
    rw [← List.drop_drop, stands, ← instruction.format_eq]
    simp [Instruction.bytes]
  have opcodeDecoded :=
    FinalOpcode.decode_encodedByte instruction.opcode_ne_invalid
  have operandsDecoded := instruction.operands.decode_bytes
  rw [instruction.format_eq] at operandsDecoded
  simp only [decodeInstruction, opcodeByte]
  rw [if_neg (by omega)]
  split
  · rename_i failed
    rw [opcodeDecoded] at failed
    cases failed
  · rename_i opcode sameOpcode
    rw [opcodeDecoded] at sameOpcode
    cases sameOpcode
    rw [if_neg (by omega)]
    split
    · rename_i failed
      rw [operandBytes, operandsDecoded] at failed
      cases failed
    · rename_i operands sameOperands
      rw [operandBytes, operandsDecoded] at sameOperands
      cases sameOperands
      have added := checkedAdd_eq_some_iff.mpr sum
      rw [Instruction.encodedSize] at added
      split
      · rename_i overflow
        rw [added] at overflow
        cases overflow
      · rename_i next sameNext
        rw [added] at sameNext
        cases sameNext
        rfl

/-- A checked iterator over a final instruction stream. -/
structure InstructionDecoder where
  bytecode : List UInt8
  nextPc : BytecodePc
  finished : Bool
deriving DecidableEq

namespace InstructionDecoder

def new (bytecode : List UInt8) : InstructionDecoder :=
  { bytecode, nextPc := 0, finished := false }

def withPc (bytecode : List UInt8) (pc : BytecodePc) : InstructionDecoder :=
  { bytecode, nextPc := pc, finished := false }

/-- One call of the iterator: the item, if any, and the iterator after it. -/
def next (decoder : InstructionDecoder) :
    Option (Except DecodeError DecodedInstruction) × InstructionDecoder :=
  if decoder.finished then
    (none, decoder)
  else if decoder.nextPc.toNat = decoder.bytecode.length then
    (none, { decoder with finished := true })
  else
    match decodeInstruction decoder.bytecode decoder.nextPc with
    | .ok decoded => (some (.ok decoded), { decoder with nextPc := decoded.nextPc })
    | .error error => (some (.error error), { decoder with finished := true })

/-- The number of calls that can still yield an item. -/
def remaining (decoder : InstructionDecoder) : Nat :=
  if decoder.finished then
    0
  else
    decoder.bytecode.length - decoder.nextPc.toNat + 1

theorem remaining_next_lt {decoder rest : InstructionDecoder}
    {item : Except DecodeError DecodedInstruction}
    (yielded : decoder.next = (some item, rest)) :
    rest.remaining < decoder.remaining := by
  unfold next at yielded
  split at yielded
  · cases yielded
  · rename_i running
    split at yielded
    · cases yielded
    · rename_i inside
      split at yielded
      · rename_i decoded success
        cases yielded
        obtain ⟨start, stands⟩ := bytes_of_decodeInstruction success
        have length := congrArg List.length stands
        have positive := decoded.instruction.encodedSize_pos
        have sum := decoded.nextPc_eq
        simp only [List.length_drop, List.length_append,
          Instruction.length_bytes] at length
        simp only [remaining, running, Bool.false_eq_true, if_false]
        rw [start] at sum
        omega
      · rename_i error failed
        cases yielded
        simp [remaining, running]

/-- Every item the iterator yields, in order. -/
def collect (decoder : InstructionDecoder) :
    List (Except DecodeError DecodedInstruction) :=
  match _yielded : decoder.next with
  | (none, _) => []
  | (some item, rest) => item :: rest.collect
termination_by decoder.remaining
decreasing_by exact remaining_next_lt _yielded

private theorem collect_eq (decoder : InstructionDecoder) :
    decoder.collect =
      match decoder.next with
      | (none, _) => []
      | (some item, rest) => item :: rest.collect := by
  rw [collect]
  split <;> simp_all

theorem collect_of_end {bytecode : List UInt8} {pc : BytecodePc}
    (atEnd : pc.toNat = bytecode.length) :
    (withPc bytecode pc).collect = [] := by
  simp [collect_eq, next, withPc, atEnd]

theorem collect_of_error {bytecode : List UInt8} {pc : BytecodePc}
    {error : DecodeError} (inside : pc.toNat ≠ bytecode.length)
    (failed : decodeInstruction bytecode pc = .error error) :
    (withPc bytecode pc).collect = [.error error] := by
  rw [collect_eq]
  simp only [next, withPc, inside, failed, Bool.false_eq_true, if_false]
  rw [collect_eq]
  simp [next]

theorem collect_of_ok {bytecode : List UInt8} {pc : BytecodePc}
    {decoded : DecodedInstruction} (inside : pc.toNat ≠ bytecode.length)
    (success : decodeInstruction bytecode pc = .ok decoded) :
    (withPc bytecode pc).collect =
      .ok decoded :: (withPc bytecode decoded.nextPc).collect := by
  rw [collect_eq]
  simp only [next, withPc, inside, success, Bool.false_eq_true, if_false]

end InstructionDecoder

/-- Consecutive decoded instructions from a start to a stop position: each
starts where the previous one ends. -/
inductive Tiling : BytecodePc → List DecodedInstruction → BytecodePc → Prop where
  | nil (pc : BytecodePc) : Tiling pc [] pc
  | cons {decoded : DecodedInstruction} {rest : List DecodedInstruction}
      {stop : BytecodePc} :
      Tiling decoded.nextPc rest stop →
      Tiling decoded.pc (decoded :: rest) stop

/-- The concatenated encodings of an instruction list. -/
def encodeInstructions (instructions : List Instruction) : List UInt8 :=
  instructions.flatMap Instruction.bytes

@[simp] theorem encodeInstructions_nil : encodeInstructions [] = [] := rfl

@[simp] theorem encodeInstructions_cons (instruction : Instruction)
    (rest : List Instruction) :
    encodeInstructions (instruction :: rest) =
      instruction.bytes ++ encodeInstructions rest := rfl

namespace Tiling

theorem stop_eq {start stop : BytecodePc} {decoded : List DecodedInstruction}
    (tiling : Tiling start decoded stop) :
    stop.toNat = start.toNat +
      (encodeInstructions (decoded.map (·.instruction))).length := by
  induction tiling with
  | nil pc => simp
  | @cons decoded rest stop _ induction =>
      have sum := decoded.nextPc_eq
      simp only [List.map_cons, encodeInstructions_cons, List.length_append,
        Instruction.length_bytes]
      omega

/-- A tiling is fixed by its start and its instructions. -/
theorem unique {start first second : BytecodePc}
    {left right : List DecodedInstruction}
    (leftTiling : Tiling start left first)
    (rightTiling : Tiling start right second)
    (same : left.map (·.instruction) = right.map (·.instruction)) :
    left = right := by
  induction leftTiling generalizing right with
  | nil pc => simpa using same.symm
  | @cons decoded rest stop _ induction =>
      generalize started : decoded.pc = start at rightTiling
      cases rightTiling with
      | nil => simp at same
      | @cons other others _ tiling =>
          simp only [List.map_cons, List.cons.injEq] at same
          obtain ⟨sameFirst, sameRest⟩ := same
          have sameNext : decoded.nextPc = other.nextPc := by
            apply UInt32.toNat.inj
            rw [decoded.nextPc_eq, other.nextPc_eq, started, sameFirst]
          have sameDecoded : decoded = other := by
            cases decoded
            cases other
            simp_all
          rw [← sameNext] at tiling
          rw [sameDecoded, induction tiling sameRest]

end Tiling

/-- What the first item of a collection says about the stream. -/
private theorem collect_cases (bytecode : List UInt8) (pc : BytecodePc) :
    (pc.toNat = bytecode.length ∧
        (InstructionDecoder.withPc bytecode pc).collect = []) ∨
      (pc.toNat ≠ bytecode.length ∧ ∃ error,
        (InstructionDecoder.withPc bytecode pc).collect = [.error error]) ∨
      (pc.toNat ≠ bytecode.length ∧ ∃ decoded,
        decodeInstruction bytecode pc = .ok decoded ∧
          (InstructionDecoder.withPc bytecode pc).collect = .ok decoded ::
            (InstructionDecoder.withPc bytecode decoded.nextPc).collect) := by
  by_cases atEnd : pc.toNat = bytecode.length
  · exact .inl ⟨atEnd, InstructionDecoder.collect_of_end atEnd⟩
  · cases result : decodeInstruction bytecode pc with
    | error error =>
        exact .inr (.inl ⟨atEnd, error,
          InstructionDecoder.collect_of_error atEnd result⟩)
    | ok decoded =>
        exact .inr (.inr ⟨atEnd, decoded, rfl,
          InstructionDecoder.collect_of_ok atEnd result⟩)

/-- The decoder yields exactly these instructions and no error precisely when
they tile the rest of the stream and encode to it. -/
theorem collect_eq_map_ok_iff {bytecode : List UInt8} {pc : BytecodePc}
    {decoded : List DecodedInstruction} :
    (InstructionDecoder.withPc bytecode pc).collect = decoded.map .ok ↔
      pc.toNat ≤ bytecode.length ∧
        (∃ stop, Tiling pc decoded stop) ∧
        bytecode.drop pc.toNat =
          encodeInstructions (decoded.map (·.instruction)) := by
  induction decoded generalizing pc with
  | nil =>
      constructor
      · intro empty
        rcases collect_cases bytecode pc with ⟨atEnd, _⟩ | ⟨_, error, single⟩ |
          ⟨_, decoded, _, several⟩
        · exact ⟨by omega, ⟨pc, .nil pc⟩, List.drop_eq_nil_of_le (by omega)⟩
        · rw [single] at empty
          cases empty
        · rw [several] at empty
          cases empty
      · rintro ⟨inside, _, empty⟩
        have past := List.drop_eq_nil_iff.mp empty
        exact InstructionDecoder.collect_of_end (by omega)
  | cons first rest induction =>
      constructor
      · intro items
        rcases collect_cases bytecode pc with ⟨_, empty⟩ | ⟨_, error, single⟩ |
          ⟨_, decoded, success, several⟩
        · rw [empty] at items
          cases items
        · rw [single] at items
          cases items
        · rw [several, List.map_cons, List.cons.injEq] at items
          obtain ⟨same, others⟩ := items
          cases same
          obtain ⟨start, stands⟩ := bytes_of_decodeInstruction success
          obtain ⟨inside, ⟨stop, tiling⟩, suffix⟩ := induction.mp others
          have sum := first.nextPc_eq
          rw [start] at sum
          refine ⟨by omega, ⟨stop, start ▸ .cons tiling⟩, ?_⟩
          rw [stands, suffix]
          rfl
      · rintro ⟨inside, ⟨stop, tiling⟩, stands⟩
        cases tiling with
        | cons tiling =>
            rw [List.map_cons, encodeInstructions_cons] at stands
            have length := congrArg List.length stands
            simp only [List.length_drop, List.length_append,
              Instruction.length_bytes] at length
            have positive := first.instruction.encodedSize_pos
            have sum := first.nextPc_eq
            have success := decodeInstruction_of_bytes stands
            have suffix : bytecode.drop first.nextPc.toNat =
                encodeInstructions (rest.map (·.instruction)) := by
              have after := (bytes_of_decodeInstruction success).2
              rw [stands] at after
              exact (List.append_cancel_left after).symm
            rw [InstructionDecoder.collect_of_ok (by omega) success,
              induction.mpr ⟨by omega, ⟨stop, tiling⟩, suffix⟩]
            rfl

/-- Failure to append an instruction. -/
inductive EncodeError where
  | invalidInstruction (pc : BytecodePc) (source : InstructionError)
  | operandEncoding (pc : BytecodePc) (opcode : FinalOpcode)
      (source : OperandEncodeError)
  | schemaSizeMismatch (pc : BytecodePc) (opcode : FinalOpcode)
      (declaredSize actualSize : Nat)
  | pcOverflow (pc : BytecodePc) (instructionSize : Nat)
  | encodedLengthOverflow (encodedBytes : UInt32) (instructionSize : Nat)
  | byteLimitExceeded (pc : BytecodePc) (instructionSize : Nat)
      (encodedBytes byteLimit : UInt32)
  | allocationFailed (pc : BytecodePc) (additionalBytes : Nat)
deriving DecidableEq

/-- A bounded encoder for final instructions. -/
structure BytecodeBuilder where
  bytes : List UInt8
  nextPc : BytecodePc
  encodedLen : UInt32
  byteLimit : UInt32
deriving DecidableEq

namespace BytecodeBuilder

def withOriginAndByteLimit (origin : BytecodePc) (byteLimit : UInt32) :
    BytecodeBuilder :=
  { bytes := [], nextPc := origin, encodedLen := 0, byteLimit }

def new : BytecodeBuilder := withOriginAndByteLimit 0 0xffffffff

def withByteLimit (byteLimit : UInt32) : BytecodeBuilder :=
  withOriginAndByteLimit 0 byteLimit

/-- Appends an already validated instruction.  `granted` is the answer of the
allocator to the reservation made for this call. -/
def pushInstruction (granted : Bool) (builder : BytecodeBuilder)
    (instruction : Instruction) :
    Except EncodeError BytecodePc × BytecodeBuilder :=
  let pc := builder.nextPc
  let opcode := instruction.opcode
  match instruction.operands.encode with
  | .error source => (.error (.operandEncoding pc opcode source), builder)
  | .ok encodedOperands =>
      let actualSize := encodedOperands.length + 1
      let declaredSize := opcode.metadata.instructionSize
      if 255 < actualSize then
        (.error (.schemaSizeMismatch pc opcode declaredSize 255), builder)
      else if actualSize ≠ declaredSize then
        (.error (.schemaSizeMismatch pc opcode declaredSize actualSize),
          builder)
      else
        match checkedAdd pc actualSize, checkedAdd builder.encodedLen actualSize with
        | none, _ => (.error (.pcOverflow pc actualSize), builder)
        | some _, none =>
            (.error (.encodedLengthOverflow builder.encodedLen actualSize),
              builder)
        | some nextPc, some nextEncodedLen =>
            if builder.byteLimit < nextEncodedLen then
              (.error (.byteLimitExceeded pc actualSize builder.encodedLen
                builder.byteLimit), builder)
            else if granted then
              (.ok pc,
                { builder with
                  bytes :=
                    builder.bytes ++ opcode.encodedByte :: encodedOperands
                  nextPc := nextPc
                  encodedLen := nextEncodedLen })
            else
              (.error (.allocationFailed pc actualSize), builder)

/-- Validates and appends an opcode and its operands. -/
def push (granted : Bool) (builder : BytecodeBuilder) (opcode : FinalOpcode)
    (operands : Operands) : Except EncodeError BytecodePc × BytecodeBuilder :=
  match Instruction.new opcode operands with
  | .error source =>
      (.error (.invalidInstruction builder.nextPc source), builder)
  | .ok instruction => builder.pushInstruction granted instruction

/-- The outcome of a push once the schema checks have passed. -/
private theorem pushInstruction_eq (granted : Bool) (builder : BytecodeBuilder)
    (instruction : Instruction) :
    builder.pushInstruction granted instruction =
      match checkedAdd builder.nextPc instruction.encodedSize,
          checkedAdd builder.encodedLen instruction.encodedSize with
      | none, _ =>
          (.error (.pcOverflow builder.nextPc instruction.encodedSize), builder)
      | some _, none =>
          (.error (.encodedLengthOverflow builder.encodedLen
            instruction.encodedSize), builder)
      | some nextPc, some nextEncodedLen =>
          if builder.byteLimit < nextEncodedLen then
            (.error (.byteLimitExceeded builder.nextPc instruction.encodedSize
              builder.encodedLen builder.byteLimit), builder)
          else if granted then
            (.ok builder.nextPc,
              { builder with
                bytes := builder.bytes ++ instruction.bytes
                nextPc := nextPc
                encodedLen := nextEncodedLen })
          else
            (.error (.allocationFailed builder.nextPc instruction.encodedSize),
              builder) := by
  have declared : instruction.operands.bytes.length + 1 =
      instruction.opcode.metadata.instructionSize := by
    rw [Operands.length_bytes, instruction.format_eq,
      FinalOpcode.instructionSize_eq]
  have small : ¬255 < instruction.operands.bytes.length + 1 := by
    have bound := instruction.encodedSize_le
    rw [Instruction.encodedSize, ← declared] at bound
    omega
  simp only [pushInstruction, Operands.encode_eq, if_neg small,
    if_neg (not_not.mpr declared)]
  simp only [declared, Instruction.encodedSize, Instruction.bytes]

/-- Exactly what a successful push does. -/
theorem pushInstruction_ok_iff {granted : Bool}
    {builder after : BytecodeBuilder} {instruction : Instruction}
    {pc : BytecodePc} :
    builder.pushInstruction granted instruction = (.ok pc, after) ↔
      granted = true ∧ pc = builder.nextPc ∧
        after.bytes = builder.bytes ++ instruction.bytes ∧
        after.nextPc.toNat =
          builder.nextPc.toNat + instruction.encodedSize ∧
        after.encodedLen.toNat =
          builder.encodedLen.toNat + instruction.encodedSize ∧
        after.byteLimit = builder.byteLimit ∧
        after.encodedLen ≤ builder.byteLimit := by
  rw [pushInstruction_eq]
  constructor
  · intro success
    split at success
    · cases success
    · cases success
    · rename_i nextPc nextEncodedLen pcAdded lenAdded
      split at success
      · cases success
      · rename_i within
        split at success
        · rename_i allowed
          cases success
          exact ⟨allowed, rfl, rfl, checkedAdd_eq_some_iff.mp pcAdded,
            checkedAdd_eq_some_iff.mp lenAdded, rfl,
            UInt32.not_lt.mp within⟩
        · cases success
  · rintro ⟨rfl, rfl, bytes, nextPc, encodedLen, limit, within⟩
    obtain ⟨afterBytes, afterPc, afterLen, afterLimit⟩ := after
    simp only at bytes nextPc encodedLen limit within
    rw [checkedAdd_eq_some_iff.mpr nextPc, checkedAdd_eq_some_iff.mpr encodedLen]
    simp [UInt32.not_lt.mpr within, bytes, limit]

/-- A rejected instruction leaves the builder as it was. -/
theorem pushInstruction_error {granted : Bool}
    {builder after : BytecodeBuilder} {instruction : Instruction}
    {error : EncodeError}
    (failed : builder.pushInstruction granted instruction =
      (.error error, after)) :
    after = builder := by
  rw [pushInstruction_eq] at failed
  split at failed
  · cases failed
    rfl
  · cases failed
    rfl
  · split at failed
    · cases failed
      rfl
    · split at failed
      · cases failed
      · cases failed
        rfl

theorem push_error {granted : Bool} {builder after : BytecodeBuilder}
    {opcode : FinalOpcode} {operands : Operands} {error : EncodeError}
    (failed : builder.push granted opcode operands = (.error error, after)) :
    after = builder := by
  unfold push at failed
  split at failed
  · cases failed
    rfl
  · exact pushInstruction_error failed

/-- Pushing a list of instructions, stopping at the first failure. -/
def pushInstructions (builder : BytecodeBuilder) :
    List Instruction → Except EncodeError (List BytecodePc) × BytecodeBuilder
  | [] => (.ok [], builder)
  | instruction :: rest =>
      match builder.pushInstruction true instruction with
      | (.error error, after) => (.error error, after)
      | (.ok pc, after) =>
          match after.pushInstructions rest with
          | (.error error, last) => (.error error, last)
          | (.ok pcs, last) => (.ok (pc :: pcs), last)

theorem pushInstructions_of_fits {builder : BytecodeBuilder}
    {instructions : List Instruction}
    (positions : builder.nextPc.toNat +
      (encodeInstructions instructions).length < 2 ^ 32)
    (lengths : builder.encodedLen.toNat +
      (encodeInstructions instructions).length ≤ builder.byteLimit.toNat) :
    ∃ decoded after,
      builder.pushInstructions instructions =
        (.ok (decoded.map (·.pc)), after) ∧
      decoded.map (·.instruction) = instructions ∧
      Tiling builder.nextPc decoded after.nextPc ∧
      after.bytes = builder.bytes ++ encodeInstructions instructions := by
  induction instructions generalizing builder with
  | nil =>
      exact ⟨[], builder, rfl, rfl, .nil _, by simp⟩
  | cons instruction rest induction =>
      simp only [encodeInstructions_cons, List.length_append,
        Instruction.length_bytes] at positions lengths
      have limit : builder.byteLimit.toNat < 2 ^ 32 := builder.byteLimit.toNat_lt
      obtain ⟨nextPc, pcSum⟩ := exists_toNat_eq_add builder.nextPc
        instruction.encodedSize (by omega)
      obtain ⟨encodedLen, lenSum⟩ := exists_toNat_eq_add builder.encodedLen
        instruction.encodedSize (by omega)
      let next : BytecodeBuilder :=
        { builder with
          bytes := builder.bytes ++ instruction.bytes, nextPc, encodedLen }
      have pushed : builder.pushInstruction true instruction =
          (.ok builder.nextPc, next) :=
        pushInstruction_ok_iff.mpr ⟨rfl, rfl, rfl, pcSum, lenSum, rfl,
          UInt32.le_iff_toNat_le.mpr (by simp only [next]; omega)⟩
      obtain ⟨decoded, after, success, same, tiling, bytes⟩ :=
        @induction next (by simp only [next]; omega)
          (by simp only [next]; omega)
      let first : DecodedInstruction :=
        ⟨builder.nextPc, instruction, nextPc, pcSum⟩
      refine ⟨first :: decoded, after, ?_, ?_,
        @Tiling.cons first decoded after.nextPc tiling, ?_⟩
      · simp [pushInstructions, pushed, success, first]
      · simp [same, first]
      · simp [bytes, next]

/-- Appending, decoding and re-encoding instruction streams.  Every list of
instructions that fits the builder's position and byte limits is accepted and
decodes to itself at the returned positions, a fragment being read behind any
`origin` bytes; every stream decoded without error is re-encoded to itself; a
rejected push changes nothing. -/
theorem instructionStream_roundTrip :
    (∀ (origin : BytecodePc) (byteLimit : UInt32)
        (instructions : List Instruction),
      origin.toNat + (encodeInstructions instructions).length < 2 ^ 32 →
      (encodeInstructions instructions).length ≤ byteLimit.toNat →
      ∃ pcs after,
        (withOriginAndByteLimit origin byteLimit).pushInstructions
          instructions = (.ok pcs, after) ∧
        ∀ initial : List UInt8, initial.length = origin.toNat →
          ∃ decoded : List DecodedInstruction,
            (InstructionDecoder.withPc (initial ++ after.bytes) origin).collect
              = decoded.map .ok ∧
            decoded.map (·.instruction) = instructions ∧
            decoded.map (·.pc) = pcs) ∧
    (∀ (bytecode : List UInt8) (decoded : List DecodedInstruction),
      (InstructionDecoder.new bytecode).collect = decoded.map .ok →
      ∃ after,
        new.pushInstructions (decoded.map (·.instruction)) =
          (.ok (decoded.map (·.pc)), after) ∧
        after.bytes = bytecode) ∧
    (∀ (granted : Bool) (builder after : BytecodeBuilder)
        (opcode : FinalOpcode) (operands : Operands) (error : EncodeError),
      builder.push granted opcode operands = (.error error, after) →
      after = builder) ∧
    (∀ (granted : Bool) (builder after : BytecodeBuilder)
        (instruction : Instruction) (error : EncodeError),
      builder.pushInstruction granted instruction = (.error error, after) →
      after = builder) := by
  refine ⟨?_, ?_, fun _ _ _ _ _ _ => push_error,
    fun _ _ _ _ _ => pushInstruction_error⟩
  · intro origin byteLimit instructions positions lengths
    have accepted := @pushInstructions_of_fits
      (withOriginAndByteLimit origin byteLimit) instructions positions
      (by simpa [withOriginAndByteLimit] using lengths)
    obtain ⟨decoded, after, success, same, tiling, bytes⟩ := accepted
    refine ⟨_, after, success, ?_⟩
    intro initial width
    refine ⟨decoded, ?_, same, rfl⟩
    rw [collect_eq_map_ok_iff, same, bytes]
    exact ⟨by simp [← width], ⟨_, tiling⟩, by
      simp [← width, withOriginAndByteLimit]⟩
  · intro bytecode decoded collected
    obtain ⟨_, ⟨stop, tiling⟩, whole⟩ := collect_eq_map_ok_iff.mp collected
    have bound : stop.toNat < 2 ^ 32 := stop.toNat_lt
    have total := tiling.stop_eq
    have accepted := @pushInstructions_of_fits new
      (decoded.map (·.instruction))
      (by simp [new, withOriginAndByteLimit] at total ⊢; omega)
      (by simp [new, withOriginAndByteLimit] at total ⊢; omega)
    obtain ⟨again, after, success, same, retiling, bytes⟩ := accepted
    have same : again = decoded := retiling.unique tiling same
    subst same
    refine ⟨after, success, ?_⟩
    rw [bytes, ← whole]
    rfl

private def sampleReturn : DecodedInstruction :=
  ⟨0, ⟨.returnOp, .none, by decide, rfl⟩, 1, rfl⟩

/-- A fragment at position seven, a decoded stream and two rejected pushes. -/
theorem instructionStream_roundTrip_samples :
    (∃ pcs after,
      (withOriginAndByteLimit 7 6).pushInstructions
        [⟨.pushI32, .i32 (-2), by decide, rfl⟩, sampleReturn.instruction] =
          (.ok pcs, after) ∧
      ∀ initial : List UInt8, initial.length = 7 →
        ∃ decoded : List DecodedInstruction,
          (InstructionDecoder.withPc (initial ++ after.bytes) 7).collect
            = decoded.map .ok ∧
          decoded.map (·.instruction) =
            [⟨.pushI32, .i32 (-2), by decide, rfl⟩,
              sampleReturn.instruction] ∧
          decoded.map (·.pc) = pcs) ∧
    (∃ after,
      new.pushInstructions [sampleReturn.instruction] = (.ok [0], after) ∧
        after.bytes = sampleReturn.instruction.bytes) ∧
    ((withByteLimit 0).push true .returnOp .none).2 = withByteLimit 0 ∧
    (new.pushInstruction false sampleReturn.instruction).2 = new :=
  ⟨instructionStream_roundTrip.1 7 6 _ (by decide) (by decide),
    instructionStream_roundTrip.2.1 sampleReturn.instruction.bytes
      [sampleReturn] (collect_eq_map_ok_iff.mpr
        ⟨by decide, ⟨_, @Tiling.cons sampleReturn [] _ (.nil _)⟩, rfl⟩),
    instructionStream_roundTrip.2.2.1 true (withByteLimit 0) _ .returnOp .none
      (.byteLimitExceeded 0 1 0 0) (by decide),
    instructionStream_roundTrip.2.2.2 false new _ sampleReturn.instruction
      (.allocationFailed 0 1) (by decide)⟩

end BytecodeBuilder

end Fusor.Bytecode
