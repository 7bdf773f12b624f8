import Fusor.Bytecode.Assembler
import Fusor.Graph.Functional
import Fusor.Support.Result

/-!
# Assembler correctness

Every accepted plan decodes to one instruction per planned item, at the
reported positions, with every displacement reaching the instruction its label
names or, for ordinary branches, the end of that label's goto chain.
-/

namespace Fusor.Bytecode

open Fusor.Graph Fusor.Support

namespace BytecodeAssembler

/-! ## Goto chains -/

theorem getElem?_settlePath (states : List BranchTargetState)
    (path : List Nat) (state : BranchTargetState) (label : Nat) :
    (settlePath states path state)[label]? =
      if label ∈ path ∧ label < states.length then
        some state
      else
        states[label]? := by
  induction path generalizing states with
  | nil => simp [settlePath]
  | cons first rest induction =>
      have unfolded : settlePath states (first :: rest) state =
          settlePath (states.set first state) rest state := rfl
      rw [unfolded, induction, List.length_set]
      simp only [List.mem_cons]
      by_cases later : label ∈ rest ∧ label < states.length
      · rw [if_pos later, if_pos ⟨.inr later.1, later.2⟩]
      · rw [if_neg later, List.getElem?_set]
        by_cases same : first = label
        · subst same
          by_cases bound : first < states.length
          · simp [bound]
          · simp [bound]
        · rw [if_neg same]
          have different : ¬label = first := fun equality => same equality.symm
          by_cases inRest : label ∈ rest
          · have outside : ¬label < states.length := fun bound =>
              later ⟨inRest, bound⟩
            simp [outside]
          · simp [different, inRest]

@[simp] theorem length_settlePath (states : List BranchTargetState)
    (path : List Nat) (state : BranchTargetState) :
    (settlePath states path state).length = states.length := by
  induction path generalizing states with
  | nil => rfl
  | cons first rest induction =>
      exact (induction (states.set first state)).trans List.length_set

/-- Every decided state is right about the goto chain of its label. -/
structure StatesSound (assembler : BytecodeAssembler)
    (states : List BranchTargetState) : Prop where
  terminal : ∀ label target, states[label]? = some (.terminal target) →
    LeadsTo assembler.labelGotoTarget label target
  cycle : ∀ label, states[label]? = some .cycle →
    Cyclic assembler.labelGotoTarget label

/-- The labels on the path are exactly those being resolved, and each of them
leads to the current label. -/
structure PathInvariant (assembler : BytecodeAssembler)
    (states : List BranchTargetState) (path : List Nat) (current : Nat) :
    Prop where
  sound : StatesSound assembler states
  resolving : ∀ label, states[label]? = some .resolving ↔ label ∈ path
  chain : ∀ label ∈ path,
    Relation.TransGen (Follows assembler.labelGotoTarget) label current

/-- A decided label. -/
def Settled (states : List BranchTargetState) (label : Nat) : Prop :=
  (∃ target, states[label]? = some (.terminal target)) ∨
    states[label]? = some .cycle

/-- What resolving one path achieves. -/
structure Resolved (assembler : BytecodeAssembler)
    (before after : List BranchTargetState) : Prop where
  sound : StatesSound assembler after
  length : after.length = before.length
  noneResolving : ∀ label : Nat,
    after[label]? ≠ some BranchTargetState.resolving
  keeps : ∀ label, Settled before label → Settled after label

private theorem resolved_settlePath {assembler : BytecodeAssembler}
    {states : List BranchTargetState} {path : List Nat}
    {state : BranchTargetState}
    (sound : StatesSound assembler states)
    (resolving : ∀ label, states[label]? = some .resolving → label ∈ path)
    (decided : (∃ target, state = .terminal target ∧ ∀ label ∈ path,
        LeadsTo assembler.labelGotoTarget label target) ∨
      (state = .cycle ∧ ∀ label ∈ path,
        Cyclic assembler.labelGotoTarget label)) :
    Resolved assembler states (settlePath states path state) := by
  have notResolving : state ≠ .resolving := by
    rcases decided with ⟨_, rfl, _⟩ | ⟨rfl, _⟩ <;> exact nofun
  refine ⟨⟨?_, ?_⟩, length_settlePath _ _ _, ?_, ?_⟩
  · intro label target found
    rw [getElem?_settlePath] at found
    split at found
    · rename_i onPath
      rcases decided with ⟨_, rfl, leads⟩ | ⟨rfl, _⟩
      · cases found
        exact leads label onPath.1
      · cases found
    · exact sound.terminal label target found
  · intro label found
    rw [getElem?_settlePath] at found
    split at found
    · rename_i onPath
      rcases decided with ⟨_, rfl, _⟩ | ⟨rfl, cyclic⟩
      · cases found
      · exact cyclic label onPath.1
    · exact sound.cycle label found
  · intro label found
    rw [getElem?_settlePath] at found
    split at found
    · exact notResolving (Option.some.inj found)
    · rename_i offPath
      have bound := (List.getElem?_eq_some_iff.mp found).1
      exact offPath ⟨resolving label found, bound⟩
  · intro label settled
    simp only [Settled, getElem?_settlePath]
    split
    · rcases decided with ⟨target, rfl, _⟩ | ⟨rfl, _⟩
      · exact .inl ⟨target, rfl⟩
      · exact .inr rfl
    · exact settled

private theorem settled_settlePath {states : List BranchTargetState}
    {path : List Nat} {state : BranchTargetState} {label : Nat}
    (decided : (∃ target, state = .terminal target) ∨ state = .cycle)
    (onPath : label ∈ path) (bound : label < states.length) :
    Settled (settlePath states path state) label := by
  simp only [Settled, getElem?_settlePath, if_pos (And.intro onPath bound)]
  rcases decided with ⟨target, rfl⟩ | rfl
  · exact .inl ⟨target, rfl⟩
  · exact .inr rfl

section MarkResolving

variable {assembler : BytecodeAssembler} {states : List BranchTargetState}
  {path : List Nat} {current : Nat}

private theorem sound_set_resolving (sound : StatesSound assembler states) :
    StatesSound assembler (states.set current .resolving) := by
  refine ⟨?_, ?_⟩
  · intro label target found
    rw [List.getElem?_set] at found
    split at found
    · simp at found
    · exact sound.terminal label target found
  · intro label found
    rw [List.getElem?_set] at found
    split at found
    · simp at found
    · exact sound.cycle label found

private theorem resolving_set_iff (bound : current < states.length)
    (resolving : ∀ label, states[label]? = some .resolving ↔ label ∈ path)
    (label : Nat) :
    (states.set current .resolving)[label]? = some .resolving ↔
      label ∈ path ++ [current] := by
  rw [List.getElem?_set, List.mem_append, ← resolving label]
  by_cases same : current = label
  · simp [same, same ▸ bound]
  · have different : ¬label = current := fun equality => same equality.symm
    simp [same, different]

private theorem resolved_of_set {after : List BranchTargetState}
    (unknown : states[current]? = some .unknown)
    (resolved : Resolved assembler (states.set current .resolving) after) :
    Resolved assembler states after := by
  refine ⟨resolved.sound, ?_, resolved.noneResolving, ?_⟩
  · rw [resolved.length, List.length_set]
  · intro label settled
    have different : current ≠ label := by
      rintro rfl
      rcases settled with ⟨_, found⟩ | found <;> simp [unknown] at found
    apply resolved.keeps
    simpa [Settled, List.getElem?_set_ne different] using settled

end MarkResolving

/-- A label on the path has a state. -/
private theorem PathInvariant.inside {assembler : BytecodeAssembler}
    {states : List BranchTargetState} {path : List Nat} {current label : Nat}
    (invariant : PathInvariant assembler states path current)
    (member : label ∈ path) : label < states.length :=
  (List.getElem?_eq_some_iff.mp
    ((invariant.resolving label).mpr member)).1

/-- Resolving from `current` decides everything on the path, and nothing
wrongly. -/
theorem resolvePath_spec {assembler : BytecodeAssembler}
    {states after : List BranchTargetState} {path : List Nat} {current : Nat}
    (invariant : PathInvariant assembler states path current)
    (inside : current < states.length)
    (closed : ∀ label target, assembler.labelGotoTarget label = some target →
      target < states.length)
    (success : assembler.resolvePath states path current = .ok after) :
    Resolved assembler states after ∧
      (∀ label ∈ path, Settled after label) ∧
      (states[current]? = some .unknown → Settled after current) := by
  induction states, path, current using
      BytecodeAssembler.resolvePath.induct assembler with
  | case1 states path current absent =>
      simp only [List.getElem?_eq_none_iff] at absent
      omega
  | case2 states path current unknown final small =>
      rw [resolvePath, unknown] at success
      simp only [final, small, if_true] at success
      cases success
      have resolving := resolving_set_iff inside invariant.resolving
      have leads : ∀ label ∈ path ++ [current],
          LeadsTo assembler.labelGotoTarget label current := by
        intro label member
        rcases List.mem_append.mp member with earlier | last
        · exact .of_reaches (invariant.chain label earlier).to_reflTransGen
            (.stop final)
        · rw [List.mem_singleton.mp last]
          exact .stop final
      refine ⟨resolved_of_set unknown (resolved_settlePath
        (sound_set_resolving invariant.sound)
        (fun label => (resolving label).mp) (.inl ⟨current, rfl, leads⟩)),
        ?_, fun _ => ?_⟩
      · intro label member
        exact settled_settlePath (.inl ⟨current, rfl⟩)
          (List.mem_append_left _ member)
          (by simpa using invariant.inside member)
      · exact settled_settlePath (.inl ⟨current, rfl⟩) (by simp)
          (by simpa using inside)
  | case3 states path current unknown final large =>
      rw [resolvePath, unknown] at success
      simp only [final, large, if_false] at success
      cases success
  | case4 states path current unknown next follows induction =>
      rw [resolvePath, unknown] at success
      simp only [follows] at success
      have extended : PathInvariant assembler (states.set current .resolving)
          (path ++ [current]) next := by
        refine ⟨sound_set_resolving invariant.sound,
          resolving_set_iff inside invariant.resolving, ?_⟩
        intro label member
        rcases List.mem_append.mp member with earlier | last
        · exact (invariant.chain label earlier).tail follows
        · rw [List.mem_singleton.mp last]
          exact .single follows
      obtain ⟨resolved, settled, _⟩ := induction extended
        (by simpa using closed current next follows)
        (by simpa using closed) success
      exact ⟨resolved_of_set unknown resolved,
        fun label member => settled label (List.mem_append_left _ member),
        fun _ => settled current (by simp)⟩
  | case5 states path current resolving =>
      rw [resolvePath, resolving] at success
      cases success
      have onPath : current ∈ path := (invariant.resolving current).mp resolving
      have cyclic : ∀ label ∈ path, Cyclic assembler.labelGotoTarget label :=
        fun label member => ⟨current,
          (invariant.chain label member).to_reflTransGen,
          invariant.chain current onPath⟩
      refine ⟨resolved_settlePath invariant.sound
        (fun label => (invariant.resolving label).mp) (.inr ⟨rfl, cyclic⟩),
        ?_, fun unknown => by simp [resolving] at unknown⟩
      intro label member
      exact settled_settlePath (.inr rfl) member (invariant.inside member)
  | case6 states path current cycle =>
      rw [resolvePath, cycle] at success
      cases success
      have cyclic : ∀ label ∈ path, Cyclic assembler.labelGotoTarget label :=
        fun label member => .of_reaches
          (invariant.chain label member).to_reflTransGen
          (invariant.sound.cycle current cycle)
      refine ⟨resolved_settlePath invariant.sound
        (fun label => (invariant.resolving label).mp) (.inr ⟨rfl, cyclic⟩),
        ?_, fun unknown => by simp [cycle] at unknown⟩
      intro label member
      exact settled_settlePath (.inr rfl) member (invariant.inside member)
  | case7 states path current target terminal =>
      rw [resolvePath, terminal] at success
      cases success
      have leads : ∀ label ∈ path,
          LeadsTo assembler.labelGotoTarget label target :=
        fun label member => .of_reaches
          (invariant.chain label member).to_reflTransGen
          (invariant.sound.terminal current target terminal)
      refine ⟨resolved_settlePath invariant.sound
        (fun label => (invariant.resolving label).mp)
        (.inl ⟨target, rfl, leads⟩),
        ?_, fun unknown => by simp [terminal] at unknown⟩
      intro label member
      exact settled_settlePath (.inl ⟨target, rfl⟩) member
        (invariant.inside member)

/-- The invariant of the loop over start labels. -/
structure StartInvariant (assembler : BytecodeAssembler) (start : Nat)
    (states : List BranchTargetState) : Prop where
  sound : StatesSound assembler states
  length : states.length = assembler.labelBindings.length
  noneResolving : ∀ label : Nat,
    states[label]? ≠ some BranchTargetState.resolving
  settled : ∀ label < start, Settled states label

private theorem settled_of_decided {states : List BranchTargetState}
    {label : Nat} (bound : label < states.length)
    (notUnknown : states[label]? ≠ some .unknown)
    (notResolving : states[label]? ≠ some .resolving) :
    Settled states label := by
  rw [List.getElem?_eq_getElem bound] at notUnknown notResolving
  rw [Settled, List.getElem?_eq_getElem bound]
  cases state : states[label] <;> simp_all

private theorem startInvariant_step {assembler : BytecodeAssembler}
    {start : Nat} {before after : List BranchTargetState}
    (closed : ∀ label target, assembler.labelGotoTarget label = some target →
      target < assembler.labelBindings.length)
    (bound : start < assembler.labelBindings.length)
    (invariant : StartInvariant assembler start before)
    (ran : (if before[start]? = some .unknown then
      assembler.resolvePath before [] start else .ok before) = .ok after) :
    StartInvariant assembler (start + 1) after := by
  obtain ⟨sound, length, idle, settled⟩ := invariant
  split at ran
  · rename_i unknown
    have path : PathInvariant assembler before [] start :=
      ⟨sound, fun label => by simp [idle label], by simp⟩
    obtain ⟨resolved, _, decided⟩ := resolvePath_spec path (by omega)
      (by simpa [length] using closed) ran
    refine ⟨resolved.sound, resolved.length.trans length,
      resolved.noneResolving, ?_⟩
    intro label earlier
    rcases Nat.lt_succ_iff_lt_or_eq.mp earlier with smaller | rfl
    · exact resolved.keeps label (settled label smaller)
    · exact decided unknown
  · rename_i known
    cases ran
    refine ⟨sound, length, idle, ?_⟩
    intro label earlier
    rcases Nat.lt_succ_iff_lt_or_eq.mp earlier with smaller | rfl
    · exact settled label smaller
    · exact settled_of_decided (by omega) known (idle label)

/-- The loop over start labels decides every label. -/
theorem branchTargetStates_spec {assembler : BytecodeAssembler}
    {states : List BranchTargetState}
    (closed : ∀ label target, assembler.labelGotoTarget label = some target →
      target < assembler.labelBindings.length)
    (success : assembler.branchTargetStates = .ok states) :
    StartInvariant assembler assembler.labelBindings.length states := by
  refine foldlM_range_invariant (StartInvariant assembler) ?_ ?_ success
  · refine ⟨⟨?_, ?_⟩, by simp, ?_, by simp⟩ <;> intro label
    · intro target found
      simp [List.getElem?_replicate] at found
    · intro found
      simp [List.getElem?_replicate] at found
    · intro found
      simp [List.getElem?_replicate] at found
  · intro start before after bound invariant ran
    exact startInvariant_step closed bound invariant ran

/-! ## Reachable plans -/

/-- Labels are bound to positions of planned instructions or to the end. -/
def BindingsInside (assembler : BytecodeAssembler) : Prop :=
  ∀ (label position : Nat),
    assembler.labelBindings[label]? = some (some position) →
      position ≤ assembler.items.length

theorem bindingsInside_withLimits (identity : Nat) (limits : AssemblerLimits) :
    BindingsInside (withLimits identity limits) := by
  intro label position found
  simp [withLimits] at found

private theorem bindingsInside_pushItem {assembler : BytecodeAssembler}
    (inside : BindingsInside assembler) (item : AssemblyItem) :
    BindingsInside (assembler.pushItem item) := by
  intro label position found
  have bound := inside label position found
  simp only [pushItem, List.length_append, List.length_singleton]
  omega

theorem bindingsInside_call {assembler : BytecodeAssembler}
    (inside : BindingsInside assembler) (request : Call) :
    BindingsInside (assembler.call request) := by
  cases request with
  | newLabel =>
      simp only [call, newLabel]
      split
      · intro label position found
        rw [List.getElem?_append] at found
        split at found
        · exact inside label position found
        · simp [List.getElem?_singleton] at found
      · exact inside
  | bind label =>
      simp only [call, bind]
      split
      · exact inside
      · exact inside
      · intro other position found
        rw [List.getElem?_set] at found
        split at found
        · simp only [Option.ite_none_right_eq_some, Option.some.injEq] at found
          exact found.2 ▸ Nat.le_refl _
        · exact inside other position found
  | push opcode operands =>
      simp only [call, push]
      repeat' split
      all_goals first | exact inside | exact bindingsInside_pushItem inside _
  | branch kind target =>
      simp only [call, branch]
      repeat' split
      all_goals first | exact inside | exact bindingsInside_pushItem inside _
  | withBranch opcode atom value target =>
      simp only [call, withBranch]
      repeat' split
      all_goals first | exact inside | exact bindingsInside_pushItem inside _

theorem bindingsInside_calls {assembler : BytecodeAssembler}
    (inside : BindingsInside assembler) (sequence : List Call) :
    BindingsInside (assembler.calls sequence) := by
  induction sequence generalizing assembler with
  | nil => exact inside
  | cons request rest induction =>
      exact induction (bindingsInside_call inside request)

/-! ## Emission -/

/-- Emission produces one decoded instruction per item, at the position the
layout gives it. -/
theorem emitItems_spec {assembler : BytecodeAssembler}
    {widths positions : List Nat} {encodedBytes position : Nat}
    {items : List AssemblyItem} {builder after : BytecodeBuilder}
    {pcs : List BytecodePc}
    (success : assembler.emitItems widths positions encodedBytes position items
      builder = .ok (pcs, after)) :
    ∃ decoded : List DecodedInstruction,
      decoded.map (·.pc) = pcs ∧
      Tiling builder.nextPc decoded after.nextPc ∧
      after.bytes = builder.bytes ++
        encodeInstructions (decoded.map (·.instruction)) ∧
      decoded.length = items.length ∧
      ∀ (index : Nat) item one, items[index]? = some item →
        decoded[index]? = some one →
        assembler.itemInstruction widths positions (position + index) item =
          .ok one.instruction ∧
        one.pc.toNat = positions.getD (position + index) 0 := by
  induction items generalizing position builder pcs with
  | nil =>
      simp only [emitItems, Except.ok.injEq, Prod.mk.injEq] at success
      obtain ⟨rfl, rfl⟩ := success
      exact ⟨[], rfl, .nil _, by simp, rfl, by simp⟩
  | cons item items induction =>
      simp only [emitItems] at success
      split at success
      · cases success
      · split at success
        · cases success
        · rename_i small
          split at success
          · cases success
          · rename_i instruction built
            split at success
            · cases success
            · rename_i actual next pushed
              split at success
              · cases success
              · rename_i placed
                rw [bind_eq_ok_iff] at success
                obtain ⟨⟨laterPcs, last⟩, emitted, equality⟩ := success
                rw [pure_eq_ok_iff, Prod.mk.injEq] at equality
                obtain ⟨rfl, rfl⟩ := equality
                obtain ⟨decoded, laters, tiling, bytes, count, each⟩ :=
                  induction emitted
                simp only at bytes
                obtain ⟨_, start, nextBytes, nextPc, _⟩ :=
                  BytecodeBuilder.pushInstruction_ok_iff.mp pushed
                rw [← start] at nextPc
                let first : DecodedInstruction :=
                  ⟨actual, instruction, next.nextPc, nextPc⟩
                refine ⟨first :: decoded, by simp [first, laters],
                  start ▸ @Tiling.cons first decoded _ tiling, ?_,
                  by simp [count], ?_⟩
                · simp [bytes, nextBytes, first]
                · intro index planned one itemFound oneFound
                  cases index with
                  | zero =>
                      cases itemFound
                      cases oneFound
                      refine ⟨built, ?_⟩
                      rw [not_not] at placed
                      simp only [first, placed, Nat.add_zero]
                      exact UInt32.toNat_ofNat_of_lt' (Nat.not_le.mp small)
                  | succ index =>
                      have found := each index planned one itemFound oneFound
                      rw [Nat.add_assoc, Nat.add_comm 1] at found
                      exact found

end BytecodeAssembler

/-! ## Displacements -/

/-- The opcodes a branch kind is encoded with, one for each width. -/
def BranchKind.opcodes : BranchKind → List FinalOpcode
  | .ifFalse => [.ifFalse8, .ifFalse]
  | .ifTrue => [.ifTrue8, .ifTrue]
  | .goto => [.goto8, .goto16, .goto]
  | .catchOp => [.catchOp]
  | .gosub => [.gosub]

/-- The displacement of an ordinary branch operand, of any width. -/
def Operands.branchDisplacement : Operands → Option Int
  | .label8 displacement => some displacement.toInt
  | .label16 displacement => some displacement.toInt
  | .label displacement => some displacement.toInt
  | _ => Option.none

/-- Kinds whose targets are redirected along goto chains. -/
def BranchKind.isOrdinary : BranchKind → Bool
  | .ifFalse | .ifTrue | .goto => true
  | .catchOp | .gosub => false

theorem signedDisplacement_ok {sourcePc targetPc : Nat} {displacement : Int}
    (success : signedDisplacement sourcePc targetPc = .ok displacement) :
    (targetPc : Int) = sourcePc + 1 + displacement := by
  simp only [signedDisplacement] at success
  split at success
  · cases success
  · split at success
    · cases success
      omega
    · cases success

theorem withBranchDisplacement_ok
    {sourcePc targetPc instructionIndex labelIndex : Nat}
    {displacement : Int32}
    (success : withBranchDisplacement sourcePc targetPc instructionIndex
      labelIndex = .ok displacement) :
    (targetPc : Int) = sourcePc + 5 + displacement.toInt := by
  simp only [withBranchDisplacement] at success
  split at success
  · cases success
  · split at success
    · rename_i fits
      cases success
      rw [Int32.toInt_ofInt_of_le fits.1 fits.2]
      omega
    · cases success

theorem newInstruction_ok {instructionIndex : Nat} {opcode : FinalOpcode}
    {operands : Operands} {instruction : Instruction}
    (success : newInstruction instructionIndex opcode operands =
      .ok instruction) :
    instruction.opcode = opcode ∧ instruction.operands = operands := by
  simp only [newInstruction, Instruction.new] at success
  split at success
  · rename_i built
    cases success
    split at built
    · cases built
    · split at built
      · cases built
        exact ⟨rfl, rfl⟩
      · cases built
  · cases success

private theorem toInt_ofInt_byte {displacement : Int}
    (fits : -2 ^ 7 ≤ displacement ∧ displacement < 2 ^ 7) :
    (Int8.ofInt displacement).toInt = displacement :=
  Int8.toInt_ofInt_of_le fits.1 fits.2

private theorem toInt_ofInt_short {displacement : Int}
    (fits : -2 ^ 15 ≤ displacement ∧ displacement < 2 ^ 15) :
    (Int16.ofInt displacement).toInt = displacement :=
  Int16.toInt_ofInt_of_le fits.1 fits.2

private theorem toInt_ofInt_word {displacement : Int}
    (fits : -2 ^ 31 ≤ displacement ∧ displacement < 2 ^ 31) :
    (Int32.ofInt displacement).toInt = displacement :=
  Int32.toInt_ofInt_of_le fits.1 fits.2

theorem branchOperands_some {kind : BranchKind} {instructionSize : Nat}
    {displacement : Int} {opcode : FinalOpcode} {operands : Operands}
    (success : branchOperands kind instructionSize displacement =
      some (opcode, operands)) :
    opcode ∈ kind.opcodes ∧
      operands.branchDisplacement = some displacement := by
  simp only [branchOperands] at success
  split at success
  all_goals first
    | cases success
    | (simp only [Option.ite_none_right_eq_some, Option.some.injEq,
        Prod.mk.injEq] at success
       obtain ⟨fits, rfl, rfl⟩ := success
       refine ⟨by simp [BranchKind.opcodes], ?_⟩
       simp only [Operands.branchDisplacement, toInt_ofInt_byte,
         toInt_ofInt_short, toInt_ofInt_word, fits, and_self])

theorem branchInstruction_ok {kind : BranchKind}
    {instructionSize instructionIndex labelIndex : Nat} {displacement : Int}
    {instruction : Instruction}
    (success : branchInstruction kind instructionSize displacement
      instructionIndex labelIndex = .ok instruction) :
    instruction.opcode ∈ kind.opcodes ∧
      instruction.operands.branchDisplacement = some displacement := by
  simp only [branchInstruction] at success
  split at success
  · cases success
  · rename_i opcode operands chosen
    obtain ⟨sameOpcode, sameOperands⟩ := newInstruction_ok success
    rw [sameOpcode, sameOperands]
    exact branchOperands_some chosen

namespace BytecodeAssembler

/-! ## Targets -/

/-- The position a label is bound to. -/
def binding (assembler : BytecodeAssembler) (label : Nat) : Option Nat :=
  assembler.labelBindings[label]?.join

/-- The position an unconditional goto at a position jumps to. -/
def gotoPosition (assembler : BytecodeAssembler) (position : Nat) :
    Option Nat :=
  match assembler.items[position]? with
  | some (.branch .goto label) => assembler.binding label
  | _ => none

/-- Where an ordinary branch to `position` arrives: the first instruction
other than a goto on the chain of gotos from there, or that very position when
the chain is cyclic. -/
inductive Threads (assembler : BytecodeAssembler) (position : Nat) :
    Nat → Prop where
  | first {target : Nat} :
      LeadsTo assembler.gotoPosition position target →
      Threads assembler position target
  | own :
      Cyclic assembler.gotoPosition position →
      Threads assembler position position

/-- A decoded instruction is the translation of a planned item, the
instructions of the plan standing at `pcs`. -/
def Translates (assembler : BytecodeAssembler) (pcs : List BytecodePc)
    (decoded : DecodedInstruction) : AssemblyItem → Prop
  | .instruction planned => decoded.instruction = planned
  | .branch kind label =>
      decoded.instruction.opcode ∈ kind.opcodes ∧
        ∃ displacement position target targetPc,
          decoded.instruction.operands.branchDisplacement =
            some displacement ∧
          assembler.binding label = some position ∧
          (if kind.isOrdinary then
            Threads assembler position target
          else
            target = position) ∧
          pcs[target]? = some targetPc ∧
          (targetPc.toNat : Int) = decoded.pc.toNat + 1 + displacement
  | .withBranch opcode atom value label =>
      decoded.instruction.opcode = opcode ∧
        ∃ displacement position targetPc,
          decoded.instruction.operands =
            .atomLabelU8 atom displacement value ∧
          assembler.binding label = some position ∧
          pcs[position]? = some targetPc ∧
          (targetPc.toNat : Int) =
            decoded.pc.toNat + 5 + displacement.toInt

theorem targetPosition_ok_iff {assembler : BytecodeAssembler}
    {label position : Nat} :
    assembler.targetPosition label = .ok position ↔
      assembler.binding label = some position := by
  simp only [targetPosition, binding]
  rcases assembler.labelBindings[label]? with _ | (_ | found) <;> simp

/-- Every referenced label is bound to a planned instruction. -/
def TargetsPlanned (assembler : BytecodeAssembler) : Prop :=
  ∀ item ∈ assembler.items, ∀ label, itemLabel item = some label →
    ∃ position, assembler.binding label = some position ∧
      position < assembler.items.length

theorem targetsPlanned_of_validate {assembler : BytecodeAssembler}
    (inside : BindingsInside assembler)
    (valid : assembler.validateBoundLabels = .ok ()) :
    TargetsPlanned assembler := by
  intro item member label refers
  simp only [validateBoundLabels] at valid
  split at valid
  · split at valid <;> cases valid
  have checked := forM_eq_ok_iff.mp valid item member
  simp only [refers, bind_eq_ok_iff, targetPosition_ok_iff] at checked
  obtain ⟨position, bound, notEnd⟩ := checked
  have notLast : position ≠ assembler.items.length := by
    intro last
    simp [last] at notEnd
  have within := inside label position (Option.join_eq_some_iff.mp bound)
  exact ⟨position, bound, by omega⟩

/-- Label-level gotos project to position-level gotos. -/
theorem simulates_gotoPosition {assembler : BytecodeAssembler}
    (planned : TargetsPlanned assembler) :
    Simulates assembler.labelGotoTarget assembler.gotoPosition
      assembler.binding := by
  refine ⟨?_, ?_⟩
  · intro label position bound final
    simp only [labelGotoTarget, Option.join_eq_some_iff.mp bound] at final
    split at final
    · cases final
    · rename_i other
      unfold gotoPosition
      split
      · rename_i next found
        exact absurd found (other next)
      · rfl
  · intro label position next bound follows
    simp only [labelGotoTarget, Option.join_eq_some_iff.mp bound] at follows
    split at follows
    · rename_i found
      cases follows
      obtain ⟨successor, successorBound, _⟩ := planned _
        (List.mem_of_getElem? found) next rfl
      exact ⟨successor, successorBound, by
        simp only [gotoPosition, found, successorBound]⟩
    · cases follows

theorem labelGotoTarget_planned {assembler : BytecodeAssembler}
    (planned : TargetsPlanned assembler) {label next : Nat}
    (follows : assembler.labelGotoTarget label = some next) :
    ∃ position, assembler.binding next = some position ∧
      position < assembler.items.length := by
  unfold labelGotoTarget at follows
  split at follows
  · split at follows
    · rename_i found
      cases follows
      exact planned _ (List.mem_of_getElem? found) next rfl
    · cases follows
  · cases follows

theorem threadItem_ordinary (states : List BranchTargetState)
    {kind : BranchKind} (label : Nat) (ordinary : kind.isOrdinary) :
    threadItem states (.branch kind label) =
      match states[label]? with
      | some (.terminal target) => .branch kind target
      | _ => .branch kind label := by
  cases kind <;> first | rfl | cases ordinary

/-- The redirected label of an ordinary branch names the end of the chain. -/
theorem threadItem_branch {assembler : BytecodeAssembler}
    {states : List BranchTargetState} {kind : BranchKind}
    {label position : Nat} (planned : TargetsPlanned assembler)
    (invariant : StartInvariant assembler assembler.labelBindings.length states)
    (bound : assembler.binding label = some position)
    (within : position < assembler.items.length) :
    ∃ label' target,
      threadItem states (.branch kind label) = .branch kind label' ∧
      assembler.binding label' = some target ∧
      target < assembler.items.length ∧
      if kind.isOrdinary then
        Threads assembler position target
      else
        target = position := by
  by_cases ordinary : kind.isOrdinary
  · have threaded := threadItem_ordinary states label ordinary
    have simulates := simulates_gotoPosition planned
    have labelBound : label < assembler.labelBindings.length :=
      (List.getElem?_eq_some_iff.mp (Option.join_eq_some_iff.mp bound)).1
    rcases invariant.settled label labelBound with ⟨final, found⟩ | found
    · have leads := invariant.sound.terminal label final found
      obtain ⟨target, finalBound, leads'⟩ := simulates.leadsTo leads bound
      have targetWithin : target < assembler.items.length := by
        rcases leads.eq_or_followed with rfl | ⟨vertex, follows⟩
        · rw [bound] at finalBound
          cases finalBound
          exact within
        · obtain ⟨other, otherBound, otherWithin⟩ :=
            labelGotoTarget_planned planned follows
          rw [finalBound] at otherBound
          cases otherBound
          exact otherWithin
      refine ⟨final, target, by rw [threaded, found], finalBound,
        targetWithin, ?_⟩
      rw [if_pos ordinary]
      exact .first leads'
    · have cyclic := simulates.cyclic
        (invariant.sound.cycle label found) bound
      refine ⟨label, position, by rw [threaded, found], bound, within, ?_⟩
      rw [if_pos ordinary]
      exact .own cyclic
  · refine ⟨label, position, ?_, bound, within, by rw [if_neg ordinary]⟩
    cases kind <;> first | rfl | exact absurd rfl ordinary

/-! ## The main theorem -/

/-- The decoded instruction of one planned item. -/
theorem translates_of_itemInstruction {assembler threaded : BytecodeAssembler}
    {states : List BranchTargetState} {widths positions : List Nat}
    {index : Nat} {item : AssemblyItem} {one : DecodedInstruction}
    {pcs : List BytecodePc} (planned : TargetsPlanned assembler)
    (invariant : StartInvariant assembler assembler.labelBindings.length states)
    (bindings : threaded.labelBindings = assembler.labelBindings)
    (member : item ∈ assembler.items)
    (placed : ∀ position < assembler.items.length, ∃ pc : BytecodePc,
      pcs[position]? = some pc ∧ pc.toNat = positions.getD position 0)
    (start : one.pc.toNat = positions.getD index 0)
    (built : threaded.itemInstruction widths positions index
      (threadItem states item) = .ok one.instruction) :
    Translates assembler pcs one item := by
  have sameBinding : threaded.binding = assembler.binding := by
    funext label
    simp [binding, bindings]
  cases item with
  | instruction instruction =>
      simp only [threadItem, itemInstruction, Except.ok.injEq] at built
      exact built.symm
  | branch kind label =>
      obtain ⟨position, bound, within⟩ := planned _ member label rfl
      obtain ⟨label', target, threadedItem, bound', within', arrives⟩ :=
        @threadItem_branch assembler states kind label position planned
          invariant bound within
      rw [threadedItem] at built
      simp only [itemInstruction, bind_eq_ok_iff, targetPosition_ok_iff,
        sameBinding] at built
      obtain ⟨found, foundBound, displacement, measured, encoded⟩ := built
      rw [bound'] at foundBound
      cases foundBound
      obtain ⟨opcode, operand⟩ := branchInstruction_ok encoded
      obtain ⟨targetPc, targetFound, targetPosition⟩ := placed target within'
      refine ⟨opcode, displacement, position, target, targetPc, operand, bound,
        arrives, targetFound, ?_⟩
      rw [targetPosition, start]
      exact signedDisplacement_ok measured
  | withBranch opcode atom value label =>
      obtain ⟨position, bound, within⟩ := planned _ member label rfl
      simp only [threadItem, itemInstruction, bind_eq_ok_iff,
        targetPosition_ok_iff, sameBinding] at built
      obtain ⟨found, foundBound, displacement, measured, encoded⟩ := built
      rw [bound] at foundBound
      cases foundBound
      obtain ⟨sameOpcode, sameOperands⟩ := newInstruction_ok encoded
      obtain ⟨targetPc, targetFound, targetPosition⟩ := placed position within
      refine ⟨sameOpcode, displacement, position, targetPc, sameOperands, bound,
        targetFound, ?_⟩
      rw [targetPosition, start]
      exact withBranchDisplacement_ok measured

/-- Assembler correctness, for every sequence of planning calls. -/
theorem finish_correct (identity : Nat) (limits : AssemblerLimits)
    (sequence : List Call) (out : AssembledBytecode)
    (success : ((withLimits identity limits).calls sequence).finish =
      .ok out) :
    ∃ decoded : List DecodedInstruction,
      (InstructionDecoder.new out.bytecode).collect = decoded.map .ok ∧
      decoded.map (·.pc) = out.instructionPcs ∧
      decoded.length =
        ((withLimits identity limits).calls sequence).items.length ∧
      ∀ (index : Nat) item one,
        ((withLimits identity limits).calls sequence).items[index]? =
          some item →
        decoded[index]? = some one →
        Translates ((withLimits identity limits).calls sequence)
          out.instructionPcs one item := by
  generalize planned : (withLimits identity limits).calls sequence = assembler
    at success
  have inside : BindingsInside assembler :=
    planned ▸ bindingsInside_calls (bindingsInside_withLimits _ _) sequence
  simp only [finish, threadRedundantGotoTargets, bind_eq_ok_iff,
    pure_eq_ok_iff] at success
  obtain ⟨_, valid, threaded, ⟨states, resolved, rfl⟩, ⟨widths, positions⟩,
    _, emission⟩ := success
  have targets := targetsPlanned_of_validate inside valid
  have closed : ∀ label target,
      assembler.labelGotoTarget label = some target →
        target < assembler.labelBindings.length := by
    intro label target follows
    obtain ⟨_, bound, _⟩ := labelGotoTarget_planned targets follows
    exact (List.getElem?_eq_some_iff.mp (Option.join_eq_some_iff.mp bound)).1
  have invariant := branchTargetStates_spec closed resolved
  split at emission
  · cases emission
  · split at emission
    · cases emission
    · rw [bind_eq_ok_iff] at emission
      obtain ⟨⟨pcs, builder⟩, emitted, result⟩ := emission
      cases result
      obtain ⟨decoded, samePcs, tiling, bytes, count, each⟩ :=
        emitItems_spec emitted
      simp only [List.length_map] at count
      refine ⟨decoded, ?_, samePcs, count, ?_⟩
      · rw [InstructionDecoder.new]
        exact collect_eq_map_ok_iff.mpr ⟨Nat.zero_le _, ⟨_, tiling⟩, bytes⟩
      · intro index item one itemFound oneFound
        obtain ⟨built, start⟩ := each index (threadItem states item) one
          (by simp [itemFound]) oneFound
        rw [Nat.zero_add] at built start
        refine translates_of_itemInstruction targets invariant rfl
          (List.mem_of_getElem? itemFound) ?_ start built
        intro position within
        have bound : position < decoded.length := by omega
        have found := List.getElem?_eq_getElem bound
        obtain ⟨_, placed⟩ := each position
          (threadItem states assembler.items[position]) decoded[position]
          (by simp [within]) found
        refine ⟨decoded[position].pc, ?_, by simpa using placed⟩
        simp only [← samePcs, List.getElem?_map, found, Option.map_some]

private def samplePlan : List Call :=
  [.newLabel, .newLabel, .branch .goto ⟨0, 0⟩, .bind ⟨0, 0⟩,
    .branch .goto ⟨0, 1⟩, .bind ⟨0, 1⟩, .push .returnUndef .none]

private def sampleLimits : AssemblerLimits := ⟨100, 100, 100⟩

/-- A goto to a goto to a return: both gotos arrive at the return. -/
theorem finish_correct_gotoChain :
    ∃ decoded : List DecodedInstruction,
      (InstructionDecoder.new [0xeb, 3, 0xeb, 1, 0x29]).collect =
        decoded.map .ok ∧
      decoded.map (·.pc) = [0, 2, 4] ∧
      decoded.length =
        ((withLimits 0 sampleLimits).calls samplePlan).items.length ∧
      ∀ (index : Nat) item one,
        ((withLimits 0 sampleLimits).calls samplePlan).items[index]? =
          some item →
        decoded[index]? = some one →
        Translates ((withLimits 0 sampleLimits).calls samplePlan) [0, 2, 4] one
          item :=
  finish_correct 0 sampleLimits samplePlan
    ⟨[0xeb, 3, 0xeb, 1, 0x29], [0, 2, 4]⟩ (by decide +kernel)

end BytecodeAssembler

end Fusor.Bytecode
