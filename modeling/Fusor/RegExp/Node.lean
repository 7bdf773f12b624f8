import Fusor.RegExp.Matcher

/-!
# Lowered pattern trees

The tree that stands between the syntax tree and the flat code: modes,
capture indices and classes are resolved, sequences are in emission order.
`Node.emit` is the code of a node at an address, and `Node.matcher` is the
ordered list of outcomes that this code produces.
-/

namespace Fusor.RegExp

inductive Token where
  | character (value : Nat) (mode : MatchMode)
  | dot (mode : MatchMode)
  | characterClass (characters : CharacterClass) (mode : MatchMode)

def Token.instruction : Token → Instruction
  | .character value mode => .character value mode
  | .dot mode => .dot mode
  | .characterClass characters mode => .characterClass characters mode

inductive Node where
  | empty
  | token (read : Token)
  | boundary (kind : BoundaryKind) (mode : MatchMode)
  | backReference (captures : List Nat) (mode : MatchMode)
  | seq (first second : Node)
  | alt (first second : Node)
  | capture (index : Nat) (body : Node)
  | lookaround (kind : LookaroundKind) (body : Node)
  | repetition (min : UInt64) (max : Option UInt64) (greedy : Bool)
      (captureStart captureEnd : Nat) (body : Node)

namespace Node

def size : Node → Nat
  | .empty => 0
  | .token _ | .boundary _ _ | .backReference _ _ => 1
  | .seq first second => first.size + second.size
  | .alt first second => first.size + second.size + 2
  | .capture _ body | .lookaround _ body | .repetition _ _ _ _ _ body =>
      body.size + 2

/-- The number of repetition slots that the code of the node owns. -/
def slots : Node → Nat
  | .empty | .token _ | .boundary _ _ | .backReference _ _ => 0
  | .seq first second | .alt first second => first.slots + second.slots
  | .capture _ body | .lookaround _ body => body.slots
  | .repetition _ _ _ _ _ body => body.slots + 1

/-- The save instruction before a group in the order of the direction. -/
def enterInstruction (direction : Direction) (index : Nat) : Instruction :=
  match direction with
  | .forward => .saveStart index
  | .backward => .saveEnd index

/-- The save instruction behind a group in the order of the direction. -/
def leaveInstruction (direction : Direction) (index : Nat) : Instruction :=
  match direction with
  | .forward => .saveEnd index
  | .backward => .saveStart index

def emit : Node → Direction → Nat → Nat → List Instruction
  | .empty, _, _, _ => []
  | .token read, _, _, _ => [read.instruction]
  | .boundary kind mode, _, _, _ => [.boundary kind mode]
  | .backReference captures mode, _, _, _ => [.backReference captures mode]
  | .seq first second, direction, address, slot =>
      first.emit direction address slot ++
        second.emit direction (address + first.size) (slot + first.slots)
  | .alt first second, direction, address, slot =>
      .split (address + 1) (address + first.size + 2) ::
        (first.emit direction (address + 1) slot ++
          .jump (address + first.size + second.size + 2) ::
            second.emit direction (address + first.size + 2)
              (slot + first.slots))
  | .capture index body, direction, address, slot =>
      enterInstruction direction index ::
        (body.emit direction (address + 1) slot ++
          [leaveInstruction direction index])
  | .lookaround kind body, _, address, slot =>
      .lookaround kind (address + 1) (address + body.size + 2) ::
        (body.emit kind.direction (address + 1) slot ++
          [.lookaroundAccept kind])
  | .repetition min max greedy captureStart captureEnd body, direction,
      address, slot =>
      .repeatHead slot min max greedy (address + 1) (address + body.size + 2)
          captureStart captureEnd ::
        (body.emit direction (address + 1) (slot + 1) ++
          [.repeatEnd slot address])

@[simp] theorem length_emit (node : Node) (direction : Direction)
    (address slot : Nat) :
    (node.emit direction address slot).length = node.size := by
  induction node generalizing direction address slot with
  | empty | token | boundary | backReference => rfl
  | seq first second inductionFirst inductionSecond =>
      simp [emit, size, inductionFirst, inductionSecond]
  | alt first second inductionFirst inductionSecond =>
      simp [emit, size, inductionFirst, inductionSecond]
      omega
  | capture index body induction => simp [emit, size, induction]
  | lookaround kind body induction => simp [emit, size, induction]
  | repetition min max greedy captureStart captureEnd body induction =>
      simp [emit, size, induction]

/-- Every capture index and every cleared range of the node lies inside a
capture array of the given length. -/
def Bounded (captureCount : Nat) : Node → Prop
  | .empty | .token _ | .boundary _ _ | .backReference _ _ => True
  | .seq first second | .alt first second =>
      first.Bounded captureCount ∧ second.Bounded captureCount
  | .capture index body => index < captureCount ∧ body.Bounded captureCount
  | .lookaround _ body => body.Bounded captureCount
  | .repetition _ _ _ _ captureEnd body =>
      captureEnd ≤ captureCount ∧ body.Bounded captureCount

end Node

section Readers

variable (data : UnicodeData) (input : Input)

def Token.positions (direction : Direction) (token : Token)
    (position : Nat) : List Nat :=
  match token with
  | .character value mode =>
      match decodeInDirection input position mode.unicode direction with
      | .ok (some (actual, next)) =>
          if canonicalize data actual mode = canonicalize data value mode then
            [next]
          else []
      | _ => []
  | .dot mode =>
      match decodeInDirection input position mode.unicode direction with
      | .ok (some (actual, next)) =>
          if !mode.dotAll && isLineTerminator actual then [] else [next]
      | _ => []
  | .characterClass characters mode =>
      match classMatchPositions data characters input position mode
          direction with
      | .ok positions => positions
      | .error _ => []

theorem Token.positions_advances (direction : Direction) (token : Token)
    (position : Nat) :
    ∀ next ∈ token.positions data input direction position,
      Advances input direction position next := by
  intro next found
  cases token with
  | character value mode =>
      simp only [Token.positions] at found
      split at found
      · split at found
        · cases List.mem_singleton.mp found
          exact decodeInDirection_advances (by assumption)
        · simp at found
      · simp at found
  | dot mode =>
      simp only [Token.positions] at found
      split at found
      · split at found
        · simp at found
        · cases List.mem_singleton.mp found
          exact decodeInDirection_advances (by assumption)
      · simp at found
  | characterClass characters mode =>
      simp only [Token.positions] at found
      split at found
      · exact classMatchPositions_advances data (by assumption) next found
      · simp at found

def boundaryPositions (kind : BoundaryKind) (mode : MatchMode)
    (position : Nat) : List Nat :=
  match boundaryMatches data kind input position mode with
  | .ok true => [position]
  | _ => []

theorem boundaryPositions_advances (direction : Direction)
    (kind : BoundaryKind) (mode : MatchMode) (position : Nat) :
    ∀ next ∈ boundaryPositions data input kind mode position,
      Advances input direction position next := by
  intro next found
  unfold boundaryPositions at found
  split at found
  · cases List.mem_singleton.mp found
    exact .refl _
  · simp at found

/-- The range of the first listed capture that is set. -/
def capturedRange (captures : List Nat) (slots : List CaptureSlot) :
    Option (Nat × Nat) :=
  captures.findSome? fun index => slots[index]?.bind CaptureSlot.range

def backReferencePositions (direction : Direction) (captures : List Nat)
    (mode : MatchMode) (state : MatchState) : List Nat :=
  match capturedRange captures state.captures with
  | none => [state.position]
  | some range =>
      match matchBackReference data input state.position range mode
          direction with
      | .ok (some next) => [next]
      | _ => []

theorem backReferencePositions_advances (direction : Direction)
    (captures : List Nat) (mode : MatchMode) (state : MatchState) :
    ∀ next ∈ backReferencePositions data input direction captures mode state,
      Advances input direction state.position next := by
  intro next found
  unfold backReferencePositions at found
  split at found
  · cases List.mem_singleton.mp found
    exact .refl _
  · split at found
    · cases List.mem_singleton.mp found
      exact matchBackReference_advances data (by assumption)
    · simp at found

end Readers

/-- The capture list after `SaveStart`. -/
def saveStart (direction : Direction) (index : Nat) (state : MatchState) :
    List CaptureSlot :=
  state.captures.modify index fun capture =>
    { start := some state.position
      stop := if direction = .forward then none else capture.stop }

/-- The capture list after `SaveEnd`. -/
def saveEnd (direction : Direction) (index : Nat) (state : MatchState) :
    List CaptureSlot :=
  state.captures.modify index fun capture =>
    { start :=
        if direction = .backward then none
        else some (capture.start.getD state.position)
      stop := some state.position }

def enterCapture (direction : Direction) (index : Nat) (state : MatchState) :
    List CaptureSlot :=
  match direction with
  | .forward => saveStart .forward index state
  | .backward => saveEnd .backward index state

def leaveCapture (direction : Direction) (index : Nat) (state : MatchState) :
    List CaptureSlot :=
  match direction with
  | .forward => saveEnd .forward index state
  | .backward => saveStart .backward index state

theorem length_enterCapture (direction : Direction) (index : Nat)
    (state : MatchState) :
    (enterCapture direction index state).length = state.captures.length := by
  cases direction <;> simp [enterCapture, saveStart, saveEnd]

theorem length_leaveCapture (direction : Direction) (index : Nat)
    (state : MatchState) :
    (leaveCapture direction index state).length = state.captures.length := by
  cases direction <;> simp [leaveCapture, saveStart, saveEnd]

section Semantics

variable (data : UnicodeData) (recognize : TerminalRecognizer) (input : Input)

/-- Whether the repetition with this slot, address and body takes the
terminal-repeat fast path. -/
def isTerminal (slot address bodySize captureStart captureEnd : Nat) : Bool :=
  (recognize slot (address + 1) (address + bodySize + 2) captureStart
    captureEnd).isSome

def Node.matcher : Node → (direction : Direction) → Nat → Nat →
    Matcher input direction
  | .empty, _, _, _ => .empty
  | .token read, direction, _, _ =>
      .reading (fun state => read.positions data input direction state.position)
        fun state => read.positions_advances data input direction state.position
  | .boundary kind mode, direction, _, _ =>
      .reading (fun state => boundaryPositions data input kind mode state.position)
        fun state => boundaryPositions_advances data input direction kind mode
          state.position
  | .backReference captures mode, direction, _, _ =>
      .reading (backReferencePositions data input direction captures mode)
        (backReferencePositions_advances data input direction captures mode)
  | .seq first second, direction, address, slot =>
      .seq (first.matcher direction address slot)
        (second.matcher direction (address + first.size) (slot + first.slots))
  | .alt first second, direction, address, slot =>
      .alt (first.matcher direction (address + 1) slot)
        (second.matcher direction (address + first.size + 2)
          (slot + first.slots))
  | .capture index body, direction, address, slot =>
      .bracket (enterCapture direction index) (leaveCapture direction index)
        (length_enterCapture direction index)
        (length_leaveCapture direction index)
        (body.matcher direction (address + 1) slot)
  | .lookaround kind body, _, address, slot =>
      .look kind.negative (body.matcher kind.direction (address + 1) slot)
  | .repetition min max greedy captureStart captureEnd body, direction,
      address, slot =>
      .repetition (body.matcher direction (address + 1) (slot + 1))
        captureStart captureEnd
        (isTerminal recognize slot address body.size captureStart captureEnd)
        greedy min.toNat (max.map UInt64.toNat)

variable {data recognize input}

theorem Token.instruction_injective {first second : Token}
    (same : first.instruction = second.instruction) : first = second := by
  cases first <;> cases second <;> cases same <;> rfl

theorem Node.run_of_emit_nil {node : Node} {direction : Direction}
    {address slot : Nat} (nothing : node.emit direction address slot = [])
    (state : MatchState) :
    (node.matcher data recognize input direction address slot).run state =
      [state] := by
  induction node generalizing address slot state with
  | empty => rfl
  | seq first second inductionFirst inductionSecond =>
      simp only [emit, List.append_eq_nil_iff] at nothing
      simp only [matcher, Matcher.seq, inductionFirst nothing.1,
        inductionSecond nothing.2, List.flatMap_cons, List.flatMap_nil,
        List.append_nil]
  | _ => simp [emit] at nothing

/-- The nodes whose code is one instruction. -/
def Node.IsLeaf : Node → Prop
  | .token _ | .boundary _ _ | .backReference _ _ => True
  | _ => False

/-- A node whose code is that of a leaf matches as the leaf does. -/
theorem Node.run_of_emit_leaf {node leaf : Node} (isLeaf : leaf.IsLeaf)
    {direction : Direction} {address slot place owned : Nat}
    (single : node.emit direction address slot =
      leaf.emit direction place owned) (state : MatchState) :
    (node.matcher data recognize input direction address slot).run state =
      (leaf.matcher data recognize input direction place owned).run state := by
  have one : ∃ instruction, leaf.emit direction place owned =
      [instruction] := by
    cases leaf <;> first | exact isLeaf.elim | exact ⟨_, rfl⟩
  obtain ⟨instruction, only⟩ := one
  induction node generalizing address slot state with
  | token | boundary | backReference =>
      cases leaf with
      | token other =>
          simp only [emit, List.cons.injEq, and_true] at single
          first
          | cases Token.instruction_injective single; rfl
          | cases other <;> cases single
      | boundary | backReference =>
          simp only [emit, List.cons.injEq, and_true] at single
          first
          | cases single; rfl
          | (rename_i read _ _; cases read <;> cases single)
      | _ => exact isLeaf.elim
  | seq first second inductionFirst inductionSecond =>
      have joined : first.emit direction address slot ++
          second.emit direction (address + first.size) (slot + first.slots) =
            [instruction] := single.trans only
      simp only [matcher, Matcher.seq]
      rcases List.append_eq_singleton_iff.mp joined with
        ⟨nothing, alone⟩ | ⟨alone, nothing⟩
      · rw [run_of_emit_nil nothing]
        simpa using inductionSecond (alone.trans only.symm) state
      · rw [inductionFirst (alone.trans only.symm)]
        have stays : (second.matcher data recognize input direction
            (address + first.size) (slot + first.slots)).run =
            fun later => [later] :=
          funext fun later => run_of_emit_nil nothing later
        rw [stays, List.flatMap_singleton']
  | _ =>
      have size := congrArg List.length (single.trans only)
      simp [emit] at size
      try omega

/-- A node whose code is one token reads that token. -/
theorem Node.run_of_emit_token {node : Node} {direction : Direction}
    {address slot : Nat} {token : Token}
    (single : node.emit direction address slot = [token.instruction])
    (state : MatchState) :
    (node.matcher data recognize input direction address slot).run state =
      (token.positions data input direction state.position).map
        fun next => { state with position := next } := by
  have isLeaf : (Node.token token).IsLeaf := trivial
  have leaf : (Node.token token).emit direction 0 0 = [token.instruction] := rfl
  exact run_of_emit_leaf isLeaf (single.trans leaf.symm) state

/-- A node whose code is one boundary tests that boundary. -/
theorem Node.run_of_emit_boundary {node : Node} {direction : Direction}
    {address slot : Nat} {kind : BoundaryKind} {mode : MatchMode}
    (single : node.emit direction address slot = [.boundary kind mode])
    (state : MatchState) :
    (node.matcher data recognize input direction address slot).run state =
      (boundaryPositions data input kind mode state.position).map
        fun next => { state with position := next } := by
  have isLeaf : (Node.boundary kind mode).IsLeaf := trivial
  have leaf : (Node.boundary kind mode).emit direction 0 0 =
      [.boundary kind mode] := rfl
  exact run_of_emit_leaf isLeaf (single.trans leaf.symm) state

theorem Node.emit_head_not_repeatEnd (node : Node) (direction : Direction)
    (address slot : Nat) :
    (node.emit direction address slot)[0]?.any Instruction.isRepeatEnd =
      false := by
  induction node generalizing direction address slot with
  | empty => rfl
  | token read => cases read <;> rfl
  | seq first second inductionFirst inductionSecond =>
      simp only [emit]
      cases code : first.emit direction address slot with
      | nil => simpa [code] using inductionSecond direction _ _
      | cons instruction rest =>
          have head := inductionFirst direction address slot
          rw [code] at head
          simpa using head
  | capture index body induction => cases direction <;> rfl
  | _ => rfl

/-- Only a repetition puts `RepeatEnd` in the second place. -/
theorem Node.emit_second_not_repeatEnd (node : Node) (direction : Direction)
    (address slot : Nat)
    (head : (node.emit direction address slot)[0]?.any Instruction.isToken =
      true) :
    (node.emit direction address slot)[1]?.any Instruction.isRepeatEnd =
      false := by
  induction node generalizing direction address slot with
  | seq first second inductionFirst inductionSecond =>
      simp only [emit] at head ⊢
      cases code : first.emit direction address slot with
      | nil =>
          rw [code] at head
          simpa [code] using inductionSecond direction _ _ (by simpa using head)
      | cons instruction rest =>
          cases rest with
          | nil =>
              have start := second.emit_head_not_repeatEnd direction
                (address + first.size) (slot + first.slots)
              simpa using start
          | cons following others =>
              have later := inductionFirst direction address slot
                (by rw [code]; simpa [code] using head)
              rw [code] at later
              simpa using later
  | capture index body induction =>
      cases direction <;> simp [emit, enterInstruction, Instruction.isToken]
        at head
  | empty | token | boundary | backReference => simp [emit]
  | _ => simp [emit, Instruction.isToken] at head

end Semantics

end Fusor.RegExp
