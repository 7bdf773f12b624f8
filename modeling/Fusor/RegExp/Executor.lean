import Mathlib.Algebra.Ring.Nat
import Fusor.RegExp.Text

/-!
# The backtracking executor

One state, one stack of alternatives and lookaround markers, and one
dispatcher.  The head of the stack list is its top.  `executeInstruction`
takes the terminal-repeat recognizer as an argument: the executor passes
`terminalRepeat program`, and the machine without the fast path passes the
recognizer that never answers.
-/

namespace Fusor.RegExp

structure CaptureSlot where
  start : Option Nat := none
  stop : Option Nat := none
  deriving DecidableEq

def CaptureSlot.range (slot : CaptureSlot) : Option (Nat × Nat) :=
  match slot.start, slot.stop with
  | some start, some stop => some (start, stop)
  | _, _ => none

structure RepeatState where
  active : Bool := false
  count : UInt64 := 0
  iterationStart : Option Nat := none
  optionalAttempted : Bool := false
  deriving DecidableEq

structure TerminalRepeat where
  slot : Nat
  body : Nat
  exit : Nat
  deriving DecidableEq

structure State where
  pc : Nat
  position : Nat
  captures : List CaptureSlot
  repeats : List RepeatState
  terminalRepeat : Option TerminalRepeat
  direction : Direction
  deriving DecidableEq

inductive BacktrackEntry where
  | alternative (state : State)
  | lookaround (outer : State) (kind : LookaroundKind)
  deriving DecidableEq

structure ExecLimits where
  maxSteps : Nat := 10000000
  maxBacktrackStates : Nat := 2 ^ 20
  deriving DecidableEq

structure Match where
  captures : List (Option (Nat × Nat))
  deriving DecidableEq

/-- What one turn of the dispatcher loop leaves behind. -/
inductive Transition where
  | running (state : State) (backtrack : List BacktrackEntry)
  | finished (result : Option Match)
  deriving DecidableEq

def pushAlternative (backtrack : List BacktrackEntry) (state : State)
    (limit : Nat) : Except Abort (List BacktrackEntry) :=
  if limit ≤ backtrack.length then .error (.failed .backtrackLimit)
  else .ok (.alternative state :: backtrack)

def pushLookaround (backtrack : List BacktrackEntry) (outer : State)
    (kind : LookaroundKind) (limit : Nat) :
    Except Abort (List BacktrackEntry) :=
  if limit ≤ backtrack.length then .error (.failed .backtrackLimit)
  else .ok (.lookaround outer kind :: backtrack)

def restore : List BacktrackEntry → Option (State × List BacktrackEntry)
  | [] => none
  | .alternative state :: backtrack => some (state, backtrack)
  | .lookaround outer kind :: backtrack =>
      if kind.negative then some (outer, backtrack) else restore backtrack

def popLookaround : List BacktrackEntry → Option (State × List BacktrackEntry)
  | [] => none
  | .alternative _ :: backtrack => popLookaround backtrack
  | .lookaround outer _ :: backtrack => some (outer, backtrack)

/-- The caller's reaction to `restore`: continue, or answer that there is no
match. -/
def Transition.ofRestored :
    Option (State × List BacktrackEntry) → Transition
  | none => .finished none
  | some (state, backtrack) => .running state backtrack

def recoverOrRestoreTerminalRepeat (state : State)
    (backtrack : List BacktrackEntry) :
    Option (State × List BacktrackEntry) :=
  match state.terminalRepeat with
  | none => restore backtrack
  | some terminal =>
      if state.pc = terminal.body then
        match state.repeats[terminal.slot]? with
        | none => restore backtrack
        | some repeated =>
            some ({ state with
              repeats := state.repeats.set terminal.slot
                { repeated with active := false }
              terminalRepeat := none
              pc := terminal.exit }, backtrack)
      else restore backtrack

def clearTerminalRepeat (state : State) (slot : Nat) : State :=
  match state.terminalRepeat with
  | none => state
  | some terminal =>
      if terminal.slot = slot then { state with terminalRepeat := none }
      else state

def Instruction.isToken : Instruction → Bool
  | .character _ _ | .dot _ | .characterClass _ _ => true
  | _ => false

def Instruction.isRepeatEnd : Instruction → Bool
  | .repeatEnd _ _ => true
  | _ => false

abbrev TerminalRecognizer :=
  (slot body exit captureStart captureEnd : Nat) → Option TerminalRepeat

def terminalRepeat (program : Program) : TerminalRecognizer :=
  fun slot body exit captureStart captureEnd =>
    if captureStart ≠ captureEnd ∨
        ¬ (program.instructions[body]?.any Instruction.isToken) ∨
        ¬ (program.instructions[body + 1]?.any Instruction.isRepeatEnd) then
      none
    else
      match program.instructions[exit]? with
      | some (.boundary .stop mode) =>
          if mode.multiline then none
          else
            match program.instructions[exit + 1]?,
                program.instructions[exit + 2]? with
            | some (.saveEnd 0), some .matched => some ⟨slot, body, exit⟩
            | _, _ => none
      | _ => none

/-- `captures[start..stop].fill(default)`. -/
def clearCaptures (captures : List CaptureSlot) (start stop : Nat) :
    Except Abort (List CaptureSlot) :=
  if start < stop then
    if stop ≤ captures.length then
      .ok (captures.take start ++ List.replicate (stop - start) ({} : CaptureSlot) ++
        captures.drop stop)
    else .error .outOfBounds
  else .ok captures

def repeatAt (repeats : List RepeatState) (slot : Nat) :
    Except Abort RepeatState :=
  match repeats[slot]? with
  | some repeated => .ok repeated
  | none => .error .outOfBounds

def captureAt (captures : List CaptureSlot) (index : Nat) :
    Except Abort CaptureSlot :=
  match captures[index]? with
  | some capture => .ok capture
  | none => .error .outOfBounds

/-- `start_iteration` for a slot whose current value is given. -/
def startIteration (state : State) (slot body captureStart captureEnd : Nat)
    (repeated : RepeatState) : Except Abort State := do
  let captures ← clearCaptures state.captures captureStart captureEnd
  pure { state with
    captures := captures
    repeats := state.repeats.set slot
      { repeated with iterationStart := some state.position }
    pc := body }

def saturatingSucc (count : UInt64) : UInt64 :=
  if count = 0xffffffffffffffff then count else count + 1

/-- The slot value that `Repeat` works with: an inactive slot starts over. -/
def activate (current : RepeatState) : RepeatState :=
  if current.active then current else { active := true }

/-- The state that leaves a repeat through its exit. -/
def leaveRepeat (state : State) (slot exit : Nat) (repeated : RepeatState) :
    State :=
  { clearTerminalRepeat state slot with
    repeats := state.repeats.set slot { repeated with active := false }
    pc := exit }

/-- The `Repeat` arm of the dispatcher for an activated slot. -/
def executeRepeat (recognize : TerminalRecognizer) (limit slot : Nat)
    (min : UInt64) (max : Option UInt64) (greedy : Bool)
    (body exit captureStart captureEnd : Nat) (repeated : RepeatState)
    (state : State) (backtrack : List BacktrackEntry) :
    Except Abort Transition :=
  let madeNoProgress := decide (0 < repeated.count) &&
    repeated.iterationStart == some state.position
  let reachedMax := max.any fun maximum => decide (maximum ≤ repeated.count)
  if decide (min ≤ repeated.count) && madeNoProgress then
    if repeated.optionalAttempted then
      pure (.ofRestored (restore backtrack))
    else
      pure (.running (leaveRepeat state slot exit repeated) backtrack)
  else if reachedMax then
    pure (.running (leaveRepeat state slot exit repeated) backtrack)
  else if repeated.count < min then do
    let state ← startIteration state slot body captureStart captureEnd repeated
    pure (.running state backtrack)
  else do
    let bodyState ← startIteration state slot body captureStart captureEnd
      { repeated with optionalAttempted := true }
    let exitState := { state with
      repeats := state.repeats.set slot { repeated with active := false }
      pc := exit }
    if greedy then
      match recognize slot body exit captureStart captureEnd with
      | some terminal =>
          pure (.running { bodyState with terminalRepeat := some terminal }
            backtrack)
      | none =>
          let backtrack ← pushAlternative backtrack exitState limit
          pure (.running bodyState backtrack)
    else
      let backtrack ← pushAlternative backtrack bodyState limit
      pure (.running exitState backtrack)

section Dispatcher

variable (data : UnicodeData) (recognize : TerminalRecognizer)
  (input : Input) (limit : Nat)

def executeInstruction (instruction : Instruction) (state : State)
    (backtrack : List BacktrackEntry) : Except Abort Transition :=
  match instruction with
  | .character value mode => do
      match ← decodeInDirection input state.position mode.unicode
          state.direction with
      | none =>
          pure (.ofRestored (recoverOrRestoreTerminalRepeat state backtrack))
      | some (actual, next) =>
          if canonicalize data actual mode ≠ canonicalize data value mode then
            pure (.ofRestored (recoverOrRestoreTerminalRepeat state backtrack))
          else
            pure (.running { state with position := next, pc := state.pc + 1 }
              backtrack)
  | .dot mode => do
      match ← decodeInDirection input state.position mode.unicode
          state.direction with
      | none =>
          pure (.ofRestored (recoverOrRestoreTerminalRepeat state backtrack))
      | some (actual, next) =>
          if !mode.dotAll && isLineTerminator actual then
            pure (.ofRestored (recoverOrRestoreTerminalRepeat state backtrack))
          else
            pure (.running { state with position := next, pc := state.pc + 1 }
              backtrack)
  | .characterClass characters mode => do
      match ← classMatchPositions data characters input state.position mode
          state.direction with
      | [] =>
          pure (.ofRestored (recoverOrRestoreTerminalRepeat state backtrack))
      | next :: alternatives =>
          let nextPc := state.pc + 1
          let backtrack ← alternatives.reverse.foldlM
            (fun backtrack alternativePosition =>
              pushAlternative backtrack
                { state with pc := nextPc, position := alternativePosition }
                limit) backtrack
          pure (.running { state with position := next, pc := nextPc } backtrack)
  | .boundary kind mode => do
      if ← boundaryMatches data kind input state.position mode then
        pure (.running { state with pc := state.pc + 1 } backtrack)
      else
        pure (.ofRestored (restore backtrack))
  | .saveStart index => do
      let capture ← captureAt state.captures index
      let capture : CaptureSlot :=
        { start := some state.position
          stop := if state.direction = .forward then none else capture.stop }
      pure (.running { state with
        captures := state.captures.set index capture
        pc := state.pc + 1 } backtrack)
  | .saveEnd index => do
      let capture ← captureAt state.captures index
      let capture : CaptureSlot :=
        { start :=
            if state.direction = .backward then none
            else some (capture.start.getD state.position)
          stop := some state.position }
      pure (.running { state with
        captures := state.captures.set index capture
        pc := state.pc + 1 } backtrack)
  | .backReference captures mode => do
      match captures.findSome? fun index =>
          state.captures[index]?.bind CaptureSlot.range with
      | none => pure (.running { state with pc := state.pc + 1 } backtrack)
      | some range =>
          match ← matchBackReference data input state.position range mode
              state.direction with
          | none => pure (.ofRestored (restore backtrack))
          | some next =>
              pure (.running { state with position := next, pc := state.pc + 1 }
                backtrack)
  | .split first second => do
      let backtrack ← pushAlternative backtrack { state with pc := second } limit
      pure (.running { state with pc := first } backtrack)
  | .lookaround kind body exit => do
      let backtrack ← pushLookaround backtrack { state with pc := exit } kind limit
      pure (.running { state with pc := body, direction := kind.direction }
        backtrack)
  | .lookaroundAccept kind =>
      match popLookaround backtrack with
      | none => pure (.finished none)
      | some (outer, backtrack) =>
          if kind.negative then
            pure (.ofRestored (restore backtrack))
          else
            pure (.running { outer with captures := state.captures } backtrack)
  | .jump target => pure (.running { state with pc := target } backtrack)
  | .repeatHead slot min max greedy body exit captureStart captureEnd => do
      let current ← repeatAt state.repeats slot
      executeRepeat recognize limit slot min max greedy body exit captureStart
        captureEnd (activate current)
        { state with repeats := state.repeats.set slot (activate current) }
        backtrack
  | .repeatEnd slot head => do
      let repeated ← repeatAt state.repeats slot
      pure (.running { state with
        repeats := state.repeats.set slot
          { repeated with count := saturatingSucc repeated.count }
        pc := head } backtrack)
  | .matched =>
      pure (.finished (some ⟨state.captures.map CaptureSlot.range⟩))

end Dispatcher

section Runs

variable (data : UnicodeData) (recognize : TerminalRecognizer)
  (program : Program) (input : Input) (limits : ExecLimits)

/-- The dispatcher loop.  The second component is the step counter, which the
caller keeps whatever the result is. -/
def runFrom (steps : Nat) (state : State) (backtrack : List BacktrackEntry) :
    Except Abort (Option Match) × Nat :=
  if limits.maxSteps ≤ steps then (.error (.failed .stepLimit), steps)
  else
    match program.instructions[state.pc]? with
    | none => (.ok none, steps + 1)
    | some instruction =>
        match executeInstruction data recognize input limits.maxBacktrackStates
            instruction state backtrack with
        | .error abort => (.error abort, steps + 1)
        | .ok (.finished result) => (.ok result, steps + 1)
        | .ok (.running state backtrack) => runFrom (steps + 1) state backtrack
termination_by limits.maxSteps - steps

def initialState (candidate : Nat) : State where
  pc := 0
  position := candidate
  captures := List.replicate program.captureCount {}
  repeats := List.replicate program.repeatCount {}
  terminalRepeat := none
  direction := .forward

/-- `run_candidate` with a given terminal-repeat recognizer. -/
def runCandidateWith (candidate steps : Nat) :
    Except Abort (Option Match) × Nat :=
  runFrom data recognize program input limits steps
    (initialState program candidate) []

def runCandidate (candidate steps : Nat) :
    Except Abort (Option Match) × Nat :=
  runCandidateWith data (terminalRepeat program) program input limits candidate
    steps

end Runs

theorem advanceIndex_bounds {input : Input} {position : Nat}
    (inside : position < input.length) (unicode : Bool) :
    position < advanceIndex input position unicode ∧
      advanceIndex input position unicode ≤ input.length := by
  unfold advanceIndex
  cases decoded : decodeAt input position unicode with
  | none => exact ⟨inside, Nat.le_refl _⟩
  | some character => exact decodeAt_bounds decoded

section Searches

variable (data : UnicodeData) (program : Program) (input : Input)
  (limits : ExecLimits)

/-- The candidate loop of `execute`. -/
def executeFrom (candidate : Nat) (inside : candidate ≤ input.length)
    (steps : Nat) : Except Abort (Option Match) × Nat :=
  if limits.maxSteps ≤ steps then (.error (.failed .stepLimit), steps)
  else
    match runCandidate data program input limits candidate (steps + 1) with
    | (.error abort, steps) => (.error abort, steps)
    | (.ok (some result), steps) => (.ok (some result), steps)
    | (.ok none, steps) =>
        if stop : program.flags.sticky = true ∨ candidate = input.length then
          (.ok none, steps)
        else
          executeFrom
            (advanceIndex input candidate program.flags.unicodeMode)
            (advanceIndex_bounds (by omega) _).2 steps
termination_by input.length - candidate
decreasing_by
  have advanced := advanceIndex_bounds
    (show candidate < input.length by omega) program.flags.unicodeMode
  omega

def execute (startIndex steps : Nat) : Except Abort (Option Match) × Nat :=
  if inside : startIndex ≤ input.length then
    executeFrom data program input limits startIndex inside steps
  else (.ok none, steps)

end Searches

end Fusor.RegExp
