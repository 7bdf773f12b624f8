import Mathlib.Tactic
import Fusor.RegExp.Executor
import Fusor.Search.Exploration

/-!
# Single steps and whole runs

What an instruction does depends on the state alone; the stack only receives
frames, is restored or is cut at a lookaround marker.  `Effect` says which of
these happens.  From it follow the effect of the limits, the determinism of
runs and the backtracking machine that the search results are about.
-/

namespace Fusor.RegExp

open Search Relation

inductive Effect where
  | proceed (state : State) (pushed : List BacktrackEntry)
  | fail
  | accept (kind : LookaroundKind) (captures : List CaptureSlot)
  | finish (result : Match)

def resume (backtrack : List BacktrackEntry) : Transition :=
  .ofRestored (restore backtrack)

def Effect.run (limit : Nat) (effect : Effect)
    (backtrack : List BacktrackEntry) : Except Abort Transition :=
  match effect with
  | .proceed state pushed =>
      if pushed = [] ∨ backtrack.length + pushed.length ≤ limit then
        .ok (.running state (pushed ++ backtrack))
      else .error (.failed .backtrackLimit)
  | .fail => .ok (resume backtrack)
  | .accept kind captures =>
      match popLookaround backtrack with
      | none => .ok (.finished none)
      | some (outer, below) =>
          if kind.negative then .ok (resume below)
          else .ok (.running { outer with captures := captures } below)
  | .finish result => .ok (.finished (some result))

theorem pushAlternative_run (limit : Nat) (pushed state : State)
    (backtrack : List BacktrackEntry) :
    (pushAlternative backtrack pushed limit >>=
      fun backtrack => pure (.running state backtrack)) =
      (Effect.proceed state [.alternative pushed]).run limit backtrack := by
  by_cases full : limit ≤ backtrack.length
  · simp [pushAlternative, Effect.run, full, bind, Except.bind]
  · simp [pushAlternative, Effect.run, full, bind, Except.bind, pure,
      Except.pure]

theorem pushLookaround_run (limit : Nat) (outer state : State)
    (kind : LookaroundKind) (backtrack : List BacktrackEntry) :
    (pushLookaround backtrack outer kind limit >>=
      fun backtrack => pure (.running state backtrack)) =
      (Effect.proceed state [.lookaround outer kind]).run limit backtrack := by
  by_cases full : limit ≤ backtrack.length
  · simp [pushLookaround, Effect.run, full, bind, Except.bind]
  · simp [pushLookaround, Effect.run, full, bind, Except.bind, pure,
      Except.pure]

theorem pushAlternatives_eq (limit : Nat) (alternative : Nat → State)
    (positions : List Nat) (backtrack : List BacktrackEntry) :
    positions.reverse.foldlM
        (fun backtrack position =>
          pushAlternative backtrack (alternative position) limit) backtrack =
      if positions = [] ∨ backtrack.length + positions.length ≤ limit then
        .ok (positions.map (fun position => .alternative (alternative position))
          ++ backtrack)
      else .error (.failed .backtrackLimit) := by
  induction positions with
  | nil => simp [pure, Except.pure]
  | cons position positions induction =>
      rw [List.reverse_cons, List.foldlM_append, induction]
      by_cases fits : backtrack.length + (positions.length + 1) ≤ limit
      · have before : positions = [] ∨
            backtrack.length + positions.length ≤ limit := .inr (by omega)
        have room : ¬ limit ≤ positions.length + backtrack.length := by omega
        simp [before, fits, bind, Except.bind, pushAlternative, room, pure,
          Except.pure]
      · by_cases before : positions = [] ∨
            backtrack.length + positions.length ≤ limit
        · have full : limit ≤ positions.length + backtrack.length := by omega
          simp [before, fits, bind, Except.bind, pushAlternative, full]
        · simp [before, fits, bind, Except.bind]

theorem recover_run (state : State) :
    ∃ effect : Effect, ∀ limit backtrack,
      (pure (.ofRestored (recoverOrRestoreTerminalRepeat state backtrack)) :
        Except Abort Transition) = effect.run limit backtrack := by
  unfold recoverOrRestoreTerminalRepeat
  cases committed : state.terminalRepeat with
  | none => exact ⟨.fail, fun _ _ => rfl⟩
  | some terminal =>
      by_cases inBody : state.pc = terminal.body
      · cases found : state.repeats[terminal.slot]? with
        | none =>
            refine ⟨.fail, fun _ _ => ?_⟩
            simp only [inBody, if_true, found]
            rfl
        | some repeated =>
            refine ⟨.proceed { state with
              repeats := state.repeats.set terminal.slot
                { repeated with active := false }
              terminalRepeat := none
              pc := terminal.exit } [], fun _ _ => ?_⟩
            simp only [inBody, if_true, found]
            rfl
      · refine ⟨.fail, fun _ _ => ?_⟩
        simp only [inBody, if_false]
        rfl

theorem executeRepeat_local (recognize : TerminalRecognizer) (slot : Nat)
    (min : UInt64) (max : Option UInt64) (greedy : Bool)
    (body exit captureStart captureEnd : Nat) (repeated : RepeatState)
    (state : State) :
    (∃ abort, ∀ limit backtrack,
      executeRepeat recognize limit slot min max greedy body exit captureStart
        captureEnd repeated state backtrack = .error abort) ∨
    ∃ effect : Effect, ∀ limit backtrack,
      executeRepeat recognize limit slot min max greedy body exit captureStart
        captureEnd repeated state backtrack = effect.run limit backtrack := by
  simp only [executeRepeat]
  split
  · split
    · exact .inr ⟨.fail, fun _ _ => rfl⟩
    · exact .inr ⟨.proceed _ [], fun _ _ => rfl⟩
  · split
    · exact .inr ⟨.proceed _ [], fun _ _ => rfl⟩
    · cases cleared : clearCaptures state.captures captureStart captureEnd with
      | error abort =>
          refine .inl ⟨abort, fun _ _ => ?_⟩
          simp only [startIteration, cleared]
          split
          · rfl
          · rfl
      | ok captures =>
          simp only [startIteration, cleared]
          split
          · exact .inr ⟨.proceed _ [], fun _ _ => rfl⟩
          · split
            · cases recognized :
                recognize slot body exit captureStart captureEnd with
              | some terminal => exact .inr ⟨.proceed _ [], fun _ _ => rfl⟩
              | none =>
                  exact .inr ⟨.proceed _ [.alternative _],
                    fun limit backtrack =>
                      pushAlternative_run limit _ _ backtrack⟩
            · exact .inr ⟨.proceed _ [.alternative _],
                fun limit backtrack =>
                  pushAlternative_run limit _ _ backtrack⟩

section Locality

variable (data : UnicodeData) (recognize : TerminalRecognizer)
  (input : Input)

/-- An instruction aborts or has one effect, whatever the stack and the limit
are. -/
theorem executeInstruction_local (instruction : Instruction) (state : State) :
    (∃ abort, ∀ limit backtrack,
      executeInstruction data recognize input limit instruction state
        backtrack = .error abort) ∨
    ∃ effect : Effect, ∀ limit backtrack,
      executeInstruction data recognize input limit instruction state
        backtrack = effect.run limit backtrack := by
  obtain ⟨recovery, recovers⟩ := recover_run state
  cases instruction with
  | character value mode =>
      simp only [executeInstruction]
      cases decodeInDirection input state.position mode.unicode
        state.direction with
      | error abort => exact .inl ⟨abort, fun _ _ => rfl⟩
      | ok character =>
          cases character with
          | none => exact .inr ⟨recovery, recovers⟩
          | some pair =>
              simp only [bind, Except.bind]
              split
              · exact .inr ⟨recovery, recovers⟩
              · exact .inr ⟨.proceed _ [], fun _ _ => rfl⟩
  | dot mode =>
      simp only [executeInstruction]
      cases decodeInDirection input state.position mode.unicode
        state.direction with
      | error abort => exact .inl ⟨abort, fun _ _ => rfl⟩
      | ok character =>
          cases character with
          | none => exact .inr ⟨recovery, recovers⟩
          | some pair =>
              simp only [bind, Except.bind]
              split
              · exact .inr ⟨recovery, recovers⟩
              · exact .inr ⟨.proceed _ [], fun _ _ => rfl⟩
  | characterClass characters mode =>
      simp only [executeInstruction]
      cases classMatchPositions data characters input state.position mode
        state.direction with
      | error abort => exact .inl ⟨abort, fun _ _ => rfl⟩
      | ok positions =>
          cases positions with
          | nil => exact .inr ⟨recovery, recovers⟩
          | cons next alternatives =>
              refine .inr ⟨.proceed
                { state with position := next, pc := state.pc + 1 }
                (alternatives.map fun position => .alternative
                  { state with pc := state.pc + 1, position := position }),
                fun limit backtrack => ?_⟩
              simp only [bind, Except.bind]
              rw [pushAlternatives_eq limit
                (fun position =>
                  { state with pc := state.pc + 1, position := position })]
              simp only [Effect.run, List.map_eq_nil_iff, List.length_map]
              by_cases fits : alternatives = [] ∨
                  backtrack.length + alternatives.length ≤ limit
              · simp only [if_pos fits]
                rfl
              · simp only [if_neg fits]
  | boundary kind mode =>
      simp only [executeInstruction]
      cases boundaryMatches data kind input state.position mode with
      | error abort => exact .inl ⟨abort, fun _ _ => rfl⟩
      | ok answer =>
          cases answer with
          | true => exact .inr ⟨.proceed _ [], fun _ _ => rfl⟩
          | false => exact .inr ⟨.fail, fun _ _ => rfl⟩
  | saveStart index =>
      simp only [executeInstruction]
      cases captureAt state.captures index with
      | error abort => exact .inl ⟨abort, fun _ _ => rfl⟩
      | ok capture => exact .inr ⟨.proceed _ [], fun _ _ => rfl⟩
  | saveEnd index =>
      simp only [executeInstruction]
      cases captureAt state.captures index with
      | error abort => exact .inl ⟨abort, fun _ _ => rfl⟩
      | ok capture => exact .inr ⟨.proceed _ [], fun _ _ => rfl⟩
  | backReference captures mode =>
      simp only [executeInstruction]
      cases captures.findSome? fun index =>
        state.captures[index]?.bind CaptureSlot.range with
      | none => exact .inr ⟨.proceed _ [], fun _ _ => rfl⟩
      | some range =>
          simp only
          cases matchBackReference data input state.position range mode
            state.direction with
          | error abort => exact .inl ⟨abort, fun _ _ => rfl⟩
          | ok result =>
              cases result with
              | none => exact .inr ⟨.fail, fun _ _ => rfl⟩
              | some next => exact .inr ⟨.proceed _ [], fun _ _ => rfl⟩
  | lookaround kind body exit =>
      exact .inr ⟨.proceed _ [.lookaround _ kind], fun limit backtrack =>
        pushLookaround_run limit _ _ kind backtrack⟩
  | lookaroundAccept kind =>
      refine .inr ⟨.accept kind state.captures, fun limit backtrack => ?_⟩
      simp only [executeInstruction, Effect.run]
      cases popLookaround backtrack with
      | none => rfl
      | some popped =>
          simp only
          split
          · rfl
          · rfl
  | split first second =>
      exact .inr ⟨.proceed _ [.alternative _], fun limit backtrack =>
        pushAlternative_run limit _ _ backtrack⟩
  | jump target => exact .inr ⟨.proceed _ [], fun _ _ => rfl⟩
  | repeatHead slot min max greedy body exit captureStart captureEnd =>
      simp only [executeInstruction]
      cases repeatAt state.repeats slot with
      | error abort => exact .inl ⟨abort, fun _ _ => rfl⟩
      | ok current =>
          exact executeRepeat_local recognize slot min max greedy body exit
            captureStart captureEnd (activate current) _
  | repeatEnd slot head =>
      simp only [executeInstruction]
      cases repeatAt state.repeats slot with
      | error abort => exact .inl ⟨abort, fun _ _ => rfl⟩
      | ok repeated => exact .inr ⟨.proceed _ [], fun _ _ => rfl⟩
  | matched => exact .inr ⟨.finish _, fun _ _ => rfl⟩

/-- A larger limit changes nothing but a limit failure. -/
theorem executeInstruction_of_le {small large : Nat} (le : small ≤ large)
    (instruction : Instruction) (state : State)
    (backtrack : List BacktrackEntry) :
    executeInstruction data recognize input small instruction state backtrack =
        .error (.failed .backtrackLimit) ∨
      executeInstruction data recognize input small instruction state
          backtrack =
        executeInstruction data recognize input large instruction state
          backtrack := by
  rcases executeInstruction_local data recognize input instruction state with
    ⟨abort, aborts⟩ | ⟨effect, runs⟩
  · exact .inr ((aborts _ _).trans (aborts _ _).symm)
  · rw [runs, runs]
    cases effect with
    | proceed next pushed =>
        simp only [Effect.run]
        by_cases fits : pushed = [] ∨ backtrack.length + pushed.length ≤ small
        · have fitsLarge : pushed = [] ∨
              backtrack.length + pushed.length ≤ large := by
            rcases fits with none | few
            · exact .inl none
            · exact .inr (few.trans le)
          exact .inr (by rw [if_pos fits, if_pos fitsLarge])
        · exact .inl (by rw [if_neg fits])
    | fail => exact .inr rfl
    | accept kind captures => exact .inr rfl
    | finish result => exact .inr rfl

end Locality

section Runs

variable (data : UnicodeData) (recognize : TerminalRecognizer)
  (program : Program) (input : Input)

/-- One turn of the dispatcher loop with enough room on the stack. -/
def Steps (before after : Transition) : Prop :=
  ∃ state backtrack instruction limit,
    before = .running state backtrack ∧
    program.instructions[state.pc]? = some instruction ∧
    executeInstruction data recognize input limit instruction state
      backtrack = .ok after

def BacktrackEntry.isAlternative : BacktrackEntry → Prop
  | .alternative _ => True
  | .lookaround _ _ => False

def machine : Backtracker State BacktrackEntry Transition where
  next := Steps data recognize program input
  running := .running
  resume := resume
  plain := BacktrackEntry.isAlternative

variable {data recognize program input}

theorem steps_of_execute {state : State} {backtrack : List BacktrackEntry}
    {instruction : Instruction} {after : Transition} (limit : Nat)
    (found : program.instructions[state.pc]? = some instruction)
    (executed : executeInstruction data recognize input limit instruction state
      backtrack = .ok after) :
    Steps data recognize program input (.running state backtrack) after :=
  ⟨state, backtrack, instruction, limit, rfl, found, executed⟩

theorem execute_of_steps {state : State} {backtrack : List BacktrackEntry}
    {after : Transition}
    (step : Steps data recognize program input (.running state backtrack)
      after) :
    ∃ instruction limit, program.instructions[state.pc]? = some instruction ∧
      ∀ larger, limit ≤ larger →
        executeInstruction data recognize input larger instruction state
          backtrack = .ok after := by
  obtain ⟨_, _, instruction, limit, same, found, executed⟩ := step
  cases same
  refine ⟨instruction, limit, found, fun larger le => ?_⟩
  have agrees := executeInstruction_of_le data recognize input le instruction
    state backtrack
  rw [executed] at agrees
  exact (agrees.resolve_left (by simp)).symm

variable (data recognize program input) in
/-- The answer of a run that is continued under the given limits. -/
def continueFrom (limits : ExecLimits) (steps : Nat) :
    Transition → Except Abort (Option Match)
  | .finished answer => .ok answer
  | .running state backtrack =>
      (runFrom data recognize program input limits steps state backtrack).1

theorem continueFrom_running {limits : ExecLimits} {steps : Nat}
    {state : State} {backtrack : List BacktrackEntry}
    {instruction : Instruction} (room : steps < limits.maxSteps)
    (found : program.instructions[state.pc]? = some instruction) :
    continueFrom data recognize program input limits steps
        (.running state backtrack) =
      (executeInstruction data recognize input limits.maxBacktrackStates
        instruction state backtrack >>=
        continueFrom data recognize program input limits (steps + 1)) := by
  conv => lhs; rw [continueFrom, runFrom]
  rw [if_neg (by omega), found]
  simp only
  cases executeInstruction data recognize input limits.maxBacktrackStates
    instruction state backtrack with
  | error abort => rfl
  | ok after =>
      cases after with
      | running next below => rfl
      | finished answer => rfl

/-- A complete run of the unlimited machine is the run under any limits that
are not hit. -/
theorem continueFrom_of_reaches {before : Transition} {result : Option Match}
    (run : (machine data recognize program input).Reaches before
      (.finished result)) (limits : ExecLimits) (steps : Nat) :
    continueFrom data recognize program input limits steps before =
        .ok result ∨
      ∃ error, continueFrom data recognize program input limits steps before =
        .error (.failed error) := by
  induction run using ReflTransGen.head_induction_on generalizing steps with
  | refl => exact .inl rfl
  | @head before after first _ induction =>
      cases before with
      | finished answer =>
          obtain ⟨_, _, _, _, impossible, _⟩ := first
          cases impossible
      | running state backtrack =>
          obtain ⟨instruction, limit, found, executed⟩ := execute_of_steps first
          by_cases room : steps < limits.maxSteps
          · rw [continueFrom_running room found]
            rcases executeInstruction_of_le data recognize input
                (le_max_right limit limits.maxBacktrackStates) instruction state
                backtrack with limited | agrees
            · rw [limited]
              exact .inr ⟨_, rfl⟩
            · rw [agrees, executed _ (le_max_left _ _)]
              exact induction (steps + 1)
          · refine .inr ⟨.stepLimit, ?_⟩
            rw [continueFrom, runFrom, if_pos (by omega)]

/-- A complete run of the unlimited machine is reproduced by large enough
limits. -/
theorem continueFrom_of_large_limits {before : Transition}
    {result : Option Match}
    (run : (machine data recognize program input).Reaches before
      (.finished result)) :
    ∃ bound, ∀ (limits : ExecLimits) (steps : Nat),
      steps + bound ≤ limits.maxSteps → bound ≤ limits.maxBacktrackStates →
      continueFrom data recognize program input limits steps before =
        .ok result := by
  induction run using ReflTransGen.head_induction_on with
  | refl => exact ⟨0, fun _ _ _ _ => rfl⟩
  | @head before after first _ induction =>
      cases before with
      | finished answer =>
          obtain ⟨_, _, _, _, impossible, _⟩ := first
          cases impossible
      | running state backtrack =>
          obtain ⟨instruction, limit, found, executed⟩ := execute_of_steps first
          obtain ⟨bound, runs⟩ := induction
          refine ⟨bound + limit + 1, fun limits steps enough room => ?_⟩
          rw [continueFrom_running (by omega) found, executed _ (by omega)]
          exact runs limits (steps + 1) (by omega) (by omega)

end Runs

end Fusor.RegExp
