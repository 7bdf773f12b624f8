import Fusor.RegExp.Captures
import Fusor.RegExp.RepeatSearch

/-!
# Running a compiled program

From its initial state a compiled program reaches the answer that the first
outcome of the lowered pattern gives.  Hence the search ends, the limits are
the only errors, and the captures of an answer are ranges of the input.
-/

namespace Fusor.RegExp

open Ast Search Relation

section Answers

variable (data : UnicodeData) (recognize : TerminalRecognizer)
  (input : Input)

def startingAt (captureCount candidate : Nat) : MatchState :=
  ⟨candidate, List.replicate captureCount {}⟩

/-- The outcomes of a whole pattern: the lowered tree inside group zero. -/
def Node.wholeOutcomes (node : Node) (captureCount candidate : Nat) :
    List MatchState :=
  ((Node.capture 0 node).matcher data recognize input .forward 0 0).run
    (startingAt captureCount candidate)

def MatchState.answer (state : MatchState) : Match :=
  ⟨state.captures.map CaptureSlot.range⟩

def Node.answer (node : Node) (captureCount candidate : Nat) :
    Option Match :=
  (node.wholeOutcomes data recognize input captureCount
    candidate).head?.map MatchState.answer

end Answers

section Root

variable {data : UnicodeData} {recognize : TerminalRecognizer}
  {input : Input} {flags : RegExpFlags} {groups : List Group} {node : Node}

theorem programOf_instructions (flags : RegExpFlags) (groups : List Group)
    (node : Node) :
    (programOf flags groups node).instructions =
      (Node.capture 0 node).emit .forward 0 0 ++ [Instruction.matched] := by
  simp [programOf, Node.emit, Node.enterInstruction, Node.leaveInstruction]

theorem startingAt_inside {candidate : Nat}
    (inside : candidate ≤ input.length) (captureCount : Nat) :
    (startingAt captureCount candidate).Inside input captureCount := by
  refine ⟨inside, by simp [startingAt], ?_⟩
  intro capture found stop stopped
  cases List.eq_of_mem_replicate found
  simp at stopped

theorem initialState_ready {candidate : Nat}
    (inside : candidate ≤ input.length) :
    Ready (programOf flags groups node) input 0 0 (Node.capture 0 node).slots
      .forward (initialState (programOf flags groups node) candidate) where
  pc := rfl
  directed := rfl
  uncommitted := rfl
  inside := startingAt_inside inside _
  idle index _ below := by
    refine ⟨{}, ?_, rfl⟩
    rw [Nat.zero_add, Node.slots] at below
    simp only [initialState, programOf]
    rw [List.getElem?_replicate, if_pos below]

/-- The machine reaches the answer of the first outcome. -/
theorem reaches_answer
    (sound : RecognizerSound (programOf flags groups node) recognize)
    (bounded : node.Bounded (groups.length + 1)) {candidate : Nat}
    (inside : candidate ≤ input.length) :
    (machine data recognize (programOf flags groups node) input).Reaches
      (.running (initialState (programOf flags groups node) candidate) [])
      (.finished (node.answer data recognize input (groups.length + 1)
        candidate)) := by
  have code : CodeAt (programOf flags groups node).instructions 0
      ((Node.capture 0 node).emit .forward 0 0 ++ [Instruction.matched]) := by
    intro index instruction found
    rw [programOf_instructions, Nat.zero_add]
    exact found
  rw [CodeAt.append_iff, CodeAt.cons_iff, Node.length_emit] at code
  have searches : (Node.capture 0 node).Searches data recognize
      (programOf flags groups node) input .forward 0 0 :=
    (Node.capture 0 node).searches sound code.1 ⟨Nat.succ_pos _, bounded⟩
  have searched := searches
    (initialState (programOf flags groups node) candidate)
    (initialState_ready inside) []
  unfold Node.answer Node.wholeOutcomes
  rcases searched.head_cases with ⟨nothing, resumed⟩ |
    ⟨outcome, rest, state, pushed, found, delivered, -, reached⟩
  · change ((Node.capture 0 node).matcher data recognize input .forward 0
      0).run (startingAt _ candidate) = [] at nothing
    rw [show (programOf flags groups node).captureCount = groups.length + 1
      from rfl] at nothing
    rw [nothing]
    exact resumed
  · change ((Node.capture 0 node).matcher data recognize input .forward 0
      0).run (startingAt (groups.length + 1) candidate) = outcome :: rest
      at found
    rw [found]
    refine reached.trans (.single ?_)
    have last : (programOf flags groups node).instructions[state.pc]? =
        some .matched := by
      rw [delivered.pc]
      exact code.2.1
    refine steps_of_execute 0 last ?_
    rw [← delivered.view]
    rfl

theorem steps_rightUnique (data : UnicodeData)
    (recognize : TerminalRecognizer) (program : Program) (input : Input) :
    Relator.RightUnique (Steps data recognize program input) := by
  rintro before first second ⟨state, backtrack, _, _, rfl, _, _⟩ stepSecond
  rename_i found executed
  obtain ⟨instruction, limit, known, large⟩ := execute_of_steps
    (steps_of_execute _ found executed)
  obtain ⟨other, otherLimit, otherKnown, otherLarge⟩ :=
    execute_of_steps stepSecond
  cases known.symm.trans otherKnown
  have one := large (max limit otherLimit) (le_max_left _ _)
  have two := otherLarge (max limit otherLimit) (le_max_right _ _)
  exact Except.ok.inj (one.symm.trans two)

/-- Every configuration on the way to an answer is at an instruction. -/
theorem pc_lt_of_reaches {program : Program} {before : Transition}
    {result : Option Match}
    (finishes : (machine data recognize program input).Reaches before
      (.finished result)) {state : State} {backtrack : List BacktrackEntry}
    (reached : (machine data recognize program input).Reaches before
      (.running state backtrack)) :
    state.pc < program.instructions.length := by
  have onward : (machine data recognize program input).Reaches
      (.running state backtrack) (.finished result) := by
    rcases ReflTransGen.total_of_right_unique
        (steps_rightUnique data recognize program input) reached finishes with
      onward | backward
    · exact onward
    · rcases backward.cases_head with same | ⟨_, ⟨_, _, _, _, same, _⟩, _⟩
      · cases same
      · cases same
  rcases onward.cases_head with same | ⟨_, ⟨_, _, _, _, same, found, _⟩, _⟩
  · cases same
  · cases same
    exact (List.getElem?_eq_some_iff.mp found).1

end Root

section Compiled

variable {flags : RegExpFlags} {limits : CompileLimits} {pattern : Pattern}
  {program : Program}

/-- A compiled program, from any candidate, reaches an answer. -/
theorem compiled_reaches_answer
    (compiled : compilePattern flags limits pattern = .ok program)
    (data : UnicodeData) {recognize : TerminalRecognizer}
    (sound : RecognizerSound program recognize) {input : Input}
    {candidate : Nat} (inside : candidate ≤ input.length) :
    ∃ result, (machine data recognize program input).Reaches
      (.running (initialState program candidate) []) (.finished result) := by
  obtain ⟨node, lowered, rfl⟩ := compilePattern_eq_ok compiled
  have numbers := numbers_disjunction _ _ pattern.body lowered
  exact ⟨_, reaches_answer sound numbers.bounded inside⟩

/-- The search itself ends: one bound on the steps and on the stack serves
every candidate position. -/
theorem runCandidate_terminates
    (compiled : compilePattern flags limits pattern = .ok program)
    (data : UnicodeData) (input : Input) :
    ∃ bound, ∀ (execLimits : ExecLimits) (candidate steps : Nat),
      candidate ≤ input.length →
      steps + bound ≤ execLimits.maxSteps →
      bound ≤ execLimits.maxBacktrackStates →
      ∃ result, (runCandidate data program input execLimits candidate
        steps).1 = .ok result := by
  have each : ∀ candidate, ∃ bound, candidate ≤ input.length →
      ∀ (execLimits : ExecLimits) (steps : Nat),
        steps + bound ≤ execLimits.maxSteps →
        bound ≤ execLimits.maxBacktrackStates →
        ∃ result, (runCandidate data program input execLimits candidate
          steps).1 = .ok result := by
    intro candidate
    by_cases inside : candidate ≤ input.length
    · obtain ⟨result, reached⟩ := compiled_reaches_answer compiled data
        (terminalRepeat_sound program) inside
      obtain ⟨bound, enough⟩ := continueFrom_of_large_limits reached
      exact ⟨bound, fun _ execLimits steps room stack =>
        ⟨result, enough execLimits steps room stack⟩⟩
    · exact ⟨0, fun within => absurd within inside⟩
  choose bound enough using each
  refine ⟨(Finset.range (input.length + 1)).sup bound, ?_⟩
  intro execLimits candidate steps inside room stack
  have small : bound candidate ≤
      (Finset.range (input.length + 1)).sup bound :=
    Finset.le_sup (Finset.mem_range.mpr (by omega))
  exact enough candidate inside execLimits steps (by omega) (by omega)

/-- The pattern `(?:(a|(?<=(b)))*)*`. -/
def nestedLoops : Pattern where
  body := [[.quantifier ⟨0, 18⟩ 0 none true
    (.ignoreGroup ⟨0, 17⟩ none [[.quantifier ⟨3, 16⟩ 0 none true
      (.capturingGroup ⟨3, 15⟩ none
        [[.character ⟨4, 5⟩ 97],
          [.lookAroundAssertion ⟨6, 14⟩ .lookbehind
            [[.capturingGroup ⟨10, 13⟩ none
              [[.character ⟨11, 12⟩ 98]]]]]])]])]]

theorem runCandidate_terminates_nestedLoops :
    ∃ program, compilePattern {} {} nestedLoops = .ok program ∧
      ∃ bound, ∀ (execLimits : ExecLimits) (candidate steps : Nat),
        candidate ≤ 3 →
        steps + bound ≤ execLimits.maxSteps →
        bound ≤ execLimits.maxBacktrackStates →
        ∃ result, (runCandidate ⟨id, id, fun _ _ _ => false⟩ program
          [98, 97, 97] execLimits candidate steps).1 = .ok result := by
  have succeeds : (compilePattern {} {} nestedLoops).isOk = true := by
    decide +kernel
  cases compiled : compilePattern {} {} nestedLoops with
  | error error =>
      rw [compiled] at succeeds
      cases succeeds
  | ok program =>
      exact ⟨program, rfl, runCandidate_terminates compiled _ [98, 97, 97]⟩

end Compiled

end Fusor.RegExp
