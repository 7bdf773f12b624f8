import Fusor.RegExp.Adequacy
import Fusor.RegExp.Quantifier

/-!
# The terminal-repeat fast path

A greedy one-token repeat directly before the final end anchor commits to its
longest iteration instead of pushing its exits.  The machine with the fast
path gives the answer of the machine without it, unless it comes back to the
head of the repeat at the end of the input after an optional iteration that
consumed nothing.
-/

namespace Fusor.RegExp

open Ast Search Relation

/-- The recognizer of the machine without the fast path. -/
def neverTerminal : TerminalRecognizer :=
  fun _ _ _ _ _ => none

/-- The head of a recognized repeat is reached at the end of the input after
an optional iteration that consumed nothing. -/
def TerminalStall (program : Program) (input : Input) : Transition → Prop
  | .running state _ =>
      ∃ slot min max body exit captureStart captureEnd,
        program.instructions[state.pc]? = some (.repeatHead slot min max true
          body exit captureStart captureEnd) ∧
        (terminalRepeat program slot body exit captureStart
          captureEnd).isSome ∧
        ∃ current, state.repeats[slot]? = some current ∧
          Stalled min (activate current) state.position ∧
          (activate current).optionalAttempted = true ∧
          state.position = input.length
  | .finished _ => False

namespace Loop

section Answers

variable {data : UnicodeData} {program : Program} {input : Input}
  {loop : Loop data (terminalRepeat program) program input .forward}
  {origin state : State} {repeated : RepeatState} {Result : Type}
  {accepts : Result → State → Prop} {further : MatchState → Option Result}

/-- The slow list of the loop. -/
def slowOutcomes (loop : Loop data (terminalRepeat program) program input
    .forward) (min : Nat) (max : Option Nat) (start : MatchState) :
    List MatchState :=
  repeatOutcomes loop.matcher loop.captureStart loop.captureEnd false
    loop.greedy min max start

/-- The code behind the loop answers every exit. -/
def AfterAnswers (loop : Loop data (terminalRepeat program) program input
    .forward) (origin : State) (accepts : Result → State → Prop)
    (further : MatchState → Option Result) : Prop :=
  ∀ outcome state, Delivered loop.exit loop.slot (loop.body.slots + 1) origin
    outcome state → outcome.Inside input program.captureCount → ∀ stack,
      (machine data (terminalRepeat program) program input).Answers accepts
        (TerminalStall program input) (.running state stack) stack
        (further outcome)

def Answered (_loop : Loop data (terminalRepeat program) program input
    .forward) (state : State) (accepts : Result → State → Prop)
    (answer : Option Result) : Prop :=
  ∀ backtrack,
    (machine data (terminalRepeat program) program input).Answers accepts
      (TerminalStall program input) (.running state backtrack) backtrack answer

/-- A search of the loop whose exits are answered behind it. -/
theorem answered_of_explores {outcomes : List MatchState}
    (explores : loop.Explores origin state outcomes)
    (inside : ∀ outcome ∈ outcomes, outcome.Inside input program.captureCount)
    (after : loop.AfterAnswers origin accepts further) :
    loop.Answered state accepts (outcomes.findSome? further) :=
  fun backtrack => (explores backtrack).answers
    fun outcome member state delivered stack =>
      after outcome state delivered (inside outcome member) stack

/-- The answers that an induction on the remaining work has at hand. -/
def SmallerAnswered (loop : Loop data (terminalRepeat program) program input
    .forward) (origin state : State) (repeated : RepeatState)
    (accepts : Result → State → Prop)
    (further : MatchState → Option Result) : Prop :=
  ∀ later next, loop.Head origin later next →
    ¬ Stalled loop.min next later.position →
    loop.minLeft next.count + remaining input .forward later.position <
      loop.minLeft repeated.count + remaining input .forward state.position →
    loop.Answered later accepts
      ((loop.slowOutcomes (loop.minLeft next.count) (loop.maxLeft next.count)
        later.view).findSome? further)

/-- A mandatory turn of the loop. -/
theorem mandatory_answered (head : loop.Head origin state repeated)
    (moving : ¬ Stalled loop.min repeated state.position)
    (room : ¬ loop.Full repeated) (mandatory : repeated.count < loop.min)
    (after : loop.AfterAnswers origin accepts further)
    (smaller : loop.SmallerAnswered origin state repeated accepts further) :
    loop.Answered state accepts
      ((loop.entered state).findSome? fun outcome =>
        (if loop.minLeft repeated.count = 1 ∧
            outcome.position = state.view.position then [outcome]
        else loop.slowOutcomes (loop.minLeft repeated.count - 1)
          ((loop.maxLeft repeated.count).map (· - 1)) outcome).findSome?
            further) := by
  intro backtrack
  have unattempted : repeated.optionalAttempted = false := by
    by_contra attempted
    have enough := AtHead.attempted head (by simpa using attempted)
    exact UInt64.not_lt.mpr enough mandatory
  have uncommitted : state.terminalRepeat = none := by
    rcases AtHead.commitment head with none | ⟨_, _, attempted⟩
    · exact none
    · rw [unattempted] at attempted
      cases attempted
  have iteration : (machine data (terminalRepeat program) program
      input).Explores
      (fun outcome later =>
        loop.Head origin later (repeated.finished state.position) ∧
          later.view = outcome)
      (.running (enterBody state loop.slot loop.captureStart loop.captureEnd
        loop.address repeated) backtrack)
      ((loop.entered state).flatMap fun outcome => [outcome]) backtrack :=
    AtHead.explores_iteration head loop.code loop.searches uncommitted
      (active_of_head head) (AtHead.attempted head)
      (fun outcome _ later laterHead sameView stack =>
        .single ⟨laterHead, sameView⟩) backtrack
  rw [List.flatMap_singleton'] at iteration
  refine .of_next (AtHead.steps_mandatory head loop.code moving room mandatory
    backtrack) (iteration.answers ?_)
  rintro outcome member later ⟨laterHead, sameView⟩ stack
  have move : Advances input .forward state.position outcome.position :=
    advances_of_entered member
  have samePosition : later.position = outcome.position :=
    congrArg MatchState.position sameView
  rw [← samePosition] at move
  subst sameView
  obtain ⟨last, remainingMin, remainingMax⟩ :=
    @mandatory_turn data (terminalRepeat program) program input .forward loop
      repeated later state.position mandatory room
  change _ ↔ _ ∧ later.view.position = state.view.position at last
  by_cases stalled : Stalled loop.min (repeated.finished state.position)
      later.position
  · have search := stalled_explores laterHead stalled
    have plain : (repeated.finished state.position).optionalAttempted =
        false := unattempted
    rw [plain] at search
    rw [if_pos (last.mp stalled)]
    exact answered_of_explores search (by simpa using AtHead.inside laterHead)
      after stack
  · have fewer := UInt64.lt_iff_toNat_lt.mp mandatory
    have shorter := move.remaining_le
    have answered := smaller later _ laterHead stalled (by
      rw [remainingMin]
      simp only [minLeft]
      omega) stack
    rw [remainingMin, remainingMax] at answered
    rw [if_neg (fun conditions => stalled (last.mpr conditions))]
    exact answered

/-- At the end of the input a token that matches there leads back to the head
of a stalled loop. -/
theorem stall_of_matched (eager : loop.greedy = true)
    (recognized : loop.terminal = true) {later : State} {position : Nat}
    (head : loop.Head origin later (RepeatState.finished
      { repeated with optionalAttempted := true } position))
    (optional : loop.min ≤ repeated.count)
    (stays : later.position = position) (final : position = input.length)
    (stack : List BacktrackEntry) :
    TerminalStall program input (.running later stack) := by
  obtain ⟨current, found, activated⟩ := AtHead.current head
  refine ⟨loop.slot, loop.min, loop.max, loop.address + 1,
    loop.address + loop.body.size + 2, loop.captureStart, loop.captureEnd, ?_,
    recognized, current, found, ?_, ?_, stays.trans final⟩
  · rw [AtHead.pc head, loop.code.head, eager]
  · rw [activated, finished_stalled_iff]
    exact ⟨le_saturatingSucc optional, stays⟩
  · rw [activated]
    rfl

/-- An optional turn of a terminal loop. -/
theorem committed_answered (eager : loop.greedy = true)
    (recognized : loop.terminal = true)
    (ends : ∀ outcome : MatchState, outcome.position ≠ input.length →
      further outcome = none)
    (head : loop.Head origin state repeated)
    (moving : ¬ Stalled loop.min repeated state.position)
    (room : ¬ loop.Full repeated) (optional : ¬ repeated.count < loop.min)
    (after : loop.AfterAnswers origin accepts further)
    (smaller : loop.SmallerAnswered origin state repeated accepts further) :
    loop.Answered state accepts
      (((loop.entered state).findSome? fun outcome =>
        (if outcome.position = state.view.position then []
        else loop.slowOutcomes 0 ((loop.maxLeft repeated.count).map (· - 1))
          outcome).findSome? further).or (further state.view)) := by
  intro backtrack
  have enough := UInt64.not_lt.mp optional
  obtain ⟨token, single, size, read⟩ := loop.terminal_token recognized
  obtain ⟨terminal, answer⟩ := Option.isSome_iff_exists.mp recognized
  refine .of_next (AtHead.steps_committed head loop.code moving room optional
    eager loop.sound answer backtrack) ?_
  rw [read]
  by_cases failed : token.positions data input .forward state.position = []
  · rw [failed, List.map_nil, List.findSome?_nil, Option.none_or]
    have recovery : (machine data (terminalRepeat program) program
        input).Explores
        (Delivered loop.exit loop.slot (loop.body.slots + 1) origin)
        (.running (commitBody state loop.slot loop.address loop.exit
          { repeated with optionalAttempted := true }) backtrack)
        [state.view] backtrack :=
      AtHead.explores_recovery head single failed backtrack
    have answered := recovery.answers
      fun outcome member state delivered stack =>
        after outcome state delivered (by
          cases List.mem_singleton.mp member
          exact AtHead.inside head) stack
    rw [List.findSome?_singleton] at answered
    exact answered
  · have iteration : (machine data (terminalRepeat program) program
        input).Explores
        (fun outcome later =>
          loop.Head origin later (RepeatState.finished
            { repeated with optionalAttempted := true } state.position) ∧
            later.view = outcome)
        (.running (commitBody state loop.slot loop.address loop.exit
          { repeated with optionalAttempted := true }) backtrack)
        (((token.positions data input .forward state.position).map
          fun next => ⟨next, state.captures⟩).flatMap
            fun outcome => [outcome]) backtrack :=
      AtHead.explores_commitment head loop.code single size
        ⟨eager, recognized⟩ (attempt_active head) rfl enough failed
        (fun next _ later laterHead sameView stack =>
          .single ⟨laterHead, sameView⟩) backtrack
    rw [List.flatMap_singleton'] at iteration
    by_cases final : state.position = input.length
    · rcases iteration.head_cases with ⟨nothing, -⟩ |
        ⟨outcome, rest, later, pushed, listed, ⟨laterHead, sameView⟩, -,
          reached⟩
      · exact absurd (List.map_eq_nil_iff.mp nothing) failed
      · have member : outcome ∈ (token.positions data input .forward
            state.position).map fun next => (⟨next, state.captures⟩ :
              MatchState) := by
          rw [listed]
          exact List.mem_cons_self
        obtain ⟨next, matched, rfl⟩ := List.mem_map.mp member
        have move := token.positions_advances data input .forward
          state.position next matched
        have ahead := move.forward_le
        have inside := move.inside (AtHead.inside head).position
        have samePosition : later.position = next :=
          congrArg MatchState.position sameView
        exact .inl ⟨_, reached, stall_of_matched eager recognized laterHead
          enough (by omega) final _⟩
    · rw [ends state.view final, Option.or_none]
      refine iteration.answers ?_
      rintro outcome member later ⟨laterHead, sameView⟩ stack
      obtain ⟨next, matched, rfl⟩ := List.mem_map.mp member
      have move := token.positions_advances data input .forward state.position
        next matched
      have samePosition : later.position = next :=
        congrArg MatchState.position sameView
      rw [← samePosition] at move
      rw [← sameView]
      obtain ⟨last, remainingMin, remainingMax⟩ :=
        @optional_turn data (terminalRepeat program) program input .forward
          loop repeated later state.position enough room
      by_cases stays : later.position = state.position
      · have search := stalled_explores laterHead (last.mpr stays)
        rw [if_pos (show later.view.position = state.view.position from stays)]
        exact answered_of_explores search (fun _ none => nomatch none) after
          stack
      · have shorter := move.remaining_lt stays
        have answered := smaller later _ laterHead
          (fun stalled => stays (last.mp stalled)) (by
            rw [remainingMin]
            omega) stack
        rw [remainingMin, remainingMax] at answered
        rw [if_neg (show ¬ later.view.position = state.view.position from
          stays)]
        exact answered

/-- The head of a terminal loop answers as the loop without the fast path
does, or reaches the stall. -/
theorem head_answered (eager : loop.greedy = true)
    (recognized : loop.terminal = true)
    (ends : ∀ outcome : MatchState, outcome.position ≠ input.length →
      further outcome = none)
    (after : loop.AfterAnswers origin accepts further)
    (head : loop.Head origin state repeated)
    (moving : ¬ Stalled loop.min repeated state.position) :
    loop.Answered state accepts
      ((loop.slowOutcomes (loop.minLeft repeated.count)
        (loop.maxLeft repeated.count) state.view).findSome? further) := by
  induction distance : loop.minLeft repeated.count +
      remaining input .forward state.position using Nat.strong_induction_on
    generalizing state repeated with
  | _ distance induction =>
      subst distance
      have smaller : loop.SmallerAnswered origin state repeated accepts
          further :=
        fun later next laterHead laterMoving less =>
          induction _ less laterHead laterMoving rfl
      rw [slowOutcomes, repeatOutcomes_eq]
      by_cases full : loop.Full repeated
      · rw [if_pos (full_iff.mp full)]
        exact answered_of_explores (fun backtrack =>
          AtHead.explores_full head loop.code moving full backtrack)
          (by simpa using AtHead.inside head) after
      rw [if_neg (fun reached => full (full_iff.mpr reached))]
      by_cases mandatory : repeated.count < loop.min
      · have fewer := UInt64.lt_iff_toNat_lt.mp mandatory
        rw [if_pos (show 0 < loop.minLeft repeated.count by
          simp only [minLeft]; omega), findSome?_flatMap]
        exact mandatory_answered head moving full mandatory after smaller
      · have enough := UInt64.le_iff_toNat_le.mp (UInt64.not_lt.mp mandatory)
        rw [if_neg (show ¬ 0 < loop.minLeft repeated.count by
          simp only [minLeft]; omega)]
        simp only [eager, Bool.not_true, Bool.false_eq_true, if_false]
        rw [List.findSome?_append, findSome?_flatMap, List.findSome?_singleton]
        have answered := committed_answered eager recognized ends head moving
          full mandatory after smaller
        simp only [slowOutcomes, eager] at answered
        exact answered

end Answers

end Loop

section Places

variable {data : UnicodeData} {program : Program} {input : Input}

/-- A recognized repeat ends directly before the final anchor. -/
theorem exit_eq_of_isTerminal {last : Nat}
    (unique : ∀ index, program.instructions[index]? = some (.saveEnd 0) →
      index = last + 1)
    {slot address size captureStart captureEnd : Nat}
    (recognized : isTerminal (terminalRepeat program) slot address size
      captureStart captureEnd = true) :
    address + size + 2 = last ∧ ∃ mode,
      program.instructions[last]? = some (.boundary .stop mode) ∧
        mode.multiline = false := by
  obtain ⟨terminal, answer⟩ := Option.isSome_iff_exists.mp recognized
  unfold terminalRepeat at answer
  split at answer
  · cases answer
  · split at answer
    · rename_i mode anchor
      split at answer
      · cases answer
      · rename_i single
        split at answer
        · rename_i saved _
          have place := unique _ saved
          have same : address + size + 2 = last := by omega
          rw [same] at anchor
          exact ⟨same, mode, anchor, by simpa using single⟩
        · cases answer
    · cases answer

/-- Where no repeat is recognized, the fast path changes nothing. -/
theorem matcher_eq_slow {stop : Nat}
    (never : ∀ slot address size captureStart captureEnd,
      address + size + 2 ≤ stop →
      isTerminal (terminalRepeat program) slot address size captureStart
        captureEnd = false)
    (node : Node) (direction : Direction) (address slot : Nat)
    (within : address + node.size ≤ stop) :
    node.matcher data (terminalRepeat program) input direction address slot =
      node.matcher data neverTerminal input direction address slot := by
  induction node generalizing direction address slot with
  | empty | token | boundary | backReference => rfl
  | seq first second inductionFirst inductionSecond =>
      simp only [Node.size] at within
      rw [Node.matcher, Node.matcher, inductionFirst _ _ _ (by omega),
        inductionSecond _ _ _ (by omega)]
  | alt first second inductionFirst inductionSecond =>
      simp only [Node.size] at within
      rw [Node.matcher, Node.matcher, inductionFirst _ _ _ (by omega),
        inductionSecond _ _ _ (by omega)]
  | capture index body induction =>
      simp only [Node.size] at within
      rw [Node.matcher, Node.matcher, induction _ _ _ (by omega)]
  | lookaround kind body induction =>
      simp only [Node.size] at within
      rw [Node.matcher, Node.matcher, induction _ _ _ (by omega)]
  | repetition min max greedy captureStart captureEnd body induction =>
      simp only [Node.size] at within
      rw [Node.matcher, Node.matcher, induction _ _ _ (by omega),
        never slot address body.size captureStart captureEnd (by omega)]
      rfl

theorem never_before {last stop : Nat}
    (unique : ∀ index, program.instructions[index]? = some (.saveEnd 0) →
      index = last + 1) (before : stop < last)
    (slot address size captureStart captureEnd : Nat)
    (within : address + size + 2 ≤ stop) :
    isTerminal (terminalRepeat program) slot address size captureStart
      captureEnd = false := by
  by_contra recognized
  have place := (exit_eq_of_isTerminal unique
    (Bool.not_eq_false _ ▸ recognized)).1
  omega

end Places

section Tree

variable (data : UnicodeData) (program : Program) (input : Input)

/-- The machine with the fast path answers whatever follows the node as the
outcomes without the fast path do.  Behind an anchored node only the outcomes
at the end of the input have an answer. -/
def Node.AnswersSlowly (node : Node) (anchored : Bool) (address slot : Nat) :
    Prop :=
  ∀ (accepts : MatchState → State → Prop)
    (further : MatchState → Option MatchState) (state : State),
    Ready program input address slot node.slots .forward state →
    (anchored = true → ∀ outcome : MatchState,
      outcome.position ≠ input.length → further outcome = none) →
    (∀ outcome later, Delivered (address + node.size) slot node.slots state
        outcome later →
      outcome.Inside input program.captureCount → ∀ stack,
        (machine data (terminalRepeat program) program input).Answers accepts
          (TerminalStall program input) (.running later stack) stack
          (further outcome)) →
    ∀ stack, (machine data (terminalRepeat program) program input).Answers
      accepts (TerminalStall program input) (.running state stack) stack
      (((node.matcher data neverTerminal input .forward address slot).run
        state.view).findSome? further)

variable {data program input}

namespace Node.AnswersSlowly

/-- A node that the fast path does not concern. -/
theorem of_searches {node : Node} {anchored : Bool} {address slot : Nat}
    (searches : node.Searches data (terminalRepeat program) program input
      .forward address slot)
    (same : ∀ state, (node.matcher data (terminalRepeat program) input .forward
        address slot).run state =
      (node.matcher data neverTerminal input .forward address slot).run
        state) :
    node.AnswersSlowly data program input anchored address slot := by
  intro accepts further state ready _ after stack
  have searched := searches state ready stack
  rw [same] at searched
  refine searched.answers ?_
  intro outcome member later delivered stack
  exact after outcome later delivered (node.matcher_inside data neverTerminal
    input .forward address slot ready.inside outcome member) stack

/-- A sequence whose second part emits nothing. -/
theorem seq_left {first second : Node} {anchored : Bool} {address slot : Nat}
    (answers : first.AnswersSlowly data program input anchored address slot)
    (nothing : second.size = 0) :
    (Node.seq first second).AnswersSlowly data program input anchored address
      slot := by
  intro accepts further state ready ends after stack
  have empty : second.emit .forward (address + first.size)
      (slot + first.slots) = [] :=
    List.length_eq_zero_iff.mp ((second.length_emit _ _ _).trans nothing)
  have stays : (second.matcher data neverTerminal input .forward
      (address + first.size) (slot + first.slots)).run =
        fun later => [later] :=
    funext fun later => Node.run_of_emit_nil empty later
  have readyFirst : Ready program input address slot first.slots .forward
      state := { ready with
    idle := ready.idle.mono (by omega) (by simp only [Node.slots]; omega) }
  simp only [Node.matcher, Matcher.seq, stays, List.flatMap_singleton']
  refine answers accepts further state readyFirst ends ?_ stack
  intro outcome later delivered inside stack
  refine after outcome later ?_ inside stack
  simp only [Node.size, nothing, Nat.add_zero]
  exact delivered.widen rfl rfl ready.idle le_rfl
    (by simp only [Node.slots]; omega)

/-- A sequence whose first part the fast path does not concern. -/
theorem seq_right {first second : Node} {anchored : Bool} {address slot : Nat}
    (searches : first.Searches data (terminalRepeat program) program input
      .forward address slot)
    (same : first.matcher data (terminalRepeat program) input .forward address
        slot = first.matcher data neverTerminal input .forward address slot)
    (answers : second.AnswersSlowly data program input anchored
      (address + first.size) (slot + first.slots)) :
    (Node.seq first second).AnswersSlowly data program input anchored address
      slot := by
  intro accepts further state ready ends after stack
  have readyFirst : Ready program input address slot first.slots .forward
      state := { ready with
    idle := ready.idle.mono (by omega) (by simp only [Node.slots]; omega) }
  have searched := searches state readyFirst stack
  rw [same] at searched
  simp only [Node.matcher, Matcher.seq, findSome?_flatMap]
  refine searched.answers ?_
  intro outcome member between delivered stack
  have inside := first.matcher_inside data neverTerminal input .forward address
    slot ready.inside outcome member
  have readySecond := Ready.of_delivered delivered ready.directed inside
    (ready.idle.mono (Nat.le_add_right slot first.slots)
      (show _ + second.slots ≤ _ by simp only [Node.slots]; omega))
    (.inr le_rfl)
  rw [← delivered.view]
  refine answers accepts further between readySecond ends ?_ stack
  intro final later last finalInside stack
  have whole := delivered.trans last
  rw [Nat.add_assoc] at whole
  exact after final later whole finalInside stack

/-- A sequence whose second part lets only the end of the input through. -/
theorem seq_anchor {first second : Node} {address slot : Nat}
    (answersFirst : first.AnswersSlowly data program input true address slot)
    (answersSecond : second.AnswersSlowly data program input false
      (address + first.size) (slot + first.slots))
    (anchors : ∀ state : MatchState, state.position ≠ input.length →
      (second.matcher data neverTerminal input .forward
        (address + first.size) (slot + first.slots)).run state = []) :
    (Node.seq first second).AnswersSlowly data program input false address
      slot := by
  intro accepts further state ready _ after stack
  have readyFirst : Ready program input address slot first.slots .forward
      state := { ready with
    idle := ready.idle.mono (by omega) (by simp only [Node.slots]; omega) }
  simp only [Node.matcher, Matcher.seq, findSome?_flatMap]
  refine answersFirst accepts _ state readyFirst ?_ ?_ stack
  · intro _ outcome short
    rw [anchors outcome short]
    rfl
  · intro outcome between delivered inside stack
    have readySecond := Ready.of_delivered delivered ready.directed inside
      (ready.idle.mono (Nat.le_add_right slot first.slots)
        (show _ + second.slots ≤ _ by simp only [Node.slots]; omega))
      (.inr le_rfl)
    rw [← delivered.view]
    refine answersSecond accepts further between readySecond (by simp) ?_ stack
    intro final later last finalInside stack
    have whole := delivered.trans last
    rw [Nat.add_assoc] at whole
    exact after final later whole finalInside stack

/-- An alternation whose first branch the fast path does not concern. -/
theorem alt_right {first second : Node} {anchored : Bool} {address slot : Nat}
    (split : program.instructions[address]? =
      some (.split (address + 1) (address + first.size + 2)))
    (jump : program.instructions[address + 1 + first.size]? =
      some (.jump (address + first.size + second.size + 2)))
    (searches : first.Searches data (terminalRepeat program) program input
      .forward (address + 1) slot)
    (same : first.matcher data (terminalRepeat program) input .forward
        (address + 1) slot =
      first.matcher data neverTerminal input .forward (address + 1) slot)
    (answers : second.AnswersSlowly data program input anchored
      (address + first.size + 2) (slot + first.slots)) :
    (Node.alt first second).AnswersSlowly data program input anchored address
      slot := by
  intro accepts further state ready ends after stack
  have located : program.instructions[state.pc]? =
      some (.split (address + 1) (address + first.size + 2)) := by
    rw [ready.pc]
    exact split
  have searched := explores_first_branch jump searches ready
    (.alternative { state with pc := address + first.size + 2 } :: stack)
  rw [same] at searched
  simp only [Node.matcher, Matcher.alt, List.findSome?_append]
  refine .of_next (steps_split located stack) (.or (searched.answers ?_) ?_)
  · intro outcome member later delivered stack
    exact after outcome later delivered (first.matcher_inside data
      neverTerminal input .forward _ _ ready.inside outcome member) stack
  · refine answers accepts further _ (ready_second_branch ready) ends ?_ stack
    intro outcome later delivered inside stack
    exact after outcome later (delivered_second_branch ready delivered) inside
      stack

/-- A repetition directly before the anchor. -/
theorem repetition {last : Nat}
    (unique : ∀ index, program.instructions[index]? = some (.saveEnd 0) →
      index = last + 1)
    {min : UInt64} {max : Option UInt64} {greedy : Bool}
    {captureStart captureEnd : Nat} {body : Node} {address slot : Nat}
    (code : CodeAt program.instructions address
      ((Node.repetition min max greedy captureStart captureEnd body).emit
        .forward address slot))
    (bounded : (Node.repetition min max greedy captureStart captureEnd
      body).Bounded program.captureCount)
    (place : address + body.size + 2 = last) :
    (Node.repetition min max greedy captureStart captureEnd
      body).AnswersSlowly data program input true address slot := by
  have searches : Node.Searches data (terminalRepeat program) program input
      (.repetition min max greedy captureStart captureEnd body) .forward
      address slot :=
    Node.searches (terminalRepeat_sound program) _ code bounded
  have sameBody : body.matcher data (terminalRepeat program) input .forward
      (address + 1) (slot + 1) =
      body.matcher data neverTerminal input .forward (address + 1)
        (slot + 1) :=
    matcher_eq_slow (never_before unique (show last - 1 < last by omega)) body
      .forward _ _ (by omega)
  by_cases fast : greedy = true ∧ isTerminal (terminalRepeat program) slot
      address body.size captureStart captureEnd = true
  · obtain ⟨eager, recognized⟩ := fast
    intro accepts further state ready ends after stack
    rw [Node.emit, CodeAt.cons_iff, CodeAt.append_iff, Node.length_emit,
      CodeAt.cons_iff] at code
    let loop : Loop data (terminalRepeat program) program input .forward :=
      ⟨slot, address, captureStart, captureEnd, min, max, greedy, body,
        terminalRepeat_sound program, ⟨code.1, code.2.2.1, bounded.1⟩,
        code.2.1, Node.searches (terminalRepeat_sound program) body code.2.1
          bounded.2⟩
    have head := loop.head_of_ready ready
    have answered := loop.head_answered eager recognized (ends rfl) after head
      not_stalled_fresh stack
    simp only [Loop.slowOutcomes, Loop.matcher, Loop.minLeft, Loop.maxLeft,
      UInt64.toNat_zero, Nat.sub_zero, loop, sameBody] at answered
    exact answered
  · refine of_searches searches fun state => ?_
    simp only [Node.matcher, sameBody, Matcher.repetition]
    cases eager : greedy with
    | false => exact repeatOutcomes_lazy _ _ _ _ _
    | true =>
        have unrecognized : isTerminal (terminalRepeat program) slot address
            body.size captureStart captureEnd = false := by
          simpa [eager] using fast
        rw [unrecognized]
        rfl

end Node.AnswersSlowly

section Descent

variable {last : Nat}
  (unique : ∀ index, program.instructions[index]? = some (.saveEnd 0) →
    index = last + 1)

include unique

/-- A node that ends directly before the anchor. -/
theorem Node.answersSlowly_before_anchor (node : Node) {address slot : Nat}
    (code : CodeAt program.instructions address
      (node.emit .forward address slot))
    (bounded : node.Bounded program.captureCount)
    (place : address + node.size = last) :
    node.AnswersSlowly data program input true address slot := by
  have searches : node.Searches data (terminalRepeat program) program input
      .forward address slot :=
    node.searches (terminalRepeat_sound program) code bounded
  induction node generalizing address slot with
  | empty | token | boundary | backReference =>
      exact .of_searches searches fun _ => rfl
  | seq first second inductionFirst inductionSecond =>
      rw [emit, CodeAt.append_iff, length_emit] at code
      simp only [size] at place
      have searchesFirst : first.Searches data (terminalRepeat program)
          program input .forward address slot :=
        first.searches (terminalRepeat_sound program) code.1 bounded.1
      have searchesSecond : second.Searches data (terminalRepeat program)
          program input .forward (address + first.size) (slot + first.slots) :=
        second.searches (terminalRepeat_sound program) code.2 bounded.2
      by_cases nothing : second.size = 0
      · exact .seq_left (inductionFirst code.1 bounded.1 (by omega)
          searchesFirst) nothing
      · exact .seq_right searchesFirst
          (matcher_eq_slow (never_before unique
            (show last - 1 < last by omega)) first .forward _ _ (by omega))
          (inductionSecond code.2 bounded.2 (by omega) searchesSecond)
  | alt first second inductionFirst inductionSecond =>
      rw [emit, CodeAt.cons_iff, CodeAt.append_iff, length_emit,
        CodeAt.cons_iff] at code
      simp only [size] at place
      obtain ⟨split, codeFirst, jump, codeSecond⟩ := code
      have behind : address + 1 + first.size + 1 =
          address + first.size + 2 := by
        omega
      rw [behind] at codeSecond
      exact .alt_right split jump
        (first.searches (terminalRepeat_sound program) codeFirst bounded.1)
        (matcher_eq_slow (never_before unique
          (show last - 1 < last by omega)) first .forward _ _ (by omega))
        (inductionSecond codeSecond bounded.2 (by omega)
          (second.searches (terminalRepeat_sound program) codeSecond
            bounded.2))
  | capture index body induction =>
      simp only [size] at place
      refine .of_searches searches fun state => ?_
      rw [matcher, matcher, matcher_eq_slow (never_before unique
        (show last - 1 < last by omega)) body .forward _ _ (by omega)]
  | lookaround kind body induction =>
      simp only [size] at place
      refine .of_searches searches fun state => ?_
      rw [matcher, matcher, matcher_eq_slow (never_before unique
        (show last - 1 < last by omega)) body kind.direction _ _ (by omega)]
  | repetition min max greedy captureStart captureEnd body induction =>
      exact .repetition unique code bounded (by simp only [size] at place; omega)

/-- A node that ends behind the anchor. -/
theorem Node.answersSlowly_with_anchor {mode : MatchMode}
    (anchor : program.instructions[last]? = some (.boundary .stop mode))
    (single : mode.multiline = false) (node : Node) {address slot : Nat}
    (code : CodeAt program.instructions address
      (node.emit .forward address slot))
    (bounded : node.Bounded program.captureCount)
    (place : address + node.size = last + 1) :
    node.AnswersSlowly data program input false address slot := by
  have searches : node.Searches data (terminalRepeat program) program input
      .forward address slot :=
    node.searches (terminalRepeat_sound program) code bounded
  induction node generalizing address slot with
  | empty | token | boundary | backReference =>
      exact .of_searches searches fun _ => rfl
  | seq first second inductionFirst inductionSecond =>
      rw [emit, CodeAt.append_iff, length_emit] at code
      simp only [size] at place
      have searchesFirst : first.Searches data (terminalRepeat program)
          program input .forward address slot :=
        first.searches (terminalRepeat_sound program) code.1 bounded.1
      have searchesSecond : second.Searches data (terminalRepeat program)
          program input .forward (address + first.size) (slot + first.slots) :=
        second.searches (terminalRepeat_sound program) code.2 bounded.2
      by_cases nothing : second.size = 0
      · exact .seq_left (inductionFirst code.1 bounded.1 (by omega)
          searchesFirst) nothing
      by_cases one : second.size = 1
      · obtain ⟨instruction, only⟩ := List.length_eq_one_iff.mp
          ((second.length_emit .forward (address + first.size)
            (slot + first.slots)).trans one)
        have located := code.2
        rw [only, CodeAt.cons_iff, show address + first.size = last by omega,
          anchor] at located
        cases located.1
        have run := @Node.run_of_emit_boundary data
        refine .seq_anchor (first.answersSlowly_before_anchor unique code.1
          bounded.1 (by omega)) (.of_searches searchesSecond ?_) ?_
        · intro state
          rw [run only, run only]
        · intro state short
          rw [run only]
          simp [boundaryPositions, boundaryMatches, short, single, pure,
            Except.pure]
      · exact .seq_right searchesFirst
          (matcher_eq_slow (never_before unique
            (show last - 1 < last by omega)) first .forward _ _ (by omega))
          (inductionSecond code.2 bounded.2 (by omega) searchesSecond)
  | alt first second inductionFirst inductionSecond =>
      rw [emit, CodeAt.cons_iff, CodeAt.append_iff, length_emit,
        CodeAt.cons_iff] at code
      simp only [size] at place
      obtain ⟨split, codeFirst, jump, codeSecond⟩ := code
      have behind : address + 1 + first.size + 1 =
          address + first.size + 2 := by
        omega
      rw [behind] at codeSecond
      have distinct : address + 1 + first.size ≠ last := by
        intro same
        rw [same, anchor] at jump
        cases jump
      exact .alt_right split jump
        (first.searches (terminalRepeat_sound program) codeFirst bounded.1)
        (matcher_eq_slow (never_before unique
          (show last - 1 < last by omega)) first .forward _ _ (by omega))
        (inductionSecond codeSecond bounded.2 (by omega)
          (second.searches (terminalRepeat_sound program) codeSecond
            bounded.2))
  | capture index body induction =>
      rw [emit, CodeAt.cons_iff, CodeAt.append_iff, length_emit,
        CodeAt.cons_iff] at code
      simp only [size] at place
      have final := code.2.2.1
      rw [show address + 1 + body.size = last by omega, anchor] at final
      cases final
  | lookaround kind body induction =>
      rw [emit, CodeAt.cons_iff, CodeAt.append_iff, length_emit,
        CodeAt.cons_iff] at code
      simp only [size] at place
      have final := code.2.2.1
      rw [show address + 1 + body.size = last by omega, anchor] at final
      cases final
  | repetition min max greedy captureStart captureEnd body induction =>
      rw [emit, CodeAt.cons_iff, CodeAt.append_iff, length_emit,
        CodeAt.cons_iff] at code
      simp only [size] at place
      have final := code.2.2.1
      rw [show address + 1 + body.size = last by omega, anchor] at final
      cases final

end Descent

end Tree

theorem Node.saveEnd_zero_not_mem (node : Node) (positive : 0 ∉ node.indices)
    (direction : Direction) (address slot : Nat) :
    Instruction.saveEnd 0 ∉ node.emit direction address slot := by
  induction node generalizing direction address slot with
  | empty | boundary | backReference => simp [emit]
  | token read => cases read <;> simp [emit, Token.instruction]
  | seq first second inductionFirst inductionSecond =>
      simp only [indices, List.mem_append, not_or] at positive
      simp only [emit, List.mem_append, not_or]
      exact ⟨inductionFirst positive.1 _ _ _, inductionSecond positive.2 _ _ _⟩
  | alt first second inductionFirst inductionSecond =>
      simp only [indices, List.mem_append, not_or] at positive
      simp only [emit, List.mem_append, List.mem_cons, not_or, reduceCtorEq,
        not_false_eq_true, true_and]
      exact ⟨inductionFirst positive.1 _ _ _, inductionSecond positive.2 _ _ _⟩
  | capture index body induction =>
      simp only [indices, List.mem_cons, not_or] at positive
      have inner := induction positive.2 direction (address + 1) slot
      cases direction
      all_goals
        simp only [emit, enterInstruction, leaveInstruction, List.mem_append,
          List.mem_cons, List.not_mem_nil, or_false, not_or, reduceCtorEq,
          Instruction.saveEnd.injEq, not_false_eq_true, true_and]
        tauto
  | lookaround kind body induction =>
      have inner := induction positive kind.direction (address + 1) slot
      simp [emit, inner]
  | repetition min max greedy captureStart captureEnd body induction =>
      have inner := induction positive direction (address + 1) (slot + 1)
      simp [emit, inner]

section Root

variable {data : UnicodeData} {input : Input} {flags : RegExpFlags}
  {groups : List Group} {node : Node}

theorem programOf_saveEnd_zero (positive : 0 ∉ node.indices) (index : Nat)
    (found : (programOf flags groups node).instructions[index]? =
      some (.saveEnd 0)) :
    index = node.size + 1 := by
  have absent := node.saveEnd_zero_not_mem positive .forward 1 0
  cases index with
  | zero => cases found
  | succ index =>
      simp only [programOf, List.getElem?_cons_succ] at found
      by_cases early : index < node.size
      · rw [List.getElem?_append_left (by simpa using early)] at found
        exact absurd (List.mem_of_getElem? found) absent
      · rw [List.getElem?_append_right (by simpa using early),
          Node.length_emit] at found
        have length := (List.getElem?_eq_some_iff.mp found).1
        have two : index - node.size < 2 := length
        by_cases second : index - node.size = 1
        · rw [second] at found
          cases found
        · omega

/-- The body of a program, whether or not it ends with an anchor. -/
theorem programOf_answersSlowly (positive : 0 ∉ node.indices)
    (bounded : node.Bounded (groups.length + 1)) :
    node.AnswersSlowly data (programOf flags groups node) input false 1 0 := by
  have unique := @programOf_saveEnd_zero flags groups node positive
  have code := codeAt_programOf flags groups node
  by_cases anchored : ∃ mode,
      (programOf flags groups node).instructions[node.size]? =
        some (.boundary .stop mode) ∧ mode.multiline = false
  · obtain ⟨mode, anchor, single⟩ := anchored
    exact node.answersSlowly_with_anchor unique anchor single code bounded
      (Nat.add_comm _ _)
  · have never : ∀ slot address size captureStart captureEnd,
        address + size + 2 ≤ 1 + node.size →
        isTerminal (terminalRepeat (programOf flags groups node)) slot address
          size captureStart captureEnd = false := by
      intro slot address size captureStart captureEnd _
      by_contra recognized
      exact anchored (exit_eq_of_isTerminal unique
        (Bool.not_eq_false _ ▸ recognized)).2
    refine .of_searches (node.searches (terminalRepeat_sound _) code bounded) ?_
    intro state
    rw [matcher_eq_slow never node .forward 1 0 le_rfl]

/-- The machine with the fast path reaches the answer without it, or the
stall. -/
theorem reaches_slow_answer (positive : 0 ∉ node.indices)
    (bounded : node.Bounded (groups.length + 1)) {candidate : Nat}
    (inside : candidate ≤ input.length)
    (avoids : ∀ config,
      (machine data (terminalRepeat (programOf flags groups node))
        (programOf flags groups node) input).Reaches
        (.running (initialState (programOf flags groups node) candidate) [])
        config →
      ¬ TerminalStall (programOf flags groups node) input config) :
    (machine data (terminalRepeat (programOf flags groups node))
      (programOf flags groups node) input).Reaches
      (.running (initialState (programOf flags groups node) candidate) [])
      (.finished (node.answer data neverTerminal input (groups.length + 1)
        candidate)) := by
  have ready := @initialState_ready input flags groups node candidate inside
  have code : CodeAt (programOf flags groups node).instructions 0
      ((Node.capture 0 node).emit .forward 0 0 ++ [Instruction.matched]) := by
    intro index instruction found
    rw [programOf_instructions, Nat.zero_add]
    exact found
  rw [CodeAt.append_iff, Node.emit, CodeAt.cons_iff, CodeAt.append_iff,
    Node.length_emit, CodeAt.cons_iff, CodeAt.cons_iff] at code
  obtain ⟨⟨enter, -, leave, -⟩, last, -⟩ := code
  have entered := @steps_enterCapture data
    (terminalRepeat (programOf flags groups node)) (programOf flags groups node)
    input (initialState (programOf flags groups node) candidate) 0 .forward rfl
    enter (by simp [initialState, programOf]) []
  have readyBody : Ready (programOf flags groups node) input 1 0 node.slots
      .forward { initialState (programOf flags groups node) candidate with
        captures := enterCapture .forward 0
          (initialState (programOf flags groups node) candidate).view
        pc := 1 } :=
    ⟨rfl, rfl, rfl, ready.inside.enterCapture_inside .forward 0, ready.idle⟩
  have answers := programOf_answersSlowly positive bounded
    (fun result state => state.pc = node.size + 2 ∧ state.view = result)
    (fun outcome => some
      { outcome with captures := leaveCapture .forward 0 outcome })
    _ readyBody (by simp) (by
      intro outcome later delivered within stack
      have present : 0 < later.captures.length := by
        have same := congrArg MatchState.captures delivered.view
        simp only [State.view] at same
        rw [same, within.length]
        exact Nat.succ_pos _
      have left := @steps_leaveCapture data
        (terminalRepeat (programOf flags groups node))
        (programOf flags groups node) input later 0 .forward delivered.directed
        (delivered.pc ▸ leave) present stack
      refine .inr ⟨_, stack, ⟨?_, ?_⟩, .single left⟩
      · simp only [delivered.pc]
        omega
      · have position := congrArg MatchState.position delivered.view
        simp only [State.view] at position ⊢
        rw [← delivered.view]
        rfl) []
  have whole : (((node.matcher data neverTerminal input .forward 1 0).run
      { startingAt (groups.length + 1) candidate with
        captures := enterCapture .forward 0
          (startingAt (groups.length + 1) candidate) }).findSome?
        fun outcome => some
          { outcome with captures := leaveCapture .forward 0 outcome }).map
        MatchState.answer =
      node.answer data neverTerminal input (groups.length + 1) candidate := by
    simp only [Node.answer, Node.wholeOutcomes, Node.matcher, Matcher.bracket,
      Nat.zero_add]
    cases (node.matcher data neverTerminal input .forward 1 0).run
      { startingAt (groups.length + 1) candidate with
        captures := enterCapture .forward 0
          (startingAt (groups.length + 1) candidate) } <;> rfl
  rw [← whole]
  change (machine data _ _ input).Answers _ _ _ _
    (((node.matcher data neverTerminal input .forward 1 0).run
      { startingAt (groups.length + 1) candidate with
        captures := enterCapture .forward 0
          (startingAt (groups.length + 1) candidate) }).findSome? _) at answers
  rcases answers with ⟨trapped, reached, stalled⟩ | answered
  · exact absurd stalled (avoids trapped (.head entered reached))
  · generalize List.findSome? _ _ = result at answered
    cases result with
    | none => exact .head entered answered
    | some outcome =>
        obtain ⟨state, stack, ⟨pc, view⟩, reached⟩ := answered
        refine .head entered (reached.trans (.single ?_))
        have located : (programOf flags groups node).instructions[state.pc]? =
            some .matched := by
          rw [pc]
          simpa [Node.size] using last
        refine steps_of_execute 0 located ?_
        rw [← view]
        rfl

end Root

section Compiled

variable {flags : RegExpFlags} {limits : CompileLimits} {pattern : Pattern}
  {program : Program}

/-- While the run avoids the stall, the fast path is invisible. -/
theorem runCandidate_eq_without_fastPath
    (compiled : compilePattern flags limits pattern = .ok program)
    (data : UnicodeData) (input : Input) {candidate : Nat}
    (inside : candidate ≤ input.length)
    (avoids : ∀ config,
      (machine data (terminalRepeat program) program input).Reaches
        (.running (initialState program candidate) []) config →
      ¬ TerminalStall program input config) :
    ∃ result,
      (∀ (execLimits : ExecLimits) (steps : Nat),
        ((runCandidate data program input execLimits candidate steps).1 =
            .ok result ∨
          ∃ error, (runCandidate data program input execLimits candidate
            steps).1 = .error (.failed error)) ∧
        ((runCandidateWith data neverTerminal program input execLimits
              candidate steps).1 = .ok result ∨
          ∃ error, (runCandidateWith data neverTerminal program input
            execLimits candidate steps).1 = .error (.failed error))) ∧
      ∃ bound, ∀ (execLimits : ExecLimits) (steps : Nat),
        steps + bound ≤ execLimits.maxSteps →
        bound ≤ execLimits.maxBacktrackStates →
        (runCandidate data program input execLimits candidate steps).1 =
            .ok result ∧
          (runCandidateWith data neverTerminal program input execLimits
            candidate steps).1 = .ok result := by
  obtain ⟨node, lowered, rfl⟩ := compilePattern_eq_ok compiled
  have numbers := numbers_disjunction _ _ pattern.body lowered
  have fast := reaches_slow_answer numbers.zero_not_mem numbers.bounded inside
    avoids
  have slow : (machine data neverTerminal (programOf flags _ node)
      input).Reaches _ _ :=
    reaches_answer (never_sound (programOf flags _ node)) numbers.bounded
      inside
  obtain ⟨fastBound, fastEnough⟩ := continueFrom_of_large_limits fast
  obtain ⟨slowBound, slowEnough⟩ := continueFrom_of_large_limits slow
  refine ⟨_, fun execLimits steps =>
    ⟨continueFrom_of_reaches fast execLimits steps,
      continueFrom_of_reaches slow execLimits steps⟩,
    max fastBound slowBound, ?_⟩
  intro execLimits steps room stack
  exact ⟨fastEnough execLimits steps (by omega) (by omega),
    slowEnough execLimits steps (by omega) (by omega)⟩

/-- Whether every configuration of a run that ends within the fuel passes the
check. -/
def checkRun (data : UnicodeData) (recognize : TerminalRecognizer)
    (program : Program) (input : Input) (limit : Nat)
    (check : Transition → Bool) : Nat → Transition → Bool
  | _, .finished result => check (.finished result)
  | 0, .running _ _ => false
  | fuel + 1, .running state backtrack =>
      check (.running state backtrack) &&
        (program.instructions[state.pc]?).any fun instruction =>
          match executeInstruction data recognize input limit instruction state
              backtrack with
          | .ok after =>
              checkRun data recognize program input limit check fuel after
          | .error _ => false

theorem check_of_reaches {data : UnicodeData} {recognize : TerminalRecognizer}
    {input : Input} {limit fuel : Nat} {check : Transition → Bool}
    {before after : Transition}
    (checked : checkRun data recognize program input limit check fuel before =
      true)
    (reached : (machine data recognize program input).Reaches before after) :
    check after = true := by
  induction fuel generalizing before with
  | zero =>
      cases before with
      | running state backtrack => cases checked
      | finished result =>
          rcases reached.cases_head with rfl | ⟨_, ⟨_, _, _, _, same, _⟩, _⟩
          · exact checked
          · cases same
  | succ fuel induction =>
      cases before with
      | finished result =>
          rcases reached.cases_head with rfl | ⟨_, ⟨_, _, _, _, same, _⟩, _⟩
          · exact checked
          · cases same
      | running state backtrack =>
          simp only [checkRun, Bool.and_eq_true] at checked
          rcases reached.cases_head with rfl | ⟨between, step, rest⟩
          · exact checked.1
          · cases located : program.instructions[state.pc]? with
            | none => simp [located] at checked
            | some instruction =>
                simp only [located, Option.any_some] at checked
                cases executed : executeInstruction data recognize input limit
                    instruction state backtrack with
                | error abort => simp [executed] at checked
                | ok next =>
                    simp only [executed] at checked
                    cases steps_rightUnique data recognize program input step
                      (steps_of_execute limit located executed)
                    exact induction checked.2 rest

/-- A test that every stall fails. -/
def mayStall (program : Program) (input : Input) : Transition → Bool
  | .running state _ =>
      match program.instructions[state.pc]? with
      | some (.repeatHead _ _ _ _ _ _ _ _) =>
          decide (state.position = input.length) &&
            state.repeats.any fun repeated => repeated.optionalAttempted &&
              repeated.iterationStart == some state.position
      | _ => false
  | .finished _ => false

theorem mayStall_of_terminalStall {input : Input} {config : Transition}
    (stalls : TerminalStall program input config) :
    mayStall program input config = true := by
  cases config with
  | finished result => exact stalls.elim
  | running state backtrack =>
      obtain ⟨_, _, _, _, _, _, _, located, _, current, found, ⟨_, _, still⟩,
        attempted, final⟩ := stalls
      simp only [mayStall, located, Bool.and_eq_true, decide_eq_true_eq,
        List.any_eq_true, beq_iff_eq]
      refine ⟨final, current, List.mem_of_getElem? found, ?_⟩
      unfold activate at still attempted
      split at still
      · rename_i active
        rw [if_pos active] at attempted
        exact ⟨attempted, still⟩
      · cases still

theorem runCandidate_eq_without_fastPath_lettersToEnd :
    ∃ program, compilePattern {} {} lettersToEnd = .ok program ∧
      ∃ result, ∃ bound, ∀ (execLimits : ExecLimits) (steps : Nat),
        steps + bound ≤ execLimits.maxSteps →
        bound ≤ execLimits.maxBacktrackStates →
        (runCandidate ⟨id, id, fun _ _ _ => false⟩ program [97, 97] execLimits
            0 steps).1 = .ok result ∧
          (runCandidateWith ⟨id, id, fun _ _ _ => false⟩ neverTerminal program
            [97, 97] execLimits 0 steps).1 = .ok result := by
  have checked : (compilePattern {} {} lettersToEnd).toOption.any
      (fun program => checkRun ⟨id, id, fun _ _ _ => false⟩
        (terminalRepeat program) program [97, 97] 9
        (fun config => !mayStall program [97, 97] config) 20
        (.running (initialState program 0) [])) = true := by
    decide +kernel
  cases compiled : compilePattern {} {} lettersToEnd with
  | error error =>
      rw [compiled] at checked
      cases checked
  | ok program =>
      rw [compiled] at checked
      simp only [Except.toOption, Option.any_some] at checked
      obtain ⟨result, -, bounded⟩ := runCandidate_eq_without_fastPath compiled
        ⟨id, id, fun _ _ _ => false⟩ [97, 97] (Nat.zero_le 2) (by
          intro config reached stalls
          have passes := check_of_reaches checked reached
          rw [mayStall_of_terminalStall stalls] at passes
          cases passes)
      exact ⟨program, rfl, result, bounded⟩

/-- The pattern `[\q{|a}]*$`. -/
def emptyStringClass : Pattern where
  body := [[.quantifier ⟨0, 9⟩ 0 none true
    (.characterClass ⟨0, 8⟩ (.mk false .union
      [.classStringDisjunction [[], [97]]])),
    .boundaryAssertion ⟨9, 10⟩ .stop]]

/-- On the empty input the fast path loses the match of `[\q{|a}]*$`. -/
theorem runCandidate_differs_from_never :
    ∃ program,
      compilePattern { unicodeSets := true } {} emptyStringClass =
        .ok program ∧
      (runCandidate ⟨id, id, fun _ _ _ => false⟩ program [] {} 0 0).1 =
        .ok none ∧
      (runCandidateWith ⟨id, id, fun _ _ _ => false⟩ neverTerminal program []
        {} 0 0).1 = .ok (some ⟨[some (0, 0)]⟩) := by
  have runs : ((compilePattern { unicodeSets := true } {}
      emptyStringClass).toOption.map fun program =>
        ((runCandidate ⟨id, id, fun _ _ _ => false⟩ program [] {} 0 0).1,
          (runCandidateWith ⟨id, id, fun _ _ _ => false⟩ neverTerminal program
            [] {} 0 0).1)) =
      some (.ok none, .ok (some ⟨[some (0, 0)]⟩)) := by
    decide +kernel
  cases compiled : compilePattern { unicodeSets := true } {}
      emptyStringClass with
  | error error =>
      rw [compiled] at runs
      cases runs
  | ok program =>
      rw [compiled] at runs
      simp only [Except.toOption, Option.map_some, Option.some.injEq,
        Prod.mk.injEq] at runs
      exact ⟨program, rfl, runs⟩

end Compiled

end Fusor.RegExp
