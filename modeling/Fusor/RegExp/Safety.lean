import Fusor.RegExp.Execution

/-!
# Capture ranges and index safety

The two ends of a capture are written by different instructions.  A group
leaves its own slot with ordered ends, because its body moves in one
direction and does not write the slot, and every other slot is left as it was,
closed, or cleared.
-/

namespace Fusor.RegExp

open Ast Search

/-- A slot that holds no range, or a range of the input. -/
def CaptureSlot.Closed (input : Input) (slot : CaptureSlot) : Prop :=
  ∀ start stop, slot.range = some (start, stop) →
    start ≤ stop ∧ stop ≤ input.length

theorem CaptureSlot.closed_empty (input : Input) :
    CaptureSlot.Closed input {} := by
  intro start stop ranged
  simp [CaptureSlot.range] at ranged

/-- Every slot is as before or closed, and a slot outside `own` is as before
or empty. -/
def Recorded (input : Input) (own : List Nat)
    (before after : List CaptureSlot) : Prop :=
  ∀ index, after[index]? = before[index]? ∨
    ∃ slot, after[index]? = some slot ∧ slot.Closed input ∧
      (index ∈ own ∨ slot = {})

namespace Recorded

variable {input : Input} {own : List Nat}

theorem refl (captures : List CaptureSlot) :
    Recorded input own captures captures :=
  fun _ => .inl rfl

theorem mono {larger : List Nat} {before after : List CaptureSlot}
    (recorded : Recorded input own before after)
    (included : ∀ index ∈ own, index ∈ larger) :
    Recorded input larger before after := by
  intro index
  rcases recorded index with same | ⟨slot, found, closed, owned⟩
  · exact .inl same
  · exact .inr ⟨slot, found, closed, owned.imp (included index) id⟩

theorem trans {before between after : List CaptureSlot}
    (earlier : Recorded input own before between)
    (later : Recorded input own between after) :
    Recorded input own before after := by
  intro index
  rcases later index with same | written
  · rw [same]
    exact earlier index
  · exact .inr written

theorem reset (start stop : Nat) (captures : List CaptureSlot) :
    Recorded input own captures (resetCaptures start stop captures) := by
  intro index
  rw [resetCaptures, List.getElem?_mapIdx]
  cases found : captures[index]? with
  | none => exact .inl rfl
  | some slot =>
      by_cases cleared : start ≤ index ∧ index < stop
      · refine .inr ⟨{}, ?_, CaptureSlot.closed_empty input, .inr rfl⟩
        simp [cleared]
      · simp [cleared]

end Recorded

section Groups

variable {input : Input}

/-- The slot that a group leaves, from the slot its body leaves. -/
theorem leaveCapture_slot {direction : Direction} {index : Nat}
    {start middle : MatchState} {body : List Nat}
    (fresh : index ∉ body)
    (recorded : Recorded input body (enterCapture direction index start)
      middle.captures)
    (moved : Advances input direction start.position middle.position)
    (inside : start.position ≤ input.length)
    (exists_slot : index < start.captures.length) :
    ∃ slot, (leaveCapture direction index middle)[index]? = some slot ∧
      slot.Closed input ∧
      (direction = .forward → ∃ first, start.position ≤ first ∧
        slot.range = some (first, middle.position)) := by
  obtain ⟨original, found⟩ : ∃ original, start.captures[index]? =
      some original := ⟨_, List.getElem?_eq_getElem exists_slot⟩
  have further := moved.inside inside
  cases direction with
  | forward =>
      have ahead := moved.forward_le
      have entered : (enterCapture .forward index start)[index]? =
          some ⟨some start.position, none⟩ := by
        simp [enterCapture, saveStart, found]
      have kept : ∃ slot : CaptureSlot,
          middle.captures[index]? = some slot ∧
          start.position ≤ slot.start.getD middle.position ∧
          slot.start.getD middle.position ≤ middle.position := by
        rcases recorded index with same | ⟨slot, written, _, owned⟩
        · exact ⟨_, same.trans entered, le_rfl, ahead⟩
        · rcases owned with inBody | rfl
          · exact absurd inBody fresh
          · exact ⟨_, written, ahead, le_rfl⟩
      obtain ⟨slot, present, above, below⟩ := kept
      refine ⟨⟨some (slot.start.getD middle.position),
        some middle.position⟩, ?_, ?_, ?_⟩
      · simp [leaveCapture, saveEnd, present]
      · intro first last ranged
        cases ranged
        exact ⟨below, further⟩
      · exact fun _ => ⟨_, above, rfl⟩
  | backward =>
      have behind := moved.backward_le
      have entered : (enterCapture .backward index start)[index]? =
          some ⟨none, some start.position⟩ := by
        simp [enterCapture, saveEnd, found]
      have kept : ∃ slot : CaptureSlot,
          middle.captures[index]? = some slot ∧
          ∀ last, slot.stop = some last → last = start.position := by
        rcases recorded index with same | ⟨slot, written, _, owned⟩
        · exact ⟨_, same.trans entered, fun last stopped => by
            cases stopped; rfl⟩
        · rcases owned with inBody | rfl
          · exact absurd inBody fresh
          · exact ⟨_, written, fun last stopped => by cases stopped⟩
      obtain ⟨slot, present, final⟩ := kept
      refine ⟨⟨some middle.position, slot.stop⟩, ?_, ?_, ?_⟩
      · simp [leaveCapture, saveStart, present]
      · intro first last ranged
        cases stopped : slot.stop with
        | none => simp [CaptureSlot.range, stopped] at ranged
        | some stop =>
            have ends := final stop stopped
            simp only [CaptureSlot.range, stopped, Option.some.injEq,
              Prod.mk.injEq] at ranged
            omega
      · intro forward
        cases forward

theorem enterCapture_other (direction : Direction) {index other : Nat}
    (different : other ≠ index) (state : MatchState) :
    (enterCapture direction index state)[other]? = state.captures[other]? := by
  cases direction <;>
    simp [enterCapture, saveStart, saveEnd, Ne.symm different]

theorem leaveCapture_other (direction : Direction) {index other : Nat}
    (different : other ≠ index) (state : MatchState) :
    (leaveCapture direction index state)[other]? = state.captures[other]? := by
  cases direction <;>
    simp [leaveCapture, saveStart, saveEnd, Ne.symm different]

theorem recorded_capture {direction : Direction} {index : Nat}
    {start middle : MatchState} {body : List Nat} (fresh : index ∉ body)
    (recorded : Recorded input body (enterCapture direction index start)
      middle.captures)
    (moved : Advances input direction start.position middle.position)
    (inside : start.position ≤ input.length)
    (length : middle.captures.length = start.captures.length) :
    Recorded input (index :: body) start.captures
      (leaveCapture direction index middle) := by
  intro other
  by_cases same : other = index
  · subst same
    by_cases present : other < start.captures.length
    · obtain ⟨slot, left, closed, -⟩ := leaveCapture_slot fresh recorded moved
        inside present
      exact .inr ⟨slot, left, closed, .inl List.mem_cons_self⟩
    · left
      rw [List.getElem?_eq_none (by rw [length_leaveCapture]; omega),
        List.getElem?_eq_none (by omega)]
  · rw [leaveCapture_other direction same]
    rcases recorded other with kept | ⟨slot, written, closed, owned⟩
    · left
      rw [kept, enterCapture_other direction same]
    · exact .inr ⟨slot, written, closed,
        owned.imp (List.mem_cons_of_mem _) id⟩

end Groups

section Nodes

variable (data : UnicodeData) (recognize : TerminalRecognizer)
  (input : Input)

/-- What a node does to the capture slots. -/
theorem Node.matcher_recorded (node : Node) (nested : node.Nested)
    (direction : Direction) (address slot : Nat) {captureCount : Nat}
    {start : MatchState} (inside : start.Inside input captureCount) :
    ∀ outcome ∈ (node.matcher data recognize input direction address
      slot).run start,
      Recorded input node.indices start.captures outcome.captures := by
  induction node generalizing direction address slot start with
  | empty =>
      intro outcome found
      cases List.mem_singleton.mp found
      exact .refl _
  | token read | boundary kind mode | backReference captures mode =>
      intro outcome found
      obtain ⟨next, _, rfl⟩ := List.mem_map.mp found
      exact .refl _
  | seq first second inductionFirst inductionSecond =>
      intro outcome found
      obtain ⟨middle, foundFirst, foundSecond⟩ := List.mem_flatMap.mp found
      have between := first.matcher_inside data recognize input direction
        address slot inside middle foundFirst
      have earlier := inductionFirst nested.1 direction address slot inside
        middle foundFirst
      have later := inductionSecond nested.2 direction _ _ between outcome
        foundSecond
      exact (earlier.mono fun _ => List.mem_append_left _).trans
        (later.mono fun _ => List.mem_append_right _)
  | alt first second inductionFirst inductionSecond =>
      intro outcome found
      rcases List.mem_append.mp found with left | right
      · exact (inductionFirst nested.1 direction _ _ inside outcome left).mono
          fun _ => List.mem_append_left _
      · exact (inductionSecond nested.2 direction _ _ inside outcome
          right).mono fun _ => List.mem_append_right _
  | capture index body induction =>
      intro outcome found
      obtain ⟨middle, foundMiddle, rfl⟩ := List.mem_map.mp found
      have entered := inside.enterCapture_inside direction index
      have moved := (body.matcher data recognize input direction (address + 1)
        slot).advances _ _ foundMiddle
      have length := (body.matcher data recognize input direction
        (address + 1) slot).length_eq _ _ foundMiddle
      rw [length_enterCapture] at length
      exact recorded_capture nested.1
        (induction nested.2 direction _ _ entered middle foundMiddle) moved
        inside.position length
  | lookaround kind body induction =>
      intro outcome found
      simp only [Node.matcher, Matcher.look] at found
      split at found
      · split at found
        · cases List.mem_singleton.mp found
          exact .refl _
        · simp at found
      · obtain ⟨middle, foundMiddle, rfl⟩ := List.mem_map.mp found
        have member := List.mem_of_mem_head?
          (Option.mem_toList.mp foundMiddle)
        exact induction nested kind.direction _ _ inside middle member
  | repetition min max greedy captureStart captureEnd body induction =>
      intro outcome found
      have both := repeatOutcomes_invariant
        (body.matcher data recognize input direction (address + 1) (slot + 1))
        captureStart captureEnd
        (fun outcome => outcome.Inside input captureCount ∧
          Recorded input body.indices start.captures outcome.captures)
        (by
          rintro middle ⟨reached, recorded⟩ outcome found
          have entered := reached.reset_inside captureStart captureEnd
          have iteration := induction nested direction _ _ entered outcome found
          have cleared : Recorded input body.indices middle.captures
              (middle.reset captureStart captureEnd).captures :=
            .reset captureStart captureEnd middle.captures
          exact ⟨body.matcher_inside data recognize input direction _ _
            entered outcome found, (recorded.trans cleared).trans iteration⟩)
        _ greedy _ _ start ⟨inside, .refl _⟩ outcome found
      exact both.2

/-- The whole match and every group of an answer are ranges of the input. -/
theorem Node.wholeOutcomes_recorded {node : Node} {captureCount : Nat}
    (nested : (Node.capture 0 node).Nested) (counted : 0 < captureCount)
    {candidate : Nat} (inside : candidate ≤ input.length) :
    ∀ outcome ∈ node.wholeOutcomes data recognize input captureCount
      candidate,
      outcome.captures.length = captureCount ∧
      (∃ slot first, outcome.captures[0]? = some slot ∧ candidate ≤ first ∧
        slot.range = some (first, outcome.position)) ∧
      ∀ slot ∈ outcome.captures, slot.Closed input := by
  intro outcome found
  have started := startingAt_inside inside captureCount
  have recorded := (Node.capture 0 node).matcher_recorded data recognize input
    nested .forward 0 0 started outcome found
  have whole := (Node.capture 0 node).matcher_inside data recognize input
    .forward 0 0 started outcome found
  refine ⟨whole.length, ?_, ?_⟩
  · obtain ⟨middle, foundMiddle, rfl⟩ := List.mem_map.mp found
    have entered := started.enterCapture_inside .forward 0
    have moved : Advances input .forward
        (startingAt captureCount candidate).position middle.position :=
      (node.matcher data recognize input .forward 1 0).advances
        { startingAt captureCount candidate with
          captures := enterCapture .forward 0
            (startingAt captureCount candidate) } middle foundMiddle
    have present : 0 < (startingAt captureCount candidate).captures.length := by
      simpa [startingAt] using counted
    have inner := node.matcher_recorded data recognize input nested.2 .forward
      1 0 entered middle foundMiddle
    obtain ⟨slot, left, -, ordered⟩ := leaveCapture_slot nested.1 inner moved
      started.position present
    obtain ⟨first, above, ranged⟩ := ordered rfl
    exact ⟨slot, first, left, above, ranged⟩
  · intro slot member
    obtain ⟨index, located⟩ := List.getElem?_of_mem member
    rcases recorded index with same | ⟨written, foundWritten, closed, -⟩
    · rw [same] at located
      cases List.eq_of_mem_replicate (List.mem_of_getElem? located)
      exact CaptureSlot.closed_empty input
    · cases located.symm.trans foundWritten
      exact closed

end Nodes

/-- What the caller of the executor may rely on. -/
structure Match.WellFormed (input : Input) (captureCount startIndex : Nat)
    (found : Match) : Prop where
  length : found.captures.length = captureCount
  whole : ∃ start stop, found.captures[0]? = some (some (start, stop)) ∧
    startIndex ≤ start ∧ start ≤ stop ∧ stop ≤ input.length
  ranges : ∀ index start stop : Nat,
    found.captures[index]? = some (some (start, stop)) →
      start ≤ stop ∧ stop ≤ input.length

theorem Match.WellFormed.of_le {input : Input}
    {captureCount startIndex candidate : Nat} {found : Match}
    (formed : found.WellFormed input captureCount candidate)
    (later : startIndex ≤ candidate) :
    found.WellFormed input captureCount startIndex := by
  obtain ⟨start, stop, present, above, ordered⟩ := formed.whole
  exact ⟨formed.length, ⟨start, stop, present, later.trans above, ordered⟩,
    formed.ranges⟩

section Compiled

variable {flags : RegExpFlags} {limits : CompileLimits} {pattern : Pattern}
  {program : Program}

/-- The answer of a compiled program is well formed. -/
theorem compiled_reaches_wellFormed
    (compiled : compilePattern flags limits pattern = .ok program)
    (distinct : (groupStarts (disjunctionGroups pattern.body)).Nodup)
    (data : UnicodeData) {recognize : TerminalRecognizer}
    (sound : RecognizerSound program recognize) {input : Input}
    {candidate : Nat} (inside : candidate ≤ input.length) :
    ∃ result, (machine data recognize program input).Reaches
        (.running (initialState program candidate) []) (.finished result) ∧
      ∀ found, result = some found →
        found.WellFormed input program.captureCount candidate := by
  obtain ⟨node, lowered, rfl⟩ := compilePattern_eq_ok compiled
  have numbers := numbers_disjunction _ _ pattern.body lowered
  refine ⟨_, reaches_answer sound numbers.bounded inside, ?_⟩
  intro found answered
  obtain ⟨outcome, head, rfl⟩ := Option.map_eq_some_iff.mp answered
  have member := List.mem_of_mem_head? head
  obtain ⟨length, ⟨slot, first, present, above, ranged⟩, closed⟩ :=
    node.wholeOutcomes_recorded data recognize input
      ⟨numbers.zero_not_mem, numbers.nested distinct⟩ (Nat.succ_pos _) inside outcome
      member
  have ordered := closed slot (List.mem_of_getElem? present) _ _ ranged
  refine ⟨?_, ⟨first, outcome.position, ?_, above, ordered⟩, ?_⟩
  · simpa [MatchState.answer, programOf] using length
  · simp [MatchState.answer, present, ranged]
  · intro index start stop listed
    simp only [MatchState.answer, List.getElem?_map] at listed
    obtain ⟨other, otherFound, otherRanged⟩ :=
      Option.map_eq_some_iff.mp listed
    exact closed other (List.mem_of_getElem? otherFound) _ _ otherRanged

/-- One candidate: the limits are the only errors and a match is well
formed. -/
theorem runCandidate_safe
    (compiled : compilePattern flags limits pattern = .ok program)
    (distinct : (groupStarts (disjunctionGroups pattern.body)).Nodup)
    (data : UnicodeData) {input : Input} (execLimits : ExecLimits)
    {candidate : Nat} (inside : candidate ≤ input.length) (steps : Nat) :
    (∃ error, (runCandidate data program input execLimits candidate
        steps).1 = .error (.failed error)) ∨
      ∃ result, (runCandidate data program input execLimits candidate
          steps).1 = .ok result ∧
        ∀ found, result = some found →
          found.WellFormed input program.captureCount candidate := by
  obtain ⟨result, reached, formed⟩ := compiled_reaches_wellFormed compiled
    distinct data (terminalRepeat_sound program) inside
  rcases continueFrom_of_reaches reached execLimits steps with done | failed
  · exact .inr ⟨result, done, formed⟩
  · exact .inl failed

theorem executeFrom_safe
    (compiled : compilePattern flags limits pattern = .ok program)
    (distinct : (groupStarts (disjunctionGroups pattern.body)).Nodup)
    (data : UnicodeData) {input : Input} (execLimits : ExecLimits)
    (startIndex : Nat) {candidate : Nat} (later : startIndex ≤ candidate)
    (inside : candidate ≤ input.length) (steps : Nat) :
    (∃ error, (executeFrom data program input execLimits candidate inside
        steps).1 = .error (.failed error)) ∨
      ∃ result, (executeFrom data program input execLimits candidate inside
          steps).1 = .ok result ∧
        ∀ found, result = some found →
          found.WellFormed input program.captureCount startIndex := by
  induction left : input.length - candidate using Nat.strong_induction_on
    generalizing candidate steps with
  | _ left induction =>
      subst left
      rw [executeFrom]
      split
      · exact .inl ⟨_, rfl⟩
      · have safe := runCandidate_safe compiled distinct data execLimits inside
          (steps + 1)
        generalize ran : runCandidate data program input execLimits candidate
          (steps + 1) = outcome at safe
        obtain ⟨answer, spent⟩ := outcome
        rcases safe with ⟨error, failed⟩ | ⟨result, done, formed⟩
        · cases failed
          exact .inl ⟨error, rfl⟩
        · cases done
          cases result with
          | some found =>
              refine .inr ⟨some found, rfl, fun other same => ?_⟩
              cases same
              exact (formed found rfl).of_le later
          | none =>
              simp only
              split
              · exact .inr ⟨none, rfl, by simp⟩
              · have room : candidate < input.length := by omega
                have advanced := advanceIndex_bounds room
                  program.flags.unicodeMode
                exact induction _ (by omega) (by omega) advanced.2 spent rfl

/-- Execution never indexes out of bounds, every configuration it goes through
is at an instruction, and a match is well formed. -/
theorem execute_safe
    (compiled : compilePattern flags limits pattern = .ok program)
    (distinct : (groupStarts (disjunctionGroups pattern.body)).Nodup)
    (data : UnicodeData) (input : Input) (execLimits : ExecLimits)
    (startIndex steps : Nat) :
    (execute data program input execLimits startIndex steps).1 ≠
        .error .outOfBounds ∧
      (∀ candidate ≤ input.length, ∀ state backtrack,
        (machine data (terminalRepeat program) program input).Reaches
          (.running (initialState program candidate) [])
          (.running state backtrack) →
        state.pc < program.instructions.length) ∧
      ∀ found, (execute data program input execLimits startIndex steps).1 =
        .ok (some found) →
          found.WellFormed input program.captureCount startIndex := by
  have safe : (execute data program input execLimits startIndex steps).1 =
        .ok none ∨
      (∃ error, (execute data program input execLimits startIndex
        steps).1 = .error (.failed error)) ∨
      ∃ result, (execute data program input execLimits startIndex
          steps).1 = .ok result ∧
        ∀ found, result = some found →
          found.WellFormed input program.captureCount startIndex := by
    unfold execute
    split
    · rename_i inside
      exact .inr (executeFrom_safe compiled distinct data execLimits startIndex
        le_rfl inside steps)
    · exact .inl rfl
  refine ⟨?_, ?_, ?_⟩
  · rcases safe with nothing | ⟨error, failed⟩ | ⟨result, done, -⟩
    · simp [nothing]
    · simp [failed]
    · simp [done]
  · intro candidate inside state backtrack reached
    obtain ⟨result, finishes⟩ := compiled_reaches_answer compiled data
      (terminalRepeat_sound program) inside
    exact pc_lt_of_reaches finishes reached
  · intro found answered
    rcases safe with nothing | ⟨error, failed⟩ | ⟨result, done, formed⟩
    · simp [nothing] at answered
    · simp [failed] at answered
    · rw [done] at answered
      exact formed found (Except.ok.inj answered)

theorem execute_safe_nestedLoops :
    ∃ program, compilePattern {} {} nestedLoops = .ok program ∧
      ∃ found, (execute ⟨id, id, fun _ _ _ => false⟩ program [98, 97, 97] {} 1
          0).1 = .ok (some found) ∧
        found.WellFormed [98, 97, 97] program.captureCount 1 := by
  have matched : ((compilePattern {} {} nestedLoops).toOption.bind
      fun program => (execute ⟨id, id, fun _ _ _ => false⟩ program
        [98, 97, 97] {} 1 0).1.toOption.bind id) =
      some ⟨[some (1, 3), some (2, 3), none]⟩ := by
    decide +kernel
  cases compiled : compilePattern {} {} nestedLoops with
  | error error =>
      rw [compiled] at matched
      cases matched
  | ok program =>
      refine ⟨program, rfl, ⟨[some (1, 3), some (2, 3), none]⟩, ?_⟩
      have answered : (execute ⟨id, id, fun _ _ _ => false⟩ program
          [98, 97, 97] {} 1 0).1 =
            .ok (some ⟨[some (1, 3), some (2, 3), none]⟩) := by
        rw [compiled] at matched
        simp only [Except.toOption, Option.bind_some] at matched
        split at matched
        · rename_i result done
          simp only [Option.bind_some, id] at matched
          rw [done, matched]
        · simp at matched
      exact ⟨answered, (execute_safe compiled (by decide) _ [98, 97, 97] {} 1
        0).2.2 _ answered⟩

end Compiled

end Fusor.RegExp
