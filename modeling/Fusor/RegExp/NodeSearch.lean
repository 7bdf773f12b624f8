import Fusor.RegExp.Node
import Fusor.RegExp.Stepping

/-!
# The search of emitted code

The code of a node, started in a state that owns its repetition slots,
delivers exactly the outcomes of the node's matcher, in order, at the address
behind the code, and then resumes the stack it was given.
-/

namespace Fusor.RegExp

open Search Relation

/-- The instructions from `address` on begin with `code`. -/
def CodeAt (instructions : List Instruction) (address : Nat)
    (code : List Instruction) : Prop :=
  ∀ index instruction, code[index]? = some instruction →
    instructions[address + index]? = some instruction

namespace CodeAt

variable {instructions : List Instruction} {address : Nat}

theorem cons_iff {instruction : Instruction} {code : List Instruction} :
    CodeAt instructions address (instruction :: code) ↔
      instructions[address]? = some instruction ∧
        CodeAt instructions (address + 1) code := by
  constructor
  · intro whole
    refine ⟨whole 0 instruction rfl, fun index found present => ?_⟩
    have later := whole (index + 1) found (by simpa using present)
    rwa [← Nat.add_assoc, Nat.add_right_comm] at later
  · rintro ⟨first, rest⟩ index found present
    cases index with
    | zero => cases present; exact first
    | succ index =>
        have later := rest index found (by simpa using present)
        rwa [Nat.add_right_comm, Nat.add_assoc] at later

theorem append_iff {first second : List Instruction} :
    CodeAt instructions address (first ++ second) ↔
      CodeAt instructions address first ∧
        CodeAt instructions (address + first.length) second := by
  induction first generalizing address with
  | nil => simp [CodeAt]
  | cons instruction first induction =>
      rw [List.cons_append, cons_iff, cons_iff, induction, List.length_cons,
        and_assoc, Nat.add_right_comm, Nat.add_assoc]

end CodeAt

/-- The part of a state that matchers talk about. -/
def State.view (state : State) : MatchState :=
  ⟨state.position, state.captures⟩

/-- A match state whose indices are valid for the input and the capture
array. -/
structure MatchState.Inside (input : Input) (captureCount : Nat)
    (state : MatchState) : Prop where
  position : state.position ≤ input.length
  length : state.captures.length = captureCount
  stops : ∀ capture ∈ state.captures, ∀ stop, capture.stop = some stop →
    stop ≤ input.length

namespace MatchState.Inside

variable {input : Input} {captureCount : Nat}

theorem capturedRange_le {state : MatchState}
    (inside : state.Inside input captureCount) {captures : List Nat}
    {range : Nat × Nat}
    (found : capturedRange captures state.captures = some range) :
    range.2 ≤ input.length := by
  obtain ⟨index, _, found⟩ := List.exists_of_findSome?_eq_some found
  obtain ⟨slot, slotFound, ranged⟩ := Option.bind_eq_some_iff.mp found
  have member := List.mem_of_getElem? slotFound
  unfold CaptureSlot.range at ranged
  split at ranged
  · cases ranged
    exact inside.stops slot member _ (by assumption)
  · simp at ranged

theorem of_captures {state : MatchState} {captures : List CaptureSlot}
    (inside : state.Inside input captureCount)
    (length : captures.length = captureCount)
    (stops : ∀ capture ∈ captures, ∀ stop, capture.stop = some stop →
      stop ≤ input.length) :
    MatchState.Inside input captureCount
      { state with captures := captures } :=
  ⟨inside.position, length, stops⟩

theorem saveStart_inside {state : MatchState} (direction : Direction)
    (index : Nat) (inside : state.Inside input captureCount) :
    MatchState.Inside input captureCount
      { state with captures := saveStart direction index state } := by
  refine inside.of_captures (by simpa [saveStart] using inside.length) ?_
  intro capture found stop stopped
  obtain ⟨place, located⟩ := List.getElem?_of_mem found
  rw [saveStart, List.getElem?_modify] at located
  obtain ⟨original, originalFound, rfl⟩ := Option.map_eq_some_iff.mp located
  have member := List.mem_of_getElem? originalFound
  split at stopped
  · simp only at stopped
    split at stopped
    · simp at stopped
    · exact inside.stops original member stop stopped
  · exact inside.stops original member stop stopped

theorem saveEnd_inside {state : MatchState} (direction : Direction)
    (index : Nat) (inside : state.Inside input captureCount) :
    MatchState.Inside input captureCount
      { state with captures := saveEnd direction index state } := by
  refine inside.of_captures (by simpa [saveEnd] using inside.length) ?_
  intro capture found stop stopped
  obtain ⟨place, located⟩ := List.getElem?_of_mem found
  rw [saveEnd, List.getElem?_modify] at located
  obtain ⟨original, originalFound, rfl⟩ := Option.map_eq_some_iff.mp located
  have member := List.mem_of_getElem? originalFound
  split at stopped
  · cases stopped
    exact inside.position
  · exact inside.stops original member stop stopped

theorem enterCapture_inside {state : MatchState} (direction : Direction)
    (index : Nat) (inside : state.Inside input captureCount) :
    MatchState.Inside input captureCount
      { state with captures := enterCapture direction index state } := by
  cases direction with
  | forward => exact inside.saveStart_inside .forward index
  | backward => exact inside.saveEnd_inside .backward index

theorem leaveCapture_inside {state : MatchState} (direction : Direction)
    (index : Nat) (inside : state.Inside input captureCount) :
    MatchState.Inside input captureCount
      { state with captures := leaveCapture direction index state } := by
  cases direction with
  | forward => exact inside.saveEnd_inside .forward index
  | backward => exact inside.saveStart_inside .backward index

theorem reset_inside {state : MatchState} (start stop : Nat)
    (inside : state.Inside input captureCount) :
    (state.reset start stop).Inside input captureCount := by
  refine inside.of_captures
    (by simpa [resetCaptures] using inside.length) ?_
  intro capture found stopped present
  obtain ⟨place, located⟩ := List.getElem?_of_mem found
  rw [resetCaptures, List.getElem?_mapIdx] at located
  obtain ⟨original, originalFound, rfl⟩ := Option.map_eq_some_iff.mp located
  split at present
  · simp at present
  · exact inside.stops original (List.mem_of_getElem? originalFound) stopped
      present

end MatchState.Inside

section Preservation

variable (data : UnicodeData) (recognize : TerminalRecognizer)
  (input : Input)

theorem Matcher.reading_inside {direction : Direction}
    {positions : MatchState → List Nat}
    {onward : ∀ start, ∀ next ∈ positions start,
      Advances input direction start.position next}
    {captureCount : Nat} {start : MatchState}
    (inside : start.Inside input captureCount) :
    ∀ outcome ∈ (Matcher.reading positions onward).run start,
      outcome.Inside input captureCount := by
  intro outcome found
  obtain ⟨next, foundNext, rfl⟩ := List.mem_map.mp found
  exact ⟨(onward start next foundNext).inside inside.position, inside.length,
    inside.stops⟩

theorem Node.matcher_inside (node : Node) (direction : Direction)
    (address slot : Nat) {captureCount : Nat} {start : MatchState}
    (inside : start.Inside input captureCount) :
    ∀ outcome ∈ (node.matcher data recognize input direction address
      slot).run start, outcome.Inside input captureCount := by
  induction node generalizing direction address slot start with
  | empty =>
      intro outcome found
      cases List.mem_singleton.mp found
      exact inside
  | token read => exact Matcher.reading_inside input inside
  | boundary kind mode => exact Matcher.reading_inside input inside
  | backReference captures mode => exact Matcher.reading_inside input inside
  | seq first second inductionFirst inductionSecond =>
      intro outcome found
      obtain ⟨middle, foundFirst, foundSecond⟩ := List.mem_flatMap.mp found
      exact inductionSecond direction _ _
        (inductionFirst direction _ _ inside middle foundFirst) outcome
        foundSecond
  | alt first second inductionFirst inductionSecond =>
      intro outcome found
      rcases List.mem_append.mp found with left | right
      · exact inductionFirst direction _ _ inside outcome left
      · exact inductionSecond direction _ _ inside outcome right
  | capture index body induction =>
      intro outcome found
      obtain ⟨middle, foundMiddle, rfl⟩ := List.mem_map.mp found
      have entered := inside.enterCapture_inside direction index
      exact (induction direction _ _ entered middle
        foundMiddle).leaveCapture_inside direction index
  | lookaround kind body induction =>
      intro outcome found
      simp only [Node.matcher, Matcher.look] at found
      split at found
      · split at found
        · cases List.mem_singleton.mp found
          exact inside
        · simp at found
      · obtain ⟨middle, foundMiddle, rfl⟩ := List.mem_map.mp found
        have member := List.mem_of_mem_head?
          (Option.mem_toList.mp foundMiddle)
        have inner := induction kind.direction _ _ inside middle member
        exact inside.of_captures inner.length inner.stops
  | repetition min max greedy captureStart captureEnd body induction =>
      refine repeatOutcomes_invariant _ captureStart captureEnd
        (fun outcome => outcome.Inside input captureCount) ?_ _ greedy _ _
        start inside
      intro middle reached outcome found
      exact induction direction _ _
        (reached.reset_inside captureStart captureEnd) outcome found

end Preservation

/-- The slots from `slot` on, `count` of them, are there and inactive. -/
def Idle (slot count : Nat) (repeats : List RepeatState) : Prop :=
  ∀ index, slot ≤ index → index < slot + count →
    ∃ repeated, repeats[index]? = some repeated ∧ repeated.active = false

/-- Both slot arrays agree outside the `count` slots from `slot` on. -/
def AgreeOutside (slot count : Nat) (repeats others : List RepeatState) :
    Prop :=
  ∀ index, index < slot ∨ slot + count ≤ index →
    others[index]? = repeats[index]?

/-- A state in which the code of a node may be started. -/
structure Ready (program : Program) (input : Input) (address slot count : Nat)
    (direction : Direction) (state : State) : Prop where
  pc : state.pc = address
  directed : state.direction = direction
  uncommitted : state.terminalRepeat = none
  inside : state.view.Inside input program.captureCount
  idle : Idle slot count state.repeats

/-- A state in which code started in `origin` delivers an outcome. -/
structure Delivered (target slot count : Nat) (origin : State)
    (outcome : MatchState) (state : State) : Prop where
  pc : state.pc = target
  view : state.view = outcome
  directed : state.direction = origin.direction
  uncommitted : state.terminalRepeat = none
  agree : AgreeOutside slot count origin.repeats state.repeats
  idle : Idle slot count state.repeats

theorem Idle.mono {slot count inner innerCount : Nat}
    {repeats : List RepeatState} (idle : Idle slot count repeats)
    (lower : slot ≤ inner) (upper : inner + innerCount ≤ slot + count) :
    Idle inner innerCount repeats :=
  fun index above below => idle index (by omega) (by omega)

theorem Idle.of_agree {slot count inner innerCount : Nat}
    {repeats others : List RepeatState}
    (idle : Idle slot count repeats)
    (agree : AgreeOutside inner innerCount repeats others)
    (apart : slot + count ≤ inner ∨ inner + innerCount ≤ slot) :
    Idle slot count others := by
  intro index above below
  rw [agree index (by omega)]
  exact idle index above below

theorem Ready.of_delivered {program : Program} {input : Input}
    {target slot count next nextCount : Nat} {direction : Direction}
    {origin state : State} {outcome : MatchState}
    (delivered : Delivered target slot count origin outcome state)
    (directed : origin.direction = direction)
    (inside : outcome.Inside input program.captureCount)
    (idle : Idle next nextCount origin.repeats)
    (apart : next + nextCount ≤ slot ∨ slot + count ≤ next) :
    Ready program input target next nextCount direction state where
  pc := delivered.pc
  directed := delivered.directed.trans directed
  uncommitted := delivered.uncommitted
  inside := delivered.view ▸ inside
  idle := idle.of_agree delivered.agree apart

/-- Delivery in two parts that own neighbouring slots. -/
theorem Delivered.trans {middle target slot first second : Nat}
    {origin between state : State} {entry outcome : MatchState}
    (earlier : Delivered middle slot first origin entry between)
    (later : Delivered target (slot + first) second between outcome state) :
    Delivered target slot (first + second) origin outcome state where
  pc := later.pc
  view := later.view
  directed := later.directed.trans earlier.directed
  uncommitted := later.uncommitted
  agree index outside := by
    rw [later.agree index (by omega), earlier.agree index (by omega)]
  idle index above below := by
    by_cases own : index < slot + first
    · rw [later.agree index (.inl own)]
      exact earlier.idle index above own
    · exact later.idle index (by omega) (by omega)

/-- Delivery by inner code that owns some of the slots. -/
theorem Delivered.widen {target slot count inner innerCount : Nat}
    {origin between state : State} {outcome : MatchState}
    (delivered : Delivered target inner innerCount between outcome state)
    (repeats : between.repeats = origin.repeats)
    (directed : between.direction = origin.direction)
    (idle : Idle slot count origin.repeats) (lower : slot ≤ inner)
    (upper : inner + innerCount ≤ slot + count) :
    Delivered target slot count origin outcome state where
  pc := delivered.pc
  view := delivered.view
  directed := delivered.directed.trans directed
  uncommitted := delivered.uncommitted
  agree index outside := by
    rw [delivered.agree index (by omega), repeats]
  idle index above below := by
    by_cases own : inner ≤ index ∧ index < inner + innerCount
    · exact delivered.idle index own.1 own.2
    · rw [delivered.agree index (by omega), repeats]
      exact idle index above below

theorem Delivered.moved {target slot count : Nat} {origin state : State}
    {outcome : MatchState}
    (delivered : Delivered target slot count origin outcome state)
    (next : Nat) :
    Delivered next slot count origin outcome { state with pc := next } :=
  { delivered with pc := rfl }

section Search

variable {data : UnicodeData} {recognize : TerminalRecognizer}
  {program : Program} {input : Input}

/-- The state in which a token leaves a position. -/
def State.readTo (state : State) (position : Nat) : State :=
  { state with position := position, pc := state.pc + 1 }

def tokenTransition (state : State) (backtrack : List BacktrackEntry) :
    List Nat → Transition
  | [] => .ofRestored (recoverOrRestoreTerminalRepeat state backtrack)
  | next :: alternatives =>
      .running (state.readTo next)
        (alternatives.map (fun position => .alternative (state.readTo position))
          ++ backtrack)

theorem steps_token {state : State} {token : Token}
    (found : program.instructions[state.pc]? = some token.instruction)
    (inside : state.position ≤ input.length)
    (backtrack : List BacktrackEntry) :
    Steps data recognize program input (.running state backtrack)
      (tokenTransition state backtrack
        (token.positions data input state.direction state.position)) := by
  cases token with
  | character value mode =>
      refine steps_of_execute 0 found ?_
      obtain ⟨character, decoded⟩ :=
        decodeInDirection_of_le inside mode.unicode state.direction
      simp only [Token.instruction, executeInstruction, Token.positions,
        decoded, bind, Except.bind]
      cases character with
      | none => rfl
      | some pair =>
          obtain ⟨actual, next⟩ := pair
          by_cases same :
              canonicalize data actual mode = canonicalize data value mode
          · simp only [same, ne_eq, not_true_eq_false, if_false, if_true]
            rfl
          · simp only [same, ne_eq, not_false_eq_true, if_false, if_true]
            rfl
  | dot mode =>
      refine steps_of_execute 0 found ?_
      obtain ⟨character, decoded⟩ :=
        decodeInDirection_of_le inside mode.unicode state.direction
      simp only [Token.instruction, executeInstruction, Token.positions,
        decoded, bind, Except.bind]
      cases character with
      | none => rfl
      | some pair =>
          obtain ⟨actual, next⟩ := pair
          simp only
          split
          · rfl
          · rfl
  | characterClass characters mode =>
      obtain ⟨positions, read⟩ := classMatchPositions_of_le data inside
        characters mode state.direction
      refine steps_of_execute (backtrack.length + positions.length) found ?_
      simp only [Token.instruction, executeInstruction, Token.positions, read,
        bind, Except.bind]
      cases positions with
      | nil => rfl
      | cons next alternatives =>
          simp only [tokenTransition]
          rw [pushAlternatives_eq _ (fun position =>
            { state with pc := state.pc + 1, position := position }),
            if_pos (.inr (by simp only [List.length_cons]; omega))]
          rfl

/-- Frames pushed as alternatives are delivered one after the other. -/
theorem explores_alternatives {accepts : MatchState → State → Prop}
    {backtrack : List BacktrackEntry} {outcome : Nat → MatchState}
    {alternative : Nat → State} (positions : List Nat)
    (accepted : ∀ position ∈ positions,
      accepts (outcome position) (alternative position)) :
    (machine data recognize program input).Explores accepts
      (resume (positions.map
        (fun position => .alternative (alternative position)) ++ backtrack))
      (positions.map outcome) backtrack := by
  induction positions with
  | nil => exact .nothing
  | cons position positions induction =>
      have rest := induction fun later found =>
        accepted later (List.mem_cons_of_mem _ found)
      refine .delivered .refl (accepted position List.mem_cons_self) ?_ rest
      intro frame found
      obtain ⟨later, _, rfl⟩ := List.mem_map.mp found
      trivial

theorem explores_token {accepts : MatchState → State → Prop} {state : State}
    {token : Token} {outcome : Nat → MatchState}
    (found : program.instructions[state.pc]? = some token.instruction)
    (inside : state.position ≤ input.length)
    (backtrack : List BacktrackEntry)
    (accepted : ∀ position ∈
        token.positions data input state.direction state.position,
      accepts (outcome position) (state.readTo position))
    (some_position :
      token.positions data input state.direction state.position ≠ []) :
    (machine data recognize program input).Explores accepts
      (.running state backtrack)
      ((token.positions data input state.direction state.position).map outcome)
      backtrack := by
  have step := @steps_token data recognize program input state token found
    inside backtrack
  cases positions :
    token.positions data input state.direction state.position with
  | nil => exact absurd positions some_position
  | cons next alternatives =>
      rw [positions] at step accepted
      have rest := @explores_alternatives data recognize program input accepts
        backtrack outcome state.readTo (next :: alternatives) accepted
      exact rest.of_next step

variable (data recognize program input) in
/-- The code of the node at this address and slot is searched as its matcher
says. -/
def Node.Searches (node : Node) (direction : Direction)
    (address slot : Nat) : Prop :=
  ∀ state, Ready program input address slot node.slots direction state →
    ∀ backtrack, (machine data recognize program input).Explores
      (Delivered (address + node.size) slot node.slots state)
      (.running state backtrack)
      ((node.matcher data recognize input direction address slot).run
        state.view) backtrack

theorem Delivered.stay {program : Program} {input : Input}
    {address slot target : Nat} {direction : Direction} {state : State}
    (ready : Ready program input address slot 0 direction state)
    {position : Nat} {captures : List CaptureSlot} :
    Delivered target slot 0 state ⟨position, captures⟩
      { state with position := position, captures := captures, pc := target } where
  pc := rfl
  view := rfl
  directed := rfl
  uncommitted := ready.uncommitted
  agree _ _ := rfl
  idle _ above below := by omega

theorem searches_empty (direction : Direction) (address slot : Nat) :
    Node.Searches data recognize program input .empty direction address
      slot := by
  intro state ready backtrack
  refine .single ?_
  exact ⟨ready.pc, rfl, rfl, ready.uncommitted, fun _ _ => rfl, ready.idle⟩

theorem searches_token {token : Token} {direction : Direction}
    {address slot : Nat}
    (found : program.instructions[address]? = some token.instruction) :
    Node.Searches data recognize program input (.token token) direction address
      slot := by
  intro state ready backtrack
  obtain rfl := ready.pc
  obtain rfl := ready.directed
  by_cases failed :
      token.positions data input state.direction state.position = []
  · have step := @steps_token data recognize program input state token found
      ready.inside.position backtrack
    simp only [failed, tokenTransition, recoverOrRestoreTerminalRepeat,
      ready.uncommitted] at step
    simp only [Node.matcher, Matcher.reading, State.view, failed, List.map_nil]
    exact .exhausted (.single step)
  · refine explores_token found ready.inside.position backtrack ?_ failed
    intro position _
    exact Delivered.stay ready

theorem searches_boundary {kind : BoundaryKind} {mode : MatchMode}
    {direction : Direction} {address slot : Nat}
    (found : program.instructions[address]? = some (.boundary kind mode)) :
    Node.Searches data recognize program input (.boundary kind mode) direction
      address slot := by
  intro state ready backtrack
  obtain rfl := ready.pc
  obtain ⟨answer, checked⟩ :=
    boundaryMatches_of_le data ready.inside.position kind mode
  have executed : ∀ after,
      (if answer then
        .running { state with pc := state.pc + 1 } backtrack
      else resume backtrack) = after →
      Steps data recognize program input (.running state backtrack) after := by
    rintro after rfl
    refine steps_of_execute 0 found ?_
    simp only [State.view] at checked
    simp only [executeInstruction, checked, bind, Except.bind]
    cases answer <;> rfl
  simp only [Node.matcher, Matcher.reading, State.view, boundaryPositions]
  simp only [State.view] at checked
  rw [checked]
  cases answer with
  | true =>
      refine .of_next (executed _ rfl) (.single ?_)
      exact Delivered.stay ready
  | false => exact .exhausted (.single (executed _ rfl))

theorem searches_backReference {captures : List Nat} {mode : MatchMode}
    {direction : Direction} {address slot : Nat}
    (found : program.instructions[address]? =
      some (.backReference captures mode)) :
    Node.Searches data recognize program input (.backReference captures mode)
      direction address slot := by
  intro state ready backtrack
  obtain rfl := ready.pc
  obtain rfl := ready.directed
  simp only [Node.matcher, Matcher.reading, backReferencePositions]
  cases captured : capturedRange captures state.view.captures with
  | none =>
      have step : Steps data recognize program input
          (.running state backtrack)
          (.running { state with pc := state.pc + 1 } backtrack) := by
        refine steps_of_execute 0 found ?_
        unfold capturedRange at captured
        simp only [State.view] at captured
        simp only [executeInstruction, captured]
        rfl
      exact .of_next step (.single (Delivered.stay ready))
  | some range =>
      obtain ⟨result, read⟩ := matchBackReference_of_le data
        ready.inside.position (ready.inside.capturedRange_le captured) mode
        state.direction
      unfold capturedRange at captured
      simp only [State.view] at captured read ⊢
      simp only [read]
      cases result with
      | none =>
          refine .exhausted (.single (steps_of_execute 0 found ?_))
          simp only [executeInstruction, captured, read, bind, Except.bind]
          rfl
      | some next =>
          have step : Steps data recognize program input
              (.running state backtrack)
              (.running (state.readTo next) backtrack) := by
            refine steps_of_execute 0 found ?_
            simp only [executeInstruction, captured, read, bind, Except.bind]
            rfl
          exact .of_next step (.single (Delivered.stay ready))

theorem searches_seq {first second : Node} {direction : Direction}
    {address slot : Nat}
    (searchesFirst : Node.Searches data recognize program input first direction
      address slot)
    (searchesSecond : Node.Searches data recognize program input second
      direction (address + first.size) (slot + first.slots)) :
    Node.Searches data recognize program input (.seq first second) direction
      address slot := by
  intro state ready backtrack
  have readyFirst : Ready program input address slot first.slots direction
      state := { ready with
    idle := ready.idle.mono (by omega) (by simp only [Node.slots]; omega) }
  refine (searchesFirst state readyFirst backtrack).flatMap ?_
  intro outcome found between delivered stack
  have inside := first.matcher_inside data recognize input direction address
    slot ready.inside outcome found
  have readySecond := Ready.of_delivered delivered ready.directed inside
    (ready.idle.mono (Nat.le_add_right slot first.slots)
      (show _ + second.slots ≤ _ by simp only [Node.slots]; omega))
    (.inr le_rfl)
  rw [← delivered.view]
  refine (searchesSecond between readySecond stack).mono ?_
  intro final _ last later
  have whole := delivered.trans later
  rw [Nat.add_assoc] at whole
  exact whole

theorem steps_split {state : State} {first second : Nat}
    (split : program.instructions[state.pc]? = some (.split first second))
    (backtrack : List BacktrackEntry) :
    Steps data recognize program input (.running state backtrack)
      (.running { state with pc := first }
        (.alternative { state with pc := second } :: backtrack)) := by
  refine steps_of_execute (backtrack.length + 1) split ?_
  simp [executeInstruction, pushAlternative, bind, Except.bind, pure,
    Except.pure]

/-- The first branch of an alternation is searched above the choice point and
jumps behind the second one. -/
theorem explores_first_branch {first second : Node} {direction : Direction}
    {address slot : Nat}
    (jump : program.instructions[address + 1 + first.size]? =
      some (.jump (address + first.size + second.size + 2)))
    (searchesFirst : Node.Searches data recognize program input first direction
      (address + 1) slot) {state : State}
    (ready : Ready program input address slot (Node.alt first second).slots
      direction state) (stack : List BacktrackEntry) :
    (machine data recognize program input).Explores
      (Delivered (address + (Node.alt first second).size) slot
        (Node.alt first second).slots state)
      (.running { state with pc := address + 1 } stack)
      ((first.matcher data recognize input direction (address + 1) slot).run
        state.view) stack := by
  have readyFirst : Ready program input (address + 1) slot first.slots
      direction { state with pc := address + 1 } :=
    ⟨rfl, ready.directed, ready.uncommitted, ready.inside,
      ready.idle.mono le_rfl (by simp only [Node.slots]; omega)⟩
  have target : address + first.size + second.size + 2 =
      address + (Node.alt first second).size := by
    simp only [Node.size]
    omega
  refine (searchesFirst _ readyFirst _).redirect ?_
  intro outcome _ between delivered stack
  have wide : Delivered _ slot (Node.alt first second).slots state outcome
      between := delivered.widen rfl rfl ready.idle le_rfl
    (by simp only [Node.slots]; omega)
  refine ⟨{ between with pc := address + first.size + second.size + 2 },
    .single (steps_of_execute 0 (delivered.pc ▸ jump) rfl), ?_⟩
  rw [← target]
  exact wide.moved _

theorem ready_second_branch {first second : Node} {direction : Direction}
    {address slot : Nat} {state : State}
    (ready : Ready program input address slot (Node.alt first second).slots
      direction state) :
    Ready program input (address + first.size + 2) (slot + first.slots)
      second.slots direction
      { state with pc := address + first.size + 2 } :=
  ⟨rfl, ready.directed, ready.uncommitted, ready.inside,
    ready.idle.mono (by omega) (by simp only [Node.slots]; omega)⟩

theorem delivered_second_branch {first second : Node} {direction : Direction}
    {address slot : Nat} {state final : State} {outcome : MatchState}
    (ready : Ready program input address slot (Node.alt first second).slots
      direction state)
    (delivered : Delivered (address + first.size + 2 + second.size)
      (slot + first.slots) second.slots
      { state with pc := address + first.size + 2 } outcome final) :
    Delivered (address + (Node.alt first second).size) slot
      (Node.alt first second).slots state outcome final := by
  have target : address + first.size + 2 + second.size =
      address + (Node.alt first second).size := by
    simp only [Node.size]
    omega
  rw [← target]
  exact delivered.widen rfl rfl ready.idle (by omega)
    (by simp only [Node.slots]; omega)

theorem searches_alt {first second : Node} {direction : Direction}
    {address slot : Nat}
    (split : program.instructions[address]? =
      some (.split (address + 1) (address + first.size + 2)))
    (jump : program.instructions[address + 1 + first.size]? =
      some (.jump (address + first.size + second.size + 2)))
    (searchesFirst : Node.Searches data recognize program input first direction
      (address + 1) slot)
    (searchesSecond : Node.Searches data recognize program input second
      direction (address + first.size + 2) (slot + first.slots)) :
    Node.Searches data recognize program input (.alt first second) direction
      address slot := by
  intro state ready backtrack
  have searchedFirst := explores_first_branch jump searchesFirst ready
    (.alternative { state with pc := address + first.size + 2 } :: backtrack)
  have searchedSecond : (machine data recognize program input).Explores
      (Delivered (address + (Node.alt first second).size) slot
        (Node.alt first second).slots state)
      (.running { state with pc := address + first.size + 2 } backtrack)
      ((second.matcher data recognize input direction
        (address + first.size + 2) (slot + first.slots)).run state.view)
      backtrack :=
    (searchesSecond _ (ready_second_branch ready) backtrack).mono
      fun _ _ _ delivered => delivered_second_branch ready delivered
  have located : program.instructions[state.pc]? =
      some (.split (address + 1) (address + first.size + 2)) := by
    rw [ready.pc]
    exact split
  exact .of_next (steps_split located backtrack)
    (.choice searchedFirst searchedSecond trivial)

theorem steps_saveStart {state : State} {index : Nat}
    (found : program.instructions[state.pc]? = some (.saveStart index))
    (inside : index < state.captures.length)
    (backtrack : List BacktrackEntry) :
    Steps data recognize program input (.running state backtrack)
      (.running { state with
        captures := saveStart state.direction index state.view
        pc := state.pc + 1 } backtrack) := by
  refine steps_of_execute 0 found ?_
  simp only [executeInstruction, captureAt,
    List.getElem?_eq_getElem inside, saveStart, State.view,
    List.modify_eq_set_getElem?]
  rfl

theorem steps_saveEnd {state : State} {index : Nat}
    (found : program.instructions[state.pc]? = some (.saveEnd index))
    (inside : index < state.captures.length)
    (backtrack : List BacktrackEntry) :
    Steps data recognize program input (.running state backtrack)
      (.running { state with
        captures := saveEnd state.direction index state.view
        pc := state.pc + 1 } backtrack) := by
  refine steps_of_execute 0 found ?_
  simp only [executeInstruction, captureAt,
    List.getElem?_eq_getElem inside, saveEnd, State.view,
    List.modify_eq_set_getElem?]
  rfl

/-- The two saves of a group, in the order of the direction. -/
theorem steps_enterCapture {state : State} {index : Nat}
    {direction : Direction} (directed : state.direction = direction)
    (found : program.instructions[state.pc]? =
      some (Node.enterInstruction direction index))
    (inside : index < state.captures.length)
    (backtrack : List BacktrackEntry) :
    Steps data recognize program input (.running state backtrack)
      (.running { state with
        captures := enterCapture direction index state.view
        pc := state.pc + 1 } backtrack) := by
  cases direction with
  | forward =>
      have step := @steps_saveStart data recognize program input state index
        found inside backtrack
      rw [directed] at step ⊢
      exact step
  | backward =>
      have step := @steps_saveEnd data recognize program input state index
        found inside backtrack
      rw [directed] at step ⊢
      exact step

theorem steps_leaveCapture {state : State} {index : Nat}
    {direction : Direction} (directed : state.direction = direction)
    (found : program.instructions[state.pc]? =
      some (Node.leaveInstruction direction index))
    (inside : index < state.captures.length)
    (backtrack : List BacktrackEntry) :
    Steps data recognize program input (.running state backtrack)
      (.running { state with
        captures := leaveCapture direction index state.view
        pc := state.pc + 1 } backtrack) := by
  cases direction with
  | forward =>
      have step := @steps_saveEnd data recognize program input state index
        found inside backtrack
      rw [directed] at step ⊢
      exact step
  | backward =>
      have step := @steps_saveStart data recognize program input state index
        found inside backtrack
      rw [directed] at step ⊢
      exact step

theorem searches_capture {index : Nat} {body : Node} {direction : Direction}
    {address slot : Nat} (bounded : index < program.captureCount)
    (enter : program.instructions[address]? =
      some (Node.enterInstruction direction index))
    (leave : program.instructions[address + 1 + body.size]? =
      some (Node.leaveInstruction direction index))
    (searches : Node.Searches data recognize program input body direction
      (address + 1) slot) :
    Node.Searches data recognize program input (.capture index body) direction
      address slot := by
  intro state ready backtrack
  obtain rfl := ready.pc
  have entered := @steps_enterCapture data recognize program input state index
    direction ready.directed enter (ready.inside.length ▸ bounded) backtrack
  have readyBody : Ready program input (state.pc + 1) slot body.slots direction
      { state with
        captures := enterCapture direction index state.view
        pc := state.pc + 1 } :=
    ⟨rfl, ready.directed, ready.uncommitted,
      ready.inside.enterCapture_inside direction index, ready.idle⟩
  refine .of_next entered ((searches _ readyBody backtrack).map ?_)
  intro outcome found between delivered stack
  have inside := body.matcher_inside data recognize input direction _ _
    readyBody.inside outcome found
  have directed : between.direction = direction :=
    delivered.directed.trans ready.directed
  have left := @steps_leaveCapture data recognize program input between index
    direction directed (delivered.pc ▸ leave)
    (by
      have same := congrArg MatchState.captures delivered.view
      simp only [State.view] at same
      rw [same, inside.length]
      exact bounded) stack
  refine ⟨_, .single left, ?_⟩
  exact {
    pc := by
      simp only [delivered.pc, Node.size]
      omega
    view := by
      have position := congrArg MatchState.position delivered.view
      simp only [State.view] at position ⊢
      rw [← delivered.view]
      rfl
    directed := delivered.directed
    uncommitted := delivered.uncommitted
    agree := delivered.agree
    idle := delivered.idle }

theorem popLookaround_append {pushed : List BacktrackEntry}
    (plain : ∀ frame ∈ pushed, frame.isAlternative) (outer : State)
    (kind : LookaroundKind) (backtrack : List BacktrackEntry) :
    popLookaround (pushed ++ .lookaround outer kind :: backtrack) =
      some (outer, backtrack) := by
  induction pushed with
  | nil => rfl
  | cons frame pushed induction =>
      cases frame with
      | alternative state =>
          exact induction fun later found =>
            plain later (List.mem_cons_of_mem _ found)
      | lookaround inner innerKind =>
          exact (plain _ List.mem_cons_self).elim

theorem searches_lookaround {kind : LookaroundKind} {body : Node}
    {direction : Direction} {address slot : Nat}
    (enter : program.instructions[address]? =
      some (.lookaround kind (address + 1) (address + body.size + 2)))
    (accept : program.instructions[address + 1 + body.size]? =
      some (.lookaroundAccept kind))
    (searches : Node.Searches data recognize program input body kind.direction
      (address + 1) slot) :
    Node.Searches data recognize program input (.lookaround kind body)
      direction address slot := by
  intro state ready backtrack
  obtain rfl := ready.pc
  let outer : State := { state with pc := state.pc + body.size + 2 }
  have entered : Steps data recognize program input (.running state backtrack)
      (.running { state with pc := state.pc + 1, direction := kind.direction }
        (.lookaround outer kind :: backtrack)) := by
    refine steps_of_execute (backtrack.length + 1) enter ?_
    simp [executeInstruction, pushLookaround, bind, Except.bind, pure,
      Except.pure, outer]
  have readyBody : Ready program input (state.pc + 1) slot body.slots
      kind.direction
      { state with pc := state.pc + 1, direction := kind.direction } :=
    ⟨rfl, rfl, ready.uncommitted, ready.inside, ready.idle⟩
  have left : ∀ captures, Delivered
      (state.pc + (Node.lookaround kind body).size) slot
      (Node.lookaround kind body).slots state ⟨state.position, captures⟩
      { outer with captures := captures } := by
    intro captures
    exact ⟨by simp only [outer, Node.size]; omega, rfl, rfl,
      ready.uncommitted, fun _ _ => rfl, ready.idle⟩
  have searched := searches _ readyBody (.lookaround outer kind :: backtrack)
  simp only [Node.matcher, Matcher.look]
  refine .of_next entered ?_
  rcases searched.head_cases with ⟨none, resumed⟩ |
    ⟨outcome, rest, between, pushed, listed, delivered, plain, reached⟩
  · have empty : (body.matcher data recognize input kind.direction
        (state.pc + 1) slot).run state.view = [] := none
    simp only [empty, List.isEmpty_nil, if_true, List.head?_nil,
      Option.toList_none, List.map_nil]
    cases polarity : kind.negative with
    | true =>
        have marker : (machine data recognize program input).resume
            (.lookaround outer kind :: backtrack) =
            .running outer backtrack := by
          simp only [machine, resume, restore, polarity, if_true,
            Transition.ofRestored]
        rw [marker] at resumed
        exact .of_reaches resumed (.single (left state.captures))
    | false =>
        have marker : (machine data recognize program input).resume
            (.lookaround outer kind :: backtrack) = resume backtrack := by
          simp [machine, resume, restore, polarity]
        rw [marker] at resumed
        exact .exhausted resumed
  · have nonempty : (body.matcher data recognize input kind.direction
        (state.pc + 1) slot).run state.view = outcome :: rest := listed
    have same := congrArg MatchState.captures delivered.view
    simp only [State.view] at same
    simp only [nonempty, List.isEmpty_cons, List.head?_cons,
      Option.toList_some, List.map_cons, List.map_nil]
    have popped := popLookaround_append plain outer kind backtrack
    refine .of_reaches reached ?_
    cases polarity : kind.negative with
    | true =>
        refine .exhausted (.single
          (steps_of_execute 0 (delivered.pc ▸ accept) ?_))
        simp only [executeInstruction, popped, polarity, if_true]
        rfl
    | false =>
        have step : Steps data recognize program input
            (.running between (pushed ++ .lookaround outer kind :: backtrack))
            (.running { outer with captures := outcome.captures }
              backtrack) := by
          refine steps_of_execute 0 (delivered.pc ▸ accept) ?_
          simp only [executeInstruction, popped, polarity, same]
          rfl
        exact .of_next step (.single (left outcome.captures))

end Search

end Fusor.RegExp
