import Fusor.RegExp.NodeSearch

/-!
# The search of repetition code

The slot of a repetition counts finished iterations, remembers where the
current one started and whether it was optional.  `AtHead` relates a state at
the head of the loop to these values; the search from such a state is
`repeatOutcomes` with the remaining bounds, by induction on the remaining
mandatory iterations and the remaining input.
-/

namespace Fusor.RegExp

open Search Relation

theorem clearCaptures_eq {captures : List CaptureSlot} {start stop : Nat}
    (inside : stop ≤ captures.length) :
    clearCaptures captures start stop =
      .ok (resetCaptures start stop captures) := by
  unfold clearCaptures
  split
  · congr 1
    refine List.ext_getElem ?_ ?_
    · simp [resetCaptures]
      omega
    · intro index before after
      simp only [resetCaptures, List.getElem_mapIdx]
      grind
  · congr 1
    refine List.ext_getElem ?_ ?_
    · simp [resetCaptures]
    · intro index before after
      simp only [resetCaptures, List.getElem_mapIdx]
      grind

theorem toNat_saturatingSucc (count : UInt64) :
    (saturatingSucc count).toNat = min (count.toNat + 1) (2 ^ 64 - 1) := by
  unfold saturatingSucc
  split
  · rename_i full
    subst full
    decide
  · rename_i room
    have below : count.toNat < 2 ^ 64 := count.toNat_lt
    have different : count.toNat ≠ 2 ^ 64 - 1 := by
      intro same
      apply room
      apply UInt64.toNat_inj.mp
      rw [same]
      decide
    rw [UInt64.toNat_add]
    have one : (1 : UInt64).toNat = 1 := by decide
    rw [one, Nat.mod_eq_of_lt (by omega)]
    omega

theorem activate_active (current : RepeatState) :
    (activate current).active = true := by
  unfold activate
  split
  · assumption
  · rfl

theorem activate_of_active {current : RepeatState}
    (active : current.active = true) : activate current = current := by
  rw [activate, if_pos active]

/-- A recognizer that names the repetition it is asked about and asks only for
one-token bodies without captures. -/
structure RecognizerSound (program : Program)
    (recognize : TerminalRecognizer) : Prop where
  named : ∀ {slot body exit captureStart captureEnd terminal},
    recognize slot body exit captureStart captureEnd = some terminal →
      terminal = ⟨slot, body, exit⟩
  unreset : ∀ {slot body exit captureStart captureEnd terminal},
    recognize slot body exit captureStart captureEnd = some terminal →
      captureStart = captureEnd
  token : ∀ {slot body exit captureStart captureEnd terminal},
    recognize slot body exit captureStart captureEnd = some terminal →
      program.instructions[body]?.any Instruction.isToken = true
  ended : ∀ {slot body exit captureStart captureEnd terminal},
    recognize slot body exit captureStart captureEnd = some terminal →
      program.instructions[body + 1]?.any Instruction.isRepeatEnd = true

theorem terminalRepeat_sound (program : Program) :
    RecognizerSound program (terminalRepeat program) := by
  have guarded : ∀ {slot body exit captureStart captureEnd terminal},
      terminalRepeat program slot body exit captureStart captureEnd =
        some terminal →
      terminal = ⟨slot, body, exit⟩ ∧ captureStart = captureEnd ∧
        program.instructions[body]?.any Instruction.isToken = true ∧
        program.instructions[body + 1]?.any Instruction.isRepeatEnd = true := by
    intro slot body exit captureStart captureEnd terminal recognized
    unfold terminalRepeat at recognized
    split at recognized
    · simp at recognized
    · rename_i accepted
      simp only [not_or, not_not] at accepted
      refine ⟨?_, by tauto, by tauto, by tauto⟩
      repeat' split at recognized
      all_goals simp_all
  exact ⟨fun h => (guarded h).1, fun h => (guarded h).2.1,
    fun h => (guarded h).2.2.1, fun h => (guarded h).2.2.2⟩

theorem never_sound (program : Program) :
    RecognizerSound program (fun _ _ _ _ _ => none) :=
  ⟨by simp, by simp, by simp, by simp⟩

/-- What the code of a repetition consists of, besides its body. -/
structure RepeatCode (program : Program) (slot : Nat) (min : UInt64)
    (max : Option UInt64) (greedy : Bool) (captureStart captureEnd : Nat)
    (body : Node) (address : Nat) : Prop where
  head : program.instructions[address]? =
    some (.repeatHead slot min max greedy (address + 1)
      (address + body.size + 2) captureStart captureEnd)
  tail : program.instructions[address + 1 + body.size]? =
    some (.repeatEnd slot address)
  bounded : captureEnd ≤ program.captureCount

section Loop

variable {data : UnicodeData} {recognize : TerminalRecognizer}
  {program : Program} {input : Input} {direction : Direction}
  {slot address captureStart captureEnd : Nat} {min : UInt64}
  {max : Option UInt64} {greedy : Bool} {body : Node}

variable (program input direction slot address min body) in
/-- A state at the head of the loop whose slot holds `repeated`. -/
structure AtHead (committed : Prop) (origin state : State)
    (repeated : RepeatState) : Prop where
  pc : state.pc = address
  directed : state.direction = origin.direction
  heading : origin.direction = direction
  current : ∃ current, state.repeats[slot]? = some current ∧
    activate current = repeated
  inside : state.view.Inside input program.captureCount
  agree : AgreeOutside slot (body.slots + 1) origin.repeats state.repeats
  idle : Idle (slot + 1) body.slots state.repeats
  commitment : state.terminalRepeat = none ∨
    state.terminalRepeat = some ⟨slot, address + 1, address + body.size + 2⟩ ∧
      committed ∧ repeated.optionalAttempted = true
  attempted : repeated.optionalAttempted = true → min ≤ repeated.count

/-- The last iteration of the slot consumed nothing and no further iteration
is mandatory. -/
def Stalled (min : UInt64) (repeated : RepeatState) (position : Nat) : Prop :=
  min ≤ repeated.count ∧ 0 < repeated.count ∧
    repeated.iterationStart = some position

theorem executeRepeat_stalled {limit exit bodyAddress : Nat}
    {repeated : RepeatState} {state : State} {backtrack : List BacktrackEntry}
    (stalled : Stalled min repeated state.position) :
    executeRepeat recognize limit slot min max greedy bodyAddress exit
        captureStart captureEnd repeated state backtrack =
      .ok (if repeated.optionalAttempted then resume backtrack
        else .running (leaveRepeat state slot exit repeated) backtrack) := by
  obtain ⟨enough, counted, still⟩ := stalled
  simp only [executeRepeat, enough, counted, still, decide_true,
    Bool.true_and, beq_self_eq_true, if_true]
  split
  · rfl
  · rfl

theorem executeRepeat_moving {limit exit bodyAddress : Nat}
    {repeated : RepeatState} {state : State} {backtrack : List BacktrackEntry}
    (moving : ¬ Stalled min repeated state.position)
    (bounded : captureEnd ≤ state.captures.length) :
    executeRepeat recognize limit slot min max greedy bodyAddress exit
        captureStart captureEnd repeated state backtrack =
      if max.any (fun maximum => decide (maximum ≤ repeated.count)) then
        .ok (.running (leaveRepeat state slot exit repeated) backtrack)
      else if repeated.count < min then
        .ok (.running { state with
          captures := resetCaptures captureStart captureEnd state.captures
          repeats := state.repeats.set slot
            { repeated with iterationStart := some state.position }
          pc := bodyAddress } backtrack)
      else
        let bodyState := { state with
          captures := resetCaptures captureStart captureEnd state.captures
          repeats := state.repeats.set slot
            { repeated with
              optionalAttempted := true
              iterationStart := some state.position }
          pc := bodyAddress }
        let exitState := { state with
          repeats := state.repeats.set slot { repeated with active := false }
          pc := exit }
        if greedy then
          match recognize slot bodyAddress exit captureStart captureEnd with
          | some terminal => .ok (.running
              { bodyState with terminalRepeat := some terminal } backtrack)
          | none => (Effect.proceed bodyState [.alternative exitState]).run limit
              backtrack
        else (Effect.proceed exitState [.alternative bodyState]).run limit
          backtrack := by
  have guarded : (decide (min ≤ repeated.count) &&
      (decide (0 < repeated.count) &&
        repeated.iterationStart == some state.position)) = false := by
    unfold Stalled at moving
    simp only [Bool.and_eq_false_iff, decide_eq_false_iff_not,
      beq_eq_false_iff_ne, ne_eq]
    tauto
  simp only [executeRepeat, guarded, Bool.false_eq_true, if_false,
    startIteration, clearCaptures_eq bounded, ← pushAlternative_run]
  rfl

theorem getElem?_set_ne {repeats : List RepeatState} {slot index : Nat}
    {repeated : RepeatState} (apart : index ≠ slot) :
    (repeats.set slot repeated)[index]? = repeats[index]? := by
  rw [List.getElem?_set]
  rw [if_neg (Ne.symm apart)]

theorem getElem?_set_self {repeats : List RepeatState} {slot : Nat}
    {current repeated : RepeatState}
    (found : repeats[slot]? = some current) :
    (repeats.set slot repeated)[slot]? = some repeated := by
  have inside := (List.getElem?_eq_some_iff.mp found).1
  rw [List.getElem?_set, if_pos rfl, if_pos inside]

section Head

variable {committed : Prop} {origin state : State} {repeated : RepeatState}

/-- Leaving the loop frees its slot and delivers the state as it is. -/
theorem AtHead.delivered
    (atHead : AtHead program input direction slot address min body committed
      origin state repeated) {freed : RepeatState} {target : Nat}
    (inactive : freed.active = false) :
    Delivered target slot (body.slots + 1) origin state.view
      { state with
        repeats := state.repeats.set slot freed
        terminalRepeat := none
        pc := target } where
  pc := rfl
  view := rfl
  directed := atHead.directed
  uncommitted := rfl
  agree index outside := by
    rw [getElem?_set_ne (by omega)]
    exact atHead.agree index outside
  idle index above below := by
    obtain ⟨current, found, _⟩ := atHead.current
    by_cases own : index = slot
    · subst own
      exact ⟨freed, getElem?_set_self found, inactive⟩
    · rw [getElem?_set_ne own]
      exact atHead.idle index (by omega) (by omega)

theorem AtHead.leaveRepeat_eq
    (atHead : AtHead program input direction slot address min body committed
      origin state repeated) (exit : Nat) :
    leaveRepeat { state with repeats := state.repeats.set slot repeated } slot
        exit repeated =
      { state with
        repeats := state.repeats.set slot { repeated with active := false }
        terminalRepeat := none
        pc := exit } := by
  simp only [leaveRepeat, clearTerminalRepeat, List.set_set]
  rcases atHead.commitment with plain | ⟨held, _⟩
  · simp only [plain]
  · simp only [held, if_true]

theorem AtHead.steps
    (atHead : AtHead program input direction slot address min body committed
      origin state repeated)
    (code : RepeatCode program slot min max greedy captureStart captureEnd body
      address) {limit : Nat} {backtrack : List BacktrackEntry}
    {after : Transition}
    (executed : executeRepeat recognize limit slot min max greedy (address + 1)
      (address + body.size + 2) captureStart captureEnd repeated
      { state with repeats := state.repeats.set slot repeated } backtrack =
        .ok after) :
    Steps data recognize program input (.running state backtrack) after := by
  obtain ⟨current, found, activated⟩ := atHead.current
  have located := (congrArg (fun pc => program.instructions[pc]?)
    atHead.pc).trans code.head
  refine steps_of_execute limit located ?_
  simp only [executeInstruction, repeatAt, found, activated, bind, Except.bind]
  exact executed

/-- The state that enters the body of the loop. -/
def enterBody (state : State) (slot captureStart captureEnd address : Nat)
    (entered : RepeatState) : State :=
  { state with
    captures := resetCaptures captureStart captureEnd state.captures
    repeats := state.repeats.set slot
      { entered with iterationStart := some state.position }
    pc := address + 1 }

/-- The slot value after one more iteration. -/
def RepeatState.finished (entered : RepeatState) (position : Nat) :
    RepeatState :=
  { entered with
    iterationStart := some position
    count := saturatingSucc entered.count }

theorem steps_repeatEnd {between : State} {entered : RepeatState}
    {position : Nat}
    (code : RepeatCode program slot min max greedy captureStart captureEnd body
      address)
    (pc : between.pc = address + 1 + body.size)
    (found : between.repeats[slot]? =
      some { entered with iterationStart := some position })
    (stack : List BacktrackEntry) :
    Steps data recognize program input (.running between stack)
      (.running { between with
        repeats := between.repeats.set slot (entered.finished position)
        pc := address } stack) := by
  refine steps_of_execute 0 (pc ▸ code.tail) ?_
  simp only [executeInstruction, repeatAt, found]
  rfl

theorem le_saturatingSucc {count bound : UInt64} (le : bound ≤ count) :
    bound ≤ saturatingSucc count := by
  rw [UInt64.le_iff_toNat_le] at le ⊢
  rw [toNat_saturatingSucc]
  have below := count.toNat_lt
  omega

/-- An iteration in which the loop is not committed: the body is searched and
every outcome comes back to the head. -/
theorem AtHead.explores_iteration
    (atHead : AtHead program input direction slot address min body committed
      origin state repeated)
    (code : RepeatCode program slot min max greedy captureStart captureEnd body
      address)
    (searches : body.Searches data recognize program input direction
      (address + 1) (slot + 1))
    (uncommitted : state.terminalRepeat = none) {entered : RepeatState}
    (active : entered.active = true)
    (attempted : entered.optionalAttempted = true → min ≤ entered.count)
    {accepts : MatchState → State → Prop}
    {further : MatchState → List MatchState}
    (onward : ∀ outcome ∈ (body.matcher data recognize input direction
        (address + 1) (slot + 1)).run
          (state.view.reset captureStart captureEnd),
      ∀ later, AtHead program input direction slot address min body committed
        origin later (entered.finished state.position) →
      later.view = outcome →
      ∀ stack, (machine data recognize program input).Explores accepts
        (.running later stack) (further outcome) stack)
    (backtrack : List BacktrackEntry) :
    (machine data recognize program input).Explores accepts
      (.running (enterBody state slot captureStart captureEnd address entered)
        backtrack)
      (((body.matcher data recognize input direction (address + 1)
        (slot + 1)).run (state.view.reset captureStart captureEnd)).flatMap
          further) backtrack := by
  obtain ⟨current, found, _⟩ := atHead.current
  have ready : Ready program input (address + 1) (slot + 1) body.slots
      direction
      (enterBody state slot captureStart captureEnd address entered) := by
    refine ⟨rfl, atHead.directed.trans atHead.heading, uncommitted,
      atHead.inside.reset_inside captureStart captureEnd, ?_⟩
    intro index above below
    simp only [enterBody]
    rw [getElem?_set_ne (by omega)]
    exact atHead.idle index above below
  refine (searches _ ready backtrack).flatMap ?_
  intro outcome member between delivered stack
  have held : between.repeats[slot]? =
      some { entered with iterationStart := some state.position } := by
    rw [delivered.agree slot (.inl (by omega))]
    exact getElem?_set_self found
  have inside := body.matcher_inside data recognize input direction _ _
    ready.inside outcome member
  refine .of_next (steps_repeatEnd code delivered.pc held stack) ?_
  refine onward outcome member { between with
    repeats := between.repeats.set slot (entered.finished state.position)
    pc := address } ?_ delivered.view stack
  exact {
    pc := rfl
    directed := delivered.directed.trans atHead.directed
    heading := atHead.heading
    current := ⟨entered.finished state.position, getElem?_set_self held,
      activate_of_active active⟩
    inside := by
      have same : State.view { between with
          repeats := between.repeats.set slot
            (entered.finished state.position)
          pc := address } = outcome := delivered.view
      rw [same]
      exact inside
    agree := fun index outside => by
      simp only
      rw [getElem?_set_ne (by omega), delivered.agree index (by omega)]
      simp only [enterBody]
      rw [getElem?_set_ne (by omega)]
      exact atHead.agree index outside
    idle := fun index above below => by
      simp only
      rw [getElem?_set_ne (by omega)]
      exact delivered.idle index above below
    commitment := .inl delivered.uncommitted
    attempted := fun held => le_saturatingSucc (attempted held) }

/-- The state that enters the body of a committed loop. -/
def commitBody (state : State) (slot address exit : Nat)
    (entered : RepeatState) : State :=
  { state with
    repeats := state.repeats.set slot
      { entered with iterationStart := some state.position }
    terminalRepeat := some ⟨slot, address + 1, exit⟩
    pc := address + 1 }

/-- Where the token of a committed loop fails, the loop is left. -/
theorem AtHead.explores_recovery
    (atHead : AtHead program input direction slot address min body committed
      origin state repeated) {token : Token}
    (single : program.instructions[address + 1]? = some token.instruction)
    {entered : RepeatState} {exit : Nat}
    (failed : token.positions data input direction state.position = [])
    (backtrack : List BacktrackEntry) :
    (machine data recognize program input).Explores
      (Delivered exit slot (body.slots + 1) origin)
      (.running (commitBody state slot address exit entered) backtrack)
      [state.view] backtrack := by
  obtain ⟨current, found, _⟩ := atHead.current
  have directed : state.direction = direction :=
    atHead.directed.trans atHead.heading
  have step := @steps_token data recognize program input
    (commitBody state slot address exit entered) token single
    atHead.inside.position backtrack
  have failed : token.positions data input
      (commitBody state slot address exit entered).direction
      (commitBody state slot address exit entered).position = [] := by
    simp only [commitBody, directed]
    exact failed
  have held : (commitBody state slot address exit entered).repeats[slot]? =
      some { entered with iterationStart := some state.position } :=
    getElem?_set_self found
  rw [failed, tokenTransition, recoverOrRestoreTerminalRepeat] at step
  simp only [commitBody] at step held ⊢
  simp only [if_true, held, List.set_set] at step
  exact .of_next step (.single (atHead.delivered rfl))

/-- Where the token of a committed loop matches, every position comes back to
the head, still committed. -/
theorem AtHead.explores_commitment
    (atHead : AtHead program input direction slot address min body committed
      origin state repeated)
    (code : RepeatCode program slot min max greedy captureStart captureEnd body
      address) {token : Token}
    (single : program.instructions[address + 1]? = some token.instruction)
    (size : body.size = 1) (recognized : committed) {entered : RepeatState}
    (active : entered.active = true)
    (optional : entered.optionalAttempted = true)
    (attempted : min ≤ entered.count)
    {accepts : MatchState → State → Prop}
    {further : MatchState → List MatchState}
    (matched : token.positions data input direction state.position ≠ [])
    (onward : ∀ next ∈ token.positions data input direction state.position,
      ∀ later, AtHead program input direction slot address min body committed
        origin later (entered.finished state.position) →
      later.view = ⟨next, state.captures⟩ →
      ∀ stack, (machine data recognize program input).Explores accepts
        (.running later stack) (further ⟨next, state.captures⟩) stack)
    (backtrack : List BacktrackEntry) :
    (machine data recognize program input).Explores accepts
      (.running (commitBody state slot address (address + body.size + 2)
        entered) backtrack)
      (((token.positions data input direction state.position).map
        fun next => ⟨next, state.captures⟩).flatMap further) backtrack := by
  obtain ⟨current, found, _⟩ := atHead.current
  have directed : state.direction = direction :=
    atHead.directed.trans atHead.heading
  let entry := commitBody state slot address (address + body.size + 2) entered
  have read := @explores_token data recognize program input
    (fun outcome later => later = entry.readTo outcome.position ∧
      outcome.captures = state.captures ∧
      outcome.position ∈ token.positions data input direction state.position)
    entry token (fun next => ⟨next, state.captures⟩) single
    atHead.inside.position backtrack
  have heading : entry.direction = direction := directed
  rw [heading] at read
  have searched := read (fun next member => ⟨rfl, rfl, member⟩) matched
  refine searched.flatMap ?_
  rintro outcome _ between ⟨rfl, captures, member⟩ stack
  obtain ⟨next, outcomeCaptures⟩ := outcome
  cases captures
  have held : (entry.readTo next).repeats[slot]? =
      some { entered with iterationStart := some state.position } :=
    getElem?_set_self found
  have reached : (entry.readTo next).pc = address + 1 + body.size := by
    simp only [State.readTo, entry, commitBody, size]
  refine .of_next (steps_repeatEnd code reached held stack) ?_
  refine onward next member { entry.readTo next with
    repeats := (entry.readTo next).repeats.set slot
      (entered.finished state.position)
    pc := address } ?_ rfl stack
  have advanced := token.positions_advances data input direction state.position
    next member
  exact {
    pc := rfl
    directed := atHead.directed
    heading := atHead.heading
    current := ⟨entered.finished state.position, getElem?_set_self held,
      activate_of_active active⟩
    inside := ⟨advanced.inside atHead.inside.position, atHead.inside.length,
      atHead.inside.stops⟩
    agree := fun index outside => by
      simp only [State.readTo, entry, commitBody, List.set_set]
      rw [getElem?_set_ne (by omega)]
      exact atHead.agree index outside
    idle := fun index above below => by
      simp only [State.readTo, entry, commitBody, List.set_set]
      rw [getElem?_set_ne (by omega)]
      exact atHead.idle index above below
    commitment := .inr ⟨rfl, recognized, optional⟩
    attempted := fun _ => le_saturatingSucc attempted }

theorem finished_stalled_iff {entered : RepeatState} {start position : Nat} :
    Stalled min (entered.finished start) position ↔
      min ≤ saturatingSucc entered.count ∧ position = start := by
  have positive : 0 < saturatingSucc entered.count := by
    rw [UInt64.lt_iff_toNat_lt, toNat_saturatingSucc]
    have zero : (0 : UInt64).toNat = 0 := by decide
    omega
  simp only [Stalled, RepeatState.finished, positive, true_and,
    Option.some.injEq]
  tauto

theorem AtHead.captures_le
    (atHead : AtHead program input direction slot address min body committed
      origin state repeated)
    (code : RepeatCode program slot min max greedy captureStart captureEnd body
      address) : captureEnd ≤ state.captures.length :=
  code.bounded.trans_eq atHead.inside.length.symm

/-- A stalled loop leaves after a mandatory iteration and fails after an
optional one. -/
theorem AtHead.explores_stalled
    (atHead : AtHead program input direction slot address min body committed
      origin state repeated)
    (code : RepeatCode program slot min max greedy captureStart captureEnd body
      address) (stalled : Stalled min repeated state.position)
    (backtrack : List BacktrackEntry) :
    (machine data recognize program input).Explores
      (Delivered (address + body.size + 2) slot (body.slots + 1) origin)
      (.running state backtrack)
      (if repeated.optionalAttempted then [] else [state.view]) backtrack := by
  have step := @AtHead.steps data recognize program input direction slot
    address captureStart captureEnd min max greedy body committed origin state
    repeated atHead code 0 backtrack _ (executeRepeat_stalled stalled)
  cases optional : repeated.optionalAttempted with
  | true =>
      rw [optional] at step
      exact .exhausted (.single step)
  | false =>
      rw [optional] at step
      simp only [Bool.false_eq_true, if_false] at step ⊢
      rw [atHead.leaveRepeat_eq] at step
      exact .of_next step (.single (atHead.delivered rfl))

end Head

theorem reachedMax_iff {count : UInt64} :
    (max.any fun maximum => decide (maximum ≤ count)) = true ↔
      (max.map fun maximum => maximum.toNat - count.toNat) = some 0 := by
  cases max with
  | none => simp
  | some maximum =>
      simp only [Option.any_some, decide_eq_true_eq, Option.map_some,
        Option.some.injEq, UInt64.le_iff_toNat_le]
      omega

theorem exists_token_of_isToken {instruction : Instruction}
    (token : instruction.isToken = true) :
    ∃ read : Token, instruction = read.instruction := by
  cases instruction
  case character value mode => exact ⟨.character value mode, rfl⟩
  case dot mode => exact ⟨.dot mode, rfl⟩
  case characterClass characters mode =>
      exact ⟨.characterClass characters mode, rfl⟩
  all_goals simp [Instruction.isToken] at token

/-- The body of a recognized repetition is one token. -/
theorem isTerminal_token (sound : RecognizerSound program recognize)
    (code : RepeatCode program slot min max greedy captureStart captureEnd body
      address)
    (emitted : CodeAt program.instructions (address + 1)
      (body.emit direction (address + 1) (slot + 1)))
    (terminal : isTerminal recognize slot address body.size captureStart
      captureEnd = true) :
    ∃ token : Token,
      body.emit direction (address + 1) (slot + 1) = [token.instruction] ∧
      program.instructions[address + 1]? = some token.instruction := by
  obtain ⟨recognized, answer⟩ := Option.isSome_iff_exists.mp terminal
  have token := sound.token answer
  have ended := sound.ended answer
  have second := body.emit_second_not_repeatEnd direction (address + 1)
    (slot + 1)
  have size := body.length_emit direction (address + 1) (slot + 1)
  cases instructions : body.emit direction (address + 1) (slot + 1) with
  | nil =>
      rw [instructions, List.length_nil] at size
      have tail := code.tail
      rw [← size, Nat.add_zero] at tail
      rw [tail] at token
      simp [Instruction.isToken] at token
  | cons first rest =>
      rw [instructions, CodeAt.cons_iff] at emitted
      rw [emitted.1] at token
      cases rest with
      | nil =>
          obtain ⟨read, rfl⟩ :=
            exists_token_of_isToken (by simpa using token)
          exact ⟨read, rfl, emitted.1⟩
      | cons following others =>
          rw [CodeAt.cons_iff] at emitted
          rw [instructions] at second
          rw [emitted.2.1] at ended
          have plain := second (by simpa using token)
          simp at plain ended
          rw [plain] at ended
          cases ended

theorem resetCaptures_self (index : Nat) (captures : List CaptureSlot) :
    resetCaptures index index captures = captures := by
  refine List.ext_getElem (by simp [resetCaptures]) ?_
  intro place before after
  simp only [resetCaptures, List.getElem_mapIdx]
  rw [if_neg (by omega)]

end Loop

section Turns

variable {data : UnicodeData} {recognize : TerminalRecognizer}
  {program : Program} {input : Input} {direction : Direction}
  {slot address captureStart captureEnd : Nat} {min : UInt64}
  {max : Option UInt64} {greedy : Bool} {body : Node} {committed : Prop}
  {origin state : State} {repeated : RepeatState}
  (atHead : AtHead program input direction slot address min body committed
    origin state repeated)
  (code : RepeatCode program slot min max greedy captureStart captureEnd body
    address)
  (moving : ¬ Stalled min repeated state.position)

/-- The state that leaves an optional iteration untried. -/
def exitState (state : State) (slot exit : Nat) (repeated : RepeatState) :
    State :=
  { state with
    repeats := state.repeats.set slot { repeated with active := false }
    pc := exit }

include atHead code moving

/-- The turn at the head of a loop that is not stalled, as one equation. -/
theorem AtHead.turn (recognize : TerminalRecognizer) (limit : Nat)
    (backtrack : List BacktrackEntry) :
    executeRepeat recognize limit slot min max greedy (address + 1)
        (address + body.size + 2) captureStart captureEnd repeated
        { state with repeats := state.repeats.set slot repeated } backtrack =
      if max.any (fun maximum => decide (maximum ≤ repeated.count)) then
        .ok (.running { state with
          repeats := state.repeats.set slot { repeated with active := false }
          terminalRepeat := none
          pc := address + body.size + 2 } backtrack)
      else if repeated.count < min then
        .ok (.running (enterBody state slot captureStart captureEnd address
          repeated) backtrack)
      else if greedy then
        match recognize slot (address + 1) (address + body.size + 2)
          captureStart captureEnd with
        | some terminal => .ok (.running
            { enterBody state slot captureStart captureEnd address
                { repeated with optionalAttempted := true } with
              terminalRepeat := some terminal } backtrack)
        | none => (Effect.proceed
            (enterBody state slot captureStart captureEnd address
              { repeated with optionalAttempted := true })
            [.alternative (exitState state slot (address + body.size + 2)
              repeated)]).run limit backtrack
      else (Effect.proceed
        (exitState state slot (address + body.size + 2) repeated)
        [.alternative (enterBody state slot captureStart captureEnd address
          { repeated with optionalAttempted := true })]).run limit
        backtrack := by
  have bounded := atHead.captures_le code
  have equation := @executeRepeat_moving recognize slot captureStart captureEnd
    min max greedy limit (address + body.size + 2) (address + 1) repeated
    { state with repeats := state.repeats.set slot repeated } backtrack moving
    bounded
  simp only [atHead.leaveRepeat_eq, List.set_set] at equation
  exact equation

theorem AtHead.explores_full
    (full : (max.any fun maximum => decide (maximum ≤ repeated.count)) = true)
    (backtrack : List BacktrackEntry) :
    (machine data recognize program input).Explores
      (Delivered (address + body.size + 2) slot (body.slots + 1) origin)
      (.running state backtrack) [state.view] backtrack := by
  have turn := atHead.turn code moving recognize 0 backtrack
  rw [if_pos full] at turn
  exact .of_next (atHead.steps code turn) (.single (atHead.delivered rfl))

theorem AtHead.steps_mandatory
    (room : ¬ (max.any fun maximum => decide (maximum ≤ repeated.count)) =
      true) (mandatory : repeated.count < min)
    (backtrack : List BacktrackEntry) :
    Steps data recognize program input (.running state backtrack)
      (.running (enterBody state slot captureStart captureEnd address repeated)
        backtrack) := by
  have turn := atHead.turn code moving recognize 0 backtrack
  rw [if_neg room, if_pos mandatory] at turn
  exact atHead.steps code turn

theorem AtHead.steps_optional
    (room : ¬ (max.any fun maximum => decide (maximum ≤ repeated.count)) =
      true) (optional : ¬ repeated.count < min) (eager : greedy = true)
    (unrecognized : recognize slot (address + 1) (address + body.size + 2)
      captureStart captureEnd = none) (backtrack : List BacktrackEntry) :
    Steps data recognize program input (.running state backtrack)
      (.running (enterBody state slot captureStart captureEnd address
          { repeated with optionalAttempted := true })
        (.alternative (exitState state slot (address + body.size + 2)
          repeated) :: backtrack)) := by
  have turn := atHead.turn code moving recognize
    (backtrack.length + 1) backtrack
  rw [if_neg room, if_neg optional, if_pos eager, unrecognized] at turn
  refine atHead.steps code (turn.trans ?_)
  simp [Effect.run]

theorem AtHead.steps_committed
    (room : ¬ (max.any fun maximum => decide (maximum ≤ repeated.count)) =
      true) (optional : ¬ repeated.count < min) (eager : greedy = true)
    (sound : RecognizerSound program recognize) {terminal : TerminalRepeat}
    (recognized : recognize slot (address + 1) (address + body.size + 2)
      captureStart captureEnd = some terminal)
    (backtrack : List BacktrackEntry) :
    Steps data recognize program input (.running state backtrack)
      (.running (commitBody state slot address (address + body.size + 2)
          { repeated with optionalAttempted := true }) backtrack) := by
  have turn := atHead.turn code moving recognize 0 backtrack
  rw [if_neg room, if_neg optional, if_pos eager, recognized] at turn
  refine atHead.steps code (turn.trans ?_)
  have named := sound.named recognized
  have unreset := sound.unreset recognized
  subst unreset named
  simp only [enterBody, commitBody, resetCaptures_self]

theorem AtHead.steps_lazy
    (room : ¬ (max.any fun maximum => decide (maximum ≤ repeated.count)) =
      true) (optional : ¬ repeated.count < min) (lazy : greedy = false)
    (backtrack : List BacktrackEntry) :
    Steps data recognize program input (.running state backtrack)
      (.running (exitState state slot (address + body.size + 2) repeated)
        (.alternative (enterBody state slot captureStart captureEnd address
          { repeated with optionalAttempted := true }) :: backtrack)) := by
  have turn := atHead.turn code moving recognize
    (backtrack.length + 1) backtrack
  rw [if_neg room, if_neg optional, if_neg (by simp [lazy])] at turn
  refine atHead.steps code (turn.trans ?_)
  simp [Effect.run]

end Turns

/-- A repetition whose code is in place and whose body is searched as its
matcher says. -/
structure Loop (data : UnicodeData) (recognize : TerminalRecognizer)
    (program : Program) (input : Input) (direction : Direction) where
  slot : Nat
  address : Nat
  captureStart : Nat
  captureEnd : Nat
  min : UInt64
  max : Option UInt64
  greedy : Bool
  body : Node
  sound : RecognizerSound program recognize
  code : RepeatCode program slot min max greedy captureStart captureEnd body
    address
  emitted : CodeAt program.instructions (address + 1)
    (body.emit direction (address + 1) (slot + 1))
  searches : body.Searches data recognize program input direction (address + 1)
    (slot + 1)

namespace Loop

variable {data : UnicodeData} {recognize : TerminalRecognizer}
  {program : Program} {input : Input} {direction : Direction}
  (loop : Loop data recognize program input direction)

def exit : Nat :=
  loop.address + loop.body.size + 2

def matcher : Matcher input direction :=
  loop.body.matcher data recognize input direction (loop.address + 1)
    (loop.slot + 1)

def terminal : Bool :=
  isTerminal recognize loop.slot loop.address loop.body.size loop.captureStart
    loop.captureEnd

def outcomes (min : Nat) (max : Option Nat) : MatchState → List MatchState :=
  repeatOutcomes loop.matcher loop.captureStart loop.captureEnd loop.terminal
    loop.greedy min max

def entered (state : State) : List MatchState :=
  loop.matcher.run (state.view.reset loop.captureStart loop.captureEnd)

def Head (origin state : State) (repeated : RepeatState) : Prop :=
  AtHead program input direction loop.slot loop.address loop.min loop.body
    (loop.greedy = true ∧ loop.terminal = true) origin state repeated

def Explores (origin state : State) (outcomes : List MatchState) : Prop :=
  ∀ backtrack, (machine data recognize program input).Explores
    (Delivered loop.exit loop.slot (loop.body.slots + 1) origin)
    (.running state backtrack) outcomes backtrack

def minLeft (count : UInt64) : Nat :=
  loop.min.toNat - count.toNat

def maxLeft (count : UInt64) : Option Nat :=
  loop.max.map fun maximum => maximum.toNat - count.toNat

/-- The loop head searches as `repeatOutcomes` says. -/
def Searched (origin state : State) (repeated : RepeatState) : Prop :=
  loop.Explores origin state (loop.outcomes (loop.minLeft repeated.count)
    (loop.maxLeft repeated.count) state.view)

def Full (repeated : RepeatState) : Prop :=
  (loop.max.any fun maximum => decide (maximum ≤ repeated.count)) = true

variable {loop} {origin state : State} {repeated : RepeatState}

theorem maxLeft_saturatingSucc (room : ¬ loop.Full repeated) :
    (loop.maxLeft repeated.count).map (· - 1) =
      loop.maxLeft (saturatingSucc repeated.count) := by
  unfold maxLeft
  unfold Full at room
  cases bound : loop.max with
  | none => rfl
  | some maximum =>
      have below := maximum.toNat_lt
      simp only [bound, Option.any_some, decide_eq_true_eq,
        UInt64.le_iff_toNat_le] at room
      simp only [Option.map_some, Option.some.injEq, toNat_saturatingSucc]
      omega

theorem active_of_head (head : loop.Head origin state repeated) :
    repeated.active = true := by
  obtain ⟨current, _, activated⟩ := AtHead.current head
  rw [← activated]
  exact activate_active current

theorem attempt_active (head : loop.Head origin state repeated) :
    ({ repeated with optionalAttempted := true } : RepeatState).active =
      true := by
  have active := active_of_head head
  exact active

theorem full_iff : loop.Full repeated ↔
    loop.maxLeft repeated.count = some 0 :=
  reachedMax_iff

theorem stalled_explores (head : loop.Head origin state repeated)
    (stalled : Stalled loop.min repeated state.position) :
    loop.Explores origin state
      (if repeated.optionalAttempted then [] else [state.view]) :=
  fun backtrack => AtHead.explores_stalled head loop.code stalled backtrack

/-- What the slot says after a mandatory iteration. -/
theorem mandatory_turn {later : State} {position : Nat}
    (mandatory : repeated.count < loop.min) (room : ¬ loop.Full repeated) :
    (Stalled loop.min (repeated.finished position) later.position ↔
      loop.minLeft repeated.count = 1 ∧ later.view.position = position) ∧
    loop.minLeft (repeated.finished position).count =
      loop.minLeft repeated.count - 1 ∧
    loop.maxLeft (repeated.finished position).count =
      (loop.maxLeft repeated.count).map (· - 1) := by
  have fewer := UInt64.lt_iff_toNat_lt.mp mandatory
  have below := loop.min.toNat_lt
  have counted : (saturatingSucc repeated.count).toNat =
      repeated.count.toNat + 1 := by
    rw [toNat_saturatingSucc]
    omega
  refine ⟨?_, ?_, (maxLeft_saturatingSucc room).symm⟩
  · rw [finished_stalled_iff, UInt64.le_iff_toNat_le, counted, minLeft]
    simp only [State.view]
    constructor
    · rintro ⟨enough, same⟩
      exact ⟨by omega, same⟩
    · rintro ⟨one, same⟩
      exact ⟨by omega, same⟩
  · simp only [minLeft, RepeatState.finished, counted]
    omega

/-- What the slot says after an optional iteration. -/
theorem optional_turn {later : State} {position : Nat}
    (optional : loop.min ≤ repeated.count) (room : ¬ loop.Full repeated) :
    (Stalled loop.min (RepeatState.finished
        { repeated with optionalAttempted := true } position)
      later.position ↔ later.view.position = position) ∧
    loop.minLeft (RepeatState.finished
      { repeated with optionalAttempted := true } position).count = 0 ∧
    loop.maxLeft (RepeatState.finished
        { repeated with optionalAttempted := true } position).count =
      (loop.maxLeft repeated.count).map (· - 1) := by
  have enough := le_saturatingSucc optional
  refine ⟨?_, ?_, (maxLeft_saturatingSucc room).symm⟩
  · rw [finished_stalled_iff]
    exact and_iff_right enough
  · have enoughNat := UInt64.le_iff_toNat_le.mp enough
    simp only [minLeft, RepeatState.finished]
    omega

/-- A mandatory iteration comes back to the head with one iteration less to
do, and leaves when it was the last one and consumed nothing. -/
theorem mandatory_returns {later : State} {position : Nat}
    (mandatory : repeated.count < loop.min)
    (unattempted : repeated.optionalAttempted = false)
    (room : ¬ loop.Full repeated)
    (head : loop.Head origin later (repeated.finished position))
    (smaller : ¬ Stalled loop.min (repeated.finished position)
        later.position →
      loop.Searched origin later (repeated.finished position)) :
    loop.Explores origin later
      (if loop.minLeft repeated.count = 1 ∧ later.view.position = position then
        [later.view]
      else loop.outcomes (loop.minLeft repeated.count - 1)
        ((loop.maxLeft repeated.count).map (· - 1)) later.view) := by
  obtain ⟨last, remainingMin, remainingMax⟩ :=
    @mandatory_turn data recognize program input direction loop repeated later
      position mandatory room
  by_cases stalled : Stalled loop.min (repeated.finished position)
      later.position
  · have search := stalled_explores head stalled
    have plain : (repeated.finished position).optionalAttempted = false :=
      unattempted
    rw [plain] at search
    rw [if_pos (last.mp stalled)]
    exact search
  · have search := smaller stalled
    rw [Searched, remainingMin, remainingMax] at search
    rw [if_neg (fun conditions => stalled (last.mpr conditions))]
    exact search

/-- An optional iteration fails when it consumed nothing and otherwise comes
back to the head. -/
theorem optional_returns {later : State} {position : Nat}
    (optional : loop.min ≤ repeated.count) (room : ¬ loop.Full repeated)
    (head : loop.Head origin later (RepeatState.finished
      { repeated with optionalAttempted := true } position))
    (smaller : later.position ≠ position →
      loop.Searched origin later (RepeatState.finished
        { repeated with optionalAttempted := true } position)) :
    loop.Explores origin later
      (if later.view.position = position then []
      else loop.outcomes 0 ((loop.maxLeft repeated.count).map (· - 1))
        later.view) := by
  obtain ⟨last, remainingMin, remainingMax⟩ :=
    @optional_turn data recognize program input direction loop repeated later
      position optional room
  by_cases same : later.position = position
  · have search := stalled_explores head (last.mpr same)
    rw [if_pos (show later.view.position = position from same)]
    exact search
  · have search := smaller same
    rw [Searched, remainingMin, remainingMax] at search
    rw [if_neg (show ¬ later.view.position = position from same)]
    exact search

/-- The searches that an induction on the remaining work has at hand. -/
def Smaller (loop : Loop data recognize program input direction)
    (origin state : State) (repeated : RepeatState) : Prop :=
  ∀ later next, loop.Head origin later next →
    ¬ Stalled loop.min next later.position →
    loop.minLeft next.count + remaining input direction later.position <
      loop.minLeft repeated.count + remaining input direction state.position →
    loop.Searched origin later next

theorem advances_of_entered {outcome : MatchState}
    (member : outcome ∈ loop.entered state) :
    Advances input direction state.position outcome.position :=
  loop.matcher.advances
    (state.view.reset loop.captureStart loop.captureEnd) outcome member

theorem mandatory_searched (head : loop.Head origin state repeated)
    (moving : ¬ Stalled loop.min repeated state.position)
    (room : ¬ loop.Full repeated) (mandatory : repeated.count < loop.min)
    (smaller : loop.Smaller origin state repeated) :
    loop.Explores origin state ((loop.entered state).flatMap fun outcome =>
      if loop.minLeft repeated.count = 1 ∧
          outcome.position = state.view.position then [outcome]
      else loop.outcomes (loop.minLeft repeated.count - 1)
        ((loop.maxLeft repeated.count).map (· - 1)) outcome) := by
  intro backtrack
  have unattempted : repeated.optionalAttempted = false := by
    by_contra attempted
    have enough := AtHead.attempted head (by simpa using attempted)
    exact UInt64.not_lt.mpr enough mandatory
  have uncommitted : state.terminalRepeat = none := by
    rcases AtHead.commitment head with none | ⟨_, _, attempted⟩
    · exact none
    · rw [unattempted] at attempted
      cases attempted
  refine .of_next (AtHead.steps_mandatory head loop.code moving room mandatory
    backtrack) ?_
  refine AtHead.explores_iteration head loop.code loop.searches uncommitted
    (active_of_head head) (AtHead.attempted head) ?_ backtrack
  intro outcome member later laterHead sameView stack
  have move := advances_of_entered member
  have samePosition : later.position = outcome.position :=
    congrArg MatchState.position sameView
  rw [← samePosition] at move
  subst sameView
  refine mandatory_returns mandatory unattempted room laterHead ?_ stack
  intro laterMoving
  refine smaller later _ laterHead laterMoving ?_
  have fewer := UInt64.lt_iff_toNat_lt.mp mandatory
  have below := loop.min.toNat_lt
  have shorter := move.remaining_le
  simp only [minLeft, RepeatState.finished, toNat_saturatingSucc]
  omega

theorem iteration_searched (head : loop.Head origin state repeated)
    (room : ¬ loop.Full repeated) (optional : loop.min ≤ repeated.count)
    (uncommitted : state.terminalRepeat = none)
    (smaller : loop.Smaller origin state repeated)
    (backtrack : List BacktrackEntry) :
    (machine data recognize program input).Explores
      (Delivered loop.exit loop.slot (loop.body.slots + 1) origin)
      (.running (enterBody state loop.slot loop.captureStart loop.captureEnd
        loop.address { repeated with optionalAttempted := true }) backtrack)
      ((loop.entered state).flatMap fun outcome =>
        if outcome.position = state.view.position then []
        else loop.outcomes 0 ((loop.maxLeft repeated.count).map (· - 1))
          outcome) backtrack := by
  refine AtHead.explores_iteration head loop.code loop.searches uncommitted
    (attempt_active head) (fun _ => optional) ?_ backtrack
  intro outcome member later laterHead sameView stack
  have move := advances_of_entered member
  subst sameView
  refine optional_returns optional room laterHead ?_ stack
  intro moved
  refine smaller later _ laterHead ?_ ?_
  · exact fun stalled => moved (finished_stalled_iff.mp stalled).2
  · have shorter := move.remaining_lt moved
    have enough := UInt64.le_iff_toNat_le.mp (le_saturatingSucc optional)
    simp only [State.view] at shorter
    simp only [minLeft, RepeatState.finished]
    omega

/-- The body of a terminal loop reads one token and keeps the captures. -/
theorem terminal_token (recognized : loop.terminal = true) :
    ∃ token : Token,
      program.instructions[loop.address + 1]? = some token.instruction ∧
      loop.body.size = 1 ∧
      ∀ state, loop.entered state =
        (token.positions data input direction state.position).map
          fun next => ⟨next, state.captures⟩ := by
  obtain ⟨token, emitted, single⟩ := isTerminal_token loop.sound loop.code
    loop.emitted recognized
  refine ⟨token, single, ?_, ?_⟩
  · rw [← loop.body.length_emit direction (loop.address + 1) (loop.slot + 1),
      emitted]
    rfl
  · intro state
    obtain ⟨terminal, answer⟩ := Option.isSome_iff_exists.mp recognized
    have unreset := loop.sound.unreset answer
    have run := @Node.run_of_emit_token data recognize input loop.body direction
      _ _ token emitted (state.view.reset loop.captureStart loop.captureEnd)
    rw [unreset] at run
    simp only [MatchState.reset, resetCaptures_self, State.view] at run
    rw [entered, matcher, unreset]
    simp only [MatchState.reset, resetCaptures_self, State.view]
    exact run

theorem commitment_searched (head : loop.Head origin state repeated)
    (room : ¬ loop.Full repeated) (optional : loop.min ≤ repeated.count)
    (committed : loop.greedy = true ∧ loop.terminal = true)
    (smaller : loop.Smaller origin state repeated)
    (backtrack : List BacktrackEntry) :
    (machine data recognize program input).Explores
      (Delivered loop.exit loop.slot (loop.body.slots + 1) origin)
      (.running (commitBody state loop.slot loop.address loop.exit
        { repeated with optionalAttempted := true }) backtrack)
      (if (loop.entered state).isEmpty then [state.view]
      else (loop.entered state).flatMap fun outcome =>
        if outcome.position = state.view.position then []
        else loop.outcomes 0 ((loop.maxLeft repeated.count).map (· - 1))
          outcome) backtrack := by
  obtain ⟨token, single, size, read⟩ := loop.terminal_token committed.2
  rw [read]
  by_cases failed : token.positions data input direction state.position = []
  · simp only [failed, List.map_nil, List.isEmpty_nil, if_true]
    exact AtHead.explores_recovery head single failed backtrack
  · rw [if_neg (by simpa using failed)]
    refine AtHead.explores_commitment head loop.code single size committed
      (attempt_active head) rfl optional failed ?_ backtrack
    intro next member later laterHead sameView stack
    have move := token.positions_advances data input direction state.position
      next member
    have samePosition : later.position = next :=
      congrArg MatchState.position sameView
    rw [← samePosition] at move
    rw [← sameView]
    refine optional_returns optional room laterHead ?_ stack
    intro moved
    refine smaller later _ laterHead ?_ ?_
    · exact fun stalled => moved (finished_stalled_iff.mp stalled).2
    · have shorter := move.remaining_lt moved
      have enough := UInt64.le_iff_toNat_le.mp (le_saturatingSucc optional)
      simp only [minLeft, RepeatState.finished]
      omega

theorem exit_delivered (head : loop.Head origin state repeated)
    (uncommitted : state.terminalRepeat = none) :
    Delivered loop.exit loop.slot (loop.body.slots + 1) origin state.view
      (exitState state loop.slot loop.exit repeated) := by
  have delivered := @AtHead.delivered program input direction loop.slot
    loop.address loop.min loop.body _ origin state repeated head
    { repeated with active := false } loop.exit rfl
  rw [← uncommitted] at delivered
  exact delivered

theorem optional_searched (head : loop.Head origin state repeated)
    (moving : ¬ Stalled loop.min repeated state.position)
    (room : ¬ loop.Full repeated) (optional : ¬ repeated.count < loop.min)
    (smaller : loop.Smaller origin state repeated) :
    loop.Explores origin state
      (let iterations := (loop.entered state).flatMap fun outcome =>
        if outcome.position = state.view.position then []
        else loop.outcomes 0 ((loop.maxLeft repeated.count).map (· - 1)) outcome
      if !loop.greedy then state.view :: iterations
      else if loop.terminal then
        if (loop.entered state).isEmpty then [state.view] else iterations
      else iterations ++ [state.view]) := by
  intro backtrack
  have enough := UInt64.not_lt.mp optional
  cases eager : loop.greedy with
  | false =>
      have uncommitted : state.terminalRepeat = none := by
        rcases AtHead.commitment head with none | ⟨_, committed, _⟩
        · exact none
        · rw [eager] at committed
          cases committed.1
      have first : (machine data recognize program input).Explores
          (Delivered loop.exit loop.slot (loop.body.slots + 1) origin)
          (.running (exitState state loop.slot loop.exit repeated)
            (.alternative (enterBody state loop.slot loop.captureStart
              loop.captureEnd loop.address
              { repeated with optionalAttempted := true }) :: backtrack))
          [state.view] _ := .single (exit_delivered head uncommitted)
      exact .of_next (AtHead.steps_lazy head loop.code moving room optional
        eager backtrack) (.choice first (iteration_searched head room enough
          uncommitted smaller backtrack) trivial)
  | true =>
      cases recognized : loop.terminal with
      | true =>
          obtain ⟨terminal, answer⟩ := Option.isSome_iff_exists.mp recognized
          exact .of_next (AtHead.steps_committed head loop.code moving room
            optional eager loop.sound answer backtrack)
            (commitment_searched head room enough ⟨eager, recognized⟩ smaller
              backtrack)
      | false =>
          have uncommitted : state.terminalRepeat = none := by
            rcases AtHead.commitment head with none | ⟨_, committed, _⟩
            · exact none
            · rw [recognized] at committed
              cases committed.2
          have answer := Option.isSome_eq_false_iff.mp recognized
          have last : (machine data recognize program input).Explores
              (Delivered loop.exit loop.slot (loop.body.slots + 1) origin)
              (.running (exitState state loop.slot loop.exit repeated)
                backtrack) [state.view] backtrack :=
            .single (exit_delivered head uncommitted)
          exact .of_next (AtHead.steps_optional head loop.code moving room
            optional eager (by simpa using answer) backtrack)
            (.choice (iteration_searched head room enough uncommitted smaller _)
              last trivial)

/-- The search from the head of a loop that is not stalled. -/
theorem head_searched (head : loop.Head origin state repeated)
    (moving : ¬ Stalled loop.min repeated state.position) :
    loop.Searched origin state repeated := by
  induction distance : loop.minLeft repeated.count +
      remaining input direction state.position using Nat.strong_induction_on
    generalizing state repeated with
  | _ distance induction =>
      subst distance
      have smaller : loop.Smaller origin state repeated :=
        fun later next laterHead laterMoving less =>
          induction _ less laterHead laterMoving rfl
      intro backtrack
      rw [outcomes, repeatOutcomes_eq]
      by_cases full : loop.Full repeated
      · rw [if_pos (full_iff.mp full)]
        exact AtHead.explores_full head loop.code moving full backtrack
      rw [if_neg (fun reached => full (full_iff.mpr reached))]
      by_cases mandatory : repeated.count < loop.min
      · have fewer := UInt64.lt_iff_toNat_lt.mp mandatory
        rw [if_pos (show 0 < loop.minLeft repeated.count by
          simp only [minLeft]; omega)]
        exact mandatory_searched head moving full mandatory smaller backtrack
      · have enough := UInt64.le_iff_toNat_le.mp (UInt64.not_lt.mp mandatory)
        rw [if_neg (show ¬ 0 < loop.minLeft repeated.count by
          simp only [minLeft]; omega)]
        exact optional_searched head moving full mandatory smaller backtrack

/-- A ready state is at the head of a loop with a fresh slot. -/
theorem head_of_ready (loop : Loop data recognize program input direction)
    (ready : Ready program input loop.address loop.slot (loop.body.slots + 1)
      direction state) :
    loop.Head state state { active := true } := by
  obtain ⟨current, found, inactive⟩ := ready.idle loop.slot le_rfl (by omega)
  exact {
    pc := ready.pc
    directed := rfl
    heading := ready.directed
    current := ⟨current, found, by simp [activate, inactive]⟩
    inside := ready.inside
    agree := fun _ _ => rfl
    idle := ready.idle.mono (by omega) (by omega)
    commitment := .inl ready.uncommitted
    attempted := by simp }

end Loop

theorem not_stalled_fresh {min : UInt64} {position : Nat} :
    ¬ Stalled min { active := true } position := by
  rintro ⟨_, counted, _⟩
  simp at counted

section Node

variable {data : UnicodeData} {recognize : TerminalRecognizer}
  {program : Program} {input : Input}

theorem searches_repetition (sound : RecognizerSound program recognize)
    {min : UInt64} {max : Option UInt64} {greedy : Bool}
    {captureStart captureEnd : Nat} {body : Node} {direction : Direction}
    {address slot : Nat}
    (code : RepeatCode program slot min max greedy captureStart captureEnd body
      address)
    (emitted : CodeAt program.instructions (address + 1)
      (body.emit direction (address + 1) (slot + 1)))
    (searches : body.Searches data recognize program input direction
      (address + 1) (slot + 1)) :
    Node.Searches data recognize program input
      (.repetition min max greedy captureStart captureEnd body) direction
      address slot := by
  intro state ready backtrack
  let loop : Loop data recognize program input direction :=
    ⟨slot, address, captureStart, captureEnd, min, max, greedy, body, sound,
      code, emitted, searches⟩
  have search := Loop.head_searched (loop.head_of_ready ready)
    not_stalled_fresh backtrack
  simp only [Loop.minLeft, Loop.maxLeft, UInt64.toNat_zero, Nat.sub_zero,
    Loop.exit] at search
  exact search

/-- The code of every node is searched as its matcher says. -/
theorem Node.searches (sound : RecognizerSound program recognize) (node : Node)
    {direction : Direction} {address slot : Nat}
    (code : CodeAt program.instructions address
      (node.emit direction address slot))
    (bounded : node.Bounded program.captureCount) :
    node.Searches data recognize program input direction address slot := by
  induction node generalizing direction address slot with
  | empty => exact searches_empty direction address slot
  | token read => exact searches_token (CodeAt.cons_iff.mp code).1
  | boundary kind mode => exact searches_boundary (CodeAt.cons_iff.mp code).1
  | backReference captures mode =>
      exact searches_backReference (CodeAt.cons_iff.mp code).1
  | seq first second inductionFirst inductionSecond =>
      rw [emit, CodeAt.append_iff, length_emit] at code
      exact searches_seq (inductionFirst code.1 bounded.1)
        (inductionSecond code.2 bounded.2)
  | alt first second inductionFirst inductionSecond =>
      rw [emit, CodeAt.cons_iff, CodeAt.append_iff, length_emit,
        CodeAt.cons_iff] at code
      obtain ⟨split, codeFirst, jump, codeSecond⟩ := code
      have place : address + 1 + first.size + 1 = address + first.size + 2 := by
        omega
      rw [place] at codeSecond
      exact searches_alt split jump (inductionFirst codeFirst bounded.1)
        (inductionSecond codeSecond bounded.2)
  | capture index body induction =>
      rw [emit, CodeAt.cons_iff, CodeAt.append_iff, length_emit,
        CodeAt.cons_iff] at code
      exact searches_capture bounded.1 code.1 code.2.2.1
        (induction code.2.1 bounded.2)
  | lookaround kind body induction =>
      rw [emit, CodeAt.cons_iff, CodeAt.append_iff, length_emit,
        CodeAt.cons_iff] at code
      exact searches_lookaround code.1 code.2.2.1 (induction code.2.1 bounded)
  | repetition min max greedy captureStart captureEnd body induction =>
      rw [emit, CodeAt.cons_iff, CodeAt.append_iff, length_emit,
        CodeAt.cons_iff] at code
      exact searches_repetition sound ⟨code.1, code.2.2.1, bounded.1⟩ code.2.1
        (induction code.2.1 bounded.2)

end Node

end Fusor.RegExp
