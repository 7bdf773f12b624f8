import Mathlib.Data.List.Count
import Mathlib.Tactic
import Fusor.Host.Signals

/-!
# The signal and exit policy

The flag and the code of an exit request are two cells that the winning call
writes one after the other.  A call that reads the code between the two writes
returns the initial code, so the policy is proved of the runs in which no call
does so, and in which the counter of pending deliveries does not wrap.
-/

namespace Fusor.Host

/-! ## The policy -/

/-- An exit request. -/
def requestsExit : Nat × Operation → Bool
  | (_, .swapExit _ _) => true
  | _ => false

/-- The exit request that wins: it finds none before it. -/
def winsExit : Nat × Operation → Bool
  | (_, .swapExit _ false) => true
  | _ => false

/-- Whether a SIGINT has requested an interrupt that was not consumed since. -/
def outstanding : List (Nat × Operation) → Bool
  | [] => false
  | (_, .swapInterrupt _) :: _ => true
  | (_, .clearInterrupt) :: _ => false
  | _ :: older => outstanding older

/-- The deliveries that were taken. -/
def taken : List (Nat × Operation) → Nat
  | [] => 0
  | (_, .swapPending count) :: older => count.toNat + taken older
  | _ :: older => taken older

/-- A SIGINT delivery that has returned. -/
def deliveredInterrupt : Thread → Bool
  | ⟨.deliver .interrupt, .returned _⟩ => true
  | _ => false

/-- The signal and exit policy, of the operations done so far and the results
returned so far. -/
structure Policy (system : System) : Prop where
  oneRequest : system.log.any requestsExit = true →
    system.log.countP winsExit = 1
  requestResult : ∀ (id : Nat) code result,
    system.threads[id]? =
        some ⟨.requestExit code, .returned (.flag result)⟩ →
      (result = true ↔ (id, .swapExit code false) ∈ system.log)
  exitCode : ∀ (id : Nat) code,
    system.threads[id]? =
        some ⟨.pendingExitCode, .returned (.exitCode (some code))⟩ →
      (id, .loadExitCode code) ∈ system.log ∧
        ∃ winner, (winner, .swapExit code false) ∈ system.log
  exitStays : system.log.Pairwise fun newer older =>
    ∀ code, older.2 = .loadExitCode code →
      newer.2 ≠ .loadExit false ∧
        ∀ other, newer.2 = .loadExitCode other → other = code
  forced : ∀ (id : Nat) result,
    system.threads[id]? =
        some ⟨.deliver .interrupt, .returned (.flag result)⟩ →
      (id, .loadHandler true) ∉ system.log →
        (∃ newer older,
          system.log = newer ++ (id, .swapInterrupt result) :: older ∧
            result = outstanding older) ∧
          (result = true → ∃ already,
            (id, .swapExit Signal.interrupt.exitCode already) ∈ system.log)
  delivered : (∀ id, (id, .loadHandler false) ∉ system.log) →
    taken system.log + system.state.pendingSigint.toNat =
      system.threads.countP deliveredInterrupt

/-- No exit code is read while the winning call, with a code other than the
initial one, has not stored it, and the pending deliveries do not wrap. -/
def Guarded (system : System) : Action → Prop
  | .invoke _ => True
  | .run id =>
      match system.threads[id]? with
      | none => True
      | some thread =>
          match thread.point with
          | .loadExitCode => ∀ other ∈ system.threads, ∀ code delivering,
              other.point = .storeExitCode code delivering → code = 0
          | .addPending => system.state.pendingSigint.toNat + 1 < 2 ^ 32
          | _ => True

/-- A run all of whose steps are guarded. -/
def GuardedRun (system : System) : List Action → Prop
  | [] => True
  | action :: actions =>
      Guarded system action ∧ GuardedRun (system.act action) actions

/-! ## What a call has done -/

/-- The operations of one call. -/
abbrev Done (id : Nat) (log : List (Nat × Operation)) (operation : Operation) :
    Prop :=
  (id, operation) ∈ log

/-- What a call that stands at a point has done. -/
def History (did : Operation → Prop) (thread : Thread) : Prop :=
  match thread.call, thread.point with
  | .deliver .interrupt, .loadHandler => True
  | .deliver .interrupt, .addPending => did (.loadHandler true)
  | .deliver .interrupt, .swapInterrupt => did (.loadHandler false)
  | .deliver .interrupt, .swapExit code delivering =>
      delivering = true ∧ code = Signal.interrupt.exitCode ∧
        did (.loadHandler false) ∧ did (.swapInterrupt true)
  | .deliver .interrupt, .storeExitCode code delivering =>
      delivering = true ∧ code = Signal.interrupt.exitCode ∧
        did (.loadHandler false) ∧ did (.swapInterrupt true) ∧
        did (.swapExit code false)
  | .deliver .interrupt, .returned (.flag result) =>
      (result = false ∧ did (.loadHandler true)) ∨
      (did (.loadHandler false) ∧ did (.swapInterrupt result) ∧
        (result = true → ∃ already,
          did (.swapExit Signal.interrupt.exitCode already)))
  | .deliver .terminate, .swapExit _ delivering => delivering = true
  | .deliver .terminate, .storeExitCode code delivering =>
      delivering = true ∧ did (.swapExit code false)
  | .deliver .terminate, .returned (.flag result) => result = true
  | .requestExit code, .swapExit own delivering =>
      own = code ∧ delivering = false ∧
        ∀ already, ¬ did (.swapExit code already)
  | .requestExit code, .storeExitCode own delivering =>
      own = code ∧ delivering = false ∧ did (.swapExit code false)
  | .requestExit code, .returned (.flag result) =>
      result = true ↔ did (.swapExit code false)
  | .setJsSigintHandler _, .storeHandler _ => True
  | .setJsSigintHandler _, .returned .unit => True
  | .takePendingSigint, .swapPending => True
  | .takePendingSigint, .returned (.count _) => True
  | .consumeInterrupt, .clearInterrupt => True
  | .consumeInterrupt, .returned .unit => True
  | .pendingExitCode, .loadExit => True
  | .pendingExitCode, .loadExitCode => did (.loadExit true)
  | .pendingExitCode, .returned (.exitCode none) =>
      did (.loadExit false)
  | .pendingExitCode, .returned (.exitCode (some code)) =>
      did (.loadExitCode code)
  | _, _ => False

theorem done_foreign {id other : Nat} (foreign : other ≠ id)
    (operation : Operation) (log : List (Nat × Operation)) :
    Done id ((other, operation) :: log) = Done id log := by
  funext operation'
  have outside : (id, operation') ≠ (other, operation) := by
    intro same
    exact foreign (Prod.mk.inj same).1.symm
  exact propext (List.mem_cons.trans (or_iff_right outside))

/-- One operation of a call extends what the log holds of it. -/
theorem History.advance {id : Nat} {log : List (Nat × Operation)}
    {call : Call} {point point' : Point} {state state' : SignalState}
    {operation : Operation} (history : History (Done id log) ⟨call, point⟩)
    (step : Host.advance state point = some (state', point', operation)) :
    History (Done id ((id, operation) :: log)) ⟨call, point'⟩ := by
  cases call with
  | deliver signal =>
      cases signal with
      | interrupt =>
          cases point with
          | loadHandler =>
              cases step
              cases state.jsSigintHandler <;> simp [History]
          | addPending =>
              cases step
              exact .inl ⟨rfl, List.mem_cons_of_mem _ history⟩
          | swapInterrupt =>
              cases step
              cases state.interrupt with
              | true =>
                  exact ⟨rfl, rfl, List.mem_cons_of_mem _ history,
                    List.mem_cons_self⟩
              | false =>
                  exact .inr ⟨List.mem_cons_of_mem _ history,
                    List.mem_cons_self, nofun⟩
          | swapExit code delivering =>
              obtain ⟨rfl, rfl, loaded, swapped⟩ := history
              cases step
              cases state.exitRequested with
              | true =>
                  exact .inr ⟨List.mem_cons_of_mem _ loaded,
                    List.mem_cons_of_mem _ swapped,
                    fun _ => ⟨true, List.mem_cons_self⟩⟩
              | false =>
                  exact ⟨rfl, rfl, List.mem_cons_of_mem _ loaded,
                    List.mem_cons_of_mem _ swapped, List.mem_cons_self⟩
          | storeExitCode code delivering =>
              obtain ⟨rfl, rfl, loaded, swapped, won⟩ := history
              cases step
              exact .inr ⟨List.mem_cons_of_mem _ loaded,
                List.mem_cons_of_mem _ swapped,
                fun _ => ⟨false, List.mem_cons_of_mem _ won⟩⟩
          | returned result => cases step
          | _ => exact history.elim
      | terminate =>
          cases point with
          | swapExit code delivering =>
              obtain rfl : delivering = true := history
              cases step
              cases state.exitRequested with
              | true => exact rfl
              | false => exact ⟨rfl, List.mem_cons_self⟩
          | storeExitCode code delivering =>
              cases step
              exact rfl
          | returned result => cases step
          | _ => exact history.elim
  | requestExit code =>
      cases point with
      | swapExit own delivering =>
          obtain ⟨rfl, rfl, fresh⟩ := history
          cases step
          cases state.exitRequested with
          | true => simp [History, fresh false]
          | false => exact ⟨rfl, rfl, List.mem_cons_self⟩
      | storeExitCode own delivering =>
          obtain ⟨rfl, rfl, won⟩ := history
          cases step
          simp [History, won]
      | returned result => cases step
      | _ => exact history.elim
  | setJsSigintHandler registered =>
      cases point with
      | storeHandler own =>
          cases step
          trivial
      | returned result => cases step
      | _ => exact history.elim
  | takePendingSigint =>
      cases point with
      | swapPending =>
          cases step
          trivial
      | returned result => cases step
      | _ => exact history.elim
  | consumeInterrupt =>
      cases point with
      | clearInterrupt =>
          cases step
          trivial
      | returned result => cases step
      | _ => exact history.elim
  | pendingExitCode =>
      cases point with
      | loadExit =>
          cases step
          cases state.exitRequested with
          | true => exact List.mem_cons_self
          | false => exact List.mem_cons_self
      | loadExitCode =>
          cases step
          exact List.mem_cons_self
      | returned result => cases step
      | _ => exact history.elim

/-- Only the winning request stores its code. -/
theorem History.won {id : Nat} {log : List (Nat × Operation)}
    {thread : Thread} {code : Int32} {delivering : Bool}
    (history : History (Done id log) thread)
    (storing : thread.point = .storeExitCode code delivering) :
    (id, .swapExit code false) ∈ log := by
  obtain ⟨call, point⟩ := thread
  simp only at storing
  subst storing
  cases call with
  | deliver signal =>
      cases signal with
      | interrupt => exact history.2.2.2.2
      | terminate => exact history.2
  | requestExit code => exact history.1 ▸ history.2.2
  | _ => exact history.elim

/-- A call that was just made has done nothing. -/
theorem History.start {id : Nat} {log : List (Nat × Operation)}
    (fresh : ∀ operation, (id, operation) ∉ log) (call : Call) :
    History (Done id log) ⟨call, call.start⟩ := by
  cases call with
  | deliver signal => cases signal <;> simp [History, Call.start]
  | requestExit code =>
      exact ⟨rfl, rfl, fun already => fresh _⟩
  | setJsSigintHandler registered => trivial
  | takePendingSigint => trivial
  | consumeInterrupt => trivial
  | pendingExitCode => trivial

/-! ## The invariant -/

/-- What connects the cells, the calls and the log. -/
structure Invariant (system : System) : Prop where
  history : ∀ (id : Nat) thread, system.threads[id]? = some thread →
    History (Done id system.log) thread
  known : ∀ entry ∈ system.log, entry.1 < system.threads.length
  requested : system.state.exitRequested = system.log.any requestsExit
  winners : system.log.countP winsExit =
    if system.state.exitRequested then 1 else 0
  unset : system.state.exitRequested = false → system.state.exitCode = 0
  stored : ∀ winner code, (winner, .swapExit code false) ∈ system.log →
    system.state.exitCode = code ∨
      (system.state.exitCode = 0 ∧ ∃ call delivering,
        system.threads[winner]? =
          some ⟨call, .storeExitCode code delivering⟩)
  loads : ∀ id, (id, .loadExit true) ∈ system.log →
    system.state.exitRequested = true
  codes : ∀ id code, (id, .loadExitCode code) ∈ system.log →
    ∃ winner, (winner, .swapExit code false) ∈ system.log
  stays : system.log.Pairwise fun newer older =>
    ∀ code, older.2 = .loadExitCode code →
      newer.2 ≠ .loadExit false ∧
        ∀ other, newer.2 = .loadExitCode other → other = code
  interrupt : system.state.interrupt = outstanding system.log
  interrupts : ∀ newer id already older,
    system.log = newer ++ (id, .swapInterrupt already) :: older →
      already = outstanding older
  pending : taken system.log + system.state.pendingSigint.toNat =
    system.log.countP fun entry => entry.2 = .addPending
  delivered : (∀ id, (id, .loadHandler false) ∉ system.log) →
    (system.log.countP fun entry => entry.2 = .addPending) =
      system.threads.countP deliveredInterrupt

/-- At most one request wins, so all winning entries are the same. -/
theorem winner_unique {log : List (Nat × Operation)}
    (one : log.countP winsExit ≤ 1) {first second : Nat}
    {firstCode secondCode : Int32}
    (firstWins : (first, .swapExit firstCode false) ∈ log)
    (secondWins : (second, .swapExit secondCode false) ∈ log) :
    first = second ∧ firstCode = secondCode := by
  rw [List.countP_eq_length_filter] at one
  have inFirst := List.mem_filter.mpr
    ⟨firstWins, (rfl : winsExit (first, .swapExit firstCode false) = true)⟩
  have inSecond := List.mem_filter.mpr
    ⟨secondWins, (rfl : winsExit (second, .swapExit secondCode false) = true)⟩
  match winning : log.filter winsExit, one, inFirst, inSecond with
  | [], _, found, _ => cases found
  | [only], _, found, other =>
      have same := (List.mem_singleton.mp found).trans
        (List.mem_singleton.mp other).symm
      simp only [Prod.mk.injEq, Operation.swapExit.injEq, and_true] at same
      exact same
  | _ :: _ :: _, tooMany, _, _ =>
      simp only [List.length_cons] at tooMany
      omega

namespace Invariant

variable {system : System}

theorem one (invariant : Invariant system) :
    system.log.countP winsExit ≤ 1 := by
  rw [invariant.winners]
  split <;> omega

theorem exists_winner (invariant : Invariant system)
    (requested : system.state.exitRequested = true) :
    ∃ winner code, (winner, .swapExit code false) ∈ system.log := by
  have positive : 0 < system.log.countP winsExit := by
    rw [invariant.winners, requested]
    decide
  obtain ⟨⟨winner, operation⟩, member, wins⟩ := List.countP_pos_iff.mp positive
  unfold winsExit at wins
  split at wins
  · rename_i same
    cases same
    exact ⟨_, _, member⟩
  · cases wins

theorem requested_of_winner (invariant : Invariant system) {winner : Nat}
    {code : Int32} (member : (winner, .swapExit code false) ∈ system.log) :
    system.state.exitRequested = true := by
  rw [invariant.requested, List.any_eq_true]
  exact ⟨_, member, rfl⟩

theorem initial : Invariant {} := by
  refine ⟨?_, ?_, rfl, rfl, fun _ => rfl, ?_, ?_, ?_, .nil, rfl, ?_, rfl, ?_⟩
  · intro id thread found
    cases found
  · intro entry member
    cases member
  · intro winner code member
    cases member
  · intro id member
    cases member
  · intro id code member
    cases member
  · intro newer id already older split
    cases newer <;> cases split
  · intro _
    rfl

/-- Making a call changes neither the cells nor the log. -/
theorem invoke (invariant : Invariant system) (call : Call) :
    Invariant (system.act (.invoke call)) := by
  have kept : ∀ (id : Nat) thread, system.threads[id]? = some thread →
      (system.threads ++ [⟨call, call.start⟩])[id]? = some thread := by
    intro id thread found
    obtain ⟨inside, _⟩ := List.getElem?_eq_some_iff.mp found
    rw [List.getElem?_append_left inside, found]
  refine ⟨?_, ?_, invariant.requested, invariant.winners, invariant.unset, ?_,
    invariant.loads, invariant.codes, invariant.stays, invariant.interrupt,
    invariant.interrupts, invariant.pending, ?_⟩
  · intro id thread found
    simp only [System.act] at found ⊢
    rcases Nat.lt_trichotomy id system.threads.length with before | last | after
    · rw [List.getElem?_append_left before] at found
      exact invariant.history id thread found
    · subst last
      rw [List.getElem?_concat_length, Option.some.injEq] at found
      subst found
      apply History.start
      intro operation member
      exact absurd (invariant.known _ member) (Nat.lt_irrefl _)
    · rw [List.getElem?_eq_none (by simp; omega)] at found
      cases found
  · intro entry member
    simp only [System.act, List.length_append, List.length_singleton]
    have inside := invariant.known entry member
    omega
  · intro winner code member
    rcases invariant.stored winner code member with
      set | ⟨zero, call', delivering, found⟩
    · exact .inl set
    · exact .inr ⟨zero, call', delivering, kept winner _ found⟩
  · intro throughout
    have count := invariant.delivered throughout
    have fresh : deliveredInterrupt ⟨call, call.start⟩ = false := by
      cases call with
      | deliver signal => cases signal <;> rfl
      | _ => rfl
    simp only [System.act, List.countP_append, List.countP_singleton, fresh,
      Bool.false_eq_true, if_false, Nat.add_zero]
    exact count

end Invariant

/-! ## One operation -/

section Effects

variable {state state' : SignalState} {point point' : Point}
  {operation : Operation}
  (step : advance state point = some (state', point', operation))

include step

theorem advance_requested (id : Nat) :
    state'.exitRequested =
        (requestsExit (id, operation) || state.exitRequested) ∧
      winsExit (id, operation) =
        (requestsExit (id, operation) && !state.exitRequested) := by
  cases point with
  | returned result => cases step
  | swapExit code delivering =>
      cases step
      cases state.exitRequested <;> exact ⟨rfl, rfl⟩
  | _ =>
      cases step
      exact ⟨rfl, rfl⟩

theorem advance_exitCode :
    (∃ code delivering, point = .storeExitCode code delivering ∧
      operation = .storeExitCode code ∧ state'.exitCode = code) ∨
    ((∀ code delivering, point ≠ .storeExitCode code delivering) ∧
      state'.exitCode = state.exitCode) := by
  cases point with
  | returned result => cases step
  | storeExitCode code delivering =>
      cases step
      exact .inl ⟨code, delivering, rfl, rfl, rfl⟩
  | _ =>
      cases step
      exact .inr ⟨nofun, rfl⟩

theorem advance_interrupt {log : List (Nat × Operation)}
    (known : state.interrupt = outstanding log) (id : Nat) :
    state'.interrupt = outstanding ((id, operation) :: log) := by
  cases point with
  | returned result => cases step
  | _ =>
      cases step
      first | rfl | exact known

theorem advance_pending {log : List (Nat × Operation)}
    (known : taken log + state.pendingSigint.toNat =
      log.countP fun entry => entry.2 = .addPending)
    (fits : point = .addPending → state.pendingSigint.toNat + 1 < 2 ^ 32)
    (id : Nat) :
    taken ((id, operation) :: log) + state'.pendingSigint.toNat =
      ((id, operation) :: log).countP fun entry => entry.2 = .addPending := by
  cases point with
  | returned result => cases step
  | addPending =>
      have small := fits rfl
      cases step
      rw [List.countP_cons, ← known]
      simp only [taken, decide_true, if_true, UInt32.toNat_add]
      rw [show (1 : UInt32).toNat = 1 from rfl, Nat.mod_eq_of_lt small]
      omega
  | swapPending =>
      cases step
      rw [List.countP_cons, ← known]
      simp only [taken, reduceCtorEq, decide_false, Bool.false_eq_true,
        if_false, UInt32.toNat_zero]
      omega
  | _ =>
      cases step
      rw [List.countP_cons, ← known]
      simp [taken]

/-- The values that an operation reads. -/
theorem advance_reads :
    (∀ value, operation = .loadExit value → value = state.exitRequested) ∧
    (∀ code, operation = .loadExitCode code →
      point = .loadExitCode ∧ code = state.exitCode) ∧
    (∀ already, operation = .swapInterrupt already →
      already = state.interrupt) ∧
    (∀ code, operation = .swapExit code false →
      state.exitRequested = false ∧
        ∃ delivering, point' = .storeExitCode code delivering) := by
  cases point with
  | returned result => cases step
  | swapExit code delivering =>
      cases step
      refine ⟨nofun, nofun, nofun, ?_⟩
      intro other same
      cases requested : state.exitRequested with
      | true =>
          rw [requested] at same
          cases same
      | false =>
          rw [requested] at same
          cases same
          exact ⟨rfl, delivering, rfl⟩
  | loadExit =>
      cases step
      refine ⟨?_, nofun, nofun, nofun⟩
      intro value same
      cases same
      rfl
  | loadExitCode =>
      cases step
      refine ⟨nofun, ?_, nofun, nofun⟩
      intro code same
      cases same
      exact ⟨rfl, rfl⟩
  | swapInterrupt =>
      cases step
      refine ⟨nofun, nofun, ?_, nofun⟩
      intro already same
      cases same
      rfl
  | _ =>
      cases step
      exact ⟨nofun, nofun, nofun, nofun⟩

end Effects

section Run

variable {system : System} {id : Nat} {thread : Thread}
  {state' : SignalState} {point' : Point} {operation : Operation}
  (invariant : Invariant system)
  (found : system.threads[id]? = some thread)
  (step : advance system.state thread.point =
    some (state', point', operation))
  (guarded : Guarded system (.run id))

/-- The system after an operation of one call. -/
def System.advanced (system : System) (id : Nat) (thread : Thread)
    (state : SignalState) (point : Point) (operation : Operation) : System :=
  { state
    threads := system.threads.set id { thread with point }
    log := (id, operation) :: system.log }

include found in
theorem getElem?_advanced (other : Nat) :
    (system.advanced id thread state' point' operation).threads[other]? =
      if id = other then some { thread with point := point' }
      else system.threads[other]? := by
  obtain ⟨inside, _⟩ := List.getElem?_eq_some_iff.mp found
  simp only [System.advanced]
  by_cases same : id = other
  · subst same
    rw [List.getElem?_set_self inside, if_pos rfl]
  · rw [List.getElem?_set_ne same, if_neg same]

include invariant found step in
theorem history_advanced (other : Nat) (thread' : Thread)
    (found' : (system.advanced id thread state' point'
      operation).threads[other]? = some thread') :
    History (Done other
      (system.advanced id thread state' point' operation).log) thread' := by
  rw [getElem?_advanced found] at found'
  split at found'
  · rename_i same
    subst same
    cases found'
    exact (invariant.history id thread found).advance step
  · rename_i different
    have history := invariant.history other thread' found'
    rw [← done_foreign different operation] at history
    exact history

include invariant found step in
theorem stored_advanced (winner : Nat) (code : Int32)
    (member : (winner, .swapExit code false) ∈
      (system.advanced id thread state' point' operation).log) :
    (system.advanced id thread state' point' operation).state.exitCode =
        code ∨
      ((system.advanced id thread state' point' operation).state.exitCode =
          0 ∧
        ∃ call delivering,
          (system.advanced id thread state' point' operation).threads[winner]? =
            some ⟨call, .storeExitCode code delivering⟩) := by
  obtain ⟨_, _, _, wins⟩ := advance_reads step
  rcases List.mem_cons.mp member with here | earlier
  · obtain ⟨rfl, rfl⟩ := Prod.mk.inj here
    obtain ⟨fresh, delivering, rfl⟩ := wins code rfl
    right
    refine ⟨?_, thread.call, delivering, ?_⟩
    · rcases advance_exitCode step with ⟨_, _, _, other, _⟩ | ⟨_, same⟩
      · cases other
      · exact same.trans (invariant.unset fresh)
    · rw [getElem?_advanced found, if_pos rfl]
  · rcases advance_exitCode step with
      ⟨own, delivering, here, _, stored⟩ | ⟨elsewhere, same⟩
    · left
      have won := (invariant.history id thread found).won here
      have unique := winner_unique invariant.one won earlier
      exact stored.trans unique.2
    · rcases invariant.stored winner code earlier with
        set | ⟨zero, call, delivering, waiting⟩
      · exact .inl (same.trans set)
      · right
        refine ⟨same.trans zero, call, delivering, ?_⟩
        rw [getElem?_advanced found, if_neg ?_]
        · exact waiting
        · intro equal
          subst equal
          rw [found] at waiting
          cases waiting
          exact elsewhere code delivering rfl

include invariant found step guarded in
/-- A code that is read is that of the winning request. -/
theorem code_of_load {code : Int32} (loaded : operation = .loadExitCode code) :
    ∃ winner, (winner, .swapExit code false) ∈ system.log := by
  obtain ⟨_, reads, _⟩ := advance_reads step
  obtain ⟨here, rfl⟩ := reads code loaded
  have history := invariant.history id thread found
  have requested : system.state.exitRequested = true := by
    obtain ⟨call, point⟩ := thread
    simp only at here
    subst here
    cases call with
    | deliver signal => cases signal <;> exact history.elim
    | pendingExitCode => exact invariant.loads id history
    | _ => exact history.elim
  obtain ⟨winner, code, won⟩ := invariant.exists_winner requested
  rcases invariant.stored winner code won with
    set | ⟨zero, call, delivering, waiting⟩
  · exact ⟨winner, set ▸ won⟩
  · simp only [Guarded, found, here] at guarded
    have initial := guarded _ (List.mem_of_getElem? waiting) code delivering rfl
    rw [zero, ← initial]
    exact ⟨winner, won⟩

include invariant found step in
/-- When every delivery finds the handler registered, a SIGINT delivery returns
with the operation that hands it over. -/
theorem delivered_step
    (throughout : ∀ other, (other, .loadHandler false) ∉ system.log) :
    deliveredInterrupt thread = false ∧
      deliveredInterrupt { thread with point := point' } =
        decide (operation = .addPending) := by
  have history := invariant.history id thread found
  obtain ⟨call, point⟩ := thread
  cases call with
  | deliver signal =>
      cases signal with
      | interrupt =>
          cases point with
          | loadHandler =>
              cases step
              cases system.state.jsSigintHandler <;> exact ⟨rfl, rfl⟩
          | addPending =>
              cases step
              exact ⟨rfl, rfl⟩
          | swapInterrupt => exact absurd history (throughout id)
          | swapExit code delivering => exact absurd history.2.2.1 (throughout id)
          | storeExitCode code delivering =>
              exact absurd history.2.2.1 (throughout id)
          | returned result => cases step
          | _ => exact history.elim
      | terminate =>
          refine ⟨rfl, ?_⟩
          cases point with
          | swapExit code delivering =>
              cases step
              rfl
          | storeExitCode code delivering =>
              cases step
              rfl
          | returned result => cases step
          | _ => exact history.elim
  | requestExit code =>
      refine ⟨rfl, ?_⟩
      cases point with
      | swapExit own delivering =>
          cases step
          rfl
      | storeExitCode own delivering =>
          cases step
          rfl
      | returned result => cases step
      | _ => exact history.elim
  | setJsSigintHandler registered =>
      refine ⟨rfl, ?_⟩
      cases point with
      | storeHandler own =>
          cases step
          rfl
      | returned result => cases step
      | _ => exact history.elim
  | takePendingSigint =>
      refine ⟨rfl, ?_⟩
      cases point with
      | swapPending =>
          cases step
          rfl
      | returned result => cases step
      | _ => exact history.elim
  | consumeInterrupt =>
      refine ⟨rfl, ?_⟩
      cases point with
      | clearInterrupt =>
          cases step
          rfl
      | returned result => cases step
      | _ => exact history.elim
  | pendingExitCode =>
      refine ⟨rfl, ?_⟩
      cases point with
      | loadExit =>
          cases step
          rfl
      | loadExitCode =>
          cases step
          rfl
      | returned result => cases step
      | _ => exact history.elim

include invariant found step guarded in
theorem Invariant.advanced :
    Invariant (system.advanced id thread state' point' operation) := by
  obtain ⟨inside, here⟩ := List.getElem?_eq_some_iff.mp found
  obtain ⟨loadsExit, _, swaps, _⟩ := advance_reads step
  obtain ⟨requested, wins⟩ := advance_requested step id
  have codes : ∀ other code, (other, .loadExitCode code) ∈
      (id, operation) :: system.log →
        ∃ winner, (winner, .swapExit code false) ∈ system.log := by
    intro other code member
    rcases List.mem_cons.mp member with new | earlier
    · obtain ⟨rfl, rfl⟩ := Prod.mk.inj new
      exact code_of_load invariant found step guarded rfl
    · exact invariant.codes other code earlier
  refine ⟨history_advanced invariant found step, ?_, ?_, ?_, ?_,
    stored_advanced invariant found step, ?_, ?_, ?_,
    advance_interrupt step invariant.interrupt id, ?_, ?_, ?_⟩
  · intro entry member
    simp only [System.advanced, List.length_set]
    rcases List.mem_cons.mp member with rfl | earlier
    · exact inside
    · exact invariant.known entry earlier
  · simp only [System.advanced, List.any_cons, requested, invariant.requested]
  · simp only [System.advanced, List.countP_cons, requested, wins,
      invariant.winners]
    cases requestsExit (id, operation) <;>
      cases system.state.exitRequested <;> rfl
  · intro none
    simp only [System.advanced, requested, Bool.or_eq_false_iff] at none
    rcases advance_exitCode step with ⟨code, delivering, point, _, _⟩ | ⟨_, same⟩
    · have won := (invariant.history id thread found).won point
      rw [invariant.requested_of_winner won] at none
      cases none.2
    · exact same.trans (invariant.unset none.2)
  · intro other member
    simp only [System.advanced, requested, Bool.or_eq_true]
    rcases List.mem_cons.mp member with new | earlier
    · obtain ⟨rfl, rfl⟩ := Prod.mk.inj new
      exact .inr (loadsExit true rfl).symm
    · exact .inr (invariant.loads other earlier)
  · intro other code member
    obtain ⟨winner, won⟩ := codes other code member
    exact ⟨winner, List.mem_cons_of_mem _ won⟩
  · refine List.pairwise_cons.mpr ⟨?_, invariant.stays⟩
    rintro ⟨other, older⟩ member code rfl
    obtain ⟨winner, won⟩ := invariant.codes other code member
    refine ⟨?_, ?_⟩
    · intro same
      have unset := loadsExit false same
      rw [invariant.requested_of_winner won] at unset
      cases unset
    · intro code' same
      simp only at same
      subst same
      obtain ⟨winner', won'⟩ := codes id code' List.mem_cons_self
      exact (winner_unique invariant.one won' won).2
  · intro newer other already older split
    cases newer with
    | nil =>
        obtain ⟨new, rfl⟩ := List.cons.inj split
        obtain ⟨rfl, rfl⟩ := Prod.mk.inj new
        exact (swaps already rfl).trans invariant.interrupt
    | cons entry newer =>
        exact invariant.interrupts newer other already older
          (List.cons.inj split).2
  · apply advance_pending step invariant.pending
    intro adding
    simp only [Guarded, found, adding] at guarded
    exact guarded
  · intro throughout
    have earlier : ∀ other, (other, .loadHandler false) ∉ system.log :=
      fun other member => throughout other (List.mem_cons_of_mem _ member)
    obtain ⟨before, after⟩ := delivered_step invariant found step earlier
    have count := invariant.delivered earlier
    simp only [System.advanced, List.countP_cons, count,
      List.countP_set inside, here, before, after]
    split <;> simp

end Run

/-! ## Runs -/

theorem Invariant.act {system : System} (invariant : Invariant system)
    (action : Action) (guarded : Guarded system action) :
    Invariant (system.act action) := by
  cases action with
  | invoke call => exact invariant.invoke call
  | run id =>
      cases found : system.threads[id]? with
      | none =>
          simp only [System.act, found]
          exact invariant
      | some thread =>
          cases step : advance system.state thread.point with
          | none =>
              simp only [System.act, found, step]
              exact invariant
          | some result =>
              obtain ⟨state, point, operation⟩ := result
              have next := invariant.advanced found step guarded
              simp only [System.act, found, step]
              exact next

theorem Invariant.acts {system : System} (invariant : Invariant system)
    (actions : List Action) (guarded : GuardedRun system actions) :
    Invariant (system.acts actions) := by
  induction actions generalizing system with
  | nil => exact invariant
  | cons action actions induction =>
      exact induction (invariant.act action guarded.1) guarded.2

theorem Invariant.policy {system : System} (invariant : Invariant system) :
    Policy system := by
  refine ⟨?_, ?_, ?_, invariant.stays, ?_, ?_⟩
  · intro any
    rw [invariant.winners, invariant.requested, any]
    rfl
  · intro id code result found
    exact invariant.history id _ found
  · intro id code found
    have loaded := invariant.history id _ found
    exact ⟨loaded, invariant.codes id code loaded⟩
  · intro id result found unhandled
    rcases invariant.history id _ found with
      ⟨_, loaded⟩ | ⟨_, swapped, requested⟩
    · exact absurd loaded unhandled
    · obtain ⟨newer, older, split⟩ := List.append_of_mem swapped
      exact ⟨⟨newer, older, split,
        invariant.interrupts newer id result older split⟩, requested⟩
  · intro throughout
    rw [invariant.pending, invariant.delivered throughout]

/-- The policy holds in every state of every guarded run. -/
theorem policy_of_guardedRun (actions : List Action)
    (guarded : GuardedRun {} actions) : Policy (System.acts {} actions) :=
  (Invariant.initial.acts actions guarded).policy

/-- A SIGTERM requests the exit and stores its code; then the code is read. -/
private def orderlyExit : List Action :=
  [.invoke (.deliver .terminate), .run 0, .run 0, .invoke .pendingExitCode,
    .run 1, .run 1]

theorem policy_of_guardedRun_orderly :
    Policy (System.acts {} orderlyExit) := by
  refine policy_of_guardedRun orderlyExit ?_
  refine ⟨trivial, trivial, trivial, trivial, trivial, ?_, trivial⟩
  intro other member code delivering storing
  change other ∈ [⟨.deliver .terminate, .returned (.flag true)⟩,
    ⟨.pendingExitCode, .loadExitCode⟩] at member
  rcases List.mem_cons.mp member with rfl | later
  · cases storing
  · rw [List.mem_singleton.mp later] at storing
    cases storing

/-- The code is read between the two writes of a SIGTERM, and once more after
them. -/
private def hastyExit : List Action :=
  [.invoke (.deliver .terminate), .run 0, .invoke .pendingExitCode, .run 1,
    .run 1, .run 0, .invoke .pendingExitCode, .run 2, .run 2]

theorem policy_fails_between_writes :
    (System.acts {} hastyExit).threads[1]? =
        some ⟨.pendingExitCode, .returned (.exitCode (some 0))⟩ ∧
      (System.acts {} hastyExit).threads[2]? =
        some ⟨.pendingExitCode, .returned (.exitCode (some 143))⟩ ∧
      (0, .swapExit 143 false) ∈ (System.acts {} hastyExit).log ∧
      ¬ Policy (System.acts {} hastyExit) := by
  have early : (System.acts {} hastyExit).threads[1]? =
      some ⟨.pendingExitCode, .returned (.exitCode (some 0))⟩ := rfl
  have won : (0, .swapExit 143 false) ∈ (System.acts {} hastyExit).log := by
    decide
  refine ⟨early, rfl, won, ?_⟩
  intro policy
  obtain ⟨winner, other⟩ := (policy.exitCode 1 0 early).2
  have one := policy.oneRequest (by decide)
  have same := (winner_unique (Nat.le_of_eq one) won other).2
  revert same
  decide

end Fusor.Host
