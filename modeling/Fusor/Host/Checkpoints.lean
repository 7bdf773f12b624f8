import Fusor.Host.EventLoop

/-!
# Microtask checkpoints

A host callback is to start with an empty job queue.  The loop makes its
checkpoint after a host callback that returned, with two exceptions: between two
immediates it makes none, and the job that throws ends a checkpoint with the
jobs after it still queued.  In runs in which neither leaves jobs behind, every
host callback starts with an empty queue.
-/

namespace Fusor.Host.EventLoop

/-- A host callback that starts finds no job pending. -/
def Event.startsIdle : Event → Prop
  | .started code jobs => code.isCallback = true → jobs = 0
  | _ => True

/-- What an execution has to leave behind.  A job, or a handler that is not
routed again, that throws leaves no job.  Neither does a callback that throws
when a handler of uncaught exceptions is registered, nor an immediate that
another immediate follows, nor the rendering of an error that no checkpoint
follows. -/
def Event.settles : Event → Prop
  | .finished .job .thrown standing
  | .finished .uncaughtHandler .thrown standing
  | .finished .rejectionHandler .thrown standing
  | .finished (.rendering .job) _ standing => standing.jobs = 0
  | .finished (.timer _) .thrown standing
  | .finished (.immediate _) .thrown standing
  | .finished .customEvent .thrown standing
  | .finished .sigintHandler .thrown standing =>
      standing.handled = true → standing.jobs = 0
  | .finished (.immediate _) .completed standing
  | .finished (.rendering .immediate) _ standing =>
      standing.waiting = true → standing.jobs = 0
  | _ => True

def Settles (log : List Event) : Prop := ∀ event ∈ log, event.settles

def StartsIdle (log : List Event) : Prop := ∀ event ∈ log, event.startsIdle

/-- The executions of the script return or throw, and so far the host callbacks
have started with an empty queue. -/
structure Safe (loop : HostLoop) : Prop where
  orderly : ∀ body ∈ loop.script, body.outcome.error? = none
  idle : Settles loop.log → StartsIdle loop.log

/-- No job is pending. -/
def Idle (loop : HostLoop) : Prop := Settles loop.log → loop.jobs = 0

/-- No job is pending when another immediate is to run. -/
def Ready (loop : HostLoop) : Prop :=
  Settles loop.log → loop.standing.waiting = true → loop.jobs = 0

theorem Idle.ready {loop : HostLoop} (idle : Idle loop) : Ready loop :=
  fun settles _ => idle settles

/-- A step that records nothing of interest. -/
def Event.isNeutral : Event → Bool
  | .started _ _ | .finished _ _ _ => false
  | _ => true

theorem settles_of_isNeutral {event : Event}
    (neutral : event.isNeutral = true) : event.settles := by
  cases event with
  | started | finished => simp [Event.isNeutral] at neutral
  | _ => trivial

theorem startsIdle_of_isNeutral {event : Event}
    (neutral : event.isNeutral = true) : event.startsIdle := by
  cases event with
  | started | finished => simp [Event.isNeutral] at neutral
  | _ => trivial

/-- The loop after a step that runs no code. -/
structure Steps (loop next : HostLoop) : Prop where
  jobs : next.jobs = loop.jobs
  script : next.script = loop.script
  log : ∃ events, next.log = events ++ loop.log ∧
    ∀ event ∈ events, event.isNeutral = true

theorem settles_append {events log : List Event}
    (neutral : ∀ event ∈ events, event.isNeutral = true) :
    Settles (events ++ log) ↔ Settles log := by
  unfold Settles
  simp only [List.mem_append]
  constructor
  · intro all event member
    exact all event (.inr member)
  · intro all event member
    rcases member with new | old
    · exact settles_of_isNeutral (neutral event new)
    · exact all event old

theorem startsIdle_append {events log : List Event}
    (neutral : ∀ event ∈ events, event.isNeutral = true) :
    StartsIdle (events ++ log) ↔ StartsIdle log := by
  unfold StartsIdle
  simp only [List.mem_append]
  constructor
  · intro all event member
    exact all event (.inr member)
  · intro all event member
    rcases member with new | old
    · exact startsIdle_of_isNeutral (neutral event new)
    · exact all event old

namespace Steps

variable {loop next : HostLoop}

theorem settles (steps : Steps loop next) :
    Settles next.log ↔ Settles loop.log := by
  obtain ⟨events, log, neutral⟩ := steps.log
  rw [log]
  exact settles_append neutral

theorem safe (steps : Steps loop next) (safe : Safe loop) : Safe next where
  orderly := by
    rw [steps.script]
    exact safe.orderly
  idle := by
    rw [steps.settles]
    obtain ⟨events, log, neutral⟩ := steps.log
    rw [log, startsIdle_append neutral]
    exact safe.idle

theorem idle (steps : Steps loop next) (idle : Idle loop) : Idle next := by
  intro settles
  rw [steps.jobs]
  exact idle (steps.settles.mp settles)

end Steps

/-! ## Executions -/

theorem affect_script (effects : List Effect) (loop : HostLoop) :
    (effects.foldl HostLoop.affect loop).script = loop.script := by
  induction effects generalizing loop with
  | nil => rfl
  | cons effect effects induction =>
      rw [List.foldl_cons, induction]
      cases effect <;> rfl

theorem affect_log (effects : List Effect) (loop : HostLoop) :
    ∃ events, (effects.foldl HostLoop.affect loop).log = events ++ loop.log ∧
      ∀ event ∈ events, event.isNeutral = true := by
  induction effects generalizing loop with
  | nil => exact ⟨[], rfl, by simp⟩
  | cons effect effects induction =>
      obtain ⟨later, log, neutral⟩ := induction (loop.affect effect)
      have first : ∃ events, (loop.affect effect).log = events ++ loop.log ∧
          ∀ event ∈ events, event.isNeutral = true := by
        cases effect with
        | setTimeout delay =>
            exact ⟨[.armed _ _, .registered _ _], rfl, by
              simp [Event.isNeutral]⟩
        | setInterval delay =>
            exact ⟨[.armed _ _, .registered _ _], rfl, by
              simp [Event.isNeutral]⟩
        | setImmediate =>
            exact ⟨[.registered _ _], rfl, by simp [Event.isNeutral]⟩
        | clear id => exact ⟨[.cleared id], rfl, by simp [Event.isNeutral]⟩
        | _ => exact ⟨[], rfl, by simp⟩
      obtain ⟨events, firstLog, firstNeutral⟩ := first
      refine ⟨later ++ events, ?_, ?_⟩
      · rw [List.foldl_cons, log, firstLog, List.append_assoc]
      · intro event member
        rcases List.mem_append.mp member with new | old
        · exact neutral event new
        · exact firstNeutral event old

namespace Safe

variable {loop : HostLoop}

theorem outcome (safe : Safe loop) (code : Code) :
    (loop.execute code).2.error? = none := by
  change loop.body.outcome.error? = none
  unfold HostLoop.body
  cases told : loop.script with
  | nil => rfl
  | cons body script =>
      rw [List.headD_cons]
      apply safe.orderly
      rw [told]
      exact List.mem_cons_self

theorem log_execute (loop : HostLoop) (code : Code) :
    ∃ events, (loop.execute code).1.log =
      .finished code (loop.execute code).2 (loop.execute code).1.standing ::
        events ++ .started code loop.jobs :: loop.log ∧
      ∀ event ∈ events, event.isNeutral = true := by
  obtain ⟨events, log, neutral⟩ := affect_log loop.body.effects
    ({ loop with script := loop.script.tail }.record (.started code loop.jobs))
  refine ⟨events, ?_, neutral⟩
  change _ :: (loop.body.effects.foldl HostLoop.affect _).log = _
  rw [log]
  rfl

theorem settles_before {code : Code}
    (settles : Settles (loop.execute code).1.log) : Settles loop.log := by
  obtain ⟨events, log, -⟩ := log_execute loop code
  rw [log] at settles
  intro event member
  apply settles
  rw [List.cons_append]
  apply List.mem_cons_of_mem
  apply List.mem_append_right
  exact List.mem_cons_of_mem _ member

/-- What the execution has to leave behind. -/
theorem settles_execute {code : Code}
    (settles : Settles (loop.execute code).1.log) :
    (Event.finished code (loop.execute code).2
      (loop.execute code).1.standing).settles := by
  obtain ⟨events, log, -⟩ := log_execute loop code
  apply settles
  rw [log, List.cons_append]
  exact List.mem_cons_self

theorem execute (safe : Safe loop) {code : Code}
    (idle : code.isCallback = true → Idle loop) :
    Safe (loop.execute code).1 where
  orderly := by
    intro body member
    have script : (loop.execute code).1.script = loop.script.tail :=
      affect_script _ _
    rw [script] at member
    exact safe.orderly body (List.mem_of_mem_tail member)
  idle := by
    intro settles
    have before := settles_before settles
    obtain ⟨events, log, neutral⟩ := log_execute loop code
    rw [log]
    intro event member
    rw [List.cons_append] at member
    rcases List.mem_cons.mp member with rfl | member
    · trivial
    · rcases List.mem_append.mp member with new | member
      · exact startsIdle_of_isNeutral (neutral event new)
      · rcases List.mem_cons.mp member with rfl | old
        · intro callback
          exact idle callback before
        · exact safe.idle before event old

theorem jobs_zero {code : Code}
    (thrown : (loop.execute code).2 = .thrown)
    (strict : ∀ standing,
      (Event.finished code .thrown standing).settles → standing.jobs = 0) :
    Idle (loop.execute code).1 := by
  intro settles
  have left := settles_execute settles
  rw [thrown] at left
  exact strict _ left

/-- The jobs of a checkpoint run one after the other. -/
theorem drain (safe : Safe loop) :
    Safe loop.drain.1 ∧ Idle loop.drain.1 ∧
      (loop.drain.2 = .ok () ∨ loop.drain.2 = .error .exception) := by
  fun_induction HostLoop.drain loop with
  | case1 loop none =>
      exact ⟨safe, fun _ => none, .inl rfl⟩
  | case2 loop pending ran completed induction =>
      apply induction
      have popped : Safe { loop with jobs := loop.jobs - 1 } :=
        ⟨safe.orderly, safe.idle⟩
      exact popped.execute (by simp [Code.isCallback])
  | case3 loop pending ran thrown =>
      have popped : Safe { loop with jobs := loop.jobs - 1 } :=
        ⟨safe.orderly, safe.idle⟩
      refine ⟨popped.execute (by simp [Code.isCallback]), ?_, .inr rfl⟩
      exact jobs_zero thrown fun _ left => left
  | case4 loop pending ran interrupted aborted =>
      have popped : Safe { loop with jobs := loop.jobs - 1 } :=
        ⟨safe.orderly, safe.idle⟩
      have orderly := popped.outcome .job
      rw [aborted] at orderly
      simp [Outcome.error?] at orderly

end Safe

/-! ## Exit requests -/

/-- No operation takes an exit request back. -/
theorem exitRequested_advance {state next : SignalState}
    {point after : Point} {operation : Operation}
    (step : advance state point = some (next, after, operation))
    (requested : state.exitRequested = true) : next.exitRequested = true := by
  cases point <;>
    simp only [advance, Option.some.injEq, Prod.mk.injEq, reduceCtorEq]
      at step <;>
    rw [← step.1] <;> first | rfl | exact requested

theorem exitRequested_perform (operations : Nat) {state : SignalState}
    (point : Point) (requested : state.exitRequested = true) :
    (state.perform operations point).exitRequested = true := by
  induction operations generalizing state point with
  | zero => exact requested
  | succ operations induction =>
      unfold SignalState.perform
      cases step : advance state point with
      | none => exact requested
      | some result =>
          exact induction result.2.1 (exitRequested_advance step requested)

theorem exitRequested_requestExit (state : SignalState) (code : Int32) :
    (state.complete (.requestExit code)).exitRequested = true := by
  unfold SignalState.complete SignalState.perform Call.start
  exact exitRequested_perform 3 _ rfl

/-! ## Routing -/

/-- What a step of the turn leaves: it is safe, it was not aborted, and no job
is pending when it failed. -/
structure Leaves (turn : Turn) : Prop where
  safe : Safe turn.1
  failed : ∀ failure, turn.2 = .error failure → Idle turn.1

theorem Leaves.andThen {turn : Turn} {next : HostLoop → Turn}
    (leaves : Leaves turn)
    (keeps : turn.2 = .ok () → Leaves (next turn.1)) :
    Leaves (turn.andThen next) := by
  unfold Turn.andThen
  cases ended : turn.2 with
  | ok done => exact keeps ended
  | error failure =>
      exact ⟨leaves.safe, fun _ _ => leaves.failed failure ended⟩

/-- A step after which no job is pending. -/
structure Drains (turn : Turn) : Prop where
  safe : Safe turn.1
  idle : Idle turn.1

theorem Drains.leaves {turn : Turn} (drains : Drains turn) : Leaves turn :=
  ⟨drains.safe, fun _ _ => drains.idle⟩

theorem Leaves.andThen_drains {turn : Turn} {next : HostLoop → Turn}
    (leaves : Leaves turn)
    (keeps : turn.2 = .ok () → Drains (next turn.1)) :
    Drains (turn.andThen next) := by
  unfold Turn.andThen
  cases ended : turn.2 with
  | ok done => exact keeps ended
  | error failure => exact ⟨leaves.safe, leaves.failed failure ended⟩

namespace Safe

variable {loop : HostLoop}

theorem drains (safe : Safe loop) : Drains loop.drain :=
  ⟨safe.drain.1, safe.drain.2.1⟩

/-- The handler of uncaught exceptions runs with an empty queue and leaves
one. -/
theorem handled (safe : Safe loop) (source : Source)
    (registered : loop.uncaughtHandler = true) (idle : Idle loop) :
    Drains (loop.handleUncaught source) := by
  have ran : Safe (loop.execute .uncaughtHandler).1 :=
    safe.execute fun _ => idle
  have orderly := safe.outcome .uncaughtHandler
  unfold HostLoop.handleUncaught
  rw [if_pos registered]
  cases ended : (loop.execute .uncaughtHandler).2 with
  | completed =>
      simp only [ended]
      exact ran.drains
  | thrown =>
      simp only [ended]
      exact ⟨ran, jobs_zero ended fun _ left => left⟩
  | aborted interrupted =>
      rw [ended] at orderly
      simp [Outcome.error?] at orderly

/-- Without a handler the exception is rendered and exit is requested. -/
theorem unhandled (safe : Safe loop) (source : Source)
    (unregistered : loop.uncaughtHandler = false) :
    Safe (loop.handleUncaught source).1 ∧
      (loop.handleUncaught source).2 = .ok () ∧
      (loop.handleUncaught source).1.signals.exitRequested = true := by
  have ran : Safe (loop.execute (.rendering source)).1 :=
    safe.execute fun callback => absurd callback (by simp [Code.isCallback])
  unfold HostLoop.handleUncaught
  rw [if_neg (by simp [unregistered])]
  refine ⟨⟨ran.orderly, ran.idle⟩, rfl, ?_⟩
  exact exitRequested_requestExit _ 1

theorem handleUncaught (safe : Safe loop) (source : Source)
    (idle : loop.uncaughtHandler = true → Idle loop) :
    Leaves (loop.handleUncaught source) := by
  cases registered : loop.uncaughtHandler with
  | true =>
      exact (safe.handled source registered (idle registered)).leaves
  | false =>
      obtain ⟨left, ok, -⟩ := safe.unhandled source registered
      refine ⟨left, ?_⟩
      intro failure failed
      rw [ok] at failed
      simp at failed

/-- The exception of a job is routed with an empty queue, and leaves one. -/
theorem handleUncaught_job (safe : Safe loop) (idle : Idle loop) :
    Drains (loop.handleUncaught .job) := by
  cases registered : loop.uncaughtHandler with
  | true => exact safe.handled .job registered idle
  | false =>
      refine ⟨(safe.unhandled .job registered).1, ?_⟩
      unfold HostLoop.handleUncaught
      rw [if_neg (by simp [registered])]
      intro settles
      exact settles_execute settles

theorem handleUncaught_immediate (safe : Safe loop)
    (idle : loop.uncaughtHandler = true → Idle loop) :
    Ready (loop.handleUncaught .immediate).1 := by
  cases registered : loop.uncaughtHandler with
  | true =>
      exact (safe.handled .immediate registered (idle registered)).idle.ready
  | false =>
      unfold HostLoop.handleUncaught
      rw [if_neg (by simp [registered])]
      intro settles
      exact settles_execute settles

/-- The turn-level checkpoint leaves an empty queue. -/
theorem drainRouting (safe : Safe loop) : Drains loop.drainRouting := by
  obtain ⟨drained, idle, ended⟩ := safe.drain
  unfold HostLoop.drainRouting
  rcases ended with ok | thrown
  · simp only [ok]
    exact ⟨drained, idle⟩
  · simp only [thrown]
    exact drained.handleUncaught_job idle

/-- A callback that runs with an empty queue, and whose exception is routed. -/
theorem route (safe : Safe loop) (code : Code) (source : Source)
    (idle : code.isCallback = true → Idle loop)
    (strict : ∀ standing, (Event.finished code .thrown standing).settles →
      standing.handled = true → standing.jobs = 0) :
    Leaves (HostLoop.route (loop.execute code) source) := by
  have ran : Safe (loop.execute code).1 := safe.execute idle
  have orderly := safe.outcome code
  unfold HostLoop.route
  cases ended : (loop.execute code).2 with
  | completed =>
      refine ⟨ran, ?_⟩
      intro failure failed
      simp at failed
  | thrown =>
      apply ran.handleUncaught source
      intro registered settles
      have left := settles_execute settles
      rw [ended] at left
      exact strict _ left registered
  | aborted interrupted =>
      rw [ended] at orderly
      simp [Outcome.error?] at orderly

/-! ## Turns -/

theorem runHandlers (safe : Safe loop) (idle : Idle loop) (pending : Nat) :
    Drains (loop.runHandlers pending) := by
  induction pending generalizing loop with
  | zero => exact ⟨safe, idle⟩
  | succ pending induction =>
      unfold HostLoop.runHandlers
      by_cases registered : loop.sigintHandler = true
      · rw [if_pos registered]
        have routed := safe.route .sigintHandler .sigint
          (fun _ => idle) (fun _ left => left)
        have drained := routed.andThen_drains fun _ => routed.safe.drains
        exact drained.leaves.andThen_drains fun _ =>
          induction drained.safe drained.idle
      · rw [if_neg registered]
        exact ⟨safe, idle⟩

theorem runCustomEvents (safe : Safe loop) (idle : Idle loop)
    (events : Nat) : Drains (loop.runCustomEvents events) := by
  induction events generalizing loop with
  | zero => exact ⟨safe, idle⟩
  | succ events induction =>
      unfold HostLoop.runCustomEvents
      have popped : Safe { loop with customEvents := events } :=
        ⟨safe.orderly, safe.idle⟩
      have routed := popped.route .customEvent .customEvent (fun _ => idle)
        (fun _ left => left)
      have drained := routed.andThen_drains fun _ => routed.safe.drainRouting
      exact drained.leaves.andThen_drains fun _ =>
        induction drained.safe drained.idle

/-- The callbacks of a sweep run with an empty queue. -/
theorem fireEntries (safe : Safe loop) (idle : Idle loop)
    (fired due : List TimerEntry) : Drains (loop.fireEntries fired due) := by
  induction due generalizing loop fired with
  | nil =>
      have steps : Steps loop ({ loop with
          timers := loop.timers.prune fired }.record .sweepEnded) :=
        ⟨rfl, rfl, [.sweepEnded], rfl, by simp [Event.isNeutral]⟩
      exact ⟨steps.safe safe, steps.idle idle⟩
  | cons entry due induction =>
      unfold HostLoop.fireEntries
      cases stored : loop.timers.callbacks entry.id with
      | none =>
          simp only
          exact induction safe idle fired
      | some callback =>
          simp only
          have taken : Safe
              { loop with timers := loop.timers.remove entry.id } :=
            ⟨safe.orderly, safe.idle⟩
          have routed := taken.route (.timer entry.id) .timer (fun _ => idle)
            (fun _ left => left)
          have drained := routed.andThen_drains fun _ => routed.safe.drains
          rw [taken.outcome (.timer entry.id)]
          simp only
          generalize (HostLoop.route _ .timer).andThen HostLoop.drain = turn
            at drained ⊢
          cases turn.2 with
          | error failure =>
              have steps : ∀ others spent,
                  Steps turn.1 (turn.1.cut others spent) :=
                fun others spent => ⟨rfl, rfl, [.sweepEnded, .sweepCut _ _],
                  rfl, by simp [Event.isNeutral]⟩
              exact ⟨(steps _ _).safe drained.safe,
                (steps _ _).idle drained.idle⟩
          | ok done =>
              cases again : callback.repeating with
              | true =>
                  simp only [if_true]
                  have steps : ∀ swept,
                      Steps turn.1 (turn.1.rearm swept entry callback) :=
                    fun swept => ⟨rfl, rfl,
                      [.putBack _, .armed _ _, .rearming _ _ _], rfl, by
                        simp [Event.isNeutral]⟩
                  exact induction ((steps _).safe drained.safe)
                    ((steps _).idle drained.idle) _
              | false =>
                  simp only [Bool.false_eq_true, if_false]
                  exact induction drained.safe drained.idle _

theorem fireDueTimers (safe : Safe loop) (idle : Idle loop) :
    Drains loop.fireDueTimers := by
  have steps : Steps loop (loop.record (.sweepBegan loop.timers.now)) :=
    ⟨rfl, rfl, [.sweepBegan _], rfl, by simp [Event.isNeutral]⟩
  exact (steps.safe safe).fireEntries (steps.idle idle) [] _

/-- The next immediate finds an empty queue. -/
theorem idle_next (ready : Ready loop) {id : Nat} {rest : List Nat}
    {callback : TimerCallback} (queue : loop.timers.immediates = id :: rest)
    (stored : loop.timers.callbacks id = some callback) : Idle loop := by
  intro settles
  apply ready settles
  change loop.timers.immediates.any loop.timers.registered = true
  rw [queue, List.any_cons, Bool.or_eq_true]
  left
  simp [TimerState.registered, stored]

theorem ready_route (safe : Safe loop) {id : Nat} (idle : Idle loop) :
    Ready (HostLoop.route (loop.execute (.immediate id)) .immediate).1 := by
  have ran : Safe (loop.execute (.immediate id)).1 :=
    safe.execute fun _ => idle
  have orderly := safe.outcome (.immediate id)
  unfold HostLoop.route
  cases ended : (loop.execute (.immediate id)).2 with
  | completed =>
      intro settles
      have left := settles_execute settles
      rw [ended] at left
      exact left
  | thrown =>
      apply ran.handleUncaught_immediate
      intro registered settles
      have left := settles_execute settles
      rw [ended] at left
      exact left registered
  | aborted interrupted =>
      rw [ended] at orderly
      simp [Outcome.error?] at orderly

/-- An immediate runs with an empty queue when the immediate before it left
one. -/
theorem runImmediates (safe : Safe loop) (ready : Ready loop) :
    Leaves loop.runImmediates := by
  fun_induction HostLoop.runImmediates loop with
  | case1 loop queue =>
      refine ⟨safe, ?_⟩
      intro failure failed
      simp at failed
  | case2 loop id rest queue popped stored induction =>
      apply induction ⟨safe.orderly, safe.idle⟩
      intro settles waiting
      apply ready settles
      change loop.timers.immediates.any loop.timers.registered = true
      rw [queue, List.any_cons, Bool.or_eq_true]
      exact .inr waiting
  | case3 loop id rest queue popped callback stored ran interrupted ended =>
      have taken : Safe
          { popped with timers := popped.timers.remove id } :=
        ⟨safe.orderly, safe.idle⟩
      have orderly := taken.outcome (.immediate id)
      change ran.2.error? = none at orderly
      rw [ended] at orderly
      simp at orderly
  | case4 loop id rest queue popped callback stored ran ended routed failure
      failed =>
      have first : Idle loop := idle_next ready queue stored
      have idle : Idle { popped with timers := popped.timers.remove id } :=
        first
      have taken : Safe
          { popped with timers := popped.timers.remove id } :=
        ⟨safe.orderly, safe.idle⟩
      have leaves := taken.route (.immediate id) .immediate (fun _ => idle)
        (fun _ left => left)
      exact ⟨leaves.safe, fun _ _ => leaves.failed failure failed⟩
  | case5 loop id rest queue popped callback stored ran ended routed done
      induction =>
      have first : Idle loop := idle_next ready queue stored
      have idle : Idle { popped with timers := popped.timers.remove id } :=
        first
      have taken : Safe
          { popped with timers := popped.timers.remove id } :=
        ⟨safe.orderly, safe.idle⟩
      have leaves := taken.route (.immediate id) .immediate (fun _ => idle)
        (fun _ left => left)
      exact induction leaves.safe (taken.ready_route idle)

end Safe

/-- Between calls: no job is pending, or the loop is to exit and runs no more
turns. -/
structure Between (loop : HostLoop) : Prop where
  safe : Safe loop
  idle : Idle loop ∨ loop.signals.exitRequested = true

theorem Drains.between {turn : Turn} (drains : Drains turn) :
    Between turn.1 :=
  ⟨drains.safe, .inl drains.idle⟩

namespace Safe

variable {loop : HostLoop}

theorem reportRejections (safe : Safe loop) (handled : Bool)
    (promises : List Nat)
    (idle : Idle loop ∨ handled = false ∧ loop.signals.exitRequested = true) :
    Between (loop.reportRejections handled promises).1 := by
  induction promises generalizing loop with
  | nil => exact ⟨safe, idle.imp id And.right⟩
  | cons promise promises induction =>
      unfold HostLoop.reportRejections
      cases handled with
      | true =>
          have idle : Idle loop := by
            rcases idle with idle | ⟨unhandled, -⟩
            · exact idle
            · simp at unhandled
          have ran : Safe (loop.execute .rejectionHandler).1 :=
            safe.execute fun _ => idle
          have orderly := safe.outcome .rejectionHandler
          rw [if_pos rfl]
          cases ended : (loop.execute .rejectionHandler).2 with
          | completed =>
              simp only [ended]
              have drains := ran.drains
              unfold Turn.andThen
              cases drained : (loop.execute .rejectionHandler).1.drain.2 with
              | ok done => exact induction drains.safe (.inl drains.idle)
              | error failure => exact drains.between
          | thrown =>
              simp only [ended]
              exact ⟨ran, .inl (jobs_zero ended fun _ left => left)⟩
          | aborted interrupted =>
              rw [ended] at orderly
              simp [Outcome.error?] at orderly
      | false =>
          rw [if_neg (by decide)]
          have ran : Safe (loop.execute (.rendering .rejection)).1 :=
            safe.execute fun callback =>
              absurd callback (by simp [Code.isCallback])
          have reported : Safe ((loop.execute (.rendering .rejection)).1.signal
              (.requestExit 1)) :=
            ⟨ran.orderly, ran.idle⟩
          apply induction reported
          exact .inr ⟨rfl, exitRequested_requestExit _ 1⟩

theorem runSignalHandlers (safe : Safe loop) (idle : Idle loop) :
    Drains loop.runSignalHandlers := by
  have taken : Safe (loop.signal .takePendingSigint) :=
    ⟨safe.orderly, safe.idle⟩
  exact taken.runHandlers idle _

theorem runTurnBody (safe : Safe loop) : Between loop.runTurnBody.1 := by
  have polled : Safe loop.pollOpCompletions :=
    safe.execute fun callback => absurd callback (by simp [Code.isCallback])
  have drained := polled.drainRouting
  have signals := drained.leaves.andThen_drains fun _ =>
    drained.safe.runSignalHandlers drained.idle
  have swept := signals.leaves.andThen_drains fun _ =>
    signals.safe.fireDueTimers signals.idle
  have events : Drains (Turn.andThen _ fun loop =>
      loop.runCustomEvents loop.customEvents) :=
    swept.leaves.andThen_drains fun _ =>
      swept.safe.runCustomEvents swept.idle _
  have immediates := events.leaves.andThen fun _ =>
    events.safe.runImmediates events.idle.ready
  have final := immediates.andThen_drains fun _ =>
    immediates.safe.drainRouting
  unfold HostLoop.runTurnBody
  simp only
  generalize (Turn.andThen (Turn.andThen _ HostLoop.runImmediates)
    HostLoop.drainRouting) = turn at final ⊢
  unfold Turn.andThen
  cases turn.2 with
  | ok done =>
      have taken : Safe { turn.1 with rejections := [] } :=
        ⟨final.safe.orderly, final.safe.idle⟩
      exact taken.reportRejections _ _ (.inl final.idle)
  | error failure => exact final.between

/-- The evaluation of the main script ends with a checkpoint. -/
theorem completeHostTurn (safe : Safe loop) :
    Drains (HostLoop.completeHostTurn (loop.execute .script)) := by
  have ran : Safe (loop.execute .script).1 :=
    safe.execute fun callback => absurd callback (by simp [Code.isCallback])
  have orderly := safe.outcome .script
  unfold HostLoop.completeHostTurn
  cases ended : (loop.execute .script).2 with
  | completed => exact ran.drains
  | thrown =>
      exact ran.drains.leaves.andThen_drains fun _ =>
        ⟨ran.drains.safe, ran.drains.idle⟩
  | aborted interrupted =>
      rw [ended] at orderly
      simp [Outcome.error?] at orderly

theorem runScript (safe : Safe loop) : Between loop.runScript.1 := by
  have evaluated := safe.completeHostTurn
  unfold HostLoop.runScript
  simp only
  generalize HostLoop.completeHostTurn (loop.execute .script) = turn
    at evaluated ⊢
  cases ended : turn.2 with
  | ok done =>
      simp only
      exact evaluated.between
  | error failure =>
      cases failure with
      | exception =>
          simp only
          cases registered : turn.1.uncaughtHandler with
          | true =>
              exact (evaluated.safe.handled .script registered
                evaluated.idle).between
          | false =>
              obtain ⟨left, -, exits⟩ :=
                evaluated.safe.unhandled .script registered
              exact ⟨left, .inr exits⟩
      | aborted interrupted =>
          cases interrupted with
          | true =>
              exact ⟨⟨evaluated.safe.orderly, evaluated.safe.idle⟩,
                .inl evaluated.idle⟩
          | false => exact evaluated.between
      | fault => exact evaluated.between

end Safe

/-! ## Runs -/

namespace Between

variable {loop : HostLoop}

theorem signal (between : Between loop) (call : Call) :
    Between (loop.signal call) where
  safe := ⟨between.safe.orderly, between.safe.idle⟩
  idle := by
    rcases between.idle with idle | exits
    · exact .inl idle
    · exact .inr (exitRequested_perform 4 _ exits)

theorem runOneTurn (between : Between loop) :
    Between loop.runOneTurn.1 := by
  have body := between.safe.runTurnBody
  unfold HostLoop.runOneTurn
  by_cases exiting : loop.signals.exitRequested = true
  · rw [if_pos exiting]
    exact between
  · rw [if_neg exiting]
    simp only
    generalize loop.runTurnBody = turn at body ⊢
    cases ended : turn.2 with
    | ok done =>
        simp only
        by_cases requested : turn.1.signals.interrupt = true
        · rw [if_pos requested]
          exact body.signal .consumeInterrupt
        · rw [if_neg requested]
          exact body
    | error failure =>
        cases failure with
        | exception => exact body
        | aborted interrupted =>
            cases interrupted with
            | true => exact body.signal .consumeInterrupt
            | false => exact body
        | fault => exact body

theorem advanceTime (between : Between loop) (duration : Nat) :
    Between (loop.advanceTime duration).1 := by
  unfold HostLoop.advanceTime
  by_cases exiting : loop.signals.exitRequested = true
  · rw [if_pos exiting]
    exact between
  · rw [if_neg exiting]
    have idle : Idle loop := between.idle.resolve_right exiting
    have moved : Safe { loop with timers := { loop.timers with
        now := max loop.timers.now (loop.timers.now + duration) } } :=
      ⟨between.safe.orderly, between.safe.idle⟩
    exact (moved.fireDueTimers idle).between

theorem call (between : Between loop) (call : HostCall) :
    Between (loop.call call) := by
  cases call with
  | runScript => exact between.safe.runScript
  | runOneTurn => exact between.runOneTurn
  | advanceTime duration => exact between.advanceTime duration
  | postEvent =>
      exact ⟨⟨between.safe.orderly, between.safe.idle⟩, between.idle⟩
  | postSignal signal => exact between.signal (.deliver signal)

theorem calls (between : Between loop) (calls : List HostCall) :
    Between (calls.foldl HostLoop.call loop) := by
  induction calls generalizing loop with
  | nil => exact between
  | cons first calls induction => exact induction (between.call first)

end Between

/-- In a run whose executions return or throw, and leave behind what `settles`
asks for, every host callback starts with an empty job queue. -/
theorem startsIdle_of_settles (script : List Body) (calls : List HostCall)
    (orderly : ∀ body ∈ script, body.outcome.error? = none)
    (settles : Settles (HostLoop.run script calls).log) :
    StartsIdle (HostLoop.run script calls).log := by
  have start : Between ({ script := script } : HostLoop) := {
    safe := {
      orderly := orderly
      idle := by
        intro _ event member
        simp at member }
    idle := .inl fun _ => rfl }
  exact (start.calls calls).safe.idle settles

/-- A timer callback enqueues a job, which runs before the immediate does. -/
theorem startsIdle_of_settles_job :
    StartsIdle (HostLoop.run
      [⟨[.setTimeout 5, .setImmediate], .completed⟩,
        ⟨[.enqueueJob], .completed⟩]
      [.runScript, .advanceTime 5, .runOneTurn]).log := by
  apply startsIdle_of_settles
  · decide
  · let waiting : Standing := ⟨0, false, true⟩
    have log : (HostLoop.run
        [⟨[.setTimeout 5, .setImmediate], .completed⟩,
          ⟨[.enqueueJob], .completed⟩]
        [.runScript, .advanceTime 5, .runOneTurn]).log =
        [.finished (.immediate 1) .completed ⟨0, false, false⟩,
          .started (.immediate 1) 0, .sweepEnded, .sweepBegan 5,
          .finished .completions .completed waiting, .started .completions 0,
          .sweepEnded, .finished .job .completed waiting, .started .job 0,
          .finished (.timer 0) .completed ⟨1, false, true⟩,
          .started (.timer 0) 0, .sweepBegan 5,
          .finished .script .completed waiting, .registered 1 .immediate,
          .armed 0 5, .registered 0 .timeout, .started .script 0] := by
      decide +kernel
    rw [log]
    simp [Settles, Event.settles]

/-- The first of two immediates enqueues a job, and the second starts while it
is pending. -/
theorem startsIdle_fails_between_immediates :
    (∀ body ∈ [(⟨[.setImmediate, .setImmediate], .completed⟩ : Body), {},
        ⟨[.enqueueJob], .completed⟩], body.outcome.error? = none) ∧
      ¬ StartsIdle (HostLoop.run
        [⟨[.setImmediate, .setImmediate], .completed⟩, {},
          ⟨[.enqueueJob], .completed⟩]
        [.runScript, .runOneTurn]).log := by
  constructor
  · decide
  · intro idle
    have second := idle (.started (.immediate 1) 1) (by decide +kernel) rfl
    simp at second

end Fusor.Host.EventLoop
