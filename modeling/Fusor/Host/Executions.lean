import Fusor.Host.EventLoop
import Fusor.Support.Log

/-!
# What executions keep

Running code registers and clears timers, and the loop records when code that
is no timer callback starts and finishes.  An assertion on the timers and the
log that these steps keep is kept by every checkpoint and by every handler, and
what is left to prove of the loop is that a sweep and the queue of immediates
keep it.
-/

namespace Fusor.Host.EventLoop

/-- An assertion on the timers and the log, of a loop. -/
abbrev Assertion := TimerState → List Event → Prop

abbrev HostLoop.Has (loop : HostLoop) (assertion : Assertion) : Prop :=
  assertion loop.timers loop.log

theorem Turn.andThen_has {assertion : Assertion} {turn : Turn}
    {next : HostLoop → Turn} (has : turn.1.Has assertion)
    (keeps : ∀ loop : HostLoop, loop.Has assertion →
      (next loop).1.Has assertion) :
    (turn.andThen next).1.Has assertion := by
  unfold Turn.andThen
  cases turn.2 with
  | ok done => exact keeps turn.1 has
  | error failure => exact has

/-- An assertion that running code keeps. -/
structure Kept (assertion : Assertion) : Prop where
  setTimer : ∀ {timers log} repeating delay, assertion timers log →
    assertion (timers.push ⟨repeating, delay⟩ (timers.now + delay))
      (.armed timers.nextId (timers.now + delay) ::
        .registered timers.nextId
          (if repeating then .interval else .timeout) :: log)
  setImmediate : ∀ {timers log}, assertion timers log →
    assertion (timers.pushImmediate ⟨false, 0⟩)
      (.registered timers.nextId .immediate :: log)
  clear : ∀ {timers log} id, assertion timers log →
    assertion (timers.cancel id) (.cleared id :: log)
  start : ∀ {timers log} code jobs, code.timer? = none →
    assertion timers log → assertion timers (.started code jobs :: log)
  finish : ∀ {timers log} code outcome standing, code.timer? = none →
    assertion timers log →
      assertion timers (.finished code outcome standing :: log)

namespace Kept

variable {assertion : Assertion}

theorem effects (kept : Kept assertion) (effects : List Effect)
    {loop : HostLoop} (has : loop.Has assertion) :
    (effects.foldl HostLoop.affect loop).Has assertion := by
  induction effects generalizing loop with
  | nil => exact has
  | cons effect effects induction =>
      apply induction
      cases effect with
      | setTimeout delay => exact kept.setTimer false delay has
      | setInterval delay => exact kept.setTimer true delay has
      | setImmediate => exact kept.setImmediate has
      | clear id => exact kept.clear id has
      | enqueueJob => exact has
      | runJob => exact has
      | onSigint => exact has
      | onUncaughtException => exact has
      | onUnhandledRejection => exact has
      | exit code => exact has
      | deliver signal => exact has
      | track rejection => exact has

theorem execute (kept : Kept assertion) {loop : HostLoop} {code : Code}
    (other : code.timer? = none) (has : loop.Has assertion) :
    (loop.execute code).1.Has assertion := by
  apply kept.finish _ _ _ other
  apply kept.effects
  exact kept.start code loop.jobs other has

theorem drain (kept : Kept assertion) {loop : HostLoop}
    (has : loop.Has assertion) : loop.drain.1.Has assertion := by
  fun_induction HostLoop.drain loop with
  | case1 => exact has
  | case2 loop pending ran completed induction =>
      apply induction
      exact kept.execute rfl has
  | case3 loop pending ran thrown => exact kept.execute rfl has
  | case4 loop pending ran interrupted aborted => exact kept.execute rfl has

theorem handleUncaught (kept : Kept assertion) {loop : HostLoop}
    (source : Source) (has : loop.Has assertion) :
    (loop.handleUncaught source).1.Has assertion := by
  have handler : (loop.execute .uncaughtHandler).1.Has assertion :=
    kept.execute rfl has
  unfold HostLoop.handleUncaught
  by_cases registered : loop.uncaughtHandler = true
  · rw [if_pos registered]
    cases ended : (loop.execute .uncaughtHandler).2 with
    | completed =>
        simp only [ended]
        exact kept.drain handler
    | thrown =>
        simp only [ended]
        exact handler
    | aborted interrupted =>
        simp only [ended]
        exact handler
  · rw [if_neg registered]
    have rendered : (loop.execute (.rendering source)).1.Has assertion :=
      kept.execute rfl has
    exact rendered

theorem route (kept : Kept assertion) {ran : HostLoop × Outcome}
    (source : Source) (has : ran.1.Has assertion) :
    (HostLoop.route ran source).1.Has assertion := by
  unfold HostLoop.route
  cases ran.2 with
  | completed => exact has
  | thrown => exact kept.handleUncaught source has
  | aborted interrupted => exact has

theorem drainRouting (kept : Kept assertion) {loop : HostLoop}
    (has : loop.Has assertion) : loop.drainRouting.1.Has assertion := by
  have drained := kept.drain has
  unfold HostLoop.drainRouting
  cases ended : loop.drain.2 with
  | ok done =>
      simp only [ended]
      exact drained
  | error failure =>
      cases failure with
      | exception =>
          simp only [ended]
          exact kept.handleUncaught .job drained
      | aborted interrupted =>
          simp only [ended]
          exact drained
      | fault =>
          simp only [ended]
          exact drained

theorem runHandlers (kept : Kept assertion) (pending : Nat) {loop : HostLoop}
    (has : loop.Has assertion) :
    (loop.runHandlers pending).1.Has assertion := by
  induction pending generalizing loop with
  | zero => exact has
  | succ pending induction =>
      unfold HostLoop.runHandlers
      by_cases registered : loop.sigintHandler = true
      · rw [if_pos registered]
        apply Turn.andThen_has
        · apply Turn.andThen_has
          · exact kept.route .sigint (kept.execute rfl has)
          · intro loop has
            exact kept.drain has
        · intro loop has
          exact induction has
      · rw [if_neg registered]
        exact has

theorem runCustomEvents (kept : Kept assertion) (events : Nat)
    {loop : HostLoop} (has : loop.Has assertion) :
    (loop.runCustomEvents events).1.Has assertion := by
  induction events generalizing loop with
  | zero => exact has
  | succ events induction =>
      unfold HostLoop.runCustomEvents
      apply Turn.andThen_has
      · apply Turn.andThen_has
        · exact kept.route .customEvent (kept.execute rfl has)
        · intro loop has
          exact kept.drainRouting has
      · intro loop has
        exact induction has

theorem reportRejections (kept : Kept assertion) (handled : Bool)
    (promises : List Nat) {loop : HostLoop} (has : loop.Has assertion) :
    (loop.reportRejections handled promises).1.Has assertion := by
  induction promises generalizing loop with
  | nil => exact has
  | cons promise promises induction =>
      unfold HostLoop.reportRejections
      cases handled with
      | true =>
          have ran : (loop.execute .rejectionHandler).1.Has assertion :=
            kept.execute rfl has
          rw [if_pos rfl]
          cases ended : (loop.execute .rejectionHandler).2 with
          | completed =>
              simp only [ended]
              apply Turn.andThen_has (kept.drain ran)
              intro loop has
              exact induction has
          | thrown =>
              simp only [ended]
              exact ran
          | aborted interrupted =>
              simp only [ended]
              exact ran
      | false =>
          rw [if_neg (by decide)]
          apply induction
          have rendered :
              (loop.execute (.rendering .rejection)).1.Has assertion :=
            kept.execute rfl has
          exact rendered

theorem runScript (kept : Kept assertion) {loop : HostLoop}
    (has : loop.Has assertion) : loop.runScript.1.Has assertion := by
  have ran : (loop.execute .script).1.Has assertion := kept.execute rfl has
  have evaluated :
      (HostLoop.completeHostTurn (loop.execute .script)).1.Has assertion := by
    unfold HostLoop.completeHostTurn
    cases (loop.execute .script).2 with
    | completed => exact kept.drain ran
    | thrown =>
        apply Turn.andThen_has (kept.drain ran)
        intro loop has
        exact has
    | aborted interrupted => exact ran
  unfold HostLoop.runScript
  cases ended : (HostLoop.completeHostTurn (loop.execute .script)).2 with
  | ok done =>
      simp only [ended]
      exact evaluated
  | error failure =>
      cases failure with
      | exception =>
          simp only [ended]
          exact kept.handleUncaught .script evaluated
      | aborted interrupted =>
          cases interrupted with
          | true =>
              simp only [ended]
              exact evaluated
          | false =>
              simp only [ended]
              exact evaluated
      | fault =>
          simp only [ended]
          exact evaluated

end Kept

/-! ## Guarded assertions -/

/-- A guard on the log that holds of every earlier log. -/
def Earlier (guard : List Event → Prop) : Prop :=
  ∀ {event log}, guard (event :: log) → guard log

/-- The assertion, of runs that meet the guard. -/
def Under (guard : List Event → Prop) (assertion : Assertion) : Assertion :=
  fun timers log => guard log → assertion timers log

/-- An assertion that running code keeps in runs that meet the guard. -/
structure KeptUnder (guard : List Event → Prop) (assertion : Assertion) :
    Prop where
  setTimer : ∀ {timers log} repeating delay,
    guard (.registered timers.nextId
      (if repeating then .interval else .timeout) :: log) →
    assertion timers log →
    assertion (timers.push ⟨repeating, delay⟩ (timers.now + delay))
      (.armed timers.nextId (timers.now + delay) ::
        .registered timers.nextId
          (if repeating then .interval else .timeout) :: log)
  setImmediate : ∀ {timers log},
    guard (.registered timers.nextId .immediate :: log) →
    assertion timers log →
    assertion (timers.pushImmediate ⟨false, 0⟩)
      (.registered timers.nextId .immediate :: log)
  clear : ∀ {timers log} id, assertion timers log →
    assertion (timers.cancel id) (.cleared id :: log)
  start : ∀ {timers log} code jobs, code.timer? = none →
    assertion timers log → assertion timers (.started code jobs :: log)
  finish : ∀ {timers log} code outcome standing, code.timer? = none →
    assertion timers log →
      assertion timers (.finished code outcome standing :: log)

theorem KeptUnder.kept {guard : List Event → Prop} {assertion : Assertion}
    (kept : KeptUnder guard assertion) (earlier : Earlier guard) :
    Kept (Under guard assertion) where
  setTimer repeating delay has guarded :=
    kept.setTimer repeating delay (earlier guarded)
      (has (earlier (earlier guarded)))
  setImmediate has guarded :=
    kept.setImmediate guarded (has (earlier guarded))
  clear id has guarded := kept.clear id (has (earlier guarded))
  start code jobs other has guarded :=
    kept.start code jobs other (has (earlier guarded))
  finish code outcome standing other has guarded :=
    kept.finish code outcome standing other (has (earlier guarded))

/-! ## Sweeps -/

/-- What is asserted in a sweep: `resting` between two entries, `flying` while
the callback of an entry runs, `landed` while what it left is routed and
drained, and `after` when the sweep has ended. -/
structure SweepRule (after : Assertion)
    (resting : List TimerEntry → List TimerEntry → Assertion)
    (flying landed : List TimerEntry → List TimerEntry → TimerEntry →
      TimerCallback → Assertion) : Prop where
  keepFlying : ∀ fired due entry callback,
    Kept (flying fired due entry callback)
  keepLanded : ∀ fired due entry callback,
    Kept (landed fired due entry callback)
  skip : ∀ {fired due entry timers log},
    resting fired (entry :: due) timers log →
    timers.callbacks entry.id = none → resting fired due timers log
  take : ∀ {fired due entry callback timers log} jobs,
    resting fired (entry :: due) timers log →
    timers.callbacks entry.id = some callback →
    flying fired due entry callback (timers.remove entry.id)
      (.started (.timer entry.id) jobs :: log)
  abort : ∀ {fired due entry callback timers log} interrupted standing,
    flying fired due entry callback timers log →
    after (timers.insert entry.id callback)
      (.sweepEnded ::
        .sweepCut ((timers.insert entry.id callback).intervals (fired ++ due))
          none ::
        .putBack entry.id ::
        .finished (.timer entry.id) (.aborted interrupted) standing :: log)
  land : ∀ {fired due entry callback timers log} outcome standing,
    outcome.error? = none →
    flying fired due entry callback timers log →
    landed fired due entry callback timers
      (.finished (.timer entry.id) outcome standing :: log)
  fail : ∀ {fired due entry callback timers log},
    landed fired due entry callback timers log →
    after timers
      (.sweepEnded ::
        .sweepCut (timers.intervals (fired ++ due))
          (if callback.repeating then some entry.id else none) :: log)
  spend : ∀ {fired due entry callback timers log},
    callback.repeating = false →
    landed fired due entry callback timers log →
    resting (entry :: fired) due timers log
  rearm : ∀ {fired due entry callback timers log},
    callback.repeating = true →
    landed fired due entry callback timers log →
    resting (entry :: fired) due (timers.rearm entry.id callback)
      (.putBack entry.id ::
        .armed entry.id (timers.rearmedEntry entry.id callback).deadline ::
        .rearming entry (timers.rearmedEntry entry.id callback)
          (timers.tied (entry :: fired ++ due)
            (timers.rearmedEntry entry.id callback)) :: log)
  finish : ∀ {fired timers log}, resting fired [] timers log →
    after (timers.prune fired) (.sweepEnded :: log)

/-- The callback of a timer or an immediate runs to its end. -/
theorem Kept.executeTimer {flying landed : Assertion} {loop : HostLoop}
    {code : Code} (kept : Kept flying)
    (started : flying loop.timers (.started code loop.jobs :: loop.log))
    (finished : ∀ {timers log} standing, flying timers log →
      landed timers
        (.finished code (loop.execute code).2 standing :: log)) :
    (loop.execute code).1.Has landed := by
  apply finished
  apply kept.effects
  exact started

theorem Outcome.eq_aborted {outcome : Outcome} {interrupted : Bool}
    (ended : outcome.error? = some interrupted) :
    outcome = .aborted interrupted := by
  cases outcome with
  | completed => simp [Outcome.error?] at ended
  | thrown => simp [Outcome.error?] at ended
  | aborted other =>
      simp only [Outcome.error?, Option.some.injEq] at ended
      rw [ended]

theorem SweepRule.fireEntries {after : Assertion}
    {resting : List TimerEntry → List TimerEntry → Assertion}
    {flying landed : List TimerEntry → List TimerEntry → TimerEntry →
      TimerCallback → Assertion}
    (rule : SweepRule after resting flying landed)
    (due fired : List TimerEntry) {loop : HostLoop}
    (has : loop.Has (resting fired due)) :
    (loop.fireEntries fired due).1.Has after := by
  induction due generalizing loop fired with
  | nil => exact rule.finish has
  | cons entry due induction =>
      unfold HostLoop.fireEntries
      cases stored : loop.timers.callbacks entry.id with
      | none =>
          simp only
          exact induction fired (rule.skip has stored)
      | some callback =>
          simp only
          generalize taken : ({ loop with
            timers := loop.timers.remove entry.id } : HostLoop) = flight
          have started : flying fired due entry callback flight.timers
              (.started (.timer entry.id) flight.jobs :: flight.log) := by
            rw [← taken]
            exact rule.take _ has stored
          have keeps := rule.keepFlying fired due entry callback
          cases ended : (flight.execute (.timer entry.id)).2.error? with
          | some interrupted =>
              have aborted := Outcome.eq_aborted ended
              have landing : (flight.execute (.timer entry.id)).1.Has
                  fun timers log => after (timers.insert entry.id callback)
                    (.sweepEnded :: .sweepCut ((timers.insert entry.id
                      callback).intervals (fired ++ due)) none ::
                      .putBack entry.id :: log) := by
                apply keeps.executeTimer started
                intro timers log standing flies
                rw [aborted]
                exact rule.abort interrupted standing flies
              exact landing
          | none =>
              have landing := keeps.executeTimer started
                (fun standing flies => rule.land _ standing ended flies)
              have keeps := rule.keepLanded fired due entry callback
              have drained := Turn.andThen_has (keeps.route .timer landing)
                (fun loop has => keeps.drain has)
              simp only
              generalize (HostLoop.route (flight.execute (.timer entry.id))
                .timer).andThen HostLoop.drain = turn at drained ⊢
              cases turn.2 with
              | error failure => exact rule.fail drained
              | ok done =>
                  cases again : callback.repeating with
                  | true =>
                      simp only [if_true]
                      exact induction _ (rule.rearm again drained)
                  | false =>
                      simp only [Bool.false_eq_true, if_false]
                      exact induction _ (rule.spend again drained)

/-! ## Immediates -/

/-- What is asserted while immediates run: `resting` between two of them,
`flying` while a callback runs, and `landed` while what it left is routed. -/
structure ImmediateRule (resting : Assertion)
    (flying landed : Nat → TimerCallback → Assertion) : Prop where
  keepFlying : ∀ id callback, Kept (flying id callback)
  keepLanded : ∀ id callback, Kept (landed id callback)
  skip : ∀ {id rest timers log}, resting timers log →
    timers.immediates = id :: rest → timers.callbacks id = none →
    resting { timers with immediates := rest } log
  take : ∀ {id rest callback timers log} jobs, resting timers log →
    timers.immediates = id :: rest → timers.callbacks id = some callback →
    flying id callback ({ timers with immediates := rest }.remove id)
      (.started (.immediate id) jobs :: log)
  abort : ∀ {id callback timers log} interrupted standing,
    flying id callback timers log →
    resting ({ timers with immediates := id :: timers.immediates }.insert id
        callback)
      (.putBack id ::
        .finished (.immediate id) (.aborted interrupted) standing :: log)
  land : ∀ {id callback timers log} outcome standing, outcome.error? = none →
    flying id callback timers log →
    landed id callback timers
      (.finished (.immediate id) outcome standing :: log)
  rest : ∀ {id callback timers log}, landed id callback timers log →
    resting timers log

theorem ImmediateRule.runImmediates {resting : Assertion}
    {flying landed : Nat → TimerCallback → Assertion}
    (rule : ImmediateRule resting flying landed) {loop : HostLoop}
    (has : loop.Has resting) : loop.runImmediates.1.Has resting := by
  fun_induction HostLoop.runImmediates loop with
  | case1 loop queue => exact has
  | case2 loop id rest queue popped stored induction =>
      apply induction
      exact rule.skip has queue stored
  | case3 loop id rest queue popped callback stored ran interrupted ended =>
      have aborted := Outcome.eq_aborted ended
      have keeps := rule.keepFlying id callback
      have landing : ran.1.Has fun timers log => resting
          ({ timers with immediates := id :: timers.immediates }.insert id
            callback) (.putBack id :: log) := by
        apply keeps.executeTimer (rule.take _ has queue stored)
        intro timers log standing flies
        rw [aborted]
        exact rule.abort interrupted standing flies
      exact landing
  | case4 loop id rest queue popped callback stored ran ended routed failure
      failed =>
      have keeps := rule.keepFlying id callback
      have landing := keeps.executeTimer
        (rule.take _ has queue stored)
        (fun standing flies => rule.land _ standing ended flies)
      exact rule.rest ((rule.keepLanded id callback).route .immediate landing)
  | case5 loop id rest queue popped callback stored ran ended routed done
      induction =>
      have keeps := rule.keepFlying id callback
      have landing := keeps.executeTimer
        (rule.take _ has queue stored)
        (fun standing flies => rule.land _ standing ended flies)
      apply induction
      exact rule.rest ((rule.keepLanded id callback).route .immediate landing)

/-! ## Runs -/

/-- An assertion that the loop keeps between its calls. -/
structure KeptByLoop (assertion : Assertion) : Prop extends
    Kept assertion where
  fireDueTimers : ∀ {loop : HostLoop}, loop.Has assertion →
    loop.fireDueTimers.1.Has assertion
  runImmediates : ∀ {loop : HostLoop}, loop.Has assertion →
    loop.runImmediates.1.Has assertion
  advance : ∀ {timers log} now, assertion timers log →
    assertion { timers with now := now } log

namespace KeptByLoop

variable {assertion : Assertion}

theorem runTurnBody (kept : KeptByLoop assertion) {loop : HostLoop}
    (has : loop.Has assertion) : loop.runTurnBody.1.Has assertion := by
  have polled : loop.pollOpCompletions.Has assertion :=
    kept.execute rfl has
  unfold HostLoop.runTurnBody
  apply Turn.andThen_has
  · apply Turn.andThen_has
    · apply Turn.andThen_has
      · apply Turn.andThen_has
        · apply Turn.andThen_has
          · apply Turn.andThen_has
            · exact kept.drainRouting polled
            · intro loop has
              exact kept.runHandlers _ has
          · intro loop has
            exact kept.fireDueTimers has
        · intro loop has
          exact kept.runCustomEvents _ has
      · intro loop has
        exact kept.runImmediates has
    · intro loop has
      exact kept.drainRouting has
  · intro loop has
    exact kept.reportRejections _ _ has

theorem runOneTurn (kept : KeptByLoop assertion) {loop : HostLoop}
    (has : loop.Has assertion) : loop.runOneTurn.1.Has assertion := by
  have body := kept.runTurnBody has
  unfold HostLoop.runOneTurn
  by_cases exiting : loop.signals.exitRequested = true
  · rw [if_pos exiting]
    exact has
  · rw [if_neg exiting]
    cases ended : loop.runTurnBody.2 with
    | ok done =>
        simp only [ended]
        by_cases requested : loop.runTurnBody.1.signals.interrupt = true
        · rw [if_pos requested]
          exact body
        · rw [if_neg requested]
          exact body
    | error failure =>
        cases failure with
        | exception =>
            simp only [ended]
            exact body
        | aborted interrupted =>
            cases interrupted with
            | true =>
                simp only [ended]
                exact body
            | false =>
                simp only [ended]
                exact body
        | fault =>
            simp only [ended]
            exact body

theorem call (kept : KeptByLoop assertion) {loop : HostLoop} (call : HostCall)
    (has : loop.Has assertion) : (loop.call call).Has assertion := by
  cases call with
  | runScript => exact kept.runScript has
  | runOneTurn => exact kept.runOneTurn has
  | advanceTime duration =>
      change (loop.advanceTime duration).1.Has assertion
      unfold HostLoop.advanceTime
      by_cases exiting : loop.signals.exitRequested = true
      · rw [if_pos exiting]
        exact has
      · rw [if_neg exiting]
        apply kept.fireDueTimers
        exact kept.advance _ has
  | postEvent => exact has
  | postSignal signal => exact has

/-- What holds of a new loop and is kept between calls holds after every
run. -/
theorem run (kept : KeptByLoop assertion) (initially : assertion {} [])
    (script : List Body) (calls : List HostCall) :
    (HostLoop.run script calls).Has assertion := by
  unfold HostLoop.run
  have start : ({ script := script } : HostLoop).Has assertion := initially
  generalize ({ script := script } : HostLoop) = loop at start ⊢
  induction calls generalizing loop with
  | nil => exact start
  | cons first calls induction =>
      apply induction
      exact kept.call first start

end KeptByLoop

end Fusor.Host.EventLoop
