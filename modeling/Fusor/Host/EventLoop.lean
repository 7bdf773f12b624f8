import Mathlib.Tactic
import Fusor.Host.Signals
import Fusor.Host.Timers

/-!
# The host event loop

A turn runs host callbacks: timers, immediates, custom events, and the handlers
of signals, of uncaught exceptions and of unhandled rejections.  The loop does
not see inside the code that it runs, so an execution is what the code did to
the host, in order, and how it ended, and a run reads its executions from a
script.  Jobs of the engine's queue are counted, not told apart.  The log lists
what happened, newest first.
-/

namespace Fusor.Host

/-- The operations of a call, one after the other, with no other call between
them. -/
def SignalState.perform (state : SignalState) : Nat → Point → SignalState
  | 0, _ => state
  | operations + 1, point =>
      match advance state point with
      | none => state
      | some (state, point, _) => state.perform operations point

/-- A call made and completed on the owner task. -/
def SignalState.complete (state : SignalState) (call : Call) : SignalState :=
  state.perform 4 call.start

namespace EventLoop

/-! ## Executions -/

/-- How an execution ends: normally, with a thrown value, or with an execution
error that no handler sees, such as an interrupt. -/
inductive Outcome where
  | completed
  | thrown
  | aborted (interrupted : Bool)
deriving DecidableEq

/-- The execution error of an outcome. -/
def Outcome.error? : Outcome → Option Bool
  | .aborted interrupted => some interrupted
  | .completed | .thrown => none

/-- What the rejection tracker is told about a promise. -/
inductive Rejection where
  | reject (promise : Nat)
  | handle (promise : Nat)
deriving DecidableEq

/-- What running code does to the host.  A custom event may also run jobs
itself: what such a job does follows in the list. -/
inductive Effect where
  | setTimeout (delay : Nat)
  | setInterval (delay : Nat)
  | setImmediate
  | clear (id : Nat)
  | enqueueJob
  | runJob
  | onSigint
  | onUncaughtException
  | onUnhandledRejection
  | exit (code : Int32)
  | deliver (signal : Signal)
  | track (rejection : Rejection)
deriving DecidableEq

structure Body where
  effects : List Effect := []
  outcome : Outcome := .completed
deriving DecidableEq

/-- Where an error that the loop routes came from. -/
inductive Source where
  | timer
  | immediate
  | customEvent
  | sigint
  | job
  | script
  | rejection
deriving DecidableEq

/-- The code that an execution runs.  `completions` settles finished operations
and `rendering` reads the text of an error. -/
inductive Code where
  | timer (id : Nat)
  | immediate (id : Nat)
  | customEvent
  | sigintHandler
  | uncaughtHandler
  | rejectionHandler
  | job
  | script
  | completions
  | rendering (source : Source)
deriving DecidableEq

/-- The host callbacks. -/
def Code.isCallback : Code → Bool
  | .timer _ | .immediate _ | .customEvent => true
  | .sigintHandler | .uncaughtHandler | .rejectionHandler => true
  | .job | .script | .completions | .rendering _ => false

/-- The timer or immediate whose callback the code is. -/
def Code.timer? : Code → Option Nat
  | .timer id | .immediate id => some id
  | _ => none

inductive Kind where
  | timeout
  | interval
  | immediate
deriving DecidableEq

/-- The state of the loop at the end of an execution: the jobs that are
pending, whether a handler of uncaught exceptions is registered, and whether an
immediate that is registered waits in the queue. -/
structure Standing where
  jobs : Nat
  handled : Bool
  waiting : Bool
deriving DecidableEq

/-- `rearming` tells, before a timer is armed again, the entry that fired, the
new entry, and which pending timers have its deadline and sequence.  `sweepCut`
tells, when an error ends a sweep, which other due timers are registered
intervals, and which timer was spent by the error. -/
inductive Event where
  | registered (id : Nat) (kind : Kind)
  | armed (id deadline : Nat)
  | cleared (id : Nat)
  | started (code : Code) (jobs : Nat)
  | finished (code : Code) (outcome : Outcome) (standing : Standing)
  | sweepBegan (now : Nat)
  | rearming (fired entry : TimerEntry) (tied : List Nat)
  | putBack (id : Nat)
  | sweepCut (intervals : List Nat) (spent : Option Nat)
  | sweepEnded
deriving DecidableEq

/-- The error of a turn: an exception that left a job, an aborted execution, or
the fault of a handler that threw. -/
inductive Failure where
  | exception
  | aborted (interrupted : Bool)
  | fault
deriving DecidableEq

/-! ## The loop -/

structure HostLoop where
  timers : TimerState := {}
  signals : SignalState := {}
  sigintHandler : Bool := false
  uncaughtHandler : Bool := false
  unhandledRejectionHandler : Bool := false
  rejections : List Rejection := []
  jobs : Nat := 0
  customEvents : Nat := 0
  script : List Body := []
  log : List Event := []

/-- What a step of the loop returns, with the loop after it. -/
abbrev Turn := HostLoop × Except Failure Unit

/-- The next step is made unless the step before it failed. -/
def Turn.andThen (turn : Turn) (next : HostLoop → Turn) : Turn :=
  match turn.2 with
  | .ok () => next turn.1
  | .error failure => (turn.1, .error failure)

namespace HostLoop

def record (loop : HostLoop) (event : Event) : HostLoop :=
  { loop with log := event :: loop.log }

def signal (loop : HostLoop) (call : Call) : HostLoop :=
  { loop with signals := loop.signals.complete call }

/-- `op_set_timeout` and `op_set_interval`. -/
def setTimer (loop : HostLoop) (repeating : Bool) (delay : Nat) : HostLoop :=
  let id := loop.timers.nextId
  let deadline := loop.timers.now + delay
  { loop with
    timers := loop.timers.push ⟨repeating, delay⟩ deadline
    log := .armed id deadline ::
      .registered id (if repeating then .interval else .timeout) :: loop.log }

/-- `op_set_immediate`. -/
def setImmediate (loop : HostLoop) : HostLoop :=
  { loop with
    timers := loop.timers.pushImmediate ⟨false, 0⟩
    log := .registered loop.timers.nextId .immediate :: loop.log }

/-- `op_clear_timeout` and `op_clear_interval`. -/
def clear (loop : HostLoop) (id : Nat) : HostLoop :=
  { loop with
    timers := loop.timers.cancel id
    log := .cleared id :: loop.log }

def affect (loop : HostLoop) : Effect → HostLoop
  | .setTimeout delay => loop.setTimer false delay
  | .setInterval delay => loop.setTimer true delay
  | .setImmediate => loop.setImmediate
  | .clear id => loop.clear id
  | .enqueueJob => { loop with jobs := loop.jobs + 1 }
  | .runJob => { loop with jobs := loop.jobs - 1 }
  | .onSigint =>
      ({ loop with sigintHandler := true }.signal
        (.setJsSigintHandler true)).signal .consumeInterrupt
  | .onUncaughtException => { loop with uncaughtHandler := true }
  | .onUnhandledRejection => { loop with unhandledRejectionHandler := true }
  | .exit code => loop.signal (.requestExit code)
  | .deliver signal => loop.signal (.deliver signal)
  | .track rejection =>
      { loop with rejections := loop.rejections ++ [rejection] }

def standing (loop : HostLoop) : Standing :=
  ⟨loop.jobs, loop.uncaughtHandler,
    loop.timers.immediates.any loop.timers.registered⟩

/-- The next execution of the script: an execution that the script does not
tell does nothing. -/
def body (loop : HostLoop) : Body := loop.script.headD {}

/-- Runs code. -/
def execute (loop : HostLoop) (code : Code) : HostLoop × Outcome :=
  let ended := loop.body.effects.foldl affect
    ({ loop with script := loop.script.tail }.record (.started code loop.jobs))
  (ended.record (.finished code loop.body.outcome ended.standing),
    loop.body.outcome)

/-- What is left to be done: the executions of the script, the jobs and the
immediates.  It bounds the loops of a turn. -/
def work (loop : HostLoop) : Nat :=
  (loop.script.map fun body => body.effects.length + 1).sum + loop.jobs +
    loop.timers.immediates.length

theorem work_affect (loop : HostLoop) (effect : Effect) :
    (loop.affect effect).work ≤ loop.work + 1 := by
  cases effect <;>
    simp only [affect, setTimer, setImmediate, clear, signal, work,
      TimerState.push, TimerState.pushImmediate, TimerState.cancel,
      TimerState.remove, List.length_append, List.length_singleton] <;>
    omega

theorem work_effects (effects : List Effect) (loop : HostLoop) :
    (effects.foldl affect loop).work ≤ loop.work + effects.length := by
  induction effects generalizing loop with
  | nil => simp
  | cons effect effects induction =>
      have step := loop.work_affect effect
      have rest := induction (loop.affect effect)
      simp only [List.foldl_cons, List.length_cons]
      omega

theorem work_execute (loop : HostLoop) (code : Code) :
    (loop.execute code).1.work ≤ loop.work := by
  have effects := work_effects loop.body.effects
    ({ loop with script := loop.script.tail }.record (.started code loop.jobs))
  cases told : loop.script with
  | nil =>
      simp only [execute, body, told, record, work, List.headD_nil,
        List.foldl_nil, List.tail_nil, le_refl]
  | cons first rest =>
      simp only [execute, body, told, record, work, List.headD_cons,
        List.tail_cons, List.map_cons, List.sum_cons] at effects ⊢
      omega

/-- The microtask checkpoint, as far as the queue of jobs goes: the cleanup of
finalization registries and the waiters of Atomics that are ready are left
out.  An exception that leaves a job leaves the jobs after it in the queue. -/
def drain (loop : HostLoop) : Turn :=
  if loop.jobs = 0 then
    (loop, .ok ())
  else
    let ran := { loop with jobs := loop.jobs - 1 }.execute .job
    match ran.2 with
    | .completed => ran.1.drain
    | .thrown => (ran.1, .error .exception)
    | .aborted interrupted => (ran.1, .error (.aborted interrupted))
termination_by loop.work
decreasing_by
  have step := work_execute { loop with jobs := loop.jobs - 1 } .job
  simp only [work] at step ⊢
  omega

/-- Routes an uncaught exception to the registered handler, or renders it and
requests exit 1. -/
def handleUncaught (loop : HostLoop) (source : Source) : Turn :=
  if loop.uncaughtHandler then
    let ran := loop.execute .uncaughtHandler
    match ran.2 with
    | .completed => ran.1.drain
    | .thrown => (ran.1, .error .fault)
    | .aborted interrupted => (ran.1, .error (.aborted interrupted))
  else
    ((loop.execute (.rendering source)).1.signal (.requestExit 1), .ok ())

/-- The turn-level checkpoint: an exception that leaves a job is routed. -/
def drainRouting (loop : HostLoop) : Turn :=
  let drained := loop.drain
  match drained.2 with
  | .error .exception => drained.1.handleUncaught .job
  | _ => drained

/-- What a callback that ran to its end leads to: an exception is routed, and
an aborted execution fails. -/
def route (ran : HostLoop × Outcome) (source : Source) : Turn :=
  match ran.2 with
  | .completed => (ran.1, .ok ())
  | .thrown => ran.1.handleUncaught source
  | .aborted interrupted => (ran.1, .error (.aborted interrupted))

/-- The handler runs once for each delivery. -/
def runHandlers (loop : HostLoop) : Nat → Turn
  | 0 => (loop, .ok ())
  | pending + 1 =>
      if loop.sigintHandler then
        ((route (loop.execute .sigintHandler) .sigint).andThen drain).andThen
          (·.runHandlers pending)
      else
        (loop, .ok ())

def runSignalHandlers (loop : HostLoop) : Turn :=
  (loop.signal .takePendingSigint).runHandlers loop.signals.pendingSigint.toNat

/-! ## Timers and immediates -/

/-- Arms the repeating timer of an entry that fired.  `swept` are the due
entries of the sweep. -/
def rearm (loop : HostLoop) (swept : List TimerEntry) (fired : TimerEntry)
    (callback : TimerCallback) : HostLoop :=
  let entry := loop.timers.rearmedEntry fired.id callback
  { loop with
    timers := loop.timers.rearm fired.id callback
    log := .putBack fired.id :: .armed fired.id entry.deadline ::
      .rearming fired entry (loop.timers.tied swept entry) :: loop.log }

/-- An error ends a sweep: its other due entries are left as they are. -/
def cut (loop : HostLoop) (others : List TimerEntry) (spent : Option Nat) :
    HostLoop :=
  (loop.record (.sweepCut (loop.timers.intervals others) spent)).record
    .sweepEnded

/-- The callback did not complete its firing and stays registered. -/
def restore (loop : HostLoop) (id : Nat) (callback : TimerCallback) :
    HostLoop :=
  { loop with
    timers := loop.timers.insert id callback
    log := .putBack id :: loop.log }

/-- The entries of a sweep, one after the other.  A repeating timer is armed
again after the checkpoint of its callback. -/
def fireEntries (loop : HostLoop) (fired : List TimerEntry) :
    List TimerEntry → Turn
  | [] =>
      ({ loop with timers := loop.timers.prune fired }.record .sweepEnded,
        .ok ())
  | entry :: due =>
      match loop.timers.callbacks entry.id with
      | none => loop.fireEntries fired due
      | some callback =>
          let ran := { loop with timers := loop.timers.remove entry.id }.execute
            (.timer entry.id)
          match ran.2.error? with
          | some interrupted =>
              ((ran.1.restore entry.id callback).cut (fired ++ due) none,
                .error (.aborted interrupted))
          | none =>
              let drained := (route ran .timer).andThen drain
              match drained.2 with
              | .error failure =>
                  (drained.1.cut (fired ++ due)
                    (if callback.repeating then some entry.id else none),
                    .error failure)
              | .ok () =>
                  if callback.repeating then
                    (drained.1.rearm (entry :: fired ++ due) entry
                      callback).fireEntries (entry :: fired) due
                  else
                    drained.1.fireEntries (entry :: fired) due

/-- The timers that are due at the start of the sweep fire in order. -/
def fireDueTimers (loop : HostLoop) : Turn :=
  (loop.record (.sweepBegan loop.timers.now)).fireEntries [] loop.timers.due

theorem work_drain (loop : HostLoop) : loop.drain.1.work ≤ loop.work := by
  fun_induction drain loop with
  | case1 => exact le_refl _
  | case2 loop pending ran completed induction =>
      have step := work_execute { loop with jobs := loop.jobs - 1 } .job
      apply induction.trans
      apply step.trans
      simp only [work]
      omega
  | case3 loop pending ran thrown =>
      have step := work_execute { loop with jobs := loop.jobs - 1 } .job
      apply step.trans
      simp only [work]
      omega
  | case4 loop pending ran interrupted aborted =>
      have step := work_execute { loop with jobs := loop.jobs - 1 } .job
      apply step.trans
      simp only [work]
      omega

theorem work_handleUncaught (loop : HostLoop) (source : Source) :
    (loop.handleUncaught source).1.work ≤ loop.work := by
  have handler := loop.work_execute .uncaughtHandler
  unfold handleUncaught
  by_cases registered : loop.uncaughtHandler = true
  · rw [if_pos registered]
    cases ended : (loop.execute .uncaughtHandler).2 with
    | completed =>
        simp only [ended]
        exact (work_drain _).trans handler
    | thrown =>
        simp only [ended]
        exact handler
    | aborted interrupted =>
        simp only [ended]
        exact handler
  · rw [if_neg registered]
    exact loop.work_execute (.rendering source)

theorem work_route (ran : HostLoop × Outcome) (source : Source) :
    (route ran source).1.work ≤ ran.1.work := by
  unfold route
  cases ran.2 with
  | completed => exact le_refl _
  | thrown => exact work_handleUncaught ran.1 source
  | aborted interrupted => exact le_refl _

/-- Takes the first immediate out of the queue. -/
def popImmediate (loop : HostLoop) (rest : List Nat) : HostLoop :=
  { loop with timers := { loop.timers with immediates := rest } }

/-- An immediate that did not complete goes back to the front of the queue. -/
def restoreImmediate (loop : HostLoop) (id : Nat) (callback : TimerCallback) :
    HostLoop :=
  { loop with
    timers := { loop.timers with
      immediates := id :: loop.timers.immediates }.insert id callback
    log := .putBack id :: loop.log }

/-- Every queued immediate runs once, with no checkpoint between two of
them. -/
def runImmediates (loop : HostLoop) : Turn :=
  match queue : loop.timers.immediates with
  | [] => (loop, .ok ())
  | id :: rest =>
      let popped := loop.popImmediate rest
      match loop.timers.callbacks id with
      | none => popped.runImmediates
      | some callback =>
          let ran := { popped with timers := popped.timers.remove id }.execute
            (.immediate id)
          match ran.2.error? with
          | some interrupted =>
              (ran.1.restoreImmediate id callback,
                .error (.aborted interrupted))
          | none =>
              let routed := route ran .immediate
              match routed.2 with
              | .error failure => (routed.1, .error failure)
              | .ok () => routed.1.runImmediates
termination_by loop.work
decreasing_by
  · simp only [work, popImmediate, queue, List.length_cons]
    omega
  · have routing := work_route
      ({ loop.popImmediate rest with
        timers := (loop.popImmediate rest).timers.remove id }.execute
          (.immediate id)) .immediate
    have running := work_execute
      { loop.popImmediate rest with
        timers := (loop.popImmediate rest).timers.remove id } (.immediate id)
    have smaller := routing.trans running
    simp only [work, popImmediate, TimerState.remove, queue,
      List.length_cons] at smaller ⊢
    omega

/-! ## Turns -/

/-- The queued custom events.  An event that failed is dropped, and the events
after it stay in the queue. -/
def runCustomEvents (loop : HostLoop) : Nat → Turn
  | 0 => (loop, .ok ())
  | events + 1 =>
      ((route ({ loop with customEvents := events }.execute .customEvent)
        .customEvent).andThen drainRouting).andThen (·.runCustomEvents events)

/-- The rejections that gained no handler: a `handle` cancels the rejection of
its promise. -/
def unhandled (rejections : List Rejection) : List Nat :=
  rejections.foldl (fun pending rejection =>
    match rejection with
    | .reject promise => pending ++ [promise]
    | .handle promise => pending.filter (· ≠ promise)) []

/-- `handled` is whether a handler was registered when the rejections were
taken. -/
def reportRejections (loop : HostLoop) (handled : Bool) : List Nat → Turn
  | [] => (loop, .ok ())
  | _ :: promises =>
      if handled then
        let ran := loop.execute .rejectionHandler
        match ran.2 with
        | .completed =>
            ran.1.drain.andThen (·.reportRejections handled promises)
        | .thrown => (ran.1, .error .fault)
        | .aborted interrupted => (ran.1, .error (.aborted interrupted))
      else
        ((loop.execute (.rendering .rejection)).1.signal
          (.requestExit 1)).reportRejections handled promises

def handlePromiseRejections (loop : HostLoop) : Turn :=
  { loop with rejections := [] }.reportRejections
    loop.unhandledRejectionHandler (unhandled loop.rejections)

def pollOpCompletions (loop : HostLoop) : HostLoop :=
  (loop.execute .completions).1

def runTurnBody (loop : HostLoop) : Turn :=
  let polled := loop.pollOpCompletions.drainRouting
  let swept := (polled.andThen runSignalHandlers).andThen fireDueTimers
  let events := swept.andThen fun loop => loop.runCustomEvents loop.customEvents
  let immediates := (events.andThen runImmediates).andThen drainRouting
  immediates.andThen handlePromiseRejections

/-- One turn.  An interrupt request is spent by the execution that it aborts,
and dies with a turn that nothing aborted. -/
def runOneTurn (loop : HostLoop) : Turn :=
  if loop.signals.exitRequested then
    (loop, .ok ())
  else
    let turn := loop.runTurnBody
    match turn.2 with
    | .error (.aborted true) => (turn.1.signal .consumeInterrupt, turn.2)
    | .error _ => turn
    | .ok () =>
        if turn.1.signals.interrupt then
          (turn.1.signal .consumeInterrupt, .ok ())
        else
          turn

def advanceTo (loop : HostLoop) (deadline : Nat) : Turn :=
  { loop with
    timers := { loop.timers with
      now := max loop.timers.now deadline } }.fireDueTimers

def advanceTime (loop : HostLoop) (duration : Nat) : Turn :=
  if loop.signals.exitRequested then
    (loop, .ok ())
  else
    loop.advanceTo (loop.timers.now + duration)

/-- The checkpoint that ends an evaluation.  It is made when the code threw,
and not when it was aborted. -/
def completeHostTurn (ran : HostLoop × Outcome) : Turn :=
  match ran.2 with
  | .completed => ran.1.drain
  | .thrown => ran.1.drain.andThen fun drained => (drained, .error .exception)
  | .aborted interrupted => (ran.1, .error (.aborted interrupted))

/-- The evaluation of the main script, which `run_main` begins with.  The turns
and the advances of the clock after it are calls of their own. -/
def runScript (loop : HostLoop) : Turn :=
  let evaluated := completeHostTurn (loop.execute .script)
  match evaluated.2 with
  | .ok () => evaluated
  | .error .exception => evaluated.1.handleUncaught .script
  | .error (.aborted true) =>
      (evaluated.1.signal .consumeInterrupt, evaluated.2)
  | .error _ => evaluated

def postEvent (loop : HostLoop) : HostLoop :=
  { loop with customEvents := loop.customEvents + 1 }

end HostLoop

/-- What the embedder and the delivery of signals call between turns. -/
inductive HostCall where
  | runScript
  | runOneTurn
  | advanceTime (duration : Nat)
  | postEvent
  | postSignal (signal : Signal)
deriving DecidableEq

namespace HostLoop

def call (loop : HostLoop) : HostCall → HostLoop
  | .runScript => loop.runScript.1
  | .runOneTurn => loop.runOneTurn.1
  | .advanceTime duration => (loop.advanceTime duration).1
  | .postEvent => loop.postEvent
  | .postSignal signal => loop.signal (.deliver signal)

/-- A run of the loop: calls, and the executions that they make. -/
def run (script : List Body) (calls : List HostCall) : HostLoop :=
  calls.foldl call { script := script }

end HostLoop

end EventLoop

end Fusor.Host
