import Fusor.Host.SweepSteps

/-!
# No timer is lost, duplicated or fired early

The final pruning of a sweep drops the entries that fired, compared as whole
entries.  An interval that is armed again with the entry that it fired with
loses its entry, an error that ends a sweep leaves the entries that fired in the
heap beside the new ones, and intervals armed again for one deadline are ordered
by their identities.  In runs in which none of this happens, every registered
timer is pending once, and sweeps start the due timers in order.
-/

namespace Fusor.Host.EventLoop

open Fusor.Support

/-! ## Immediates -/

namespace Pending

variable {fired due : List TimerEntry} {timers : TimerState}
  {log : List Event} {id : Nat}

/-- An immediate that is gone leaves the queue. -/
theorem pop (state : Pending fired due timers log) {rest : List Nat}
    (queue : timers.immediates = id :: rest)
    (out : timers.callbacks id = none) :
    Pending fired due { timers with immediates := rest } log :=
  { state with
    queueBelow := by
      intro other member
      apply state.queueBelow
      rw [queue]
      exact List.mem_cons_of_mem _ member
    timer := by
      intro other holds notImmediate
      obtain ⟨once, apart⟩ := state.timer other holds notImmediate
      refine ⟨once, ?_⟩
      intro member
      apply apart
      rw [queue]
      exact List.mem_cons_of_mem _ member
    immediate := by
      intro other holds member
      obtain ⟨once, apart⟩ := state.immediate other holds member
      refine ⟨?_, apart⟩
      rw [queue, List.count_cons_of_ne] at once
      · exact once
      · rintro rfl
        exact holds out
    armed := fun entry live =>
      state.armed entry ⟨live.member, live.unfired, live.held⟩
    ordered := fun first second firstLive secondLive =>
      state.ordered first second
        ⟨firstLive.member, firstLive.unfired, firstLive.held⟩
        ⟨secondLive.member, secondLive.unfired, secondLive.held⟩ }

theorem setClock (state : Pending fired due timers log) (now : Nat) :
    Pending fired due { timers with now := now } log :=
  { state with
    armed := fun entry live =>
      state.armed entry ⟨live.member, live.unfired, live.held⟩
    ordered := fun first second firstLive secondLive =>
      state.ordered first second
        ⟨firstLive.member, firstLive.unfired, firstLive.held⟩
        ⟨secondLive.member, secondLive.unfired, secondLive.held⟩ }

/-- The callback of an immediate starts. -/
theorem startImmediate (state : Pending fired due timers log)
    (holds : timers.Holds id) (jobs : Nat) :
    Pending fired due timers (.started (.immediate id) jobs :: log) := by
  apply state.note rfl (fun _ => rfl) _ (startsInOrder_quiet rfl)
    (sweepsIntervals_quiet rfl)
  · intro other pending
    simp only [incomplete, Code.timer?, Option.some.injEq] at pending
    by_cases same : id = other
    · simp [same] at pending
    · rw [if_neg same] at pending
      exact state.stays other pending
  · intro other named
    simp only [Event.concerns, Code.timer?, beq_iff_eq,
      Option.some.injEq] at named
    rw [← named]
    exact state.concerned holds

end Pending

/-! ## The guard -/

/-- An interval that is armed again gets an entry other than the one that
fired, and the pending timers with the deadline and the sequence of the new
entry have smaller identities.  An error ends a sweep only when none of its
other due timers is a registered interval, and an interval is spent by an error
only when it was cleared since its callback started. -/
def SweepStep (event : Event) (older : List Event) : Prop :=
  (∀ fired entry tied, event = .rearming fired entry tied →
    entry ≠ fired ∧ ∀ id ∈ tied, id < entry.id) ∧
  (∀ intervals spent, event = .sweepCut intervals spent →
    intervals = [] ∧
      ∀ id, spent = some id → clearedSinceStart id older = true)

/-- Identities are not handed out twice, and every step of a sweep is as
`SweepStep` says. -/
def SweepGuard (log : List Event) : Prop :=
  Few log ∧ Throughout SweepStep log

theorem SweepGuard.earlier : Earlier SweepGuard := by
  intro event log guarded
  exact ⟨Few.earlier guarded.1, (throughout_cons.mp guarded.2).2⟩

theorem SweepGuard.step {event : Event} {log : List Event}
    (guarded : SweepGuard (event :: log)) : SweepStep event log :=
  (throughout_cons.mp guarded.2).1

theorem KeptUnder.sweeping {assertion : Assertion}
    (kept : KeptUnder Few assertion) :
    Kept (Under SweepGuard assertion) := by
  apply KeptUnder.kept _ SweepGuard.earlier
  exact {
    setTimer := fun repeating delay guarded =>
      kept.setTimer repeating delay guarded.1
    setImmediate := fun guarded => kept.setImmediate guarded.1
    clear := kept.clear
    start := kept.start
    finish := kept.finish }

/-! ## Callbacks that run -/

theorem Aloft.keptSweep (entry : TimerEntry) (callback : TimerCallback)
    (ended : Bool) (fired due : List TimerEntry) :
    Kept (Under SweepGuard
      (Aloft [] entry.id callback ended (Sweep [entry] fired due))) := by
  apply KeptUnder.sweeping
  apply Aloft.kept _ _ _ _ (Sweep.kept [entry] fired due)
  · intro timers log sweep
    exact sweep.toLedger
  · intro timers log sweep
    exact sweep.noteClear entry.id

theorem Aloft.keptPending (id : Nat) (callback : TimerCallback)
    (ended : Bool) :
    Kept (Under SweepGuard
      (Aloft [id] id callback ended (Pending [] []))) := by
  apply KeptUnder.sweeping
  apply Aloft.kept _ _ _ _ (Pending.kept [] [])
  · intro timers log pending
    exact pending.toLedger
  · intro timers log pending
    exact pending.noteClear id

/-- The callback ends. -/
theorem Aloft.land {front : List Nat} {id : Nat} {callback : TimerCallback}
    {assertion : Assertion} {timers : TimerState} {log : List Event}
    {code : Code} (aloft : Aloft front id callback false assertion timers log)
    (names : code.timer? = some id) (outcome : Outcome) (standing : Standing)
    (virtual : assertion (timers.restored front id callback)
      (.finished code outcome standing :: log)) :
    Aloft front id callback outcome.error?.isNone assertion timers
      (.finished code outcome standing :: log) where
  out := aloft.out
  known := aloft.known.cons _
  since := by
    intro gone
    rw [cancelled_cons_of_ne (by simp)]
    apply aloft.since
    simpa [clearedSinceStart, Event.starts] using gone
  complete := by
    intro completed
    rw [List.countP_cons_of_pos (by simp [Event.completes, names, completed])]
    refine ⟨Nat.succ_pos _, ?_⟩
    rw [Option.isNone_iff_eq_none] at completed
    simp only [incomplete, names, if_true, completed, Option.isSome_none]
  virtual := virtual

/-- A callback that ran to its end and does not repeat is gone. -/
theorem Aloft.spent {front : List Nat} {id : Nat} {callback : TimerCallback}
    {assertion : Assertion} {timers : TimerState} {log : List Event}
    (aloft : Aloft front id callback true assertion timers log)
    (ledger : Ledger (timers.restored front id callback) log)
    (single : callback.repeating = false) {kind : Kind}
    (member : .registered id kind ∈ log)
    (pending : kind = .interval ∨ log.countP (Event.completes id) = 0) :
    False := by
  obtain ⟨count, -⟩ := aloft.complete rfl
  obtain ⟨own, registered, agrees⟩ := aloft.known
  rcases pending with interval | none
  · rw [ledger.kinds id kind own member registered, ← agrees, single]
      at interval
    exact absurd interval (by decide)
  · omega

/-- The sweep drops the callback of an entry that does not come back. -/
theorem Aloft.leave {entry : TimerEntry} {callback : TimerCallback}
    {fired due : List TimerEntry} {timers : TimerState} {log : List Event}
    (aloft : Aloft [] entry.id callback true (Sweep [entry] fired due) timers
      log)
    (gone : callback.repeating = false ∨
      clearedSinceStart entry.id log = true) :
    Sweep [entry] fired due timers log := by
  have left : Sweep [entry] fired due
      ((timers.restored [] entry.id callback).remove entry.id) log := by
    apply aloft.virtual.drop _ (aloft.complete rfl).2
      (aloft.virtual.heldApart entry List.mem_cons_self).1
    intro kind member uncleared pending
    rcases gone with single | cleared
    · exact aloft.spent aloft.virtual.toLedger single member pending
    · rw [aloft.since cleared] at uncleared
      exact absurd uncleared (by decide)
  rwa [TimerState.remove_restored aloft.out] at left

/-! ## Sweeps and immediates -/

theorem tied_mem {timers : TimerState} {swept : List TimerEntry}
    {entry other : TimerEntry} (member : other ∈ timers.heap)
    (apart : other ∉ swept) (holds : timers.Holds other.id)
    (deadline : other.deadline = entry.deadline)
    (sequence : other.sequence = entry.sequence) :
    other.id ∈ timers.tied swept entry := by
  apply List.mem_map_of_mem
  simp [member, apart, holds, deadline, sequence]

/-- What the guard says of an interval that is armed again. -/
theorem Aloft.rearming {entry : TimerEntry} {callback : TimerCallback}
    {fired due : List TimerEntry} {timers : TimerState} {log : List Event}
    (aloft : Aloft [] entry.id callback true (Sweep [entry] fired due) timers
      log) (repeating : callback.repeating = true)
    (changed : timers.rearmedEntry entry.id callback ≠ entry)
    (untied : ∀ id ∈ timers.tied (entry :: fired ++ due)
      (timers.rearmedEntry entry.id callback), id < entry.id) :
    Rearming fired due (timers.restored [] entry.id callback) log entry
      (timers.rearmedEntry entry.id callback) where
  toSweep := aloft.virtual
  holds := TimerState.holds_restored
  repeats := by
    intro stored found
    change Function.update _ _ _ _ = _ at found
    rw [Function.update_self] at found
    cases found
    exact repeating
  isTimer := by
    intro member
    obtain ⟨kind, registered, agrees⟩ := aloft.known
    have same := aloft.virtual.kinds _ _ _ member registered
    rw [agrees, ← same] at repeating
    simp at repeating
  newId := rfl
  newSequence := rfl
  changed := changed
  untied := by
    intro other member apart holds distinct deadline sequence
    apply untied
    have member : other ∈ timers.heap := member
    apply tied_mem member apart _ deadline sequence
    rcases TimerState.holds_insert.mp holds with same | holds
    · exact absurd same distinct
    · exact holds

theorem sweeping_rule : SweepRule (Under SweepGuard (Pending [] []))
    (fun fired due => Under SweepGuard (Sweep [] fired due))
    (fun fired due entry callback => Under SweepGuard
      (Aloft [] entry.id callback false (Sweep [entry] fired due)))
    (fun fired due entry callback => Under SweepGuard
      (Aloft [] entry.id callback true (Sweep [entry] fired due))) where
  keepFlying fired due entry callback :=
    Aloft.keptSweep entry callback false fired due
  keepLanded fired due entry callback :=
    Aloft.keptSweep entry callback true fired due
  skip has stored guarded := (has guarded).skip stored
  take {fired due entry callback timers log} jobs has stored guarded := by
    have sweep := has guarded.earlier
    have holds : timers.Holds entry.id := by
      unfold TimerState.Holds
      rw [stored]
      simp
    have known : Known entry.id callback log :=
      sweep.callbacks entry.id callback stored
    exact {
      out := TimerState.remove_self
      known := known.cons _
      since := by simp [clearedSinceStart, Event.starts, Code.timer?]
      complete := by simp
      virtual := by
        rw [TimerState.restored_remove stored]
        exact sweep.take holds jobs }
  abort {fired due entry callback timers log} interrupted standing has
      guarded := by
    have cut := guarded.earlier
    have aloft := has cut.earlier.earlier.earlier
    have landed := aloft.virtual.land
      (show (Code.timer entry.id).timer? = some entry.id from rfl)
      TimerState.holds_restored (.aborted interrupted) standing
    have none := (cut.step.2 _ _ rfl).1
    exact ((landed.inert rfl).inert rfl).cut none
  land {fired due entry callback timers log} outcome standing ended has
      guarded := by
    have aloft := has guarded.earlier
    have names : (Code.timer entry.id).timer? = some entry.id := rfl
    have landed := aloft.land names outcome standing
      (aloft.virtual.land names TimerState.holds_restored outcome standing)
    rwa [ended] at landed
  fail {fired due entry callback timers log} has guarded := by
    have cut := guarded.earlier
    have aloft := has cut.earlier
    obtain ⟨none, spent⟩ := cut.step.2 _ _ rfl
    have gone : callback.repeating = false ∨
        clearedSinceStart entry.id log = true := by
      cases repeating : callback.repeating with
      | false => exact .inl rfl
      | true =>
          right
          apply spent
          rw [repeating]
          rfl
    exact ((aloft.leave gone).inert rfl).cut none
  spend {fired due entry callback timers log} single has guarded := by
    have aloft := has guarded
    exact (aloft.leave (.inl single)).spend aloft.out
  rearm {fired due entry callback timers log} repeating has guarded := by
    have noted := guarded.earlier.earlier
    obtain ⟨changed, untied⟩ := noted.step.1 _ _ _ rfl
    have aloft := has noted.earlier
    have aloft : Aloft [] entry.id callback true (Sweep [entry] fired due)
        timers (.rearming entry (timers.rearmedEntry entry.id callback)
          (timers.tied (entry :: fired ++ due)
            (timers.rearmedEntry entry.id callback)) :: log) :=
      aloft.note rfl (by simp) rfl aloft.out (aloft.virtual.inert rfl)
    have rearming := aloft.rearming repeating changed untied
    exact rearming.resume.inert rfl
  finish has guarded := (has guarded.earlier).prune

/-- The immediate that runs is at the front of the queue. -/
theorem Aloft.isImmediate {id : Nat} {callback : TimerCallback} {ended : Bool}
    {timers : TimerState} {log : List Event}
    (aloft : Aloft [id] id callback ended (Pending [] []) timers log) :
    .registered id .immediate ∈ log := by
  by_contra notImmediate
  have apart := (aloft.virtual.timer id TimerState.holds_restored
    notImmediate).2
  exact apart List.mem_cons_self

theorem immediate_rule : ImmediateRule (Under SweepGuard (Pending [] []))
    (fun id callback => Under SweepGuard
      (Aloft [id] id callback false (Pending [] [])))
    (fun id callback => Under SweepGuard
      (Aloft [id] id callback true (Pending [] []))) where
  keepFlying id callback := Aloft.keptPending id callback false
  keepLanded id callback := Aloft.keptPending id callback true
  skip has queue stored guarded := (has guarded).pop queue stored
  take {id rest callback timers log} jobs has queue stored guarded := by
    have pending := has guarded.earlier
    have holds : timers.Holds id := by
      unfold TimerState.Holds
      rw [stored]
      simp
    have known : Known id callback log := pending.callbacks id callback stored
    exact {
      out := TimerState.remove_self
      known := known.cons _
      since := by simp [clearedSinceStart, Event.starts, Code.timer?]
      complete := by simp
      virtual := by
        have place : ({ timers with immediates := rest }.remove id).restored
            [id] id callback = timers := by
          simp only [TimerState.restored, TimerState.insert,
            TimerState.remove, List.singleton_append, Function.update_idem]
          rw [← stored, Function.update_eq_self, ← queue]
        rw [place]
        exact pending.startImmediate holds jobs }
  abort {id callback timers log} interrupted standing has guarded := by
    have aloft := has guarded.earlier.earlier
    have landed := aloft.virtual.finishTimer
      (show (Code.immediate id).timer? = some id from rfl)
      TimerState.holds_restored (.aborted interrupted) standing
    exact landed.inert rfl
  land {id callback timers log} outcome standing ended has guarded := by
    have aloft := has guarded.earlier
    have names : (Code.immediate id).timer? = some id := rfl
    have landed := aloft.land names outcome standing
      (aloft.virtual.finishTimer names TimerState.holds_restored outcome
        standing)
    rwa [ended] at landed
  rest {id callback timers log} has guarded := by
    have aloft := has guarded
    have single : callback.repeating = false := by
      obtain ⟨kind, registered, agrees⟩ := aloft.known
      have same := aloft.virtual.kinds id _ _ aloft.isImmediate registered
      rw [← Bool.not_eq_true, agrees, ← same]
      simp
    have left : Pending [] []
        ((timers.restored [id] id callback).remove id) log := by
      apply aloft.virtual.drop _ (aloft.complete rfl).2
      intro kind member uncleared pending
      exact aloft.spent aloft.virtual.toLedger single member pending
    have popped := left.pop rfl TimerState.remove_self
    have place : ({ (timers.restored [id] id callback).remove id with
        immediates := timers.immediates } : TimerState) = timers := by
      simp only [TimerState.restored, TimerState.insert, TimerState.remove,
        Function.update_idem]
      rw [← aloft.out, Function.update_eq_self]
    exact (congrArg (fun state => Pending [] [] state log) place).mp popped

/-! ## Runs -/

theorem timers_loop : KeptByLoop (Under SweepGuard (Pending [] [])) where
  toKept := (Pending.kept [] []).sweeping
  fireDueTimers has := by
    apply sweeping_rule.fireEntries
    intro guarded
    exact (has guarded.earlier).sweep
  runImmediates has := immediate_rule.runImmediates has
  advance now has guarded := (has guarded).setClock now

theorem pending_initially : Pending [] [] {} [] where
  nextId := rfl
  below := by simp
  kinds := by simp
  callbacks := by simp
  heapBelow := by simp
  queueBelow := by simp
  firedBelow := by simp
  sequenceFits := by simp
  sequences := by simp
  timer := by simp [TimerState.Holds]
  immediate := by simp [TimerState.Holds]
  armed := by
    intro entry live
    exact absurd live.member (by simp)
  ordered := by
    intro first second live
    exact absurd live.member (by simp)
  firedRepeats := by simp
  startsInOrder := throughout_nil
  sweepsIntervals := throughout_nil
  notLost := by simp
  stays := by simp [incomplete]

/-- Between calls: every registered timer has one heap entry and every
registered immediate one place in the queue.  Sweeps started each timer at most
once, not before its deadline and in order, and started the intervals that were
due.  A timer that is neither cleared nor completed is registered, and so is a
callback that did not complete. -/
structure TimersKept (loop : HostLoop) : Prop where
  timer : ∀ id, loop.timers.Holds id →
    .registered id .immediate ∉ loop.log →
    loop.timers.heap.countP (·.id == id) = 1 ∧ id ∉ loop.timers.immediates
  immediate : ∀ id, loop.timers.Holds id →
    .registered id .immediate ∈ loop.log →
    loop.timers.immediates.count id = 1 ∧
      ∀ entry ∈ loop.timers.heap, entry.id ≠ id
  startsInOrder : Throughout StartsInOrder loop.log
  sweepsIntervals : Throughout SweepsIntervals loop.log
  notLost : ∀ id kind, .registered id kind ∈ loop.log →
    cancelled id loop.log = false →
    kind = .interval ∨ loop.log.countP (Event.completes id) = 0 →
    loop.timers.Holds id
  stays : ∀ id, incomplete id loop.log = true → loop.timers.Holds id

/-- In a run that meets the guard no timer is lost, duplicated or fired
early. -/
theorem timersKept_of_guard (script : List Body) (calls : List HostCall)
    (guarded : SweepGuard (HostLoop.run script calls).log) :
    TimersKept (HostLoop.run script calls) := by
  have pending := timers_loop.run (fun _ => pending_initially) script calls
    guarded
  exact {
    timer := by
      intro id holds notImmediate
      rw [← Pending.occurrences_nil]
      exact pending.timer id holds notImmediate
    immediate := pending.immediate
    startsInOrder := pending.startsInOrder
    sweepsIntervals := pending.sweepsIntervals
    notLost := pending.notLost
    stays := pending.stays }

/-- An interval of 10 ms fires twice, and a timeout for the same deadline fires
after it. -/
theorem timersKept_of_guard_interval :
    TimersKept (HostLoop.run
      [⟨[.setInterval 10, .setTimeout 10], .completed⟩]
      [.runScript, .advanceTime 10, .advanceTime 10]) := by
  apply timersKept_of_guard
  let idle : Standing := ⟨0, false, false⟩
  have log : (HostLoop.run
      [⟨[.setInterval 10, .setTimeout 10], .completed⟩]
      [.runScript, .advanceTime 10, .advanceTime 10]).log =
      [.sweepEnded, .putBack 0, .armed 0 30,
        .rearming ⟨20, 2, 0⟩ ⟨30, 2, 0⟩ [],
        .finished (.timer 0) .completed idle, .started (.timer 0) 0,
        .sweepBegan 20, .sweepEnded, .finished (.timer 1) .completed idle,
        .started (.timer 1) 0, .putBack 0, .armed 0 20,
        .rearming ⟨10, 0, 0⟩ ⟨20, 2, 0⟩ [],
        .finished (.timer 0) .completed idle, .started (.timer 0) 0,
        .sweepBegan 10, .finished .script .completed idle, .armed 1 10,
        .registered 1 .timeout, .armed 0 10, .registered 0 .interval,
        .started .script 0] := by
    decide +kernel
  constructor
  · unfold Few
    decide +kernel
  · rw [log]
    simp only [throughout_cons, SweepStep, reduceCtorEq, false_implies,
      implies_true, and_self, true_and, and_true, throughout_nil,
      Event.rearming.injEq]
    constructor
    · rintro fired entry tied ⟨rfl, rfl, rfl⟩
      simp
    · rintro fired entry tied ⟨rfl, rfl, rfl⟩
      simp

/-- An interval of 0 ms is lost in the second turn of the idle loop, which fires
it again without moving the clock: the entry with which it is armed again is
the entry that fired, and is pruned. -/
theorem timersKept_fails_on_zero_delay :
    ¬ TimersKept (HostLoop.run [⟨[.setInterval 0], .completed⟩]
      [.runScript, .runOneTurn, .runOneTurn]) := by
  intro kept
  have holds : (HostLoop.run [⟨[.setInterval 0], .completed⟩]
      [.runScript, .runOneTurn, .runOneTurn]).timers.Holds 0 := by
    unfold TimerState.Holds
    decide +kernel
  have once := (kept.timer 0 holds (by decide +kernel)).1
  exact absurd once (by decide +kernel)

end Fusor.Host.EventLoop
