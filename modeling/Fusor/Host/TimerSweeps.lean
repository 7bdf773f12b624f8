import Fusor.Host.PendingTimers

/-!
# Sweeps

A sweep fires the entries that were due when it began.  While a callback runs,
the timers are as they would be with the callback still in its place, and the
entries that follow in the sweep are those of registered timers that no start
of the sweep has overtaken.
-/

namespace Fusor.Host.EventLoop

open Fusor.Support

/-! ## The state of a sweep -/

/-- `held` is the entry whose callback runs. -/
structure Sweep (held fired due : List TimerEntry) (timers : TimerState)
    (log : List Event) : Prop extends
    Pending fired (held ++ due) timers log where
  heldLive : ∀ entry ∈ held, timers.Holds entry.id → Live fired timers entry
  heldApart : ∀ entry ∈ held,
    (∀ other ∈ due, other.id ≠ entry.id) ∧
      ∀ other ∈ fired, other.id ≠ entry.id
  heldBelow : ∀ entry ∈ held, entry.id < registrations log
  clock : sweepClock log = some timers.now
  dueBelow : ∀ entry ∈ due, entry.id < registrations log
  live : ∀ entry ∈ due, timers.Holds entry.id →
    Live fired timers entry ∧ entry.deadline ≤ timers.now
  once : ∀ id, timers.Holds id → due.countP (·.id == id) ≤ 1
  sorted : due.Pairwise TimerEntry.before
  apart : ∀ entry ∈ due, timers.Holds entry.id →
    ∀ other ∈ fired, other.id ≠ entry.id
  later : ∀ entry ∈ due, timers.Holds entry.id →
    ∀ start ∈ sweepStarts log, start.1 ≠ entry.id ∧
      ∃ earlier armed time, start.2 = some (earlier, armed) ∧
        lastArmed entry.id log = some (entry.deadline, time) ∧
        (earlier < entry.deadline ∨ earlier = entry.deadline ∧ armed < time)
  covered : ∀ id deadline time, .registered id .interval ∈ beforeSweep log →
    cancelled id (beforeSweep log) = false →
    lastArmed id (beforeSweep log) = some (deadline, time) →
    deadline ≤ timers.now →
    (insideSweep log).any (Event.starts id) = true ∨
      .cleared id ∈ insideSweep log ∨
      timers.Holds id ∧ ∃ entry ∈ due, entry.id = id

/-- The events that neither begin a sweep nor start a timer. -/
def Event.isQuiet : Event → Bool
  | .sweepBegan _ | .started (.timer _) _ => false
  | _ => true

section Quiet

variable {event : Event} {log : List Event}

theorem sweepClock_quiet (quiet : event.isQuiet = true) :
    sweepClock (event :: log) = sweepClock log := by
  cases event with
  | sweepBegan now => simp [Event.isQuiet] at quiet
  | _ => rfl

theorem insideSweep_quiet (quiet : event.isQuiet = true) :
    insideSweep (event :: log) = event :: insideSweep log := by
  cases event with
  | sweepBegan now => simp [Event.isQuiet] at quiet
  | _ => rfl

theorem beforeSweep_quiet (quiet : event.isQuiet = true) :
    beforeSweep (event :: log) = beforeSweep log := by
  cases event with
  | sweepBegan now => simp [Event.isQuiet] at quiet
  | _ => rfl

theorem sweepStarts_quiet (quiet : event.isQuiet = true) :
    sweepStarts (event :: log) = sweepStarts log := by
  cases event with
  | sweepBegan now => simp [Event.isQuiet] at quiet
  | started code jobs =>
      cases code with
      | timer id => simp [Event.isQuiet] at quiet
      | _ => rfl
  | _ => rfl

end Quiet

/-- The events that happened keep the sweep as it is: they are quiet, and leave
the entries that follow in the sweep where they are. -/
structure Quietly (timers next : TimerState)
    (log : List Event) (events : List Event) : Prop where
  quiet : ∀ event ∈ events, event.isQuiet = true
  now : next.now = timers.now
  heap : ∀ entry ∈ timers.heap, entry ∈ next.heap
  held : ∀ id, id < registrations log → next.Holds id → timers.Holds id
  kept : ∀ id, timers.Holds id → next.Holds id ∨ .cleared id ∈ events
  armed : ∀ id, id < registrations log →
    lastArmed id (events ++ log) = lastArmed id log

section Append

variable {log : List Event}

theorem sweepClock_append {events : List Event}
    (quiet : ∀ event ∈ events, event.isQuiet = true) :
    sweepClock (events ++ log) = sweepClock log := by
  induction events with
  | nil => rfl
  | cons event events induction =>
      rw [List.forall_mem_cons] at quiet
      exact (sweepClock_quiet quiet.1).trans (induction quiet.2)

theorem insideSweep_append {events : List Event}
    (quiet : ∀ event ∈ events, event.isQuiet = true) :
    insideSweep (events ++ log) = events ++ insideSweep log := by
  induction events with
  | nil => rfl
  | cons event events induction =>
      rw [List.forall_mem_cons] at quiet
      rw [List.cons_append, insideSweep_quiet quiet.1, induction quiet.2,
        List.cons_append]

theorem beforeSweep_append {events : List Event}
    (quiet : ∀ event ∈ events, event.isQuiet = true) :
    beforeSweep (events ++ log) = beforeSweep log := by
  induction events with
  | nil => rfl
  | cons event events induction =>
      rw [List.forall_mem_cons] at quiet
      exact (beforeSweep_quiet quiet.1).trans (induction quiet.2)

theorem sweepStarts_append {events : List Event}
    (quiet : ∀ event ∈ events, event.isQuiet = true) :
    sweepStarts (events ++ log) = sweepStarts log := by
  induction events with
  | nil => rfl
  | cons event events induction =>
      rw [List.forall_mem_cons] at quiet
      exact (sweepStarts_quiet quiet.1).trans (induction quiet.2)

end Append

namespace Sweep

variable {held fired due : List TimerEntry} {timers next : TimerState}
  {log : List Event}

theorem quietly (sweep : Sweep held fired due timers log)
    {events : List Event} (quietly : Quietly timers next log events)
    (pending : Pending fired (held ++ due) next (events ++ log)) :
    Sweep held fired due next (events ++ log) where
  toPending := pending
  heldLive := by
    intro entry member holds
    have live := sweep.heldLive entry member
      (quietly.held entry.id (sweep.heldBelow entry member) holds)
    exact ⟨quietly.heap entry live.member, live.unfired, holds⟩
  heldApart := sweep.heldApart
  heldBelow := by
    intro entry member
    rw [registrations, List.countP_append]
    exact Nat.lt_add_left _ (sweep.heldBelow entry member)
  clock := by
    rw [sweepClock_append quietly.quiet, quietly.now]
    exact sweep.clock
  dueBelow := by
    intro entry member
    rw [registrations, List.countP_append]
    exact Nat.lt_add_left _ (sweep.dueBelow entry member)
  live := by
    intro entry member holds
    obtain ⟨live, reached⟩ := sweep.live entry member
      (quietly.held entry.id (sweep.dueBelow entry member) holds)
    rw [quietly.now]
    exact ⟨⟨quietly.heap entry live.member, live.unfired, holds⟩, reached⟩
  once := by
    intro id holds
    by_cases known : id < registrations log
    · exact sweep.once id (quietly.held id known holds)
    · rw [List.countP_eq_zero.mpr]
      · exact Nat.zero_le 1
      · intro entry member
        have below := sweep.dueBelow entry member
        simp only [beq_iff_eq]
        omega
  sorted := sweep.sorted
  apart := fun entry member holds => sweep.apart entry member
    (quietly.held entry.id (sweep.dueBelow entry member) holds)
  later := by
    intro entry member holds start started
    have below := sweep.dueBelow entry member
    rw [sweepStarts_append quietly.quiet] at started
    rw [quietly.armed entry.id below]
    exact sweep.later entry member (quietly.held entry.id below holds) start
      started
  covered := by
    rw [beforeSweep_append quietly.quiet, insideSweep_append quietly.quiet,
      quietly.now]
    intro id deadline time registered uncleared armed reached
    rw [List.any_append, Bool.or_eq_true, List.mem_append]
    rcases sweep.covered id deadline time registered uncleared armed reached
      with started | cleared | ⟨holds, waiting⟩
    · exact .inl (.inr started)
    · exact .inr (.inl (.inr cleared))
    · rcases quietly.kept id holds with holds | cleared
      · exact .inr (.inr ⟨holds, waiting⟩)
      · exact .inr (.inl (.inl cleared))

/-- What an event of code that is no timer callback keeps. -/
theorem pass (sweep : Sweep held fired due timers log) {event : Event}
    (quiet : event.isQuiet = true)
    (unarmed : ∀ id, lastArmed id (event :: log) = lastArmed id log)
    (pending : Pending fired (held ++ due) timers (event :: log)) :
    Sweep held fired due timers (event :: log) := by
  have quietly : Quietly timers timers log [event] := {
    quiet := by simpa using quiet
    now := rfl
    heap := fun _ member => member
    held := fun _ _ holds => holds
    kept := fun _ holds => .inl holds
    armed := fun id _ => unarmed id }
  exact sweep.quietly quietly pending

theorem kept (held fired due : List TimerEntry) :
    KeptUnder Few (Sweep held fired due) where
  setTimer {timers log} repeating delay few sweep := by
    have fresh := few_register few
    have quietly : Quietly timers
        (timers.push ⟨repeating, delay⟩ (timers.now + delay)) log
        [.armed timers.nextId (timers.now + delay),
          .registered timers.nextId
            (if repeating then .interval else .timeout)] := {
      quiet := by simp [Event.isQuiet]
      now := rfl
      heap := fun _ member => List.mem_cons_of_mem _ member
      held := by
        intro id known holds
        rcases TimerState.holds_push.mp holds with new | holds
        · have next := sweep.nextId_eq fresh
          omega
        · exact holds
      kept := fun _ holds => .inl (TimerState.holds_push.mpr (.inr holds))
      armed := by
        intro id known
        have distinct : timers.nextId ≠ id := by
          rw [sweep.nextId_eq fresh]
          omega
        simp [lastArmed, distinct] }
    exact sweep.quietly quietly (sweep.setTimer fresh repeating delay)
  setImmediate {timers log} few sweep := by
    have fresh := few_register few
    have quietly : Quietly timers (timers.pushImmediate ⟨false, 0⟩) log
        [.registered timers.nextId .immediate] := {
      quiet := by simp [Event.isQuiet]
      now := rfl
      heap := fun _ member => member
      held := by
        intro id known holds
        rcases TimerState.holds_pushImmediate.mp holds with new | holds
        · have next := sweep.nextId_eq fresh
          omega
        · exact holds
      kept := fun _ holds =>
        .inl (TimerState.holds_pushImmediate.mpr (.inr holds))
      armed := fun _ _ => rfl }
    exact sweep.quietly quietly (sweep.setImmediate fresh)
  clear {timers log} id sweep := by
    have quietly : Quietly timers (timers.cancel id) log
        [.cleared id] := {
      quiet := by simp [Event.isQuiet]
      now := rfl
      heap := fun _ member => member
      held := fun _ _ holds => (TimerState.holds_remove.mp holds).2
      kept := by
        intro other holds
        by_cases same : other = id
        · right
          rw [same]
          exact List.mem_singleton_self _
        · exact .inl (TimerState.holds_remove.mpr ⟨same, holds⟩)
      armed := fun _ _ => rfl }
    exact sweep.quietly quietly (sweep.cancel id)
  start code jobs other sweep := by
    apply sweep.pass _ (fun _ => rfl) (sweep.start code jobs other)
    cases code with
    | timer id => simp [Code.timer?] at other
    | _ => rfl
  finish code outcome standing other sweep :=
    sweep.pass rfl (fun _ => rfl) (sweep.finish code outcome standing other)

theorem noteClear (sweep : Sweep held fired due timers log) (id : Nat) :
    Sweep held fired due timers (.cleared id :: log) :=
  sweep.pass rfl (fun _ => rfl) (sweep.toPending.noteClear id)

end Sweep

/-! ## Callbacks that run -/

/-- The timers with a callback back in its place.  `front` is what goes back to
the front of the queue of immediates. -/
def TimerState.restored (timers : TimerState) (front : List Nat) (id : Nat)
    (callback : TimerCallback) : TimerState :=
  { timers with immediates := front ++ timers.immediates }.insert id callback

namespace TimerState

variable {timers : TimerState} {front : List Nat} {id other : Nat}
  {callback registered : TimerCallback}

theorem restored_push {deadline : Nat} (distinct : id ≠ timers.nextId) :
    (timers.push registered deadline).restored front id callback =
      (timers.restored front id callback).push registered deadline := by
  simp only [restored, insert, push]
  rw [Function.update_comm distinct]

theorem restored_pushImmediate (distinct : id ≠ timers.nextId) :
    (timers.pushImmediate registered).restored front id callback =
      (timers.restored front id callback).pushImmediate registered := by
  simp only [restored, insert, pushImmediate]
  rw [Function.update_comm distinct, List.append_assoc]

theorem restored_cancel (distinct : id ≠ other) :
    (timers.cancel other).restored front id callback =
      (timers.restored front id callback).cancel other := by
  simp only [restored, insert, cancel, remove]
  rw [Function.update_comm distinct]

theorem restored_cancel_self :
    (timers.cancel id).restored front id callback =
      timers.restored front id callback := by
  simp only [restored, insert, cancel, remove, Function.update_idem]

theorem holds_restored : (timers.restored front id callback).Holds id :=
  holds_insert.mpr (.inl rfl)

/-- Taking a callback out and putting it back changes nothing. -/
theorem restored_remove (stored : timers.callbacks id = some callback) :
    (timers.remove id).restored [] id callback = timers := by
  simp only [restored, insert, remove, List.nil_append, Function.update_idem]
  rw [← stored, Function.update_eq_self]

theorem remove_restored (out : timers.callbacks id = none) :
    (timers.restored [] id callback).remove id = timers := by
  simp only [restored, insert, remove, List.nil_append, Function.update_idem]
  rw [← out, Function.update_eq_self]

end TimerState

/-- The callback of a timer or an immediate runs: it is out of the registry, and
the assertion holds of the timers with the callback in its place.  `ended` tells
whether it has run to its end. -/
structure Aloft (front : List Nat) (id : Nat) (callback : TimerCallback)
    (ended : Bool) (assertion : Assertion) (timers : TimerState)
    (log : List Event) : Prop where
  out : timers.callbacks id = none
  known : Known id callback log
  since : clearedSinceStart id log = true → cancelled id log = true
  complete : ended = true →
    0 < log.countP (Event.completes id) ∧ incomplete id log = false
  virtual : assertion (timers.restored front id callback) log

namespace Aloft

variable {front : List Nat} {id : Nat} {callback : TimerCallback}
  {ended : Bool} {assertion : Assertion} {timers next : TimerState}
  {log : List Event}

/-- An event that is not about the callback. -/
theorem note (aloft : Aloft front id callback ended assertion timers log)
    {event : Event} (starts : event.starts id = false)
    (cleared : event ≠ .cleared id)
    (pending : incomplete id (event :: log) = incomplete id log)
    (out : next.callbacks id = none)
    (virtual : assertion (next.restored front id callback) (event :: log)) :
    Aloft front id callback ended assertion next (event :: log) where
  out := out
  known := aloft.known.cons event
  since := by
    intro gone
    simp only [clearedSinceStart, starts, Bool.not_false, Bool.true_and,
      Bool.or_eq_true, beq_iff_eq, cleared, false_or] at gone
    rw [cancelled_cons_of_ne cleared]
    exact aloft.since gone
  complete := by
    intro done
    obtain ⟨count, complete⟩ := aloft.complete done
    rw [pending, List.countP_cons]
    exact ⟨Nat.lt_add_right _ count, complete⟩
  virtual := virtual

theorem clear (aloft : Aloft front id callback ended assertion timers log)
    (virtual : assertion (timers.restored front id callback)
      (.cleared id :: log)) :
    Aloft front id callback ended assertion (timers.cancel id)
      (.cleared id :: log) where
  out := TimerState.remove_self
  known := aloft.known.cons _
  since := by
    intro gone
    obtain ⟨kind, member, -⟩ := aloft.known
    have registers : log.any (Event.registers id) = true :=
      List.any_eq_true.mpr ⟨_, member, by simp [Event.registers]⟩
    simp [cancelled, registers]
  complete := by
    intro done
    refine ⟨?_, by simp [incomplete]⟩
    rw [List.countP_cons]
    exact Nat.lt_add_right _ (aloft.complete done).1
  virtual := by
    rw [TimerState.restored_cancel_self]
    exact virtual

theorem nextId_ne (aloft : Aloft front id callback ended assertion timers log)
    (ledger : Ledger (timers.restored front id callback) log)
    (few : registrations log < 2 ^ 32) : id ≠ timers.nextId := by
  intro same
  obtain ⟨kind, member, -⟩ := aloft.known
  have stale := ledger.fresh few member
  change Event.concerns timers.nextId _ = false at stale
  simp [Event.concerns, same] at stale

theorem kept (front : List Nat) (id : Nat) (callback : TimerCallback)
    (ended : Bool) {assertion : Assertion} (kept : KeptUnder Few assertion)
    (ledger : ∀ {timers log}, assertion timers log → Ledger timers log)
    (clears : ∀ {timers log}, assertion timers log →
      assertion timers (.cleared id :: log)) :
    KeptUnder Few (Aloft front id callback ended assertion) where
  setTimer {timers log} repeating delay few aloft := by
    have distinct : id ≠ timers.nextId :=
      aloft.nextId_ne (ledger aloft.virtual) (few_register few)
    exact {
      out := by
        rw [TimerState.push_callbacks, Function.update_of_ne distinct]
        exact aloft.out
      known := (aloft.known.cons _).cons _
      since := by
        intro gone
        rw [cancelled_cons_of_ne (by simp), cancelled_cons_of_ne (by simp)]
        apply aloft.since
        simpa [clearedSinceStart, Event.starts] using gone
      complete := by
        intro done
        obtain ⟨count, complete⟩ := aloft.complete done
        rw [List.countP_cons, List.countP_cons]
        exact ⟨Nat.lt_add_right _ (Nat.lt_add_right _ count), complete⟩
      virtual := by
        rw [TimerState.restored_push distinct]
        exact kept.setTimer repeating delay few aloft.virtual }
  setImmediate {timers log} few aloft := by
    have distinct : id ≠ timers.nextId :=
      aloft.nextId_ne (ledger aloft.virtual) (few_register few)
    apply aloft.note rfl (by simp) rfl
    · exact (Function.update_of_ne distinct ..).trans aloft.out
    · rw [TimerState.restored_pushImmediate distinct]
      exact kept.setImmediate few aloft.virtual
  clear {timers log} other aloft := by
    by_cases same : id = other
    · subst same
      exact aloft.clear (clears aloft.virtual)
    · apply aloft.note rfl (by simpa using Ne.symm same)
      · simp [incomplete, Ne.symm same]
      · exact (TimerState.remove_of_ne same).trans aloft.out
      · rw [TimerState.restored_cancel same]
        exact kept.clear other aloft.virtual
  start code jobs other aloft := by
    apply aloft.note (by simp [Event.starts, other]) (by simp)
      (by simp [incomplete, other]) aloft.out
    exact kept.start code jobs other aloft.virtual
  finish code outcome standing other aloft := by
    apply aloft.note rfl (by simp) (by simp [incomplete, other]) aloft.out
    exact kept.finish code outcome standing other aloft.virtual

end Aloft

end Fusor.Host.EventLoop
