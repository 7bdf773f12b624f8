import Fusor.Host.TimerCancellation

/-!
# Pending timers

Each registered timer has one entry in the heap that was not fired, armed for
its deadline, and each registered immediate has one place in the queue.  Entries
of one deadline are ordered as they were armed, except that an interval that a
sweep armed again may come before an entry that the sweep has still to fire.
-/

namespace Fusor.Host.EventLoop

open Fusor.Support

/-! ## Reading the log -/

/-- The deadline for which a timer was last armed, and how many events came
before. -/
def lastArmed (id : Nat) : List Event → Option (Nat × Nat)
  | [] => none
  | .armed other deadline :: older =>
      if other = id then some (deadline, older.length) else lastArmed id older
  | _ :: older => lastArmed id older

/-- The clock of the sweep that was begun last. -/
def sweepClock : List Event → Option Nat
  | [] => none
  | .sweepBegan now :: _ => some now
  | _ :: older => sweepClock older

/-- What happened since the last sweep was begun. -/
def insideSweep : List Event → List Event
  | [] => []
  | .sweepBegan _ :: _ => []
  | event :: older => event :: insideSweep older

/-- What happened before the last sweep was begun. -/
def beforeSweep : List Event → List Event
  | [] => []
  | .sweepBegan _ :: older => older
  | _ :: older => beforeSweep older

/-- The timers that a sweep has started, with what they were armed for. -/
def sweepStarts : List Event → List (Nat × Option (Nat × Nat))
  | [] => []
  | .sweepBegan _ :: _ => []
  | .started (.timer id) _ :: older =>
      (id, lastArmed id older) :: sweepStarts older
  | _ :: older => sweepStarts older

/-- The callback of the timer was started last without completing, and was not
cleared since. -/
def incomplete (id : Nat) : List Event → Bool
  | [] => false
  | .finished code outcome _ :: older =>
      if code.timer? = some id then outcome.error?.isSome
      else incomplete id older
  | .started code _ :: older =>
      if code.timer? = some id then false else incomplete id older
  | .cleared other :: older =>
      if other = id then false else incomplete id older
  | _ :: older => incomplete id older

/-- A sweep starts a timer once, not before its deadline, and after the timers
with an earlier deadline or armed earlier for the same deadline. -/
def StartsInOrder (event : Event) (older : List Event) : Prop :=
  ∀ id jobs, event = .started (.timer id) jobs →
    ∃ deadline time now, lastArmed id older = some (deadline, time) ∧
      sweepClock older = some now ∧ deadline ≤ now ∧
      ∀ start ∈ sweepStarts older, start.1 ≠ id ∧
        ∃ earlier armed, start.2 = some (earlier, armed) ∧
          (earlier < deadline ∨ earlier = deadline ∧ armed < time)

/-- An interval that is due when a sweep begins, and is not cancelled, is
started or cleared in the sweep. -/
def SweepsIntervals (event : Event) (older : List Event) : Prop :=
  event = .sweepEnded → ∀ id deadline time now,
    sweepClock older = some now →
    .registered id .interval ∈ beforeSweep older →
    cancelled id (beforeSweep older) = false →
    lastArmed id (beforeSweep older) = some (deadline, time) →
    deadline ≤ now →
    (insideSweep older).any (Event.starts id) = true ∨
      .cleared id ∈ insideSweep older

def Event.startsTimer : Event → Bool
  | .started (.timer _) _ => true
  | _ => false

def Event.endsSweep : Event → Bool
  | .sweepEnded => true
  | _ => false

theorem startsInOrder_quiet {event : Event} {older : List Event}
    (quiet : event.startsTimer = false) : StartsInOrder event older := by
  rintro id jobs rfl
  cases quiet

theorem sweepsIntervals_quiet {event : Event} {older : List Event}
    (quiet : event.endsSweep = false) : SweepsIntervals event older := by
  rintro rfl
  cases quiet

/-! ## Registered identities -/

/-- A callback is registered under the identity. -/
def TimerState.Holds (timers : TimerState) (id : Nat) : Prop :=
  timers.callbacks id ≠ none

namespace TimerState

variable {timers : TimerState} {id other : Nat} {callback : TimerCallback}

@[simp] theorem registered_iff :
    timers.registered id = true ↔ timers.Holds id := by
  unfold registered Holds
  cases timers.callbacks id <;> simp

@[simp] theorem holds_push {deadline : Nat} :
    (timers.push callback deadline).Holds other ↔
      other = timers.nextId ∨ timers.Holds other := by
  unfold Holds push
  by_cases same : other = timers.nextId
  · simp [same]
  · simp [same]

@[simp] theorem holds_pushImmediate :
    (timers.pushImmediate callback).Holds other ↔
      other = timers.nextId ∨ timers.Holds other := by
  unfold Holds pushImmediate
  by_cases same : other = timers.nextId
  · simp [same]
  · simp [same]

@[simp] theorem holds_remove :
    (timers.remove id).Holds other ↔ other ≠ id ∧ timers.Holds other := by
  unfold Holds remove
  by_cases same : other = id
  · simp [same]
  · simp [same]

@[simp] theorem holds_insert :
    (timers.insert id callback).Holds other ↔
      other = id ∨ timers.Holds other := by
  unfold Holds insert
  by_cases same : other = id
  · simp [same]
  · simp [same]

end TimerState

theorem lastArmed_lt {id deadline time : Nat} {log : List Event}
    (armed : lastArmed id log = some (deadline, time)) : time < log.length := by
  induction log with
  | nil => simp [lastArmed] at armed
  | cons event log induction =>
      rw [List.length_cons]
      cases event with
      | armed other instant =>
          simp only [lastArmed] at armed
          by_cases same : other = id
          · rw [if_pos same] at armed
            cases armed
            exact Nat.lt_succ_self _
          · rw [if_neg same] at armed
            exact Nat.lt_succ_of_lt (induction armed)
      | _ => exact Nat.lt_succ_of_lt (induction armed)

theorem concerns_of_lastArmed {id : Nat} {key : Nat × Nat} {log : List Event}
    (armed : lastArmed id log = some key) :
    ∃ event ∈ log, event.concerns id = true := by
  induction log with
  | nil => simp [lastArmed] at armed
  | cons event log induction =>
      cases event with
      | armed other instant =>
          by_cases same : other = id
          · exact ⟨_, List.mem_cons_self, by simp [Event.concerns, same]⟩
          · simp only [lastArmed, if_neg same] at armed
            obtain ⟨event, member, named⟩ := induction armed
            exact ⟨event, List.mem_cons_of_mem _ member, named⟩
      | _ =>
          obtain ⟨event, member, named⟩ := induction armed
          exact ⟨event, List.mem_cons_of_mem _ member, named⟩

/-! ## The invariant -/

/-- The entries of a timer that were not fired. -/
def TimerState.occurrences (timers : TimerState) (fired : List TimerEntry)
    (id : Nat) : Nat :=
  timers.heap.countP fun entry => entry ∉ fired && entry.id == id

/-- The entry of a registered timer that was not fired. -/
structure Live (fired : List TimerEntry) (timers : TimerState)
    (entry : TimerEntry) : Prop where
  member : entry ∈ timers.heap
  unfired : entry ∉ fired
  held : timers.Holds entry.id

/-- `fired` are the entries that a sweep has fired and `due` those that it has
still to fire. -/
structure Pending (fired due : List TimerEntry) (timers : TimerState)
    (log : List Event) : Prop extends Ledger timers log where
  heapBelow : ∀ entry ∈ timers.heap, entry.id < registrations log
  queueBelow : ∀ id ∈ timers.immediates, id < registrations log
  firedBelow : ∀ entry ∈ fired, entry.id < registrations log
  sequenceFits : timers.sequence ≤ 2 ^ 64 - 1
  sequences : ∀ entry ∈ timers.heap, entry.sequence ≤ timers.sequence
  timer : ∀ id, timers.Holds id → .registered id .immediate ∉ log →
    timers.occurrences fired id = 1 ∧ id ∉ timers.immediates
  immediate : ∀ id, timers.Holds id → .registered id .immediate ∈ log →
    timers.immediates.count id = 1 ∧ ∀ entry ∈ timers.heap, entry.id ≠ id
  armed : ∀ entry, Live fired timers entry →
    ∃ time, lastArmed entry.id log = some (entry.deadline, time)
  ordered : ∀ first second, Live fired timers first →
    Live fired timers second → first.deadline = second.deadline →
    ∀ earlier later, lastArmed first.id log = some (first.deadline, earlier) →
    lastArmed second.id log = some (second.deadline, later) →
    earlier < later →
    first.sequence < second.sequence ∨
      first.sequence = second.sequence ∧ first.id < second.id ∨
      first ∈ due ∧ ∃ entry ∈ fired, entry.id = second.id
  firedRepeats : ∀ entry ∈ fired, ∀ callback,
    timers.callbacks entry.id = some callback → callback.repeating = true
  startsInOrder : Throughout StartsInOrder log
  sweepsIntervals : Throughout SweepsIntervals log
  notLost : ∀ id kind, .registered id kind ∈ log → cancelled id log = false →
    kind = .interval ∨ log.countP (Event.completes id) = 0 → timers.Holds id
  stays : ∀ id, incomplete id log = true → timers.Holds id

theorem Live.of_push {fired : List TimerEntry} {timers : TimerState}
    {callback : TimerCallback} {deadline : Nat} {entry : TimerEntry}
    (live : Live fired (timers.push callback deadline) entry)
    (other : entry.id ≠ timers.nextId) : Live fired timers entry := by
  obtain ⟨member, unfired, held⟩ := live
  refine ⟨?_, unfired, ?_⟩
  · rcases List.mem_cons.mp member with new | old
    · rw [new] at other
      exact absurd rfl other
    · exact old
  · rcases TimerState.holds_push.mp held with new | held
    · exact absurd new other
    · exact held

namespace Pending

variable {fired due : List TimerEntry} {timers next : TimerState}
  {log : List Event} {event : Event}

theorem fresh_immediate (state : Pending fired due timers log)
    (few : registrations log < 2 ^ 32) (kind : Kind) :
    Event.registered timers.nextId kind ∉ log := by
  intro member
  have stale := state.fresh few member
  simp [Event.concerns] at stale

theorem fresh_heap (state : Pending fired due timers log)
    (few : registrations log < 2 ^ 32) {entry : TimerEntry}
    (member : entry ∈ timers.heap) : entry.id ≠ timers.nextId := by
  have below := state.heapBelow entry member
  rw [state.nextId_eq few]
  omega

theorem fresh_fired (state : Pending fired due timers log)
    (few : registrations log < 2 ^ 32) {entry : TimerEntry}
    (member : entry ∈ fired) : entry.id ≠ timers.nextId := by
  have below := state.firedBelow entry member
  rw [state.nextId_eq few]
  omega

theorem fresh_queue (state : Pending fired due timers log)
    (few : registrations log < 2 ^ 32) :
    timers.nextId ∉ timers.immediates := by
  intro member
  have below := state.queueBelow _ member
  rw [state.nextId_eq few] at below
  omega

/-- The only live entry with the new identity is the new one. -/
theorem eq_new (state : Pending fired due timers log)
    (few : registrations log < 2 ^ 32) {callback : TimerCallback}
    {deadline : Nat} {entry : TimerEntry}
    (live : Live fired (timers.push callback deadline) entry)
    (new : entry.id = timers.nextId) :
    entry = ⟨deadline, timers.sequence, timers.nextId⟩ := by
  rcases List.mem_cons.mp live.member with same | old
  · exact same
  · exact absurd new (state.fresh_heap few old)

/-- A timer is registered. -/
theorem setTimer (state : Pending fired due timers log)
    (few : registrations log < 2 ^ 32) (repeating : Bool) (delay : Nat) :
    Pending fired due (timers.push ⟨repeating, delay⟩ (timers.now + delay))
      (.armed timers.nextId (timers.now + delay) ::
        .registered timers.nextId
          (if repeating then .interval else .timeout) :: log) where
  toLedger := by
    have registered := state.toLedger.register few rfl
      (TimerState.push_callbacks timers ⟨repeating, delay⟩
        (timers.now + delay)) (repeats_iff_interval repeating)
    apply registered.note rfl _ rfl (fun _ _ found => .inl found)
    intro id named
    simp only [Event.concerns, beq_iff_eq] at named
    subst named
    exact ⟨_, List.mem_cons_self, by simp [Event.concerns]⟩
  heapBelow := by
    intro entry member
    simp only [registrations_cons, Event.isRegistration, if_true,
      Bool.false_eq_true, if_false, Nat.add_zero]
    rcases List.mem_cons.mp member with new | old
    · have next := state.nextId_eq few
      rw [new]
      change timers.nextId < _
      omega
    · exact Nat.lt_succ_of_lt (state.heapBelow entry old)
  queueBelow := by
    intro id member
    simp only [registrations_cons, Event.isRegistration, if_true,
      Bool.false_eq_true, if_false, Nat.add_zero]
    exact Nat.lt_succ_of_lt (state.queueBelow id member)
  firedBelow := by
    intro entry member
    simp only [registrations_cons, Event.isRegistration, if_true,
      Bool.false_eq_true, if_false, Nat.add_zero]
    exact Nat.lt_succ_of_lt (state.firedBelow entry member)
  sequenceFits := Nat.min_le_right _ _
  sequences := by
    have fits := state.sequenceFits
    have grows : timers.sequence ≤
        TimerState.saturatingSequence timers.sequence := by
      unfold TimerState.saturatingSequence
      omega
    intro entry member
    rcases List.mem_cons.mp member with new | old
    · rw [new]
      exact grows
    · exact (state.sequences entry old).trans grows
  timer := by
    intro id held notImmediate
    have old : Event.registered id .immediate ∉ log := by
      intro member
      exact notImmediate
        (List.mem_cons_of_mem _ (List.mem_cons_of_mem _ member))
    unfold TimerState.occurrences
    simp only [TimerState.push, List.countP_cons]
    by_cases new : id = timers.nextId
    · subst new
      refine ⟨?_, state.fresh_queue few⟩
      rw [if_pos, Nat.add_eq_right, List.countP_eq_zero]
      · intro entry member
        simp [state.fresh_heap few member]
      · simp only [Bool.and_eq_true, decide_eq_true_eq, beq_self_eq_true,
          and_true]
        intro member
        exact state.fresh_fired few member rfl
    · rcases TimerState.holds_push.mp held with same | held
      · exact absurd same new
      · rw [if_neg (by simp [Ne.symm new])]
        exact state.timer id held old
  immediate := by
    intro id held member
    have old : Event.registered id .immediate ∈ log := by
      rcases List.mem_cons.mp member with armed | member
      · cases armed
      · rcases List.mem_cons.mp member with new | old
        · cases repeating <;> simp at new
        · exact old
    have distinct : id ≠ timers.nextId := by
      rintro rfl
      exact state.fresh_immediate few .immediate old
    rcases TimerState.holds_push.mp held with same | held
    · exact absurd same distinct
    · obtain ⟨once, apart⟩ := state.immediate id held old
      refine ⟨once, ?_⟩
      intro entry member
      rcases List.mem_cons.mp member with new | heap
      · rw [new]
        exact Ne.symm distinct
      · exact apart entry heap
  armed := by
    intro entry live
    by_cases new : entry.id = timers.nextId
    · have same := state.eq_new few live new
      rw [same]
      exact ⟨_, by simp [lastArmed]; rfl⟩
    · obtain ⟨time, armed⟩ := state.armed entry (live.of_push new)
      exact ⟨time, by simp [lastArmed, Ne.symm new, armed]⟩
  ordered := by
    intro first second firstLive secondLive same earlier later firstArmed
      secondArmed before
    by_cases secondNew : second.id = timers.nextId
    · have secondIs := state.eq_new few secondLive secondNew
      by_cases firstNew : first.id = timers.nextId
      · rw [firstNew] at firstArmed
        rw [secondNew, firstArmed] at secondArmed
        simp only [Option.some.injEq, Prod.mk.injEq] at secondArmed
        omega
      · have firstOld := firstLive.of_push firstNew
        have fits := state.sequences first firstOld.member
        have below := state.heapBelow first firstOld.member
        have next := state.nextId_eq few
        rw [secondIs]
        simp only
        omega
    · have secondOld := secondLive.of_push secondNew
      simp only [lastArmed, if_neg (Ne.symm secondNew)] at secondArmed
      by_cases firstNew : first.id = timers.nextId
      · rw [firstNew] at firstArmed
        simp only [lastArmed, if_true, Option.some.injEq, Prod.mk.injEq,
          List.length_cons] at firstArmed
        have recent := lastArmed_lt secondArmed
        omega
      · simp only [lastArmed, if_neg (Ne.symm firstNew)] at firstArmed
        exact state.ordered first second (firstLive.of_push firstNew) secondOld
          same earlier later firstArmed secondArmed before
  firedRepeats := by
    intro entry member callback found
    rw [TimerState.push_callbacks,
      Function.update_of_ne (state.fresh_fired few member)] at found
    exact state.firedRepeats entry member callback found
  startsInOrder := by
    rw [throughout_cons, throughout_cons]
    exact ⟨startsInOrder_quiet rfl, startsInOrder_quiet rfl,
      state.startsInOrder⟩
  sweepsIntervals := by
    rw [throughout_cons, throughout_cons]
    exact ⟨sweepsIntervals_quiet rfl, sweepsIntervals_quiet rfl,
      state.sweepsIntervals⟩
  notLost := by
    intro id kind member live unfinished
    rw [TimerState.holds_push]
    rcases List.mem_cons.mp member with armed | member
    · cases armed
    · rcases List.mem_cons.mp member with new | old
      · cases new
        exact .inl rfl
      · right
        rw [cancelled_cons_of_ne (by simp), cancelled_cons_of_ne (by simp)]
          at live
        rw [List.countP_cons_of_neg (by simp [Event.completes]),
          List.countP_cons_of_neg (by simp [Event.completes])] at unfinished
        exact state.notLost id kind old live unfinished
  stays := by
    intro id pending
    rw [TimerState.holds_push]
    right
    simp only [incomplete] at pending
    exact state.stays id pending

/-- An immediate is registered. -/
theorem setImmediate (state : Pending fired due timers log)
    (few : registrations log < 2 ^ 32) :
    Pending fired due (timers.pushImmediate ⟨false, 0⟩)
      (.registered timers.nextId .immediate :: log) := by
  have old : ∀ id, (timers.pushImmediate ⟨false, 0⟩).Holds id →
      id ≠ timers.nextId → timers.Holds id := by
    intro id held distinct
    rcases TimerState.holds_pushImmediate.mp held with new | held
    · exact absurd new distinct
    · exact held
  have live : ∀ entry, Live fired (timers.pushImmediate ⟨false, 0⟩) entry →
      Live fired timers entry := by
    intro entry live
    exact ⟨live.member, live.unfired,
      old entry.id live.held (state.fresh_heap few live.member)⟩
  exact {
    toLedger := state.toLedger.register few rfl rfl (by decide)
    heapBelow := by
      intro entry member
      rw [registrations_cons]
      exact Nat.lt_add_right _ (state.heapBelow entry member)
    queueBelow := by
      intro id member
      simp only [registrations_cons, Event.isRegistration, if_true]
      rcases List.mem_append.mp member with queued | new
      · exact Nat.lt_succ_of_lt (state.queueBelow id queued)
      · have next := state.nextId_eq few
        rw [List.mem_singleton] at new
        omega
    firedBelow := by
      intro entry member
      rw [registrations_cons]
      exact Nat.lt_add_right _ (state.firedBelow entry member)
    sequenceFits := state.sequenceFits
    sequences := state.sequences
    timer := by
      intro id held notImmediate
      have distinct : id ≠ timers.nextId := by
        rintro rfl
        exact notImmediate List.mem_cons_self
      obtain ⟨once, apart⟩ := state.timer id (old id held distinct)
        (fun member => notImmediate (List.mem_cons_of_mem _ member))
      refine ⟨once, ?_⟩
      intro member
      rcases List.mem_append.mp member with queued | new
      · exact apart queued
      · exact distinct (List.mem_singleton.mp new)
    immediate := by
      intro id held member
      simp only [TimerState.pushImmediate, List.count_append]
      by_cases new : id = timers.nextId
      · rw [new, List.count_eq_zero.mpr (state.fresh_queue few)]
        refine ⟨by simp, ?_⟩
        intro entry member
        exact state.fresh_heap few member
      · have registered : Event.registered id .immediate ∈ log := by
          rcases List.mem_cons.mp member with same | registered
          · cases same
            exact absurd rfl new
          · exact registered
        obtain ⟨once, apart⟩ :=
          state.immediate id (old id held new) registered
        refine ⟨?_, apart⟩
        rw [once, List.count_eq_zero.mpr (by simpa using new)]
    armed := by
      intro entry held
      exact state.armed entry (live entry held)
    ordered := by
      intro first second firstLive secondLive
      exact state.ordered first second (live first firstLive)
        (live second secondLive)
    firedRepeats := by
      intro entry member callback found
      rw [TimerState.pushImmediate] at found
      change Function.update _ _ _ _ = _ at found
      rw [Function.update_of_ne (state.fresh_fired few member)] at found
      exact state.firedRepeats entry member callback found
    startsInOrder := by
      rw [throughout_cons]
      exact ⟨startsInOrder_quiet rfl, state.startsInOrder⟩
    sweepsIntervals := by
      rw [throughout_cons]
      exact ⟨sweepsIntervals_quiet rfl, state.sweepsIntervals⟩
    notLost := by
      intro id kind member live unfinished
      rw [TimerState.holds_pushImmediate]
      rcases List.mem_cons.mp member with new | member
      · cases new
        exact .inl rfl
      · right
        rw [cancelled_cons_of_ne (by simp)] at live
        rw [List.countP_cons_of_neg (by simp [Event.completes])] at unfinished
        exact state.notLost id kind member live unfinished
    stays := by
      intro id pending
      rw [TimerState.holds_pushImmediate]
      exact .inr (state.stays id pending) }

/-- An event that neither registers nor arms a timer. -/
theorem note (state : Pending fired due timers log)
    (other : event.isRegistration = false)
    (unarmed : ∀ id, lastArmed id (event :: log) = lastArmed id log)
    (concerns : ∀ id, event.concerns id = true →
      ∃ older ∈ log, older.concerns id = true)
    (starts : StartsInOrder event log) (sweeps : SweepsIntervals event log)
    (stays : ∀ id, incomplete id (event :: log) = true → timers.Holds id) :
    Pending fired due timers (event :: log) := by
  have count : registrations (event :: log) = registrations log := by
    simp [other]
  have registered : ∀ id kind, Event.registered id kind ∈ event :: log ↔
      .registered id kind ∈ log := by
    intro id kind
    rw [List.mem_cons, or_iff_right]
    intro same
    rw [← same] at other
    simp [Event.isRegistration] at other
  exact {
    toLedger := state.toLedger.note other concerns rfl
      (fun _ _ found => .inl found)
    heapBelow := by
      rw [count]
      exact state.heapBelow
    queueBelow := by
      rw [count]
      exact state.queueBelow
    firedBelow := by
      rw [count]
      exact state.firedBelow
    sequenceFits := state.sequenceFits
    sequences := state.sequences
    timer := by
      intro id held notImmediate
      rw [registered] at notImmediate
      exact state.timer id held notImmediate
    immediate := by
      intro id held member
      rw [registered] at member
      exact state.immediate id held member
    armed := by
      simp only [unarmed]
      exact state.armed
    ordered := by
      simp only [unarmed]
      exact state.ordered
    firedRepeats := state.firedRepeats
    startsInOrder := throughout_cons.mpr ⟨starts, state.startsInOrder⟩
    sweepsIntervals := throughout_cons.mpr ⟨sweeps, state.sweepsIntervals⟩
    notLost := by
      intro id kind member live unfinished
      rw [registered] at member
      simp only [cancelled, Bool.or_eq_false_iff] at live
      apply state.notLost id kind member live.2
      rcases unfinished with interval | none
      · exact .inl interval
      · right
        rw [List.countP_cons] at none
        omega
    stays := stays }

/-- A callback leaves the registry. -/
theorem drop (state : Pending fired due timers log) {id : Nat}
    (gone : ∀ kind, .registered id kind ∈ log → cancelled id log = false →
      kind = .interval ∨ log.countP (Event.completes id) = 0 → False)
    (complete : incomplete id log = false) :
    Pending fired due (timers.remove id) log := by
  have held : ∀ other, (timers.remove id).Holds other → timers.Holds other :=
    fun other held => (TimerState.holds_remove.mp held).2
  have live : ∀ entry, Live fired (timers.remove id) entry →
      Live fired timers entry :=
    fun entry live => ⟨live.member, live.unfired, held _ live.held⟩
  exact {
    nextId := state.nextId
    below := state.below
    kinds := state.kinds
    callbacks := fun other callback found =>
      state.callbacks other callback (TimerState.of_remove found)
    heapBelow := state.heapBelow
    queueBelow := state.queueBelow
    firedBelow := state.firedBelow
    sequenceFits := state.sequenceFits
    sequences := state.sequences
    timer := fun other holds => state.timer other (held other holds)
    immediate := fun other holds => state.immediate other (held other holds)
    armed := fun entry holds => state.armed entry (live entry holds)
    ordered := fun first second firstLive secondLive =>
      state.ordered first second (live first firstLive)
        (live second secondLive)
    firedRepeats := fun entry member callback found =>
      state.firedRepeats entry member callback (TimerState.of_remove found)
    startsInOrder := state.startsInOrder
    sweepsIntervals := state.sweepsIntervals
    notLost := by
      intro other kind member uncleared unfinished
      rw [TimerState.holds_remove]
      refine ⟨?_, state.notLost other kind member uncleared unfinished⟩
      intro same
      subst same
      exact gone kind member uncleared unfinished
    stays := by
      intro other pending
      rw [TimerState.holds_remove]
      refine ⟨?_, state.stays other pending⟩
      rintro rfl
      rw [complete] at pending
      exact absurd pending (by decide) }

/-- A clear call is recorded. -/
theorem noteClear (state : Pending fired due timers log) (id : Nat) :
    Pending fired due timers (.cleared id :: log) := by
  apply state.note rfl (fun _ => rfl) (by simp [Event.concerns])
    (startsInOrder_quiet rfl) (sweepsIntervals_quiet rfl)
  intro other pending
  simp only [incomplete] at pending
  by_cases same : id = other
  · simp [same] at pending
  · rw [if_neg same] at pending
    exact state.stays other pending

theorem cancel (state : Pending fired due timers log) (id : Nat) :
    Pending fired due (timers.cancel id) (.cleared id :: log) := by
  apply (state.noteClear id).drop
  · intro kind member live unfinished
    simp only [List.mem_cons, reduceCtorEq, false_or] at member
    have registers : log.any (Event.registers id) = true :=
      List.any_eq_true.mpr ⟨_, member, by simp [Event.registers]⟩
    simp [cancelled, registers] at live
  · simp [incomplete]

/-- Code that is no timer callback starts or finishes. -/
theorem start (state : Pending fired due timers log) (code : Code) (jobs : Nat)
    (other : code.timer? = none) :
    Pending fired due timers (.started code jobs :: log) := by
  apply state.note rfl (fun _ => rfl) (by simp [Event.concerns, other])
  · intro id pending same
    cases same
    simp [Code.timer?] at other
  · exact sweepsIntervals_quiet rfl
  · intro id pending
    simp only [incomplete, other, reduceCtorEq, if_false] at pending
    exact state.stays id pending

theorem finish (state : Pending fired due timers log) (code : Code)
    (outcome : Outcome) (standing : Standing) (other : code.timer? = none) :
    Pending fired due timers (.finished code outcome standing :: log) := by
  apply state.note rfl (fun _ => rfl) (by simp [Event.concerns, other])
    (startsInOrder_quiet rfl) (sweepsIntervals_quiet rfl)
  intro id pending
  simp only [incomplete, other, reduceCtorEq, if_false] at pending
  exact state.stays id pending

theorem kept (fired due : List TimerEntry) :
    KeptUnder Few (Pending fired due) where
  setTimer repeating delay few state :=
    state.setTimer (few_register few) repeating delay
  setImmediate few state := state.setImmediate (few_register few)
  clear id state := state.cancel id
  start code jobs other state := state.start code jobs other
  finish code outcome standing other state :=
    state.finish code outcome standing other

end Pending

end Fusor.Host.EventLoop
