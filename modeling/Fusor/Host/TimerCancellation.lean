import Mathlib.Data.List.Count
import Fusor.Host.Executions

/-!
# Cancelling a timer

A sweep takes a callback out of the registry while it runs and puts it back
afterwards, to arm an interval again or because the callback was aborted.  A
clear call that is executed in between finds nothing to remove, and the callback
is put back all the same.  In a run in which no cleared callback is put back, a
cleared callback never starts again.
-/

namespace Fusor.Host.EventLoop

open Fusor.Support

/-! ## Reading the log -/

def Event.registers (id : Nat) : Event → Bool
  | .registered other _ => other == id
  | _ => false

def Event.starts (id : Nat) : Event → Bool
  | .started code _ => code.timer? == some id
  | _ => false

/-- The callback has run to its end: it returned or threw. -/
def Event.completes (id : Nat) : Event → Bool
  | .finished code outcome _ =>
      code.timer? == some id && outcome.error?.isNone
  | _ => false

/-- The events that only mark a sweep. -/
def Event.marks : Event → Bool
  | .sweepBegan _ | .rearming _ _ _ | .sweepCut _ _ | .sweepEnded => true
  | _ => false

def Event.isRegistration : Event → Bool
  | .registered _ _ => true
  | _ => false

def registrations (log : List Event) : Nat := log.countP Event.isRegistration

/-- Whether a clear call for the timer was executed after its registration. -/
def cancelled (id : Nat) : List Event → Bool
  | [] => false
  | event :: older =>
      (event == .cleared id && older.any (Event.registers id)) ||
        cancelled id older

/-- Whether a clear call for the timer was executed since its callback was
last started. -/
def clearedSinceStart (id : Nat) : List Event → Bool
  | [] => false
  | event :: older =>
      event == .cleared id || (!event.starts id && clearedSinceStart id older)

/-- Cancelling is final. -/
structure CancellationFinal (log : List Event) : Prop where
  neverAgain : Throughout (fun event older => ∀ id,
    event.starts id = true → cancelled id older = false) log
  once : ∀ id kind, kind ≠ .interval → .registered id kind ∈ log →
    log.countP (Event.completes id) ≤ 1

/-- No callback is put back, by arming an interval again or by restoring an
aborted callback, after it was cleared while it was out of the registry. -/
def PutsBackUncleared (log : List Event) : Prop :=
  Throughout (fun event older => ∀ id, event = .putBack id →
    clearedSinceStart id older = false) log

/-! ## Identities -/

/-- The events that only a registered timer has. -/
def Event.concerns (id : Nat) : Event → Bool
  | .registered other _ | .armed other _ => other == id
  | .started code _ | .finished code _ _ => code.timer? == some id
  | _ => false

/-- Identities are handed out in order, and a callback in the registry is of
the kind that was registered. -/
structure Ledger (timers : TimerState) (log : List Event) : Prop where
  nextId : timers.nextId = min (registrations log) (2 ^ 32 - 1)
  below : ∀ event ∈ log, ∀ id, event.concerns id = true →
    id < registrations log
  kinds : ∀ id first second, .registered id first ∈ log →
    .registered id second ∈ log → first = second
  callbacks : ∀ id callback, timers.callbacks id = some callback →
    ∃ kind, .registered id kind ∈ log ∧
      (callback.repeating = true ↔ kind = .interval)

/-- No identity is handed out twice. -/
def Few (log : List Event) : Prop := registrations log ≤ 2 ^ 32

@[simp] theorem registrations_cons (event : Event) (log : List Event) :
    registrations (event :: log) =
      registrations log + if event.isRegistration then 1 else 0 :=
  List.countP_cons

theorem Few.earlier : Earlier Few := by
  intro event log few
  simp only [Few, registrations_cons] at few ⊢
  omega

namespace Ledger

variable {timers : TimerState} {log : List Event}

/-- The next identity is new. -/
theorem nextId_eq (ledger : Ledger timers log)
    (few : registrations log < 2 ^ 32) : timers.nextId = registrations log := by
  rw [ledger.nextId]
  omega

theorem fresh (ledger : Ledger timers log) (few : registrations log < 2 ^ 32)
    {event : Event} (member : event ∈ log) :
    event.concerns timers.nextId = false := by
  rw [ledger.nextId_eq few]
  by_contra concerns
  have below := ledger.below event member (registrations log)
    (by simpa using concerns)
  omega

/-- A new registration. -/
theorem register (ledger : Ledger timers log) {kind : Kind}
    {callback : TimerCallback} {next : TimerState}
    (few : registrations log < 2 ^ 32)
    (nextId : next.nextId = TimerState.saturatingNextId timers.nextId)
    (callbacks : next.callbacks =
      Function.update timers.callbacks timers.nextId (some callback))
    (repeats : callback.repeating = true ↔ kind = .interval) :
    Ledger next (.registered timers.nextId kind :: log) where
  nextId := by
    rw [nextId, ledger.nextId_eq few, registrations_cons]
    simp only [TimerState.saturatingNextId, Event.isRegistration, if_true]
  below := by
    intro event member id concerns
    rw [registrations_cons]
    simp only [Event.isRegistration, if_true]
    rcases List.mem_cons.mp member with rfl | older
    · simp only [Event.concerns, beq_iff_eq] at concerns
      have := ledger.nextId_eq few
      omega
    · have := ledger.below event older id concerns
      omega
  kinds := by
    intro id first second firstMember secondMember
    have new : ∀ other, Event.registered timers.nextId other ∉ log := by
      intro other member
      have stale := ledger.fresh few member
      simp [Event.concerns] at stale
    rcases List.mem_cons.mp firstMember with firstNew | firstOld
    · rcases List.mem_cons.mp secondMember with secondNew | secondOld
      · cases firstNew
        cases secondNew
        rfl
      · cases firstNew
        exact absurd secondOld (new second)
    · rcases List.mem_cons.mp secondMember with secondNew | secondOld
      · cases secondNew
        exact absurd firstOld (new first)
      · exact ledger.kinds id first second firstOld secondOld
  callbacks := by
    intro id stored found
    rw [callbacks] at found
    by_cases same : id = timers.nextId
    · subst same
      rw [Function.update_self] at found
      cases found
      exact ⟨kind, List.mem_cons_self, repeats⟩
    · rw [Function.update_of_ne same] at found
      obtain ⟨kind, member, agrees⟩ := ledger.callbacks id stored found
      exact ⟨kind, List.mem_cons_of_mem _ member, agrees⟩

/-- An event that registers nothing, with what it does to the registry. -/
theorem note (ledger : Ledger timers log) {event : Event} {next : TimerState}
    (other : event.isRegistration = false)
    (concerns : ∀ id, event.concerns id = true →
      ∃ older ∈ log, older.concerns id = true)
    (nextId : next.nextId = timers.nextId)
    (callbacks : ∀ id callback, next.callbacks id = some callback →
      timers.callbacks id = some callback ∨
        ∃ kind, .registered id kind ∈ log ∧
          (callback.repeating = true ↔ kind = .interval)) :
    Ledger next (event :: log) where
  nextId := by
    rw [nextId, ledger.nextId, registrations_cons]
    simp [other]
  below := by
    intro later member id named
    rw [registrations_cons]
    simp only [other, Bool.false_eq_true, if_false, Nat.add_zero]
    rcases List.mem_cons.mp member with rfl | older
    · obtain ⟨older, member, named⟩ := concerns id named
      exact ledger.below older member id named
    · exact ledger.below later older id named
  kinds := by
    intro id first second firstMember secondMember
    have old : ∀ kind, Event.registered id kind ∈ event :: log →
        .registered id kind ∈ log := by
      intro kind member
      rcases List.mem_cons.mp member with rfl | older
      · simp [Event.isRegistration] at other
      · exact older
    exact ledger.kinds id first second (old first firstMember)
      (old second secondMember)
  callbacks := by
    intro id callback found
    rcases callbacks id callback found with stored | known
    · obtain ⟨kind, member, agrees⟩ := ledger.callbacks id callback stored
      exact ⟨kind, List.mem_cons_of_mem _ member, agrees⟩
    · obtain ⟨kind, member, agrees⟩ := known
      exact ⟨kind, List.mem_cons_of_mem _ member, agrees⟩

end Ledger

/-! ## Registered callbacks -/

namespace TimerState

variable {timers : TimerState} {id other : Nat} {callback : TimerCallback}

theorem push_callbacks (timers : TimerState) (callback : TimerCallback)
    (deadline : Nat) : (timers.push callback deadline).callbacks =
      Function.update timers.callbacks timers.nextId (some callback) := rfl

@[simp] theorem remove_self : (timers.remove id).callbacks id = none :=
  Function.update_self ..

theorem remove_of_ne (distinct : other ≠ id) :
    (timers.remove id).callbacks other = timers.callbacks other :=
  Function.update_of_ne distinct ..

theorem of_remove (found : (timers.remove id).callbacks other = some callback) :
    timers.callbacks other = some callback := by
  by_cases same : other = id
  · rw [same, remove_self] at found
    simp at found
  · rwa [remove_of_ne same] at found

end TimerState

theorem registers_of_cancelled {id : Nat} {log : List Event}
    (gone : cancelled id log = true) : ∃ kind, .registered id kind ∈ log := by
  induction log with
  | nil => simp [cancelled] at gone
  | cons event log induction =>
      simp only [cancelled, Bool.or_eq_true, Bool.and_eq_true,
        List.any_eq_true] at gone
      rcases gone with ⟨-, older, member, registers⟩ | gone
      · cases older with
        | registered other kind =>
            simp only [Event.registers, beq_iff_eq] at registers
            subst registers
            exact ⟨kind, List.mem_cons_of_mem _ member⟩
        | _ => simp [Event.registers] at registers
      · obtain ⟨kind, member⟩ := induction gone
        exact ⟨kind, List.mem_cons_of_mem _ member⟩

theorem cancelled_cons_of_ne {id : Nat} {event : Event} {log : List Event}
    (other : event ≠ .cleared id) :
    cancelled id (event :: log) = cancelled id log := by
  simp [cancelled, other]

theorem concerns_of_completes {id : Nat} {event : Event}
    (completes : event.completes id = true) : event.concerns id = true := by
  cases event with
  | finished code outcome standing =>
      simp only [Event.completes, Bool.and_eq_true] at completes
      exact completes.1
  | _ => simp [Event.completes] at completes

theorem concerns_of_starts {id : Nat} {event : Event}
    (starts : event.starts id = true) : event.concerns id = true := by
  cases event with
  | started code jobs => exact starts
  | _ => simp [Event.starts] at starts

/-- A callback of the kind that was registered. -/
def Known (id : Nat) (callback : TimerCallback) (log : List Event) : Prop :=
  ∃ kind, .registered id kind ∈ log ∧
    (callback.repeating = true ↔ kind = .interval)

theorem Known.cons {id : Nat} {callback : TimerCallback} {log : List Event}
    (known : Known id callback log) (event : Event) :
    Known id callback (event :: log) := by
  obtain ⟨kind, member, agrees⟩ := known
  exact ⟨kind, List.mem_cons_of_mem _ member, agrees⟩

/-- No registered callback is cancelled, and none that does not repeat has
completed. -/
structure Uncancelled (timers : TimerState) (log : List Event) : Prop extends
    Ledger timers log, CancellationFinal log where
  live : ∀ id callback, timers.callbacks id = some callback →
    cancelled id log = false
  unspent : ∀ id callback, timers.callbacks id = some callback →
    callback.repeating = false → log.countP (Event.completes id) = 0

namespace Uncancelled

variable {timers next : TimerState} {log : List Event} {event : Event}

theorem noCompletion (state : Uncancelled timers log)
    (few : registrations log < 2 ^ 32) :
    log.countP (Event.completes timers.nextId) = 0 := by
  rw [List.countP_eq_zero]
  intro event member completes
  have concerns := concerns_of_completes completes
  rw [state.fresh few member] at concerns
  exact Bool.false_ne_true concerns

theorem register (state : Uncancelled timers log) {kind : Kind}
    {callback : TimerCallback} (few : registrations log < 2 ^ 32)
    (nextId : next.nextId = TimerState.saturatingNextId timers.nextId)
    (callbacks : next.callbacks =
      Function.update timers.callbacks timers.nextId (some callback))
    (repeats : callback.repeating = true ↔ kind = .interval) :
    Uncancelled next (.registered timers.nextId kind :: log) where
  toLedger := state.toLedger.register few nextId callbacks repeats
  neverAgain := by
    rw [throughout_cons]
    exact ⟨by simp [Event.starts], state.neverAgain⟩
  once := by
    intro id other single member
    rw [List.countP_cons_of_neg (by simp [Event.completes])]
    rcases List.mem_cons.mp member with new | old
    · cases new
      rw [state.noCompletion few]
      exact Nat.zero_le 1
    · exact state.once id other single old
  live := by
    intro id stored found
    rw [cancelled_cons_of_ne (by simp)]
    by_cases same : id = timers.nextId
    · subst same
      by_contra gone
      obtain ⟨kind, member⟩ :=
        registers_of_cancelled (by simpa using gone)
      have stale := state.fresh few member
      simp [Event.concerns] at stale
    · rw [callbacks, Function.update_of_ne same] at found
      exact state.live id stored found
  unspent := by
    intro id stored found single
    rw [List.countP_cons_of_neg (by simp [Event.completes])]
    by_cases same : id = timers.nextId
    · subst same
      exact state.noCompletion few
    · rw [callbacks, Function.update_of_ne same] at found
      exact state.unspent id stored found single

/-- An event that registers nothing. -/
theorem note (state : Uncancelled timers log)
    (other : event.isRegistration = false)
    (concerns : ∀ id, event.concerns id = true →
      ∃ older ∈ log, older.concerns id = true)
    (nextId : next.nextId = timers.nextId)
    (callbacks : ∀ id callback, next.callbacks id = some callback →
      timers.callbacks id = some callback ∨
        Known id callback log ∧ cancelled id log = false ∧
          (callback.repeating = false →
            log.countP (Event.completes id) = 0))
    (starts : ∀ id, event.starts id = true → cancelled id log = false)
    (clears : ∀ id, event = .cleared id → next.callbacks id = none)
    (completes : ∀ id, event.completes id = true →
      next.callbacks id = none ∧
        ∀ kind, kind ≠ .interval → .registered id kind ∈ log →
          log.countP (Event.completes id) = 0) :
    Uncancelled next (event :: log) where
  toLedger := by
    apply state.toLedger.note other concerns nextId
    intro id callback found
    rcases callbacks id callback found with stored | ⟨known, -⟩
    · exact .inl stored
    · exact .inr known
  neverAgain := by
    rw [throughout_cons]
    exact ⟨starts, state.neverAgain⟩
  once := by
    intro id kind single member
    have old : Event.registered id kind ∈ log := by
      rcases List.mem_cons.mp member with new | old
      · rw [← new] at other
        simp [Event.isRegistration] at other
      · exact old
    rw [List.countP_cons]
    by_cases done : event.completes id = true
    · rw [(completes id done).2 kind single old, if_pos done]
    · rw [if_neg done]
      exact state.once id kind single old
  live := by
    intro id callback found
    rw [cancelled_cons_of_ne]
    · rcases callbacks id callback found with stored | ⟨-, uncleared, -⟩
      · exact state.live id callback stored
      · exact uncleared
    · intro cleared
      rw [clears id cleared] at found
      simp at found
  unspent := by
    intro id callback found single
    rw [List.countP_cons_of_neg]
    · rcases callbacks id callback found with stored | ⟨-, -, unfinished⟩
      · exact state.unspent id callback stored single
      · exact unfinished single
    · intro done
      rw [(completes id done).1] at found
      simp at found

/-- The heap, the queue and the clock do not matter. -/
theorem settle (state : Uncancelled timers log)
    (nextId : next.nextId = timers.nextId)
    (callbacks : next.callbacks = timers.callbacks) :
    Uncancelled next log where
  nextId := by rw [nextId, state.nextId]
  below := state.below
  kinds := state.kinds
  callbacks := by
    rw [callbacks]
    exact state.callbacks
  toCancellationFinal := state.toCancellationFinal
  live := by
    rw [callbacks]
    exact state.live
  unspent := by
    rw [callbacks]
    exact state.unspent

/-- An event about no timer, and a registry that keeps no more. -/
theorem pass (state : Uncancelled timers log)
    (other : event.isRegistration = false)
    (concerns : ∀ id, event.concerns id = false)
    (nextId : next.nextId = timers.nextId)
    (callbacks : ∀ id callback, next.callbacks id = some callback →
      timers.callbacks id = some callback)
    (clears : ∀ id, event = .cleared id → next.callbacks id = none) :
    Uncancelled next (event :: log) := by
  apply state.note other _ nextId _ _ clears
  · intro id done
    have named := concerns_of_completes done
    rw [concerns id] at named
    exact absurd named (by decide)
  · intro id named
    rw [concerns id] at named
    exact absurd named (by decide)
  · intro id callback found
    exact .inl (callbacks id callback found)
  · intro id starts
    have named := concerns_of_starts starts
    rw [concerns id] at named
    exact absurd named (by decide)

theorem mark (state : Uncancelled timers log) (marks : event.marks = true)
    (nextId : next.nextId = timers.nextId)
    (callbacks : next.callbacks = timers.callbacks) :
    Uncancelled next (event :: log) := by
  have kept : ∀ id callback, next.callbacks id = some callback →
      timers.callbacks id = some callback := by
    intro id callback found
    rwa [callbacks] at found
  cases event with
  | sweepBegan | rearming | sweepCut | sweepEnded =>
      exact state.pass (by rfl) (by simp [Event.concerns]) nextId kept (by simp)
  | _ => simp [Event.marks] at marks

/-- A new timer is armed. -/
theorem arm (state : Uncancelled timers log) {id : Nat} {kind : Kind}
    (registered : .registered id kind ∈ log) (deadline : Nat) :
    Uncancelled timers (.armed id deadline :: log) := by
  apply state.note rfl _ rfl _ _ (by simp)
  · intro other done
    simp [Event.completes] at done
  · intro other named
    simp only [Event.concerns, beq_iff_eq] at named
    subst named
    exact ⟨_, registered, by simp [Event.concerns]⟩
  · intro other callback found
    exact .inl found
  · intro other starts
    simp [Event.starts] at starts

theorem cancel (state : Uncancelled timers log) (id : Nat) :
    Uncancelled (timers.cancel id) (.cleared id :: log) := by
  apply state.pass (by rfl) (by simp [Event.concerns]) (by rfl)
  · intro other callback found
    exact TimerState.of_remove found
  · intro other same
    cases same
    exact TimerState.remove_self

theorem start (state : Uncancelled timers log) (code : Code) (jobs : Nat)
    (other : code.timer? = none) :
    Uncancelled timers (.started code jobs :: log) :=
  state.pass rfl (by simp [Event.concerns, other]) rfl (fun _ _ found => found)
    (by simp)

theorem finish (state : Uncancelled timers log) (code : Code)
    (outcome : Outcome) (standing : Standing) (other : code.timer? = none) :
    Uncancelled timers (.finished code outcome standing :: log) :=
  state.pass rfl (by simp [Event.concerns, other]) rfl (fun _ _ found => found)
    (by simp)

end Uncancelled

theorem few_register {id : Nat} {kind : Kind} {log : List Event}
    (few : Few (.registered id kind :: log)) : registrations log < 2 ^ 32 := by
  simp only [Few, registrations_cons, Event.isRegistration, if_true] at few
  omega

theorem repeats_iff_interval (repeating : Bool) :
    repeating = true ↔
      (if repeating then Kind.interval else .timeout) = .interval := by
  cases repeating <;> decide

theorem Uncancelled.kept : KeptUnder Few Uncancelled where
  setTimer {timers log} repeating delay few state := by
    have registered : Uncancelled _ (.registered timers.nextId _ :: log) :=
      state.register (few_register few) rfl
        (TimerState.push_callbacks timers ⟨repeating, delay⟩
          (timers.now + delay))
        (repeats_iff_interval repeating)
    exact registered.arm List.mem_cons_self _
  setImmediate few state :=
    state.register (few_register few) rfl rfl (by decide)
  clear id state := state.cancel id
  start code jobs other state := state.start code jobs other
  finish code outcome standing other state :=
    state.finish code outcome standing other

/-! ## Callbacks that are out of the registry -/

/-- While a callback runs it is out of the registry, and it is cancelled only
by a clear call since it started.  `completed` tells whether it has run to its
end. -/
structure Away (id : Nat) (callback : TimerCallback) (completed : Bool)
    (timers : TimerState) (log : List Event) : Prop extends
    Uncancelled timers log where
  out : timers.callbacks id = none
  known : Known id callback log
  since : cancelled id log = true → clearedSinceStart id log = true
  unfinished : completed = false → callback.repeating = false →
    log.countP (Event.completes id) = 0

namespace Away

variable {id : Nat} {callback : TimerCallback} {completed : Bool}
  {timers next : TimerState} {log : List Event} {event : Event}

/-- An event that neither starts nor completes the callback. -/
theorem note (away : Away id callback completed timers log)
    (state : Uncancelled next (event :: log))
    (out : next.callbacks id = none) (starts : event.starts id = false)
    (completes : event.completes id = false) :
    Away id callback completed next (event :: log) where
  toUncancelled := state
  out := out
  known := away.known.cons event
  since := by
    intro gone
    by_cases cleared : event = .cleared id
    · simp [clearedSinceStart, cleared]
    · rw [cancelled_cons_of_ne cleared] at gone
      simp [clearedSinceStart, starts, away.since gone]
  unfinished := by
    intro running single
    rw [List.countP_cons_of_neg (by simp [completes])]
    exact away.unfinished running single

theorem nextId_ne (away : Away id callback completed timers log)
    (few : registrations log < 2 ^ 32) : id ≠ timers.nextId := by
  intro same
  obtain ⟨kind, member, -⟩ := away.known
  have stale := away.fresh few member
  simp [Event.concerns, same] at stale

theorem register (away : Away id callback completed timers log) {kind : Kind}
    {registered : TimerCallback} (few : registrations log < 2 ^ 32)
    (nextId : next.nextId = TimerState.saturatingNextId timers.nextId)
    (callbacks : next.callbacks =
      Function.update timers.callbacks timers.nextId (some registered))
    (repeats : registered.repeating = true ↔ kind = .interval) :
    Away id callback completed next
      (.registered timers.nextId kind :: log) := by
  apply away.note (away.toUncancelled.register few nextId callbacks repeats)
  · rw [callbacks, Function.update_of_ne (away.nextId_ne few)]
    exact away.out
  · rfl
  · rfl

theorem kept (id : Nat) (callback : TimerCallback) (completed : Bool) :
    KeptUnder Few (Away id callback completed) where
  setTimer {timers log} repeating delay few away := by
    have registered := away.register (few_register few) rfl
      (TimerState.push_callbacks timers ⟨repeating, delay⟩
        (timers.now + delay))
      (repeats_iff_interval repeating)
    exact registered.note (registered.arm List.mem_cons_self _) registered.out
      rfl rfl
  setImmediate few away :=
    away.register (few_register few) rfl rfl (by decide)
  clear other away := by
    apply away.note (away.cancel other) _ rfl rfl
    by_cases same : id = other
    · rw [same]
      exact TimerState.remove_self
    · exact (TimerState.remove_of_ne same).trans away.out
  start code jobs other away :=
    away.note (away.start code jobs other) away.out
      (by simp [Event.starts, other]) rfl
  finish code outcome standing other away :=
    away.note (away.finish code outcome standing other) away.out rfl
      (by simp [Event.completes, other])

end Away

namespace Uncancelled

variable {id : Nat} {callback : TimerCallback} {timers next : TimerState}
  {log : List Event} {code : Code}

/-- The callback is taken out of the registry and started. -/
theorem take (state : Uncancelled timers log) (jobs : Nat)
    (names : code.timer? = some id)
    (stored : timers.callbacks id = some callback)
    (nextId : next.nextId = timers.nextId)
    (callbacks : next.callbacks = Function.update timers.callbacks id none) :
    Away id callback false next (.started code jobs :: log) := by
  have out : next.callbacks id = none := by
    rw [callbacks, Function.update_self]
  have uncleared := state.live id callback stored
  have known := state.callbacks id callback stored
  have taken : Uncancelled next (.started code jobs :: log) := by
    apply state.note (by rfl) _ nextId _ _ (by simp)
    · intro other done
      simp [Event.completes] at done
    · intro other named
      simp only [Event.concerns, names, beq_iff_eq, Option.some.injEq] at named
      subst named
      obtain ⟨kind, member, -⟩ := known
      exact ⟨_, member, by simp [Event.concerns]⟩
    · intro other kept found
      left
      rw [callbacks] at found
      exact TimerState.of_remove found
    · intro other starts
      simp only [Event.starts, names, beq_iff_eq, Option.some.injEq] at starts
      subst starts
      exact uncleared
  exact {
    toUncancelled := taken
    out := out
    known := Known.cons known _
    since := by
      intro gone
      rw [cancelled_cons_of_ne (by simp), uncleared] at gone
      exact absurd gone (by decide)
    unfinished := by
      intro running single
      rw [List.countP_cons_of_neg (by simp [Event.completes])]
      exact state.unspent id callback stored single }

end Uncancelled

namespace Away

variable {id : Nat} {callback : TimerCallback} {completed : Bool}
  {timers next : TimerState} {log : List Event} {code : Code}

theorem concerned (away : Away id callback completed timers log)
    (names : code.timer? = some id) (outcome : Outcome) (standing : Standing)
    (other : Nat)
    (named : (Event.finished code outcome standing).concerns other = true) :
    ∃ older ∈ log, older.concerns other = true := by
  simp only [Event.concerns, names, beq_iff_eq, Option.some.injEq] at named
  subst named
  obtain ⟨kind, member, -⟩ := away.known
  exact ⟨_, member, by simp [Event.concerns]⟩

/-- The callback runs to its end, or is aborted. -/
theorem land (away : Away id callback false timers log)
    (names : code.timer? = some id) (outcome : Outcome) (standing : Standing) :
    Away id callback outcome.error?.isNone timers
      (.finished code outcome standing :: log) := by
  have state : Uncancelled timers (.finished code outcome standing :: log) := by
    apply away.toUncancelled.note (by rfl)
      (away.concerned names outcome standing) (by rfl)
      (fun _ _ found => .inl found) (by simp [Event.starts]) (by simp)
    intro other completes
    simp only [Event.completes, names, Bool.and_eq_true, beq_iff_eq,
      Option.some.injEq] at completes
    obtain ⟨same, -⟩ := completes
    subst same
    refine ⟨away.out, ?_⟩
    intro kind single member
    obtain ⟨own, registered, agrees⟩ := away.known
    have same := away.kinds id kind own member registered
    apply away.unfinished rfl
    by_contra repeats
    rw [Bool.not_eq_false, agrees, ← same] at repeats
    exact single repeats
  exact {
    toUncancelled := state
    out := away.out
    known := away.known.cons _
    since := by
      intro gone
      rw [cancelled_cons_of_ne (by simp)] at gone
      simp [clearedSinceStart, Event.starts, away.since gone]
    unfinished := by
      intro aborted single
      rw [List.countP_cons_of_neg (by simp [Event.completes, aborted])]
      exact away.unfinished rfl single }

/-- A callback that was not cleared is put back. -/
theorem putBack (away : Away id callback completed timers log)
    (uncleared : clearedSinceStart id log = false)
    (pending : completed = false ∨ callback.repeating = true)
    (nextId : next.nextId = timers.nextId)
    (callbacks : next.callbacks =
      Function.update timers.callbacks id (some callback)) :
    Uncancelled next (.putBack id :: log) := by
  have live : cancelled id log = false := by
    by_contra gone
    rw [away.since (by simpa using gone)] at uncleared
    exact absurd uncleared (by decide)
  apply away.toUncancelled.note (by rfl) (by simp [Event.concerns]) nextId _
    (by simp [Event.starts]) (by simp) (by simp [Event.completes])
  intro other stored found
  rw [callbacks] at found
  by_cases same : other = id
  · subst same
    rw [Function.update_self] at found
    cases found
    right
    refine ⟨away.known, live, ?_⟩
    intro single
    rcases pending with running | repeating
    · exact away.unfinished running single
    · rw [single] at repeating
      exact absurd repeating (by decide)
  · rw [Function.update_of_ne same] at found
    exact .inl found

end Away

/-! ## Sweeps and immediates -/

/-- Identities are not handed out twice, and no cleared callback is put
back. -/
def CancellationGuard (log : List Event) : Prop :=
  Few log ∧ PutsBackUncleared log

theorem CancellationGuard.earlier : Earlier CancellationGuard := by
  intro event log guarded
  exact ⟨Few.earlier guarded.1, (throughout_cons.mp guarded.2).2⟩

theorem CancellationGuard.uncleared {id : Nat} {log : List Event}
    (guarded : CancellationGuard (.putBack id :: log)) :
    clearedSinceStart id log = false :=
  (throughout_cons.mp guarded.2).1 id rfl

theorem KeptUnder.cancellation {assertion : Assertion}
    (kept : KeptUnder Few assertion) :
    Kept (Under CancellationGuard assertion) := by
  apply KeptUnder.kept _ CancellationGuard.earlier
  exact {
    setTimer := fun repeating delay guarded =>
      kept.setTimer repeating delay guarded.1
    setImmediate := fun guarded => kept.setImmediate guarded.1
    clear := kept.clear
    start := kept.start
    finish := kept.finish }

theorem cancellation_sweep : SweepRule (Under CancellationGuard Uncancelled)
    (fun _ _ => Under CancellationGuard Uncancelled)
    (fun _ _ entry callback =>
      Under CancellationGuard (Away entry.id callback false))
    (fun _ _ entry callback =>
      Under CancellationGuard (Away entry.id callback true)) where
  keepFlying _ _ entry callback :=
    (Away.kept entry.id callback false).cancellation
  keepLanded _ _ entry callback :=
    (Away.kept entry.id callback true).cancellation
  skip has _ := has
  take jobs has stored guarded :=
    (has guarded.earlier).take jobs rfl stored rfl rfl
  abort {_ _ entry callback timers _} interrupted standing has guarded := by
    have back := guarded.earlier.earlier
    have away := has back.earlier.earlier
    have landed := away.land
      (show (Code.timer entry.id).timer? = some entry.id from rfl)
      (.aborted interrupted) standing
    have state : Uncancelled (timers.insert entry.id callback) _ :=
      landed.putBack back.uncleared (.inl rfl) rfl rfl
    exact (state.mark rfl rfl rfl).mark rfl rfl rfl
  land {_ _ entry _ _ _} outcome standing ended has guarded := by
    have landed := (has guarded.earlier).land
      (show (Code.timer entry.id).timer? = some entry.id from rfl)
      outcome standing
    rwa [ended] at landed
  fail has guarded := by
    have state := (has guarded.earlier.earlier).toUncancelled
    exact (state.mark rfl rfl rfl).mark rfl rfl rfl
  spend _ has guarded := (has guarded).toUncancelled
  rearm {fired due entry callback timers log} repeating has guarded := by
    have away := has guarded.earlier.earlier.earlier
    have marked : Away entry.id callback true timers
        (.rearming entry (timers.rearmedEntry entry.id callback)
          (timers.tied (entry :: fired ++ due)
            (timers.rearmedEntry entry.id callback)) :: log) :=
      away.note (away.mark rfl rfl rfl) away.out rfl rfl
    obtain ⟨kind, member, -⟩ := marked.known
    have armed := marked.note (marked.arm member
      (timers.rearmedEntry entry.id callback).deadline) marked.out rfl rfl
    exact armed.putBack guarded.uncleared (.inr repeating) rfl rfl
  finish has guarded := (has guarded.earlier).mark rfl rfl rfl

theorem cancellation_immediates : ImmediateRule
    (Under CancellationGuard Uncancelled)
    (fun id callback => Under CancellationGuard (Away id callback false))
    (fun id callback => Under CancellationGuard (Away id callback true)) where
  keepFlying id callback := (Away.kept id callback false).cancellation
  keepLanded id callback := (Away.kept id callback true).cancellation
  skip has _ _ guarded := (has guarded).settle rfl rfl
  take jobs has _ stored guarded :=
    (has guarded.earlier).take jobs rfl stored rfl rfl
  abort {id _ _ _} interrupted standing has guarded := by
    have away := has guarded.earlier.earlier
    have landed := away.land
      (show (Code.immediate id).timer? = some id from rfl)
      (.aborted interrupted) standing
    exact landed.putBack guarded.uncleared (.inl rfl) rfl rfl
  land {id _ _ _} outcome standing ended has guarded := by
    have landed := (has guarded.earlier).land
      (show (Code.immediate id).timer? = some id from rfl) outcome standing
    rwa [ended] at landed
  rest has guarded := (has guarded).toUncancelled

theorem cancellation_loop :
    KeptByLoop (Under CancellationGuard Uncancelled) where
  toKept := Uncancelled.kept.cancellation
  fireDueTimers has := by
    apply cancellation_sweep.fireEntries
    intro guarded
    exact (has guarded.earlier).mark rfl rfl rfl
  runImmediates has := cancellation_immediates.runImmediates has
  advance now has guarded := (has guarded).settle rfl rfl

theorem uncancelled_initially : Uncancelled {} [] where
  nextId := rfl
  below := by simp
  kinds := by simp
  callbacks := by simp
  neverAgain := throughout_nil
  once := by simp
  live := by simp
  unspent := by simp

/-- In a run in which no callback is put back after it was cleared, cancelling
is final. -/
theorem cancellation_final (script : List Body) (calls : List HostCall)
    (few : registrations (HostLoop.run script calls).log < 2 ^ 32 - 1)
    (uncleared : PutsBackUncleared (HostLoop.run script calls).log) :
    CancellationFinal (HostLoop.run script calls).log := by
  have has := cancellation_loop.run (fun _ => uncancelled_initially) script
    calls
  have guarded : CancellationGuard (HostLoop.run script calls).log := by
    refine ⟨?_, uncleared⟩
    simp only [Few]
    omega
  exact (has guarded).toCancellationFinal

/-- The interval 0 of 10 ms clears itself in its first callback, and is started
again 10 ms later.  The calls after the script are those of its idle loop. -/
theorem cancellation_fails_on_own_clear :
    registrations (HostLoop.run
        [⟨[.setInterval 10], .completed⟩, ⟨[.clear 0], .completed⟩]
        [.runScript, .advanceTime 10, .runOneTurn, .advanceTime 10]).log <
          2 ^ 32 - 1 ∧
      ¬ CancellationFinal (HostLoop.run
        [⟨[.setInterval 10], .completed⟩, ⟨[.clear 0], .completed⟩]
        [.runScript, .advanceTime 10, .runOneTurn, .advanceTime 10]).log := by
  refine ⟨by decide +kernel, ?_⟩
  intro final
  let idle : Standing := ⟨0, false, false⟩
  have again := final.neverAgain
    [.sweepEnded, .putBack 0, .armed 0 30,
      .rearming ⟨20, 1, 0⟩ ⟨30, 1, 0⟩ [], .finished (.timer 0) .completed idle]
    (.started (.timer 0) 0)
    [.sweepBegan 20, .sweepEnded, .sweepBegan 10,
      .finished .completions .completed idle, .started .completions 0,
      .sweepEnded, .putBack 0, .armed 0 20, .rearming ⟨10, 0, 0⟩ ⟨20, 1, 0⟩ [],
      .finished (.timer 0) .completed idle, .cleared 0, .started (.timer 0) 0,
      .sweepBegan 10, .finished .script .completed idle, .armed 0 10,
      .registered 0 .interval, .started .script 0] (by decide +kernel) 0 rfl
  exact absurd again (by decide)

/-- The timeout 1 clears the interval 0, which has fired twice. -/
theorem cancellation_final_outside_clear :
    CancellationFinal (HostLoop.run
      [⟨[.setInterval 10, .setTimeout 25], .completed⟩, {}, {},
        ⟨[.clear 0], .completed⟩]
      [.runScript, .advanceTime 10, .advanceTime 10, .advanceTime 5,
        .advanceTime 20]).log := by
  apply cancellation_final
  · decide +kernel
  · let idle : Standing := ⟨0, false, false⟩
    have log : (HostLoop.run
        [⟨[.setInterval 10, .setTimeout 25], .completed⟩, {}, {},
          ⟨[.clear 0], .completed⟩]
        [.runScript, .advanceTime 10, .advanceTime 10, .advanceTime 5,
          .advanceTime 20]).log =
        [.sweepEnded, .sweepBegan 45, .sweepEnded,
          .finished (.timer 1) .completed idle, .cleared 0,
          .started (.timer 1) 0, .sweepBegan 25, .sweepEnded, .putBack 0,
          .armed 0 30, .rearming ⟨20, 2, 0⟩ ⟨30, 2, 0⟩ [],
          .finished (.timer 0) .completed idle, .started (.timer 0) 0,
          .sweepBegan 20, .sweepEnded, .putBack 0, .armed 0 20,
          .rearming ⟨10, 0, 0⟩ ⟨20, 2, 0⟩ [],
          .finished (.timer 0) .completed idle, .started (.timer 0) 0,
          .sweepBegan 10, .finished .script .completed idle, .armed 1 25,
          .registered 1 .timeout, .armed 0 10, .registered 0 .interval,
          .started .script 0] := by
      decide +kernel
    rw [log, PutsBackUncleared]
    simp [clearedSinceStart, Event.starts, Code.timer?]

end Fusor.Host.EventLoop
