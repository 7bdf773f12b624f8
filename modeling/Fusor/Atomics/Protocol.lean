import Fusor.Atomics.WaiterInvariants

/-!
# The wait/notify protocol over every run

Whatever the agents, the timers and the writers do in any order, a waiter
keeps its outcome once it has one, a promise is fulfilled at most once and
with the outcome of its waiter, and no wake-up is lost.
-/

namespace Fusor.Atomics

open Fusor.Atomics.System

section Outcomes

variable {system : System}

theorem settleAtomicsWakeEvent_frame (agent : AgentId)
    (fulfils : ObjectId → Bool) (system : System)
    (event : AtomicsWakeEvent) :
    (settleAtomicsWakeEvent agent fulfils system event).1.states =
      system.states ∧
    (settleAtomicsWakeEvent agent fulfils system event).1.registered =
      system.registered := by
  unfold settleAtomicsWakeEvent
  split
  · exact ⟨rfl, rfl⟩
  · split
    · exact ⟨rfl, rfl⟩
    · simp only
      split
      · exact ⟨rfl, rfl⟩
      · exact ⟨rfl, rfl⟩

theorem settleReady_frame (agent : AgentId) (fulfils : ObjectId → Bool)
    (events : List AtomicsWakeEvent) (system : System) :
    (settleReady agent fulfils events system).1.states = system.states ∧
    (settleReady agent fulfils events system).1.registered =
      system.registered := by
  induction events generalizing system with
  | nil => exact ⟨rfl, rfl⟩
  | cons event rest induction =>
      have frame := settleAtomicsWakeEvent_frame agent fulfils system event
      unfold settleReady
      split
      · rename_i settles
        rw [settles] at frame
        exact frame
      · rename_i settles
        rw [settles] at frame
        exact frame
      · rename_i after settles
        rw [settles] at frame
        obtain ⟨states, registered⟩ := induction (after.setReady agent rest)
        exact ⟨states.trans frame.1, registered.trans frame.2⟩

theorem settleDirect_frame (agent : AgentId) (directToken : Nat)
    (fulfils : ObjectId → Bool) (events : List AtomicsWakeEvent)
    (system : System) :
    (settleDirect agent directToken fulfils events system).states =
      system.states ∧
    (settleDirect agent directToken fulfils events system).registered =
      system.registered := by
  induction events generalizing system with
  | nil => exact ⟨rfl, rfl⟩
  | cons event rest induction =>
      have frame := settleAtomicsWakeEvent_frame agent fulfils system event
      unfold settleDirect
      split
      · split
        · rename_i settles
          rw [settles] at frame
          exact frame
        · rename_i after _ _ settles
          rw [settles] at frame
          obtain ⟨states, registered⟩ := induction (after.setChannel agent rest)
          exact ⟨states.trans frame.1, registered.trans frame.2⟩
      · exact induction _

/-- A step keeps the outcomes that there are. -/
theorem keeps_step (sound : Sound system) (action : Action) :
    Keeps system.states (system.step action).states := by
  cases action with
  | write bytes => exact .refl _
  | registerBlocking id byteIndex expected =>
      simp only [step, registerBlocking]
      split
      · exact .refl _
      · split <;> exact .refl _
  | registerAsync agent id promise byteIndex expected hasTimer =>
      simp only [step, registerAsync]
      split
      · exact .refl _
      · split <;> exact .refl _
  | scheduleTimeout agent id deadline =>
      simp only [step, scheduleTimeout]
      split <;> exact .refl _
  | notify agent byteIndex count directToken =>
      simp only [step, System.notify]
      rw [(foldl_wake agent directToken _ _).2.1]
      exact Notifies.keeps (sound.notifies byteIndex count)
  | handleTimer agent => exact .refl _
  | expireTimer agent now =>
      simp only [step, System.expireTimer]
      split
      · exact .refl _
      · exact (expireReadyWaiters_expires now _ _ system.states).keeps
  | settleNext agent fulfils =>
      simp only [step, settleNextReadyAtomicsWaiter]
      rw [(settleReady_frame agent fulfils _ _).1]
      exact .refl _
  | settleNotified agent directToken fulfils =>
      simp only [step, settleNotifiedAtomicsWaiters]
      rw [(settleDirect_frame agent directToken fulfils _ _).1]
      exact .refl _
  | cancel agent id =>
      simp only [step, cancelAtomicsWaiter]
      split
      · exact .refl _
      · exact Keeps.exchange system.states id .cancelled
  | timeOutBlocking id =>
      simp only [step, System.timeOutBlocking]
      split
      · exact Keeps.exchange system.states id .timedOut
      · exact .refl _
  | returnBlocking id byteIndex =>
      simp only [step, System.returnBlocking]
      split <;> exact .refl _

theorem keeps_run (sound : Sound system) (actions : List Action) :
    Keeps system.states (system.run actions).states := by
  induction actions generalizing system with
  | nil => exact .refl _
  | cons action actions induction =>
      exact (keeps_step sound action).trans (induction (sound_step sound action))

/-- The value that a registration compares the bytes with. -/
def Action.expected : Action → Option (List UInt8)
  | .registerBlocking _ _ expected => some expected
  | .registerAsync _ _ _ _ expected _ => some expected
  | _ => none

/-- A waiter is registered only while the bytes have the expected value. -/
theorem registered_step {action : Action} {registration : Registration}
    (member : registration ∈ (system.step action).registered) :
    registration ∈ system.registered ∨ ∃ expected,
      Action.expected action = some expected ∧
        system.block.equals registration.waiter.byteIndex expected := by
  cases action with
  | write bytes => exact .inl member
  | registerBlocking id byteIndex expected =>
      simp only [step, registerBlocking,
        SharedDataBlock.registerWaiterIfEqual] at member
      split at member
      · exact .inl member
      · split at member
        · exact .inl member
        · rename_i block registered
          split at registered
          · rename_i equals
            rcases List.mem_append.mp member with before | last
            · exact .inl before
            · rw [List.mem_singleton.mp last]
              exact .inr ⟨expected, rfl, equals⟩
          · cases registered
  | registerAsync agent id promise byteIndex expected hasTimer =>
      simp only [step, registerAsync,
        SharedDataBlock.registerWaiterIfEqual] at member
      split at member
      · exact .inl member
      · split at member
        · exact .inl member
        · rename_i block registered
          split at registered
          · rename_i equals
            rcases List.mem_append.mp member with before | last
            · exact .inl before
            · rw [List.mem_singleton.mp last]
              exact .inr ⟨expected, rfl, equals⟩
          · cases registered
  | scheduleTimeout agent id deadline =>
      simp only [step, scheduleTimeout] at member
      split at member <;> exact .inl member
  | notify agent byteIndex count directToken =>
      simp only [step, System.notify] at member
      rw [(foldl_wake agent directToken _ _).2.2.1] at member
      exact .inl member
  | handleTimer agent => exact .inl member
  | expireTimer agent now =>
      simp only [step, System.expireTimer] at member
      split at member <;> exact .inl member
  | settleNext agent fulfils =>
      simp only [step, settleNextReadyAtomicsWaiter] at member
      rw [(settleReady_frame agent fulfils _ _).2] at member
      exact .inl member
  | settleNotified agent directToken fulfils =>
      simp only [step, settleNotifiedAtomicsWaiters] at member
      rw [(settleDirect_frame agent directToken fulfils _ _).2] at member
      exact .inl member
  | cancel agent id =>
      simp only [step, cancelAtomicsWaiter] at member
      split at member <;> exact .inl member
  | timeOutBlocking id =>
      simp only [step, System.timeOutBlocking] at member
      split at member <;> exact .inl member
  | returnBlocking id byteIndex =>
      simp only [step, System.returnBlocking] at member
      split at member <;> exact .inl member

/-- The pending waiters of one location in the order of their registration. -/
def pendingWaiters (system : System) (byteIndex : Nat) : List SharedWaiter :=
  SharedDataBlock.pendingAt system.states byteIndex
    (system.registered.map Registration.waiter)

theorem Sound.pendingAt_eq (sound : Sound system) (byteIndex : Nat) :
    SharedDataBlock.pendingAt system.states byteIndex system.block.waiters =
      pendingWaiters system byteIndex := by
  have distinct : (system.registered.map Registration.waiter).Nodup := by
    apply List.Nodup.of_map SharedWaiter.id
    rw [List.map_map]
    exact sound.waiters.distinct
  have fewer := sound.waiters.listed.filter fun waiter => decide
    (system.states waiter.id = .pending ∧ waiter.byteIndex = byteIndex)
  apply fewer.eq_of_length
  apply List.Perm.length_eq
  refine (List.perm_ext_iff_of_nodup ?_ ?_).mpr ?_
  · exact (distinct.sublist sound.waiters.listed).filter _
  · exact distinct.filter _
  · intro waiter
    constructor
    · exact fun member => fewer.subset member
    · intro member
      obtain ⟨inside, matching⟩ := List.mem_filter.mp member
      obtain ⟨registration, registered, rfl⟩ := List.mem_map.mp inside
      refine List.mem_filter.mpr ⟨?_, matching⟩
      rw [decide_eq_true_iff] at matching
      exact sound.waiters.waiting registration registered matching.1

/-- A notification moves the first pending waiters of its location. -/
theorem Sound.notify_spec (sound : Sound system) (agent : AgentId)
    (byteIndex count directToken : Nat) :
    (system.notify agent byteIndex count directToken).2 =
      min count (pendingWaiters system byteIndex).length ∧
    ∀ id, (system.notify agent byteIndex count directToken).1.states id =
      if id ∈ ((pendingWaiters system byteIndex).take count).map
        SharedWaiter.id then .notified else system.states id := by
  have notifies := sound.notifies byteIndex count
  have woken := notifies.woken
  rw [sound.pendingAt_eq, Nat.sub_zero] at woken
  refine ⟨?_, ?_⟩
  · simp only [System.notify]
    rw [notifies.notified, woken, List.length_take, Nat.zero_add]
  · intro id
    simp only [System.notify]
    rw [(foldl_wake agent directToken _ _).2.1]
    change SharedDataBlock.Notification.states _ id = _
    rw [notifies.states, woken]

/-- A call that settles nothing leaves only pending waiters behind. -/
theorem Sound.settleNext_drains (sound : Sound system) (agent : AgentId)
    (fulfils : ObjectId → Bool)
    (stale : (system.settleNextReadyAtomicsWaiter agent fulfils).2 = .stale) :
    ∀ entry ∈ ((system.settleNextReadyAtomicsWaiter agent
        fulfils).1.agents agent).waiters,
      (system.settleNextReadyAtomicsWaiter agent fulfils).1.states entry.1 =
        .pending := by
  have after := (sound_settleNext sound agent fulfils).agents agent
  have empty : ((system.settleNextReadyAtomicsWaiter agent
      fulfils).1.agents agent).events = [] := by
    unfold settleNextReadyAtomicsWaiter at stale ⊢
    have drained := sound_settleReady fulfils (sound_drain sound agent)
      (by
        rw [System.setChannel, agents_updateAgent_self, System.setReady,
          agents_updateAgent_self])
    obtain ⟨channel, ready⟩ := drained.2 stale
    rw [Agent.events, ready, channel, System.setChannel,
      agents_updateAgent_self]
    rfl
  intro entry member
  have alive := (after.registry entry member).2
  have untold : ∀ result : AtomicsWakeResult,
      (system.settleNextReadyAtomicsWaiter agent fulfils).1.states entry.1 ≠
        result.status := by
    intro result status
    obtain ⟨event, eventMember, _⟩ := after.woken entry member result status
    rw [empty] at eventMember
    cases eventMember
  cases status : (system.settleNextReadyAtomicsWaiter agent
    fulfils).1.states entry.1 with
  | pending => rfl
  | notified => exact absurd status (untold .ok)
  | timedOut => exact absurd status (untold .timedOut)
  | cancelled => exact absurd status alive

end Outcomes

/-- What the protocol promises of a state and of what follows it. -/
structure FollowsProtocol (system : System) : Prop where
  registers : ∀ action, ∀ registration ∈ (system.step action).registered,
    registration ∈ system.registered ∨ ∃ expected,
      Action.expected action = some expected ∧
        system.block.equals registration.waiter.byteIndex expected
  keeps : ∀ actions id, system.states id ≠ .pending →
    (system.run actions).states id = system.states id
  notifies : ∀ agent byteIndex count directToken,
    (system.notify agent byteIndex count directToken).2 =
      min count (pendingWaiters system byteIndex).length ∧
    ∀ id, (system.notify agent byteIndex count directToken).1.states id =
      if id ∈ ((pendingWaiters system byteIndex).take count).map
        SharedWaiter.id then .notified else system.states id
  once : (system.fulfilled.map fun fulfilment =>
    (fulfilment.agent, fulfilment.promise)).Nodup
  answers : ∀ fulfilment ∈ system.fulfilled,
    ∃ registration ∈ system.registered,
      registration.waiter.wake = .async fulfilment.agent ∧
      registration.promise = some fulfilment.promise ∧
      system.states registration.waiter.id = fulfilment.result.status
  woken : ∀ agent, ∀ entry ∈ (system.agents agent).waiters,
    ∀ result : AtomicsWakeResult, system.states entry.1 = result.status →
      ∃ event ∈ (system.agents agent).channel ++ (system.agents agent).ready,
        event.waiterId = entry.1 ∧ event.result = result
  drains : ∀ agent fulfils,
    (system.settleNextReadyAtomicsWaiter agent fulfils).2 = .stale →
    ∀ entry ∈ ((system.settleNextReadyAtomicsWaiter agent
        fulfils).1.agents agent).waiters,
      (system.settleNextReadyAtomicsWaiter agent fulfils).1.states entry.1 =
        .pending

/-- The wait/notify protocol holds after every interleaving of its steps. -/
theorem run_followsProtocol (bytes : List UInt8) (limit : AgentId → Nat)
    (actions : List Action) :
    FollowsProtocol ((System.initial bytes limit).run actions) := by
  have sound := sound_run (sound_initial bytes limit) actions
  constructor
  · intro action registration member
    exact registered_step member
  · intro later id set
    exact keeps_run sound later id set
  · intro agent byteIndex count directToken
    exact sound.notify_spec agent byteIndex count directToken
  · exact sound.promises.once
  · intro fulfilment member
    obtain ⟨registration, registered, wake, promise, status, _⟩ :=
      sound.promises.answers fulfilment member
    exact ⟨registration, registered, wake, promise, status⟩
  · intro agent entry member result status
    exact (sound.agents agent).woken entry member result status
  · intro agent fulfils stale
    exact sound.settleNext_drains agent fulfils stale

end Fusor.Atomics
