import Fusor.Atomics.Waiters

/-!
# The invariant of the wait/notify protocol

The list of the block holds every pending waiter in the order of registration,
every waiter of an agent that has an outcome has an event on its way, and
every fulfilled promise has the outcome of a waiter that its agent no longer
keeps.  Every step keeps all three.
-/

namespace Fusor.Atomics

open Fusor.Atomics.System

/-- All wake events that an agent has not settled. -/
def Agent.events (agent : Agent) : List AtomicsWakeEvent :=
  agent.channel ++ agent.ready

/-- The waiters that a command schedules. -/
def AtomicsTimerCommand.scheduled : AtomicsTimerCommand → List WaiterId
  | .schedule waiterId _ => [waiterId]
  | .cancel _ => []

/-- The waiters that a driver may time out. -/
def AtomicsTimerDriver.waiterIds (driver : AtomicsTimerDriver) :
    List WaiterId :=
  driver.commands.flatMap AtomicsTimerCommand.scheduled ++
    driver.deadlines.map Prod.snd

def Agent.timerIds (agent : Agent) : List WaiterId :=
  (agent.timer.map AtomicsTimerDriver.waiterIds).getD []

/-- A waiter belongs to an agent. -/
def RegisteredFor (registered : List Registration) (agent : AgentId)
    (id : WaiterId) : Prop :=
  ∃ registration ∈ registered, registration.waiter.id = id ∧
    registration.waiter.wake = .async agent

/-- The list of a block holds every pending waiter, in the order of
registration. -/
structure WaitersSound (registered : List Registration)
    (waiters : List SharedWaiter) (states : WaiterStates) : Prop where
  distinct : (registered.map fun registration =>
    registration.waiter.id).Nodup
  fresh : ∀ id, id ∉ (registered.map fun registration =>
    registration.waiter.id) → states id = .pending
  listed : waiters.Sublist (registered.map Registration.waiter)
  waiting : ∀ registration ∈ registered,
    states registration.waiter.id = .pending → registration.waiter ∈ waiters

/-- Every waiter of an agent with an outcome has an event that tells it. -/
structure AgentSound (registered : List Registration) (states : WaiterStates)
    (id : AgentId) (agent : Agent) : Prop where
  registry : ∀ entry ∈ agent.waiters,
    ⟨⟨entry.1, entry.2.byteIndex, .async id⟩, some entry.2.promise⟩ ∈
      registered ∧ states entry.1 ≠ .cancelled
  distinct : (agent.waiters.map Prod.fst).Nodup
  events : ∀ event ∈ agent.events,
    states event.waiterId = event.result.status ∧
      RegisteredFor registered id event.waiterId
  woken : ∀ entry ∈ agent.waiters, ∀ result : AtomicsWakeResult,
    states entry.1 = result.status →
      ∃ event ∈ agent.events, event.waiterId = entry.1 ∧ event.result = result
  timers : ∀ waiter ∈ agent.timerIds, RegisteredFor registered id waiter

/-- The promises that were allocated for asynchronous waiters. -/
def allocated (registered : List Registration) : List (AgentId × ObjectId) :=
  registered.filterMap fun registration =>
    match registration.waiter.wake, registration.promise with
    | .async agent, some promise => some (agent, promise)
    | _, _ => none

/-- Every fulfilled promise has the outcome of a waiter that its agent no
longer keeps. -/
structure PromisesSound (registered : List Registration)
    (states : WaiterStates) (agents : AgentId → Agent)
    (fulfilled : List Fulfilment) : Prop where
  allocated : (allocated registered).Nodup
  once : (fulfilled.map fun fulfilment =>
    (fulfilment.agent, fulfilment.promise)).Nodup
  answers : ∀ fulfilment ∈ fulfilled, ∃ registration ∈ registered,
    registration.waiter.wake = .async fulfilment.agent ∧
    registration.promise = some fulfilment.promise ∧
    states registration.waiter.id = fulfilment.result.status ∧
    ∀ entry ∈ (agents fulfilment.agent).waiters,
      entry.1 ≠ registration.waiter.id

structure Sound (system : System) : Prop where
  waiters : WaitersSound system.registered system.block.waiters system.states
  agents : ∀ agent, AgentSound system.registered system.states agent
    (system.agents agent)
  promises : PromisesSound system.registered system.states system.agents
    system.fulfilled

theorem AtomicsWakeResult.status_injective {left right : AtomicsWakeResult}
    (same : left.status = right.status) : left = right := by
  cases left <;> cases right <;> first | rfl | cases same

theorem AtomicsWakeResult.status_ne_pending (result : AtomicsWakeResult) :
    result.status ≠ .pending := by
  cases result <;> decide

theorem AtomicsWakeResult.status_ne_cancelled (result : AtomicsWakeResult) :
    result.status ≠ .cancelled := by
  cases result <;> decide

/-- The flags that are set stay as they are. -/
def Keeps (states states' : WaiterStates) : Prop :=
  ∀ id, states id ≠ .pending → states' id = states id

theorem Keeps.refl (states : WaiterStates) : Keeps states states :=
  fun _ _ => rfl

theorem Keeps.exchange (states : WaiterStates) (id : WaiterId)
    (status : WaiterStatus) : Keeps states (states.exchange id status) :=
  fun _ set => WaiterStates.exchange_of_set set

theorem Keeps.trans {first second third : WaiterStates}
    (left : Keeps first second) (right : Keeps second third) :
    Keeps first third := by
  intro id set
  rw [right id (by rw [left id set]; exact set), left id set]

section Parts

variable {registered registered' : List Registration}
  {states states' : WaiterStates} {id : AgentId} {agent agent' : Agent}

theorem RegisteredFor.mono {waiter : WaiterId}
    (known : RegisteredFor registered id waiter)
    (grows : ∀ registration ∈ registered, registration ∈ registered') :
    RegisteredFor registered' id waiter := by
  obtain ⟨registration, member, rest⟩ := known
  exact ⟨registration, grows registration member, rest⟩

/-- A registration is determined by its waiter. -/
theorem registration_unique {left right : Registration}
    (distinct : (registered.map fun registration =>
      registration.waiter.id).Nodup)
    (leftMember : left ∈ registered) (rightMember : right ∈ registered)
    (same : left.waiter.id = right.waiter.id) : left = right :=
  List.inj_on_of_nodup_map distinct leftMember rightMember same

/-- How the state of an agent may move on. -/
theorem AgentSound.advance
    (sound : AgentSound registered states id agent)
    (grows : ∀ registration ∈ registered, registration ∈ registered')
    (keeps : Keeps states states')
    (waiters : agent'.waiters.Sublist agent.waiters)
    (events : ∀ event ∈ agent'.events, event ∈ agent.events ∨
      (states' event.waiterId = event.result.status ∧
        RegisteredFor registered' id event.waiterId))
    (old : ∀ event ∈ agent.events,
      (∃ entry ∈ agent'.waiters, entry.1 = event.waiterId) →
        event ∈ agent'.events)
    (new : ∀ entry ∈ agent'.waiters, states entry.1 = .pending →
      states' entry.1 ≠ .pending → ∃ event ∈ agent'.events,
        event.waiterId = entry.1 ∧ states' entry.1 = event.result.status)
    (timers : ∀ waiter ∈ agent'.timerIds, waiter ∈ agent.timerIds ∨
      RegisteredFor registered' id waiter) :
    AgentSound registered' states' id agent' := by
  constructor
  · intro entry member
    obtain ⟨known, alive⟩ := sound.registry entry (waiters.subset member)
    refine ⟨grows _ known, ?_⟩
    by_cases pending : states entry.1 = .pending
    · by_cases still : states' entry.1 = .pending
      · rw [still]
        decide
      · obtain ⟨event, _, _, status⟩ := new entry member pending still
        rw [status]
        exact event.result.status_ne_cancelled
    · rw [keeps entry.1 pending]
      exact alive
  · exact sound.distinct.sublist (waiters.map Prod.fst)
  · intro event member
    rcases events event member with before | now
    · obtain ⟨status, known⟩ := sound.events event before
      refine ⟨?_, known.mono grows⟩
      rw [keeps event.waiterId (by
        rw [status]
        exact event.result.status_ne_pending)]
      exact status
    · exact now
  · intro entry member result status
    by_cases pending : states entry.1 = .pending
    · obtain ⟨event, eventMember, own, told⟩ := new entry member pending (by
        rw [status]
        exact result.status_ne_pending)
      exact ⟨event, eventMember, own,
        AtomicsWakeResult.status_injective (told.symm.trans status)⟩
    · rw [keeps entry.1 pending] at status
      obtain ⟨event, eventMember, own, equal⟩ :=
        sound.woken entry (waiters.subset member) result status
      exact ⟨event, old event eventMember ⟨entry, member, own.symm⟩, own,
        equal⟩
  · intro waiter member
    rcases timers waiter member with before | known
    · exact (sound.timers waiter before).mono grows
    · exact known

/-- An agent that a step does not touch. -/
theorem AgentSound.untouched
    (sound : AgentSound registered states id agent)
    (grows : ∀ registration ∈ registered, registration ∈ registered')
    (keeps : Keeps states states')
    (elsewhere : ∀ entry ∈ agent.waiters, states entry.1 = .pending →
      states' entry.1 = .pending) :
    AgentSound registered' states' id agent := by
  refine sound.advance grows keeps (List.Sublist.refl _) ?_ ?_ ?_ ?_
  · exact fun event member => .inl member
  · exact fun event member _ => member
  · intro entry member pending set
    exact absurd (elsewhere entry member pending) set
  · exact fun waiter member => .inl member

theorem PromisesSound.advance {agents agents' : AgentId → Agent}
    {fulfilled : List Fulfilment}
    (sound : PromisesSound registered states agents fulfilled)
    (grows : ∀ registration ∈ registered, registration ∈ registered')
    (distinct : (Atomics.allocated registered').Nodup)
    (keeps : Keeps states states')
    (waiters : ∀ id, ∀ entry ∈ (agents' id).waiters,
      entry ∈ (agents id).waiters ∨
        entry.1 ∉ registered.map fun registration =>
          registration.waiter.id) :
    PromisesSound registered' states' agents' fulfilled := by
  constructor
  · exact distinct
  · exact sound.once
  · intro fulfilment member
    obtain ⟨registration, known, wake, promise, status, gone⟩ :=
      sound.answers fulfilment member
    refine ⟨registration, grows registration known, wake, promise, ?_, ?_⟩
    · rw [keeps registration.waiter.id (by
        rw [status]
        exact fulfilment.result.status_ne_pending)]
      exact status
    · intro entry entryMember same
      rcases waiters fulfilment.agent entry entryMember with before | unknown
      · exact gone entry before same
      · apply unknown
        rw [same]
        exact List.mem_map_of_mem
          (f := fun registration : Registration => registration.waiter.id) known

/-- A new waiter of an agent. -/
theorem AgentSound.register (sound : AgentSound registered states id agent)
    {waiter : WaiterId} {byteIndex : Nat} {promise : ObjectId} {hasTimer : Bool}
    (pending : states waiter = .pending)
    (fresh : waiter ∉ (registered.map fun registration =>
      registration.waiter.id)) :
    AgentSound
      (registered ++ [⟨⟨waiter, byteIndex, .async id⟩, some promise⟩]) states id
      { agent with
        waiters :=
          (waiter, ⟨byteIndex, promise, hasTimer⟩) :: agent.waiters } := by
  have before : AgentSound
      (registered ++ [⟨⟨waiter, byteIndex, .async id⟩, some promise⟩]) states id
      agent :=
    sound.untouched (fun _ member => List.mem_append_left _ member) (.refl _)
      fun _ _ pending => pending
  constructor
  · intro entry member
    rcases List.mem_cons.mp member with rfl | inside
    · refine ⟨List.mem_append_right _ List.mem_cons_self, ?_⟩
      simp only
      rw [pending]
      decide
    · exact before.registry entry inside
  · refine List.nodup_cons.mpr ⟨?_, before.distinct⟩
    intro member
    obtain ⟨entry, entryMember, equal⟩ := List.mem_map.mp member
    apply fresh
    exact List.mem_map.mpr ⟨_, (sound.registry entry entryMember).1, equal⟩
  · exact before.events
  · intro entry member result status
    rcases List.mem_cons.mp member with rfl | inside
    · simp only at status
      rw [pending] at status
      exact absurd status.symm result.status_ne_pending
    · exact before.woken entry inside result status
  · exact before.timers

theorem mem_allocated {owner : AgentId} {promise : ObjectId} :
    (owner, promise) ∈ allocated registered ↔
      ∃ registration ∈ registered, registration.waiter.wake = .async owner ∧
        registration.promise = some promise := by
  rw [allocated, List.mem_filterMap]
  apply exists_congr
  intro registration
  apply and_congr Iff.rfl
  cases registration.waiter.wake <;> cases registration.promise <;> simp

theorem allocated_register (distinct : (allocated registered).Nodup)
    {registration : Registration}
    (fresh : ∀ owner promise, registration.waiter.wake = .async owner →
      registration.promise = some promise →
        (owner, promise) ∉ allocated registered) :
    (allocated (registered ++ [registration])).Nodup := by
  have split : allocated (registered ++ [registration]) =
      allocated registered ++ allocated [registration] :=
    List.filterMap_append
  rw [split]
  refine List.nodup_append.mpr ⟨distinct, ?_, ?_⟩
  · have short : (allocated [registration]).length ≤ 1 :=
      List.length_filterMap_le _ _
    match allocated [registration], short with
    | [], _ => exact List.nodup_nil
    | [pair], _ => exact List.nodup_singleton pair
  · rintro ⟨owner, promise⟩ member _ last rfl
    obtain ⟨found, foundMember, wake, kept⟩ := mem_allocated.mp last
    rw [List.mem_singleton.mp foundMember] at wake kept
    exact fresh owner promise wake kept member

/-- The flags and the list of a block may move on together. -/
theorem WaitersSound.advance {waiters waiters' : List SharedWaiter}
    (sound : WaitersSound registered waiters states)
    (keeps : Keeps states states')
    (unknown : ∀ id, id ∉ (registered.map fun registration =>
      registration.waiter.id) → states' id = .pending)
    (fewer : waiters'.Sublist waiters)
    (stay : ∀ waiter ∈ waiters, states' waiter.id = .pending →
      waiter ∈ waiters') :
    WaitersSound registered waiters' states' := by
  constructor
  · exact sound.distinct
  · exact unknown
  · exact fewer.trans sound.listed
  · intro registration member pending
    apply stay _ _ pending
    apply sound.waiting registration member
    by_contra set
    rw [keeps _ set] at pending
    exact set pending

/-- A registration of a waiter that is not known yet. -/
theorem WaitersSound.register {waiters : List SharedWaiter}
    (sound : WaitersSound registered waiters states)
    {registration : Registration}
    (fresh : registration.waiter.id ∉ (registered.map fun registration =>
      registration.waiter.id)) :
    WaitersSound (registered ++ [registration])
      (waiters ++ [registration.waiter]) states := by
  constructor
  · rw [List.map_append]
    refine List.nodup_append.mpr ⟨sound.distinct, List.nodup_singleton _, ?_⟩
    intro known knownMember last lastMember same
    rw [List.map_singleton, List.mem_singleton] at lastMember
    rw [same, lastMember] at knownMember
    exact fresh knownMember
  · intro id unknown
    apply sound.fresh
    intro known
    apply unknown
    rw [List.map_append]
    exact List.mem_append_left _ known
  · rw [List.map_append]
    exact sound.listed.append (List.Sublist.refl _)
  · intro known member pending
    rcases List.mem_append.mp member with before | last
    · exact List.mem_append_left _ (sound.waiting known before pending)
    · rw [List.mem_singleton.mp last]
      exact List.mem_append_right _ List.mem_cons_self

end Parts

section Steps

variable {system : System}

@[simp]
theorem agents_updateAgent_self (system : System) (agent : AgentId)
    (change : Agent → Agent) :
    (system.updateAgent agent change).agents agent =
      change (system.agents agent) :=
  Function.update_self ..

theorem agents_updateAgent_of_ne (system : System) {agent other : AgentId}
    (change : Agent → Agent) (apart : other ≠ agent) :
    (system.updateAgent agent change).agents other = system.agents other :=
  Function.update_of_ne apart ..

/-- A step that changes one agent and nothing else. -/
theorem Sound.updateAgent (sound : Sound system) {agent : AgentId}
    {change : Agent → Agent}
    (changed : AgentSound system.registered system.states agent
      (change (system.agents agent)))
    (fewer : (change (system.agents agent)).waiters.Sublist
      (system.agents agent).waiters) :
    Sound (system.updateAgent agent change) := by
  constructor
  · exact sound.waiters
  · intro other
    by_cases same : other = agent
    · subst same
      rw [agents_updateAgent_self]
      exact changed
    · rw [agents_updateAgent_of_ne system change same]
      exact sound.agents other
  · refine sound.promises.advance (fun _ member => member)
      sound.promises.allocated (.refl _) ?_
    intro other entry member
    by_cases same : other = agent
    · subst same
      rw [agents_updateAgent_self] at member
      exact .inl (fewer.subset member)
    · rw [agents_updateAgent_of_ne system change same] at member
      exact .inl member

theorem sound_initial (bytes : List UInt8) (limit : AgentId → Nat) :
    Sound (System.initial bytes limit) := by
  constructor
  · constructor <;> simp [System.initial]
  · intro agent
    constructor <;>
      simp [System.initial, Agent.events, Agent.timerIds]
  · constructor <;> simp [System.initial, allocated]

theorem sound_write (sound : Sound system) (bytes : List UInt8) :
    Sound { system with block := { system.block with bytes } } :=
  ⟨sound.waiters, sound.agents, sound.promises⟩

theorem sound_registerBlocking (sound : Sound system) (id : WaiterId)
    (byteIndex : Nat) (expected : List UInt8) :
    Sound (system.registerBlocking id byteIndex expected) := by
  unfold registerBlocking
  simp only
  split
  · exact sound
  · rename_i fresh
    split
    · exact sound
    · rename_i block registered
      unfold SharedDataBlock.registerWaiterIfEqual at registered
      split at registered
      · cases registered
        have grows : ∀ registration ∈ system.registered, registration ∈
            system.registered ++ [⟨⟨id, byteIndex, .blocking⟩, none⟩] :=
          fun registration member => List.mem_append_left _ member
        constructor
        · exact sound.waiters.register fresh
        · intro agent
          exact (sound.agents agent).untouched grows (.refl _)
            fun _ _ pending => pending
        · refine sound.promises.advance grows ?_ (.refl _)
            fun _ _ member => .inl member
          apply allocated_register sound.promises.allocated
          intro owner promise wake
          cases wake
      · cases registered

theorem mem_promises {agent : AgentId} {promise : ObjectId}
    (member : (agent, promise) ∈ allocated system.registered) :
    promise ∈ system.promises agent := by
  obtain ⟨registration, known, wake, kept⟩ := mem_allocated.mp member
  refine List.mem_filterMap.mpr ⟨registration, known, ?_⟩
  rw [if_pos wake]
  exact kept

theorem sound_registerAsync (sound : Sound system) (agent : AgentId)
    (id : WaiterId) (promise : ObjectId) (byteIndex : Nat)
    (expected : List UInt8) (hasTimer : Bool) :
    Sound (system.registerAsync agent id promise byteIndex expected
      hasTimer) := by
  unfold registerAsync
  simp only
  split
  · exact sound
  · rename_i guarded
    have freshId : id ∉ system.ids := fun known => guarded (.inl known)
    have freshPromise : promise ∉ system.promises agent :=
      fun known => guarded (.inr (.inl known))
    split
    · exact sound
    · rename_i block registered
      unfold SharedDataBlock.registerWaiterIfEqual at registered
      split at registered
      · cases registered
        have grows : ∀ registration ∈ system.registered, registration ∈
            system.registered ++
              [⟨⟨id, byteIndex, .async agent⟩, some promise⟩] :=
          fun registration member => List.mem_append_left _ member
        constructor
        · exact sound.waiters.register freshId
        · intro other
          by_cases same : other = agent
          · subst same
            rw [agents_updateAgent_self]
            exact (sound.agents other).register
              (sound.waiters.fresh id freshId) freshId
          · rw [agents_updateAgent_of_ne _ _ same]
            exact (sound.agents other).untouched grows (.refl _)
              fun _ _ pending => pending
        · refine sound.promises.advance grows ?_ (.refl _) ?_
          · apply allocated_register sound.promises.allocated
            intro owner found wake kept known
            cases wake
            cases kept
            exact freshPromise (mem_promises known)
          · intro other entry member
            by_cases same : other = agent
            · subst same
              rw [agents_updateAgent_self] at member
              rcases List.mem_cons.mp member with rfl | inside
              · exact .inr freshId
              · exact .inl inside
            · rw [agents_updateAgent_of_ne _ _ same] at member
              exact .inl member
      · cases registered

/-- A change of the timer alone. -/
theorem AgentSound.setTimer {registered : List Registration}
    {states : WaiterStates} {id : AgentId} {agent : Agent}
    (sound : AgentSound registered states id agent)
    {timer : Option AtomicsTimerDriver}
    (timers : ∀ waiter ∈ (timer.map AtomicsTimerDriver.waiterIds).getD [],
      waiter ∈ agent.timerIds ∨ RegisteredFor registered id waiter) :
    AgentSound registered states id { agent with timer } := by
  refine sound.advance (fun _ member => member) (.refl _)
    (List.Sublist.refl _) ?_ ?_ ?_ timers
  · exact fun event member => .inl member
  · exact fun event member _ => member
  · intro entry _ pending set
    exact absurd pending set

theorem waiterIds_send (driver : AtomicsTimerDriver)
    (command : AtomicsTimerCommand) :
    ∀ waiter ∈ (driver.send command).waiterIds,
      waiter ∈ driver.waiterIds ∨ waiter ∈ command.scheduled := by
  intro waiter member
  simp only [AtomicsTimerDriver.waiterIds, AtomicsTimerDriver.send,
    List.flatMap_append, List.flatMap_cons, List.flatMap_nil, List.append_nil,
    List.mem_append] at member ⊢
  rcases member with (commanded | last) | deadline
  · exact .inl (.inl commanded)
  · exact .inr last
  · exact .inl (.inr deadline)

theorem mem_of_lookup {waiters : List (WaiterId × AsyncAtomicsWaiter)}
    {id : WaiterId} {waiter : AsyncAtomicsWaiter}
    (found : waiters.lookup id = some waiter) : (id, waiter) ∈ waiters := by
  obtain ⟨before, after, equal, _⟩ := List.lookup_eq_some_iff.mp found
  simp [equal]

theorem sound_scheduleTimeout (sound : Sound system) (agent : AgentId)
    (id : WaiterId) (deadline : Nat) :
    Sound (system.scheduleTimeout agent id deadline) := by
  unfold scheduleTimeout
  split
  · rename_i present
    obtain ⟨record, found⟩ := Option.isSome_iff_exists.mp present
    have known : RegisteredFor system.registered agent id := by
      have member := mem_of_lookup found
      exact ⟨_, ((sound.agents agent).registry _ member).1, rfl, rfl⟩
    refine sound.updateAgent ?_ (List.Sublist.refl _)
    apply (sound.agents agent).setTimer
    intro waiter member
    rcases waiterIds_send _ _ waiter member with before | last
    · left
      cases started : (system.agents agent).timer with
      | none =>
          rw [started] at before
          cases before
      | some driver =>
          rw [started] at before
          rw [Agent.timerIds, started]
          exact before
    · rw [List.mem_singleton.mp last]
      exact .inr known
  · exact sound

theorem waiterIds_forget (driver : AtomicsTimerDriver) (id : WaiterId) :
    ∀ waiter ∈ (driver.forget id).waiterIds, waiter ∈ driver.waiterIds := by
  intro waiter member
  unfold AtomicsTimerDriver.forget at member
  split at member
  · simp only [AtomicsTimerDriver.waiterIds, List.mem_append] at member ⊢
    rcases member with commanded | deadline
    · exact .inl commanded
    · obtain ⟨entry, kept, equal⟩ := List.mem_map.mp deadline
      exact .inr (List.mem_map.mpr ⟨entry, List.mem_of_mem_erase kept, equal⟩)
  · exact member

theorem mem_insertDeadline {key other : Nat × WaiterId}
    {deadlines : List (Nat × WaiterId)}
    (member : other ∈ AtomicsTimerDriver.insertDeadline key deadlines) :
    other = key ∨ other ∈ deadlines := by
  induction deadlines with
  | nil => exact .inl (List.mem_singleton.mp member)
  | cons first rest induction =>
      unfold AtomicsTimerDriver.insertDeadline at member
      split at member
      · exact .inr member
      · split at member
        · exact List.mem_cons.mp member
        · rcases List.mem_cons.mp member with rfl | later
          · exact .inr List.mem_cons_self
          · rcases induction later with equal | inside
            · exact .inl equal
            · exact .inr (List.mem_cons_of_mem first inside)

theorem waiterIds_handle (driver : AtomicsTimerDriver) :
    ∀ waiter ∈ driver.handle.waiterIds, waiter ∈ driver.waiterIds := by
  intro waiter member
  unfold AtomicsTimerDriver.handle at member
  have fewer : ∀ command commands, driver.commands = command :: commands →
      ∀ other ∈ ({ driver with commands } : AtomicsTimerDriver).waiterIds,
        other ∈ driver.waiterIds := by
    intro command commands pending other inside
    simp only [AtomicsTimerDriver.waiterIds, List.mem_append] at inside ⊢
    rcases inside with commanded | deadline
    · left
      rw [pending, List.flatMap_cons]
      exact List.mem_append_right _ commanded
    · exact .inr deadline
  split at member
  · exact member
  · rename_i id deadline commands pending
    have commanded : id ∈ driver.waiterIds := by
      rw [AtomicsTimerDriver.waiterIds, pending, List.flatMap_cons]
      simp [AtomicsTimerCommand.scheduled]
    simp only [AtomicsTimerDriver.waiterIds, List.mem_append] at member
    rcases member with queued | mapped
    · apply fewer _ _ pending
      apply waiterIds_forget _ id
      rw [AtomicsTimerDriver.waiterIds]
      exact List.mem_append_left _ queued
    · obtain ⟨entry, inserted, equal⟩ := List.mem_map.mp mapped
      rcases mem_insertDeadline inserted with rfl | inside
      · rw [← equal]
        exact commanded
      · apply fewer _ _ pending
        apply waiterIds_forget _ id
        rw [AtomicsTimerDriver.waiterIds]
        exact List.mem_append_right _ (List.mem_map.mpr ⟨entry, inside, equal⟩)
  · rename_i id commands pending
    exact fewer _ _ pending waiter (waiterIds_forget _ id waiter member)

theorem sound_handleTimer (sound : Sound system) (agent : AgentId) :
    Sound (system.handleTimer agent) := by
  unfold handleTimer
  refine sound.updateAgent ?_ (List.Sublist.refl _)
  apply (sound.agents agent).setTimer
  intro waiter member
  left
  rw [Agent.timerIds]
  cases started : (system.agents agent).timer with
  | none =>
      rw [started] at member
      cases member
  | some driver =>
      rw [started] at member
      exact waiterIds_handle driver waiter member

/-- The event that a notified waiter sends to an agent. -/
def wakeEvent (notifyingAgent directToken : Nat) (agent : AgentId)
    (waiter : SharedWaiter) : Option AtomicsWakeEvent :=
  if waiter.wake = .async agent then
    some ⟨waiter.id, .ok,
      if agent = notifyingAgent then some directToken else none⟩
  else none

theorem mem_wakeEvents {notifyingAgent directToken : Nat} {agent : AgentId}
    {woken : List SharedWaiter} {event : AtomicsWakeEvent}
    (member : event ∈ woken.filterMap
      (wakeEvent notifyingAgent directToken agent)) :
    event.result = .ok ∧ ∃ waiter ∈ woken, waiter.id = event.waiterId ∧
      waiter.wake = .async agent := by
  obtain ⟨waiter, inside, equal⟩ := List.mem_filterMap.mp member
  rw [wakeEvent] at equal
  split at equal
  · rename_i own
    cases equal
    exact ⟨rfl, waiter, inside, rfl, own⟩
  · cases equal

/-- Waking waiters only appends to the channels of their agents. -/
theorem foldl_wake (notifyingAgent directToken : Nat)
    (woken : List SharedWaiter) (system : System) :
    (woken.foldl (wake notifyingAgent directToken) system).block =
      system.block ∧
    (woken.foldl (wake notifyingAgent directToken) system).states =
      system.states ∧
    (woken.foldl (wake notifyingAgent directToken) system).registered =
      system.registered ∧
    (woken.foldl (wake notifyingAgent directToken) system).fulfilled =
      system.fulfilled ∧
    ∀ agent,
      (woken.foldl (wake notifyingAgent directToken) system).agents agent =
        { system.agents agent with
          channel := (system.agents agent).channel ++ woken.filterMap
            (wakeEvent notifyingAgent directToken agent) } := by
  induction woken generalizing system with
  | nil => simp
  | cons waiter woken induction =>
      obtain ⟨block, states, registered, fulfilled, agents⟩ :=
        induction (wake notifyingAgent directToken system waiter)
      rw [List.foldl_cons]
      cases woke : waiter.wake with
      | blocking =>
          have unchanged : wake notifyingAgent directToken system waiter =
              system := by
            rw [wake, woke]
          rw [unchanged] at block states registered fulfilled agents ⊢
          refine ⟨block, states, registered, fulfilled, ?_⟩
          intro agent
          rw [agents agent, List.filterMap_cons]
          simp [wakeEvent, woke]
      | async owner =>
          have sent : wake notifyingAgent directToken system waiter =
              system.send owner ⟨waiter.id, .ok,
                if owner = notifyingAgent then some directToken else none⟩ := by
            rw [wake, woke]
          rw [sent] at block states registered fulfilled agents ⊢
          refine ⟨block, states, registered, fulfilled, ?_⟩
          intro agent
          rw [agents agent, List.filterMap_cons]
          by_cases own : agent = owner
          · subst own
            simp [wakeEvent, woke, System.send]
          · have apart : ¬ owner = agent := fun equal => own equal.symm
            rw [System.send, agents_updateAgent_of_ne _ _ own]
            simp [wakeEvent, woke, apart]

/-- New events of an agent for waiters that got an outcome. -/
theorem AgentSound.receive {registered : List Registration}
    {states states' : WaiterStates} {id : AgentId} {agent : Agent}
    (sound : AgentSound registered states id agent)
    (keeps : Keeps states states') {sent : List AtomicsWakeEvent}
    (known : ∀ event ∈ sent, states' event.waiterId = event.result.status ∧
      RegisteredFor registered id event.waiterId)
    (told : ∀ entry ∈ agent.waiters, states entry.1 = .pending →
      states' entry.1 ≠ .pending → ∃ event ∈ sent,
        event.waiterId = entry.1 ∧ states' entry.1 = event.result.status) :
    AgentSound registered states' id
      { agent with channel := agent.channel ++ sent } := by
  have events : ∀ event,
      event ∈ Agent.events { agent with channel := agent.channel ++ sent } ↔
        event ∈ agent.events ∨ event ∈ sent := by
    intro event
    simp only [Agent.events, List.mem_append]
    rw [or_assoc, or_comm (a := event ∈ sent), ← or_assoc]
  refine sound.advance (fun _ member => member) keeps (List.Sublist.refl _) ?_
    ?_ ?_ ?_
  · intro event member
    rcases (events event).mp member with before | new
    · exact .inl before
    · exact .inr (known event new)
  · exact fun event member _ => (events event).mpr (.inl member)
  · intro entry member pending set
    obtain ⟨event, new, own, status⟩ := told entry member pending set
    exact ⟨event, (events event).mpr (.inr new), own, status⟩
  · exact fun waiter member => .inl member

/-- The flags after a notification. -/
theorem Sound.notifies (sound : Sound system) (byteIndex count : Nat) :
    SharedDataBlock.Notifies byteIndex count system.block.waiters 0
      system.states (SharedDataBlock.notifyWaiters byteIndex count
        system.block.waiters 0 system.states) := by
  apply SharedDataBlock.notifyWaiters_notifies
  refine (List.Nodup.sublist
    (sound.waiters.listed.map SharedWaiter.id) ?_)
  rw [List.map_map]
  exact sound.waiters.distinct

theorem Notifies.keeps {byteIndex count notified : Nat}
    {waiters : List SharedWaiter} {states : WaiterStates}
    {result : SharedDataBlock.Notification}
    (notifies : SharedDataBlock.Notifies byteIndex count waiters notified states
      result) : Keeps states result.states := by
  intro id set
  rw [notifies.states, if_neg]
  intro member
  obtain ⟨waiter, woken, equal⟩ := List.mem_map.mp member
  rw [notifies.woken] at woken
  have pending := (List.mem_filter.mp (List.mem_of_mem_take woken)).2
  rw [decide_eq_true_iff, equal] at pending
  exact set pending.1

theorem sound_notify (sound : Sound system) (agent : AgentId)
    (byteIndex count : Nat) (directToken : Nat) :
    Sound (system.notify agent byteIndex count directToken).1 := by
  have notifies := sound.notifies byteIndex count
  unfold System.notify
  simp only
  generalize SharedDataBlock.notifyWaiters byteIndex count system.block.waiters 0
    system.states = result at notifies
  have keeps : Keeps system.states result.states := Notifies.keeps notifies
  have wokenListed : ∀ waiter ∈ result.woken,
      waiter ∈ system.registered.map Registration.waiter := by
    intro waiter member
    rw [notifies.woken] at member
    exact sound.waiters.listed.subset
      (List.mem_of_mem_filter (List.mem_of_mem_take member))
  obtain ⟨block, states, registered, fulfilled, agents⟩ := foldl_wake agent
    directToken result.woken
    { system with
      block := { system.block with waiters := result.waiters }
      states := result.states }
  constructor
  · rw [block, states, registered]
    change WaitersSound system.registered result.waiters result.states
    refine sound.waiters.advance keeps ?_ ?_ ?_
    · intro id unknown
      rw [notifies.states, if_neg]
      · exact sound.waiters.fresh id unknown
      · intro member
        obtain ⟨waiter, woken, equal⟩ := List.mem_map.mp member
        obtain ⟨registration, known, own⟩ :=
          List.mem_map.mp (wokenListed waiter woken)
        apply unknown
        refine List.mem_map.mpr ⟨registration, known, ?_⟩
        rw [own, equal]
    · rw [notifies.waiters]
      exact List.filter_sublist
    · intro waiter member pending
      rw [notifies.waiters]
      exact List.mem_filter.mpr ⟨member, by simpa using pending⟩
  · intro other
    rw [states, registered, agents other]
    change AgentSound system.registered result.states other
      { system.agents other with
        channel := (system.agents other).channel ++ result.woken.filterMap
          (wakeEvent agent directToken other) }
    apply (sound.agents other).receive keeps
    · intro event member
      obtain ⟨result_ok, waiter, woken, own, wake⟩ := mem_wakeEvents member
      refine ⟨?_, ?_⟩
      · rw [result_ok, notifies.states, if_pos]
        · rfl
        · exact List.mem_map.mpr ⟨waiter, woken, own⟩
      · obtain ⟨registration, known, equal⟩ :=
          List.mem_map.mp (wokenListed waiter woken)
        exact ⟨registration, known, by rw [equal, own], by rw [equal, wake]⟩
    · intro entry member pending set
      rw [notifies.states] at set
      split at set
      · rename_i notified
        obtain ⟨waiter, woken, own⟩ := List.mem_map.mp notified
        obtain ⟨registration, known, equal⟩ :=
          List.mem_map.mp (wokenListed waiter woken)
        have same := registration_unique sound.waiters.distinct known
          ((sound.agents other).registry entry member).1
          (by rw [equal, own])
        have wake : waiter.wake = .async other := by
          rw [← equal, same]
        refine ⟨⟨waiter.id, .ok,
          if other = agent then some directToken else none⟩, ?_, own, ?_⟩
        · refine List.mem_filterMap.mpr ⟨waiter, woken, ?_⟩
          rw [wakeEvent, if_pos wake]
        · rw [notifies.states, if_pos notified]
          rfl
      · exact absurd pending set
  · rw [states, registered, fulfilled]
    change PromisesSound system.registered result.states _ system.fulfilled
    refine sound.promises.advance (fun _ member => member)
      sound.promises.allocated keeps ?_
    intro other entry member
    rw [agents other] at member
    exact .inl member

/-- What the timer driver does when it wakes up. -/
structure Expires (deadlines : List (Nat × WaiterId))
    (driver : AtomicsTimerDriver) (states : WaiterStates)
    (expiry : AtomicsTimerDriver.Expiry) : Prop where
  commands : expiry.driver.commands = driver.commands
  remaining : ∀ entry ∈ expiry.driver.deadlines, entry ∈ deadlines
  keeps : Keeps states expiry.states
  sent : ∀ event ∈ expiry.sent,
    expiry.states event.waiterId = event.result.status ∧
      event.waiterId ∈ deadlines.map Prod.snd
  told : ∀ id, states id = .pending → expiry.states id ≠ .pending →
    ∃ event ∈ expiry.sent, event.waiterId = id ∧
      expiry.states id = event.result.status

theorem Expires.later {deadlines : List (Nat × WaiterId)}
    {driver driver' : AtomicsTimerDriver} {states : WaiterStates}
    {expiry : AtomicsTimerDriver.Expiry}
    (expires : Expires deadlines driver' states expiry)
    (same : driver'.commands = driver.commands) (key : Nat × WaiterId) :
    Expires (key :: deadlines) driver states expiry := by
  constructor
  · exact expires.commands.trans same
  · exact fun entry member =>
      List.mem_cons_of_mem key (expires.remaining entry member)
  · exact expires.keeps
  · intro event member
    obtain ⟨status, known⟩ := expires.sent event member
    exact ⟨status, List.mem_cons_of_mem key.2 known⟩
  · exact expires.told

theorem expireReadyWaiters_expires (now : Nat)
    (deadlines : List (Nat × WaiterId)) (driver : AtomicsTimerDriver)
    (states : WaiterStates) :
    Expires deadlines driver states
      (AtomicsTimerDriver.expireReadyWaiters now deadlines driver states) := by
  induction deadlines generalizing driver states with
  | nil =>
      refine ⟨rfl, fun _ member => member, .refl _, ?_, ?_⟩
      · intro event member
        cases member
      · intro id pending set
        exact absurd pending set
  | cons key rest induction =>
      obtain ⟨deadline, id⟩ := key
      unfold AtomicsTimerDriver.expireReadyWaiters
      split
      · split
        · exact (induction driver states).later rfl _
        · simp only [WaiterStates.tryTimeout]
          split
          · rename_i expired exchanged
            have pending : states id = .pending := by
              simpa using congrArg Prod.fst exchanged
            have changed : states.exchange id .timedOut = expired :=
              congrArg Prod.snd exchanged
            subst changed
            have rest := induction
              { driver with
                waiterDeadlines :=
                  driver.waiterDeadlines.filter fun entry => entry.1 ≠ id }
              (states.exchange id .timedOut)
            have own : states.exchange id .timedOut id = .timedOut :=
              WaiterStates.exchange_of_pending pending
            have final := rest.keeps id (by
              rw [own]
              decide)
            rw [own] at final
            constructor
            · exact rest.commands
            · exact fun entry member =>
                List.mem_cons_of_mem _ (rest.remaining entry member)
            · exact (Keeps.exchange states id .timedOut).trans rest.keeps
            · intro event member
              rcases List.mem_cons.mp member with rfl | later
              · exact ⟨final, List.mem_cons_self⟩
              · obtain ⟨status, known⟩ := rest.sent event later
                exact ⟨status, List.mem_cons_of_mem _ known⟩
            · intro other otherPending set
              by_cases same : other = id
              · subst same
                exact ⟨_, List.mem_cons_self, rfl, final⟩
              · obtain ⟨event, member, equal, status⟩ := rest.told other (by
                  rw [WaiterStates.exchange_of_ne same]
                  exact otherPending) set
                exact ⟨event, List.mem_cons_of_mem _ member, equal, status⟩
          · rename_i unchanged exchanged
            have pending : ¬ states id = .pending := by
              simpa using congrArg Prod.fst exchanged
            have same : states.exchange id .timedOut = unchanged :=
              congrArg Prod.snd exchanged
            rw [WaiterStates.exchange, if_neg pending] at same
            subst same
            refine @Expires.later rest driver
              { driver with
                waiterDeadlines :=
                  driver.waiterDeadlines.filter fun entry => entry.1 ≠ id }
              states _ ?_ rfl _
            exact induction _ states
      · refine ⟨rfl, fun _ member => member, .refl _, ?_, ?_⟩
        · intro event member
          cases member
        · intro other pending set
          exact absurd pending set

/-- A waiter of one agent is not a waiter of another. -/
theorem Sound.owner (sound : Sound system) {agent other : AgentId}
    {entry : WaiterId × AsyncAtomicsWaiter}
    (member : entry ∈ (system.agents agent).waiters)
    (known : RegisteredFor system.registered other entry.1) :
    other = agent := by
  obtain ⟨registration, registered, own, wake⟩ := known
  have same := registration_unique sound.waiters.distinct registered
    ((sound.agents agent).registry entry member).1 own
  rw [same] at wake
  cases wake
  rfl

/-- A step that sets flags of waiters of one agent and tells it. -/
theorem Sound.setStates (sound : Sound system) {agent : AgentId}
    {states : WaiterStates} {change : Agent → Agent}
    (keeps : Keeps system.states states)
    (known : ∀ id, system.states id = .pending → states id ≠ .pending →
      RegisteredFor system.registered agent id)
    (changed : AgentSound system.registered states agent
      (change (system.agents agent)))
    (fewer : (change (system.agents agent)).waiters.Sublist
      (system.agents agent).waiters)
    {block : SharedDataBlock}
    (waiters : WaitersSound system.registered block.waiters states) :
    Sound (System.updateAgent { system with states, block } agent change) := by
  constructor
  · exact waiters
  · intro other
    by_cases same : other = agent
    · subst same
      rw [agents_updateAgent_self]
      exact changed
    · rw [agents_updateAgent_of_ne _ change same]
      apply (sound.agents other).untouched (fun _ member => member) keeps
      intro entry member pending
      by_contra set
      exact same (sound.owner member (known entry.1 pending set)).symm
  · refine sound.promises.advance (fun _ member => member)
      sound.promises.allocated keeps ?_
    intro other entry member
    by_cases same : other = agent
    · subst same
      rw [agents_updateAgent_self] at member
      exact .inl (fewer.subset member)
    · rw [agents_updateAgent_of_ne _ change same] at member
      exact .inl member

/-- The list of a block stays sound when flags of known waiters are set. -/
theorem Sound.waiters_of_keeps (sound : Sound system)
    {states : WaiterStates} (keeps : Keeps system.states states)
    (known : ∀ id, system.states id = .pending → states id ≠ .pending →
      id ∈ system.ids) :
    WaitersSound system.registered system.block.waiters states := by
  refine sound.waiters.advance keeps ?_ (List.Sublist.refl _)
    fun _ member _ => member
  intro id unknown
  by_contra set
  exact unknown (known id (sound.waiters.fresh id unknown) set)

theorem RegisteredFor.mem_ids {agent : AgentId} {id : WaiterId}
    (known : RegisteredFor system.registered agent id) : id ∈ system.ids := by
  obtain ⟨registration, member, own, _⟩ := known
  exact List.mem_map.mpr ⟨registration, member, own⟩

theorem sound_expireTimer (sound : Sound system) (agent : AgentId)
    (now : Nat) : Sound (system.expireTimer agent now) := by
  unfold System.expireTimer
  cases started : (system.agents agent).timer with
  | none => exact sound
  | some driver =>
      simp only
      have expires := expireReadyWaiters_expires now driver.deadlines driver
        system.states
      generalize AtomicsTimerDriver.expireReadyWaiters now driver.deadlines
        driver system.states = expiry at expires
      have timed : ∀ id ∈ driver.deadlines.map Prod.snd,
          RegisteredFor system.registered agent id := by
        intro id member
        apply (sound.agents agent).timers
        rw [Agent.timerIds, started]
        exact List.mem_append_right _ member
      have known : ∀ id, system.states id = .pending →
          expiry.states id ≠ .pending →
            RegisteredFor system.registered agent id := by
        intro id pending set
        obtain ⟨event, member, own, _⟩ := expires.told id pending set
        rw [← own]
        exact timed _ (expires.sent event member).2
      have received : AgentSound system.registered expiry.states agent
          { system.agents agent with
            channel := (system.agents agent).channel ++ expiry.sent } :=
        (sound.agents agent).receive expires.keeps
          (fun event member => ⟨(expires.sent event member).1,
            timed _ (expires.sent event member).2⟩)
          (fun entry member pending set => expires.told entry.1 pending set)
      apply sound.setStates expires.keeps known _ (List.Sublist.refl _)
      · exact sound.waiters_of_keeps expires.keeps
          fun id pending set => (known id pending set).mem_ids
      · apply @AgentSound.setTimer _ _ _ _ received (some expiry.driver)
        intro waiter member
        right
        rcases List.mem_append.mp member with commanded | deadline
        · apply (sound.agents agent).timers
          rw [Agent.timerIds, started]
          rw [expires.commands] at commanded
          exact List.mem_append_left _ commanded
        · obtain ⟨entry, kept, equal⟩ := List.mem_map.mp deadline
          exact timed waiter (List.mem_map.mpr
            ⟨entry, expires.remaining entry kept, equal⟩)

/-- A waiter with an outcome leaves the list of the block. -/
theorem WaitersSound.remove {registered : List Registration}
    {block : SharedDataBlock} {states : WaiterStates}
    (sound : WaitersSound registered block.waiters states) {byteIndex : Nat}
    {id : WaiterId} (set : states id ≠ .pending) :
    WaitersSound registered (block.removeWaiter byteIndex id).waiters
      states := by
  refine sound.advance (.refl _) sound.fresh (List.eraseP_sublist ..) ?_
  intro waiter member pending
  refine (List.mem_eraseP_of_neg ?_).mpr member
  rw [decide_eq_true_iff]
  rintro ⟨_, rfl⟩
  exact set pending

theorem dropWaiter_waiters (id : WaiterId) (hasTimer : Bool) (agent : Agent) :
    (dropWaiter id hasTimer agent).waiters =
      agent.waiters.filter fun entry => entry.1 ≠ id := by
  rw [dropWaiter]
  cases hasTimer <;> rfl

theorem dropWaiter_ready (id : WaiterId) (hasTimer : Bool) (agent : Agent) :
    (dropWaiter id hasTimer agent).ready = agent.ready ∧
      (dropWaiter id hasTimer agent).channel = agent.channel := by
  rw [dropWaiter]
  cases hasTimer <;> exact ⟨rfl, rfl⟩

theorem dropWaiter_timerIds (id : WaiterId) (hasTimer : Bool) (agent : Agent) :
    ∀ waiter ∈ (dropWaiter id hasTimer agent).timerIds,
      waiter ∈ agent.timerIds := by
  intro waiter member
  rw [dropWaiter] at member
  cases hasTimer with
  | false => exact member
  | true =>
      rw [Agent.timerIds] at member ⊢
      cases started : agent.timer with
      | none =>
          rw [if_pos rfl, commandTimer] at member
          simp only [started] at member
          cases member
      | some driver =>
          rw [if_pos rfl, commandTimer] at member
          simp only [started] at member
          rcases waiterIds_send driver (.cancel id) waiter member with
            before | last
          · exact before
          · cases last

theorem AgentSound.dropWaiter {registered : List Registration}
    {states states' : WaiterStates} {owner : AgentId} {agent : Agent}
    (sound : AgentSound registered states owner agent)
    (keeps : Keeps states states') (id : WaiterId) (hasTimer : Bool)
    (others : ∀ other, other ≠ id → states' other = states other) :
    AgentSound registered states' owner
      (System.dropWaiter id hasTimer agent) := by
  obtain ⟨ready, channel⟩ := dropWaiter_ready id hasTimer agent
  have events : (System.dropWaiter id hasTimer agent).events =
      agent.events := by
    rw [Agent.events, Agent.events, ready, channel]
  refine sound.advance (fun _ member => member) keeps ?_ ?_ ?_ ?_ ?_
  · rw [dropWaiter_waiters]
    exact List.filter_sublist
  · intro event member
    rw [events] at member
    exact .inl member
  · intro event member _
    rw [events]
    exact member
  · intro entry member pending set
    rw [dropWaiter_waiters, List.mem_filter, decide_eq_true_iff] at member
    rw [others entry.1 member.2] at set
    exact absurd pending set
  · exact fun waiter member =>
      .inl (dropWaiter_timerIds id hasTimer agent waiter member)

theorem allocated_unique {registered : List Registration}
    (distinct : (allocated registered).Nodup) {left right : Registration}
    (leftMember : left ∈ registered) (rightMember : right ∈ registered)
    {owner : AgentId} {promise : ObjectId}
    (leftWake : left.waiter.wake = .async owner)
    (leftPromise : left.promise = some promise)
    (rightWake : right.waiter.wake = .async owner)
    (rightPromise : right.promise = some promise) : left = right := by
  induction registered with
  | nil => cases leftMember
  | cons first rest induction =>
      have split : allocated (first :: rest) =
          allocated [first] ++ allocated rest := by
        rw [← List.singleton_append]
        exact List.filterMap_append
      rw [split] at distinct
      obtain ⟨_, restDistinct, apart⟩ := List.nodup_append.mp distinct
      have twice : ∀ other ∈ rest, first.waiter.wake = .async owner →
          first.promise = some promise → other.waiter.wake = .async owner →
          other.promise = some promise → False := by
        intro other member firstWake firstPromise wake kept
        exact apart (owner, promise)
          (mem_allocated.mpr ⟨first, List.mem_cons_self, firstWake,
            firstPromise⟩) (owner, promise)
          (mem_allocated.mpr ⟨other, member, wake, kept⟩) rfl
      rcases List.mem_cons.mp leftMember with rfl | leftInside
      · rcases List.mem_cons.mp rightMember with rfl | rightInside
        · rfl
        · exact (twice right rightInside leftWake leftPromise rightWake
            rightPromise).elim
      · rcases List.mem_cons.mp rightMember with rfl | rightInside
        · exact (twice left leftInside rightWake rightPromise leftWake
            leftPromise).elim
        · exact induction restDistinct leftInside rightInside

theorem lookup_eq_none {waiters : List (WaiterId × AsyncAtomicsWaiter)}
    {id : WaiterId} (missing : waiters.lookup id = none) :
    ∀ entry ∈ waiters, entry.1 ≠ id := by
  intro entry member equal
  have apart := List.lookup_eq_none_iff.mp missing entry member
  rw [equal] at apart
  simp at apart

/-- A promise is fulfilled and its waiter leaves the registry. -/
theorem Sound.fulfil (sound : Sound system) {agent : AgentId}
    {id : WaiterId} {waiter : AsyncAtomicsWaiter}
    {result : AtomicsWakeResult}
    (present : (id, waiter) ∈ (system.agents agent).waiters)
    (status : system.states id = result.status) :
    Sound (System.updateAgent
      { system with
        block := system.block.removeWaiter waiter.byteIndex id
        fulfilled :=
          system.fulfilled ++ [⟨agent, waiter.promise, result⟩] }
      agent (dropWaiter id waiter.hasTimer)) := by
  have known := ((sound.agents agent).registry _ present).1
  have waiters : ∀ other, ∀ entry ∈ ((System.updateAgent
      { system with
        block := system.block.removeWaiter waiter.byteIndex id
        fulfilled :=
          system.fulfilled ++ [⟨agent, waiter.promise, result⟩] }
      agent (dropWaiter id waiter.hasTimer)).agents other).waiters,
      entry ∈ (system.agents other).waiters := by
    intro other entry member
    by_cases same : other = agent
    · subst same
      rw [agents_updateAgent_self, dropWaiter_waiters] at member
      exact List.mem_of_mem_filter member
    · rw [agents_updateAgent_of_ne _ _ same] at member
      exact member
  constructor
  · apply sound.waiters.remove
    rw [status]
    exact result.status_ne_pending
  · intro other
    by_cases same : other = agent
    · subst same
      rw [agents_updateAgent_self]
      exact (sound.agents other).dropWaiter (.refl _) id waiter.hasTimer
        fun _ _ => rfl
    · rw [agents_updateAgent_of_ne _ _ same]
      exact sound.agents other
  · constructor
    · exact sound.promises.allocated
    · change (List.map _ (system.fulfilled ++
        [⟨agent, waiter.promise, result⟩])).Nodup
      rw [List.map_append]
      refine List.nodup_append.mpr ⟨sound.promises.once,
        List.nodup_singleton _, ?_⟩
      intro pair member last lastMember equal
      rw [List.map_singleton, List.mem_singleton] at lastMember
      obtain ⟨fulfilment, fulfilled, own⟩ := List.mem_map.mp member
      rw [equal, lastMember] at own
      obtain ⟨registration, registered, wake, promise, _, gone⟩ :=
        sound.promises.answers fulfilment fulfilled
      have sameAgent : fulfilment.agent = agent := congrArg Prod.fst own
      have samePromise : fulfilment.promise = waiter.promise :=
        congrArg Prod.snd own
      rw [sameAgent] at wake gone
      rw [samePromise] at promise
      have unique := allocated_unique sound.promises.allocated registered known
        wake promise rfl rfl
      exact gone _ present (by rw [unique])
    · intro fulfilment member
      change fulfilment ∈ system.fulfilled ++
        [⟨agent, waiter.promise, result⟩] at member
      rcases List.mem_append.mp member with before | last
      · obtain ⟨registration, registered, wake, promise, kept, gone⟩ :=
          sound.promises.answers fulfilment before
        refine ⟨registration, registered, wake, promise, kept, ?_⟩
        exact fun entry inside => gone entry (waiters _ entry inside)
      · rw [List.mem_singleton.mp last]
        refine ⟨_, known, rfl, rfl, status, ?_⟩
        intro entry inside
        rw [agents_updateAgent_self, dropWaiter_waiters, List.mem_filter,
          decide_eq_true_iff] at inside
        exact inside.2

/-- Settling an event that an agent has received. -/
theorem sound_settleAtomicsWakeEvent (sound : Sound system)
    {agent : AgentId} (fulfils : ObjectId → Bool) {event : AtomicsWakeEvent}
    (member : event ∈ (system.agents agent).events)
    {after : System} {outcome : Settled}
    (settles : settleAtomicsWakeEvent agent fulfils system event =
      (after, outcome)) :
    Sound after ∧
      (after.agents agent).ready = (system.agents agent).ready ∧
      (after.agents agent).channel = (system.agents agent).channel ∧
      (outcome ≠ .failed → ∀ entry ∈ (after.agents agent).waiters,
        entry.1 ≠ event.waiterId) := by
  have status := ((sound.agents agent).events event member).1
  unfold settleAtomicsWakeEvent at settles
  split at settles
  · rename_i missing
    cases settles
    exact ⟨sound, rfl, rfl, fun _ => lookup_eq_none missing⟩
  · rename_i waiter found
    have present := mem_of_lookup found
    split at settles
    · rename_i other
      exact absurd (WaiterStatus.outcome_eq_some_iff.mpr status) other
    · simp only at settles
      split at settles
      · cases settles
        have fulfilled := sound.fulfil present status
        obtain ⟨ready, channel⟩ := dropWaiter_ready event.waiterId
          waiter.hasTimer (system.agents agent)
        refine ⟨fulfilled, ?_, ?_, ?_⟩
        · rw [agents_updateAgent_self]
          exact ready
        · rw [agents_updateAgent_self]
          exact channel
        · intro _ entry inside
          rw [agents_updateAgent_self] at inside
          change entry ∈ (dropWaiter event.waiterId waiter.hasTimer
            (system.agents agent)).waiters at inside
          rw [dropWaiter_waiters, List.mem_filter, decide_eq_true_iff] at inside
          exact inside.2
      · cases settles
        refine ⟨⟨?_, sound.agents, sound.promises⟩, rfl, rfl, ?_⟩
        · apply sound.waiters.remove
          rw [status]
          exact event.result.status_ne_pending
        · intro succeeded
          exact absurd rfl succeeded

/-- An event that no waiter of the agent needs any more is dropped. -/
theorem AgentSound.setEvents {registered : List Registration}
    {states : WaiterStates} {id : AgentId} {agent : Agent}
    (sound : AgentSound registered states id agent)
    {channel ready : List AtomicsWakeEvent}
    (fewer : ∀ event ∈ channel ++ ready, event ∈ agent.events)
    (needed : ∀ event ∈ agent.events,
      (∃ entry ∈ agent.waiters, entry.1 = event.waiterId) →
        event ∈ channel ++ ready) :
    AgentSound registered states id { agent with channel, ready } := by
  refine sound.advance (fun _ member => member) (.refl _)
    (List.Sublist.refl _) ?_ ?_ ?_ ?_
  · exact fun event member => .inl (fewer event member)
  · exact needed
  · intro entry _ pending set
    exact absurd pending set
  · exact fun waiter member => .inl member

theorem sound_setReady (sound : Sound system) {agent : AgentId}
    {event : AtomicsWakeEvent} {rest : List AtomicsWakeEvent}
    (queue : (system.agents agent).ready = event :: rest)
    (gone : ∀ entry ∈ (system.agents agent).waiters,
      entry.1 ≠ event.waiterId) :
    Sound (system.setReady agent rest) := by
  refine sound.updateAgent ?_ (List.Sublist.refl _)
  refine (sound.agents agent).setEvents ?_ ?_
  · intro other member
    rw [Agent.events, queue]
    rcases List.mem_append.mp member with sent | queued
    · exact List.mem_append_left _ sent
    · exact List.mem_append_right _ (List.mem_cons_of_mem event queued)
  · rintro other member ⟨entry, present, own⟩
    rw [Agent.events, queue] at member
    rcases List.mem_append.mp member with sent | queued
    · exact List.mem_append_left _ sent
    · rcases List.mem_cons.mp queued with rfl | later
      · exact absurd own (gone entry present)
      · exact List.mem_append_right _ later

theorem sound_settleReady (fulfils : ObjectId → Bool) {agent : AgentId}
    {events : List AtomicsWakeEvent} (sound : Sound system)
    (queue : (system.agents agent).ready = events) :
    Sound (settleReady agent fulfils events system).1 ∧
      ((settleReady agent fulfils events system).2 = .stale →
        ((settleReady agent fulfils events system).1.agents agent).channel =
          (system.agents agent).channel ∧
        ((settleReady agent fulfils events system).1.agents agent).ready =
          []) := by
  induction events generalizing system with
  | nil => exact ⟨sound, fun _ => ⟨rfl, queue⟩⟩
  | cons event rest induction =>
      have member : event ∈ (system.agents agent).events := by
        rw [Agent.events, queue]
        exact List.mem_append_right _ List.mem_cons_self
      unfold settleReady
      split
      · rename_i after settles
        obtain ⟨settled, _⟩ :=
          sound_settleAtomicsWakeEvent sound fulfils member settles
        exact ⟨settled, fun stale => by cases stale⟩
      · rename_i after settles
        obtain ⟨settled, ready, _, gone⟩ :=
          sound_settleAtomicsWakeEvent sound fulfils member settles
        refine ⟨?_, fun stale => by cases stale⟩
        exact sound_setReady settled (ready.trans queue) (gone (by decide))
      · rename_i after settles
        obtain ⟨settled, ready, channel, gone⟩ :=
          sound_settleAtomicsWakeEvent sound fulfils member settles
        have popped := sound_setReady settled (ready.trans queue)
          (gone (by decide))
        have next := induction popped (by
          rw [System.setReady, agents_updateAgent_self])
        refine ⟨next.1, ?_⟩
        intro stale
        obtain ⟨sameChannel, empty⟩ := next.2 stale
        refine ⟨?_, empty⟩
        rw [sameChannel, System.setReady, agents_updateAgent_self]
        exact channel

/-- Receiving all events of the channel. -/
theorem sound_drain (sound : Sound system) (agent : AgentId) :
    Sound ((system.setReady agent ((system.agents agent).ready ++
      (system.agents agent).channel)).setChannel agent []) := by
  have moved : (system.setReady agent ((system.agents agent).ready ++
      (system.agents agent).channel)).setChannel agent [] =
      system.updateAgent agent fun record =>
        { record with
          channel := []
          ready := record.ready ++ record.channel } := by
    simp only [System.setReady, System.setChannel, System.updateAgent,
      Function.update_self, Function.update_idem]
  rw [moved]
  refine sound.updateAgent ?_ (List.Sublist.refl _)
  refine (sound.agents agent).setEvents ?_ ?_
  · intro event member
    rw [List.nil_append] at member
    rw [Agent.events]
    exact List.mem_append.mpr (List.mem_append.mp member).symm
  · intro event member _
    rw [List.nil_append]
    exact List.mem_append.mpr (List.mem_append.mp member).symm

theorem sound_settleNext (sound : Sound system) (agent : AgentId)
    (fulfils : ObjectId → Bool) :
    Sound (system.settleNextReadyAtomicsWaiter agent fulfils).1 := by
  unfold settleNextReadyAtomicsWaiter
  refine (sound_settleReady fulfils (sound_drain sound agent) ?_).1
  rw [System.setChannel, agents_updateAgent_self, System.setReady,
    agents_updateAgent_self]

/-- An event of the channel is queued. -/
theorem sound_queueReady (sound : Sound system) {agent : AgentId}
    {event : AtomicsWakeEvent} {rest : List AtomicsWakeEvent}
    (queue : (system.agents agent).channel = event :: rest) :
    Sound ((system.queueReady agent event).setChannel agent rest) := by
  have moved : (system.queueReady agent event).setChannel agent rest =
      system.updateAgent agent fun record =>
        { record with
          channel := rest
          ready := record.ready ++ [event] } := by
    simp only [System.queueReady, System.setChannel, System.updateAgent,
      Function.update_self, Function.update_idem]
  rw [moved]
  refine sound.updateAgent ?_ (List.Sublist.refl _)
  have same : ∀ other,
      other ∈ rest ++ ((system.agents agent).ready ++ [event]) ↔
        other ∈ (system.agents agent).events := by
    intro other
    rw [Agent.events, queue]
    simp only [List.mem_append, List.mem_cons, List.not_mem_nil, or_false]
    constructor
    · rintro (later | queued | equal)
      · exact .inl (.inr later)
      · exact .inr queued
      · exact .inl (.inl equal)
    · rintro ((equal | later) | queued)
      · exact .inr (.inr equal)
      · exact .inl later
      · exact .inr (.inl queued)
  refine (sound.agents agent).setEvents ?_ ?_
  · exact fun other member => (same other).mp member
  · exact fun other member _ => (same other).mpr member

theorem sound_dropChannel (sound : Sound system) {agent : AgentId}
    {event : AtomicsWakeEvent} {rest : List AtomicsWakeEvent}
    (queue : (system.agents agent).channel = event :: rest)
    (gone : ∀ entry ∈ (system.agents agent).waiters,
      entry.1 ≠ event.waiterId) :
    Sound (system.setChannel agent rest) := by
  refine sound.updateAgent ?_ (List.Sublist.refl _)
  refine (sound.agents agent).setEvents ?_ ?_
  · intro other member
    rw [Agent.events, queue]
    rcases List.mem_append.mp member with sent | queued
    · exact List.mem_append_left _ (List.mem_cons_of_mem event sent)
    · exact List.mem_append_right _ queued
  · rintro other member ⟨entry, present, own⟩
    rw [Agent.events, queue] at member
    rcases List.mem_append.mp member with sent | queued
    · rcases List.mem_cons.mp sent with rfl | later
      · exact absurd own (gone entry present)
      · exact List.mem_append_left _ later
    · exact List.mem_append_right _ queued

theorem sound_settleDirect (fulfils : ObjectId → Bool) (directToken : Nat)
    {agent : AgentId} {events : List AtomicsWakeEvent} (sound : Sound system)
    (queue : (system.agents agent).channel = events) :
    Sound (settleDirect agent directToken fulfils events system) := by
  induction events generalizing system with
  | nil => exact sound
  | cons event rest induction =>
      have member : event ∈ (system.agents agent).events := by
        rw [Agent.events, queue]
        exact List.mem_append_left _ List.mem_cons_self
      unfold settleDirect
      split
      · split
        · rename_i after settles
          obtain ⟨settled, _, channel, _⟩ :=
            sound_settleAtomicsWakeEvent sound fulfils member settles
          exact sound_queueReady settled (channel.trans queue)
        · rename_i after outcome succeeded settles
          obtain ⟨settled, _, channel, gone⟩ :=
            sound_settleAtomicsWakeEvent sound fulfils member settles
          apply induction
          · apply sound_dropChannel settled (channel.trans queue)
            apply gone
            rintro rfl
            exact succeeded rfl
          · rw [System.setChannel, agents_updateAgent_self]
      · apply induction
        · exact sound_queueReady sound queue
        · rw [System.setChannel, agents_updateAgent_self]

theorem sound_cancel (sound : Sound system) (agent : AgentId)
    (id : WaiterId) : Sound (system.cancelAtomicsWaiter agent id) := by
  unfold cancelAtomicsWaiter
  split
  · exact sound
  · rename_i waiter found
    have present := mem_of_lookup found
    have known : RegisteredFor system.registered agent id :=
      ⟨_, ((sound.agents agent).registry _ present).1, rfl, rfl⟩
    have keeps := Keeps.exchange system.states id .cancelled
    have owned : ∀ other, system.states other = .pending →
        system.states.cancel id other ≠ .pending → other = id := by
      intro other pending set
      by_contra apart
      rw [WaiterStates.cancel, WaiterStates.exchange_of_ne apart] at set
      exact set pending
    have cancelled : system.states.cancel id id ≠ .pending := by
      intro pending
      exact (WaiterStates.exchange_pending (by decide) pending).2 rfl
    refine sound.setStates keeps ?_ ?_ ?_ ?_
    · intro other pending set
      rw [owned other pending set]
      exact known
    · exact (sound.agents agent).dropWaiter keeps id waiter.hasTimer
        fun other apart => WaiterStates.exchange_of_ne apart
    · rw [dropWaiter_waiters]
      exact List.filter_sublist
    · refine WaitersSound.remove ?_ cancelled
      exact sound.waiters_of_keeps keeps fun other pending set => by
        rw [owned other pending set]
        exact known.mem_ids

theorem sound_timeOutBlocking (sound : Sound system) (id : WaiterId) :
    Sound (system.timeOutBlocking id) := by
  unfold timeOutBlocking
  split
  · rename_i blocks
    obtain ⟨registration, registered, matching⟩ := List.any_eq_true.mp blocks
    rw [decide_eq_true_iff] at matching
    obtain ⟨own, blocking⟩ := matching
    have keeps := Keeps.exchange system.states id .timedOut
    have owned : ∀ other, system.states other = .pending →
        system.states.exchange id .timedOut other ≠ .pending →
          other = id := by
      intro other pending set
      by_contra apart
      rw [WaiterStates.exchange_of_ne apart] at set
      exact set pending
    constructor
    · exact sound.waiters_of_keeps keeps fun other pending set => by
        rw [owned other pending set, ← own]
        exact List.mem_map.mpr ⟨registration, registered, rfl⟩
    · intro agent
      apply (sound.agents agent).untouched (fun _ member => member) keeps
      intro entry member pending
      by_contra set
      have same := registration_unique sound.waiters.distinct registered
        ((sound.agents agent).registry entry member).1 (by
          rw [own, owned entry.1 pending set])
      rw [same] at blocking
      cases blocking
    · exact sound.promises.advance (fun _ member => member)
        sound.promises.allocated keeps fun _ _ member => .inl member
  · exact sound

theorem sound_returnBlocking (sound : Sound system) (id : WaiterId)
    (byteIndex : Nat) : Sound (system.returnBlocking id byteIndex) := by
  unfold returnBlocking
  split
  · rename_i returned
    refine ⟨sound.waiters.remove ?_, sound.agents, sound.promises⟩
    intro pending
    rw [pending] at returned
    cases returned
  · exact sound

theorem sound_step (sound : Sound system) (action : Action) :
    Sound (system.step action) := by
  cases action with
  | write bytes => exact sound_write sound bytes
  | registerBlocking id byteIndex expected =>
      exact sound_registerBlocking sound id byteIndex expected
  | registerAsync agent id promise byteIndex expected hasTimer =>
      exact sound_registerAsync sound agent id promise byteIndex expected
        hasTimer
  | scheduleTimeout agent id deadline =>
      exact sound_scheduleTimeout sound agent id deadline
  | notify agent byteIndex count directToken =>
      exact sound_notify sound agent byteIndex count directToken
  | handleTimer agent => exact sound_handleTimer sound agent
  | expireTimer agent now => exact sound_expireTimer sound agent now
  | settleNext agent fulfils => exact sound_settleNext sound agent fulfils
  | settleNotified agent directToken fulfils =>
      exact sound_settleDirect fulfils directToken sound rfl
  | cancel agent id => exact sound_cancel sound agent id
  | timeOutBlocking id => exact sound_timeOutBlocking sound id
  | returnBlocking id byteIndex =>
      exact sound_returnBlocking sound id byteIndex

theorem sound_run (sound : Sound system) (actions : List Action) :
    Sound (system.run actions) := by
  induction actions generalizing system with
  | nil => exact sound
  | cons action actions induction => exact induction (sound_step sound action)

end Steps

end Fusor.Atomics
