import Fusor.Atomics.SharedDataBlock

/-!
# Agents, timers and the wait/notify protocol

Every agent keeps a registry of its asynchronous waiters, a channel of wake
events that others send to, a queue of events that are ready to be settled and
a timer driver with its own command channel.  A system is a data block with
its agents; its actions are the steps that the parties take in any order.  The
allocation of queues and of the driver is taken to succeed, and a promise that
cannot be fulfilled is left as it is.
-/

namespace Fusor.Atomics

structure AsyncAtomicsWaiter where
  byteIndex : Nat
  promise : ObjectId
  hasTimer : Bool
  deriving DecidableEq

inductive AtomicsTimerCommand where
  | schedule (waiterId : WaiterId) (deadline : Nat)
  | cancel (waiterId : WaiterId)
  deriving DecidableEq

/-- The timer thread of an agent with its two maps; the deadlines are in
order. -/
structure AtomicsTimerDriver where
  commands : List AtomicsTimerCommand
  deadlines : List (Nat × WaiterId)
  waiterDeadlines : List (WaiterId × Nat)
  deriving DecidableEq

namespace AtomicsTimerDriver

def start : AtomicsTimerDriver :=
  ⟨[], [], []⟩

def send (driver : AtomicsTimerDriver) (command : AtomicsTimerCommand) :
    AtomicsTimerDriver :=
  { driver with commands := driver.commands ++ [command] }

/-- Inserts a key into the ordered map. -/
def insertDeadline (key : Nat × WaiterId) :
    List (Nat × WaiterId) → List (Nat × WaiterId)
  | [] => [key]
  | first :: rest =>
      if key = first then first :: rest
      else if key.1 < first.1 ∨ (key.1 = first.1 ∧ key.2 < first.2) then
        key :: first :: rest
      else first :: insertDeadline key rest

/-- Takes the deadline of a waiter out of both maps. -/
def forget (driver : AtomicsTimerDriver) (waiterId : WaiterId) :
    AtomicsTimerDriver :=
  match driver.waiterDeadlines.lookup waiterId with
  | some deadline =>
      { driver with
        deadlines := driver.deadlines.erase (deadline, waiterId)
        waiterDeadlines :=
          driver.waiterDeadlines.filter fun entry => entry.1 ≠ waiterId }
  | none => driver

/-- The driver handles the next command. -/
def handle (driver : AtomicsTimerDriver) : AtomicsTimerDriver :=
  match driver.commands with
  | [] => driver
  | .schedule waiterId deadline :: commands =>
      let driver := { driver with commands }.forget waiterId
      { driver with
        deadlines := insertDeadline (deadline, waiterId) driver.deadlines
        waiterDeadlines := (waiterId, deadline) :: driver.waiterDeadlines }
  | .cancel waiterId :: commands => { driver with commands }.forget waiterId

structure Expiry where
  driver : AtomicsTimerDriver
  states : WaiterStates
  sent : List AtomicsWakeEvent

/-- `expire_ready_waiters`: the deadlines that have passed, in order. -/
def expireReadyWaiters (now : Nat) :
    List (Nat × WaiterId) → AtomicsTimerDriver → WaiterStates → Expiry
  | [], driver, states => ⟨{ driver with deadlines := [] }, states, []⟩
  | (deadline, waiterId) :: rest, driver, states =>
      if deadline ≤ now then
        if driver.waiterDeadlines.lookup waiterId ≠ some deadline then
          expireReadyWaiters now rest driver states
        else
          let driver :=
            { driver with
              waiterDeadlines :=
                driver.waiterDeadlines.filter fun entry => entry.1 ≠ waiterId }
          match states.tryTimeout waiterId with
          | (true, states) =>
              let expiry := expireReadyWaiters now rest driver states
              { expiry with sent := ⟨waiterId, .timedOut, none⟩ :: expiry.sent }
          | (false, states) => expireReadyWaiters now rest driver states
      else ⟨{ driver with deadlines := (deadline, waiterId) :: rest }, states,
        []⟩

end AtomicsTimerDriver

structure Agent where
  waiters : List (WaiterId × AsyncAtomicsWaiter)
  channel : List AtomicsWakeEvent
  ready : List AtomicsWakeEvent
  timer : Option AtomicsTimerDriver
  maxPendingAtomicsWaiters : Nat
  deriving DecidableEq

/-- A waiter with the promise that answers it, if it is asynchronous. -/
structure Registration where
  waiter : SharedWaiter
  promise : Option ObjectId
  deriving DecidableEq

/-- A promise that an agent fulfilled. -/
structure Fulfilment where
  agent : AgentId
  promise : ObjectId
  result : AtomicsWakeResult
  deriving DecidableEq

/-- The block, the flags and the agents.  The registrations and the
fulfilments are recorded in the order in which they happened. -/
structure System where
  block : SharedDataBlock
  states : WaiterStates
  agents : AgentId → Agent
  registered : List Registration
  fulfilled : List Fulfilment

namespace System

def updateAgent (system : System) (agent : AgentId)
    (change : Agent → Agent) : System :=
  { system with
    agents := Function.update system.agents agent
      (change (system.agents agent)) }

/-- Sends an event to an agent. -/
def send (system : System) (agent : AgentId) (event : AtomicsWakeEvent) :
    System :=
  system.updateAgent agent fun record =>
    { record with channel := record.channel ++ [event] }

def ids (system : System) : List WaiterId :=
  system.registered.map fun registration => registration.waiter.id

/-- The promises that were allocated for the waiters of an agent. -/
def promises (system : System) (agent : AgentId) : List ObjectId :=
  system.registered.filterMap fun registration =>
    if registration.waiter.wake = .async agent then registration.promise
    else none

/-- A waiter that blocks its agent. -/
def registerBlocking (system : System) (id : WaiterId) (byteIndex : Nat)
    (expected : List UInt8) : System :=
  let waiter : SharedWaiter := ⟨id, byteIndex, .blocking⟩
  if id ∈ system.ids then system
  else
    match system.block.registerWaiterIfEqual expected waiter with
    | none => system
    | some block =>
        { system with
          block
          registered := system.registered ++ [⟨waiter, none⟩] }

/-- `register_async_atomics_waiter` up to its timer; the identifier and the
promise are new. -/
def registerAsync (system : System) (agent : AgentId) (id : WaiterId)
    (promise : ObjectId) (byteIndex : Nat) (expected : List UInt8)
    (hasTimer : Bool) : System :=
  let waiter : SharedWaiter := ⟨id, byteIndex, .async agent⟩
  if id ∈ system.ids ∨ promise ∈ system.promises agent ∨
      (system.agents agent).maxPendingAtomicsWaiters <
        (system.agents agent).waiters.length + 1 then system
  else
    match system.block.registerWaiterIfEqual expected waiter with
    | none => system
    | some block =>
        let system : System :=
          { system with
            block
            registered := system.registered ++ [⟨waiter, some promise⟩] }
        system.updateAgent agent fun record =>
          { record with
            waiters := (id, ⟨byteIndex, promise, hasTimer⟩) :: record.waiters }

def commandTimer (command : AtomicsTimerCommand) (agent : Agent) : Agent :=
  { agent with timer := agent.timer.map fun driver => driver.send command }

/-- A waiter leaves the registry of its agent, and its timer is cancelled. -/
def dropWaiter (id : WaiterId) (hasTimer : Bool) (agent : Agent) : Agent :=
  let agent :=
    { agent with waiters := agent.waiters.filter fun entry => entry.1 ≠ id }
  if hasTimer then commandTimer (.cancel id) agent else agent

/-- `schedule_atomics_timeout` for a waiter that is registered. -/
def scheduleTimeout (system : System) (agent : AgentId) (id : WaiterId)
    (deadline : Nat) : System :=
  if ((system.agents agent).waiters.lookup id).isSome then
    system.updateAgent agent fun record =>
      { record with
        timer := some ((record.timer.getD AtomicsTimerDriver.start).send
          (.schedule id deadline)) }
  else system

/-- Wakes a waiter that was notified. -/
def wake (notifyingAgent directToken : Nat) (system : System)
    (waiter : SharedWaiter) : System :=
  match waiter.wake with
  | .blocking => system
  | .async agent =>
      system.send agent ⟨waiter.id, .ok,
        if agent = notifyingAgent then some directToken else none⟩

def notify (system : System) (agent : AgentId) (byteIndex count : Nat)
    (directToken : Nat) : System × Nat :=
  let result := SharedDataBlock.notifyWaiters byteIndex count
    system.block.waiters 0 system.states
  (result.woken.foldl (wake agent directToken)
    { system with
      block := { system.block with waiters := result.waiters }
      states := result.states }, result.notified)

/-- The timer driver of an agent handles a command. -/
def handleTimer (system : System) (agent : AgentId) : System :=
  system.updateAgent agent fun record =>
    { record with timer := record.timer.map AtomicsTimerDriver.handle }

/-- The timer driver of an agent wakes up. -/
def expireTimer (system : System) (agent : AgentId) (now : Nat) : System :=
  match (system.agents agent).timer with
  | none => system
  | some driver =>
      let expiry := AtomicsTimerDriver.expireReadyWaiters now driver.deadlines
        driver system.states
      let system : System := { system with states := expiry.states }
      system.updateAgent agent fun record =>
        { record with
          timer := some expiry.driver
          channel := record.channel ++ expiry.sent }

inductive Settled where
  | settled
  | stale
  | failed
  deriving DecidableEq

/-- `settle_atomics_wake_event`; `fulfils` tells which promises can be
fulfilled. -/
def settleAtomicsWakeEvent (agent : AgentId) (fulfils : ObjectId → Bool)
    (system : System) (event : AtomicsWakeEvent) : System × Settled :=
  match (system.agents agent).waiters.lookup event.waiterId with
  | none => (system, .stale)
  | some waiter =>
      if (system.states event.waiterId).outcome ≠ some event.result then
        (system, .stale)
      else
        let system : System :=
          { system with
            block := system.block.removeWaiter waiter.byteIndex event.waiterId }
        if fulfils waiter.promise then
          let system : System :=
            { system with
              fulfilled :=
                system.fulfilled ++ [⟨agent, waiter.promise, event.result⟩] }
          (system.updateAgent agent
            (dropWaiter event.waiterId waiter.hasTimer), .settled)
        else (system, .failed)

def setReady (system : System) (agent : AgentId)
    (ready : List AtomicsWakeEvent) : System :=
  system.updateAgent agent fun record => { record with ready }

def setChannel (system : System) (agent : AgentId)
    (channel : List AtomicsWakeEvent) : System :=
  system.updateAgent agent fun record => { record with channel }

def queueReady (system : System) (agent : AgentId)
    (event : AtomicsWakeEvent) : System :=
  system.updateAgent agent fun record =>
    { record with ready := record.ready ++ [event] }

/-- The events of the ready queue from the front, until one settles. -/
def settleReady (agent : AgentId) (fulfils : ObjectId → Bool) :
    List AtomicsWakeEvent → System → System × Settled
  | [], system => (system, .stale)
  | event :: rest, system =>
      match settleAtomicsWakeEvent agent fulfils system event with
      | (system, .failed) => (system, .failed)
      | (system, .settled) => (system.setReady agent rest, .settled)
      | (system, .stale) =>
          settleReady agent fulfils rest (system.setReady agent rest)

def settleNextReadyAtomicsWaiter (system : System) (agent : AgentId)
    (fulfils : ObjectId → Bool) : System × Settled :=
  let ready := (system.agents agent).ready ++ (system.agents agent).channel
  settleReady agent fulfils ready
    ((system.setReady agent ready).setChannel agent [])

/-- The events of the channel; the ones that the notification did not send to
its own agent are queued. -/
def settleDirect (agent : AgentId) (directToken : Nat)
    (fulfils : ObjectId → Bool) : List AtomicsWakeEvent → System → System
  | [], system => system
  | event :: rest, system =>
      if event.directToken = some directToken then
        match settleAtomicsWakeEvent agent fulfils system event with
        | (system, .failed) =>
            (system.queueReady agent event).setChannel agent rest
        | (system, _) =>
            settleDirect agent directToken fulfils rest
              (system.setChannel agent rest)
      else
        settleDirect agent directToken fulfils rest
          ((system.queueReady agent event).setChannel agent rest)

def settleNotifiedAtomicsWaiters (system : System) (agent : AgentId)
    (directToken : Nat) (fulfils : ObjectId → Bool) : System :=
  settleDirect agent directToken fulfils (system.agents agent).channel system

def cancelAtomicsWaiter (system : System) (agent : AgentId) (id : WaiterId) :
    System :=
  match (system.agents agent).waiters.lookup id with
  | none => system
  | some waiter =>
      let system : System :=
        { system with
          states := system.states.cancel id
          block := system.block.removeWaiter waiter.byteIndex id }
      system.updateAgent agent (dropWaiter id waiter.hasTimer)

/-- The deadline of a blocking waiter passes. -/
def timeOutBlocking (system : System) (id : WaiterId) : System :=
  if system.registered.any fun registration =>
      registration.waiter.id = id ∧ registration.waiter.wake = .blocking then
    { system with states := (system.states.tryTimeout id).2 }
  else system

/-- A blocking waiter returns its outcome. -/
def returnBlocking (system : System) (id : WaiterId) (byteIndex : Nat) :
    System :=
  if (system.states id).outcome.isSome then
    { system with block := system.block.removeWaiter byteIndex id }
  else system

inductive Action where
  | write (bytes : List UInt8)
  | registerBlocking (id : WaiterId) (byteIndex : Nat) (expected : List UInt8)
  | registerAsync (agent : AgentId) (id : WaiterId) (promise : ObjectId)
      (byteIndex : Nat) (expected : List UInt8) (hasTimer : Bool)
  | scheduleTimeout (agent : AgentId) (id : WaiterId) (deadline : Nat)
  | notify (agent : AgentId) (byteIndex count : Nat) (directToken : Nat)
  | handleTimer (agent : AgentId)
  | expireTimer (agent : AgentId) (now : Nat)
  | settleNext (agent : AgentId) (fulfils : ObjectId → Bool)
  | settleNotified (agent : AgentId) (directToken : Nat)
      (fulfils : ObjectId → Bool)
  | cancel (agent : AgentId) (id : WaiterId)
  | timeOutBlocking (id : WaiterId)
  | returnBlocking (id : WaiterId) (byteIndex : Nat)

def step (system : System) : Action → System
  | .write bytes => { system with block := { system.block with bytes } }
  | .registerBlocking id byteIndex expected =>
      system.registerBlocking id byteIndex expected
  | .registerAsync agent id promise byteIndex expected hasTimer =>
      system.registerAsync agent id promise byteIndex expected hasTimer
  | .scheduleTimeout agent id deadline =>
      system.scheduleTimeout agent id deadline
  | .notify agent byteIndex count directToken =>
      (system.notify agent byteIndex count directToken).1
  | .handleTimer agent => system.handleTimer agent
  | .expireTimer agent now => system.expireTimer agent now
  | .settleNext agent fulfils =>
      (system.settleNextReadyAtomicsWaiter agent fulfils).1
  | .settleNotified agent directToken fulfils =>
      system.settleNotifiedAtomicsWaiters agent directToken fulfils
  | .cancel agent id => system.cancelAtomicsWaiter agent id
  | .timeOutBlocking id => system.timeOutBlocking id
  | .returnBlocking id byteIndex => system.returnBlocking id byteIndex

def run (system : System) (actions : List Action) : System :=
  actions.foldl step system

/-- A block that nobody waits for, and agents without waiters. -/
def initial (bytes : List UInt8) (limit : AgentId → Nat) : System :=
  { block := ⟨bytes, []⟩
    states := fun _ => .pending
    agents := fun agent => ⟨[], [], [], none, limit agent⟩
    registered := []
    fulfilled := [] }

end System

end Fusor.Atomics
