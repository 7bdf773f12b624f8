import Mathlib.Data.List.Sublists
import Mathlib.Logic.Function.Basic

/-!
# Shared data blocks and their waiters

The bytes of a shared data block with the list of its waiters.  The outcome
flag of a waiter is changed by compare-and-exchange from many places, so the
flags are kept beside the block, by waiter.
-/

namespace Fusor.Atomics

abbrev WaiterId := Nat

abbrev AgentId := Nat

abbrev ObjectId := Nat

inductive WaiterStatus where
  | pending
  | notified
  | timedOut
  | cancelled
  deriving DecidableEq

inductive AtomicsWakeResult where
  | ok
  | timedOut
  deriving DecidableEq

/-- The status with which a result is read. -/
def AtomicsWakeResult.status : AtomicsWakeResult → WaiterStatus
  | .ok => .notified
  | .timedOut => .timedOut

def WaiterStatus.outcome : WaiterStatus → Option AtomicsWakeResult
  | .notified => some .ok
  | .timedOut => some .timedOut
  | _ => none

theorem WaiterStatus.outcome_eq_some_iff {status : WaiterStatus}
    {result : AtomicsWakeResult} :
    status.outcome = some result ↔ status = result.status := by
  cases status <;> cases result <;> decide

structure AtomicsWakeEvent where
  waiterId : WaiterId
  result : AtomicsWakeResult
  directToken : Option Nat
  deriving DecidableEq

/-- The outcome flags of all waiters; a new flag is pending. -/
abbrev WaiterStates := WaiterId → WaiterStatus

namespace WaiterStates

/-- Compare-and-exchange from pending. -/
def exchange (states : WaiterStates) (id : WaiterId) (status : WaiterStatus) :
    WaiterStates :=
  if states id = .pending then Function.update states id status else states

def tryNotify (states : WaiterStates) (id : WaiterId) : Bool × WaiterStates :=
  (states id = .pending, states.exchange id .notified)

def tryTimeout (states : WaiterStates) (id : WaiterId) : Bool × WaiterStates :=
  (states id = .pending, states.exchange id .timedOut)

def cancel (states : WaiterStates) (id : WaiterId) : WaiterStates :=
  states.exchange id .cancelled

theorem exchange_of_ne {states : WaiterStates} {id other : WaiterId}
    {status : WaiterStatus} (apart : other ≠ id) :
    states.exchange id status other = states other := by
  rw [exchange]
  split
  · exact Function.update_of_ne apart status states
  · rfl

theorem exchange_of_pending {states : WaiterStates} {id : WaiterId}
    {status : WaiterStatus} (pending : states id = .pending) :
    states.exchange id status id = status := by
  rw [exchange, if_pos pending, Function.update_self]

/-- A flag that is set stays as it is. -/
theorem exchange_of_set {states : WaiterStates} {id other : WaiterId}
    {status : WaiterStatus} (set : states other ≠ .pending) :
    states.exchange id status other = states other := by
  by_cases same : other = id
  · subst same
    rw [exchange, if_neg set]
  · exact exchange_of_ne same

theorem exchange_pending {states : WaiterStates} {id other : WaiterId}
    {status : WaiterStatus} (set : status ≠ .pending)
    (pending : states.exchange id status other = .pending) :
    states other = .pending ∧ other ≠ id := by
  by_cases same : other = id
  · subst same
    by_cases was : states other = .pending
    · rw [exchange_of_pending was] at pending
      exact absurd pending set
    · rw [exchange_of_set was] at pending
      exact absurd pending was
  · rw [exchange_of_ne same] at pending
    exact ⟨pending, same⟩

end WaiterStates

inductive SharedWaiterWake where
  | blocking
  | async (agentId : AgentId)
  deriving DecidableEq

structure SharedWaiter where
  id : WaiterId
  byteIndex : Nat
  wake : SharedWaiterWake
  deriving DecidableEq

structure SharedDataBlock where
  bytes : List UInt8
  waiters : List SharedWaiter
  deriving DecidableEq

namespace SharedDataBlock

/-- `bytes.get(byte_index..byte_index + length)`. -/
def slice (bytes : List UInt8) (byteIndex length : Nat) :
    Option (List UInt8) :=
  if byteIndex + length ≤ bytes.length then
    some ((bytes.drop byteIndex).take length)
  else none

/-- The compared bytes still match. -/
def equals (block : SharedDataBlock) (byteIndex : Nat)
    (expected : List UInt8) : Prop :=
  slice block.bytes byteIndex expected.length = some expected

instance (block : SharedDataBlock) (byteIndex : Nat)
    (expected : List UInt8) : Decidable (block.equals byteIndex expected) :=
  inferInstanceAs (Decidable (_ = _))

def registerWaiterIfEqual (block : SharedDataBlock) (expected : List UInt8)
    (waiter : SharedWaiter) : Option SharedDataBlock :=
  if block.equals waiter.byteIndex expected then
    some { block with waiters := block.waiters ++ [waiter] }
  else none

def removeWaiter (block : SharedDataBlock) (byteIndex : Nat) (id : WaiterId) :
    SharedDataBlock :=
  { block with
    waiters := block.waiters.eraseP fun waiter =>
      decide (waiter.byteIndex = byteIndex ∧ waiter.id = id) }

/-- The waiters that stay, the ones that were woken in order, and the flags. -/
structure Notification where
  waiters : List SharedWaiter
  woken : List SharedWaiter
  notified : Nat
  states : WaiterStates

/-- The loop of `notify`; waiters that are no longer pending are dropped. -/
def notifyWaiters (byteIndex count : Nat) :
    List SharedWaiter → Nat → WaiterStates → Notification
  | [], notified, states => ⟨[], [], notified, states⟩
  | waiter :: rest, notified, states =>
      if states waiter.id ≠ .pending then
        notifyWaiters byteIndex count rest notified states
      else if waiter.byteIndex ≠ byteIndex ∨ count ≤ notified then
        let result := notifyWaiters byteIndex count rest notified states
        { result with waiters := waiter :: result.waiters }
      else
        match states.tryNotify waiter.id with
        | (true, states) =>
            let result := notifyWaiters byteIndex count rest (notified + 1) states
            { result with woken := waiter :: result.woken }
        | (false, states) =>
            notifyWaiters byteIndex count rest notified states

/-- The waiters of one location that are still pending. -/
def pendingAt (states : WaiterStates) (byteIndex : Nat)
    (waiters : List SharedWaiter) : List SharedWaiter :=
  waiters.filter fun waiter =>
    decide (states waiter.id = .pending ∧ waiter.byteIndex = byteIndex)

theorem pendingAt_congr {states states' : WaiterStates} {byteIndex : Nat}
    {waiters : List SharedWaiter}
    (same : ∀ waiter ∈ waiters, states' waiter.id = states waiter.id) :
    pendingAt states' byteIndex waiters = pendingAt states byteIndex waiters := by
  apply List.filter_congr
  intro waiter member
  rw [same waiter member]

/-- What a notification does with the flags and the waiters it looks at. -/
structure Notifies (byteIndex count : Nat) (waiters : List SharedWaiter)
    (notified : Nat) (states : WaiterStates) (result : Notification) :
    Prop where
  woken : result.woken =
    (pendingAt states byteIndex waiters).take (count - notified)
  notified : result.notified = notified + result.woken.length
  states : ∀ id, result.states id =
    if id ∈ result.woken.map SharedWaiter.id then .notified else states id
  waiters : result.waiters =
    waiters.filter fun waiter => decide (result.states waiter.id = .pending)

section Notify

variable {byteIndex count notified : Nat} {waiter : SharedWaiter}
  {rest : List SharedWaiter} {states : WaiterStates} {result : Notification}

theorem Notifies.stale
    (notifies : Notifies byteIndex count rest notified states result)
    (stale : states waiter.id ≠ .pending)
    (fresh : waiter.id ∉ rest.map SharedWaiter.id) :
    Notifies byteIndex count (waiter :: rest) notified states result := by
  have outside : waiter.id ∉ result.woken.map SharedWaiter.id := by
    rw [notifies.woken]
    intro member
    obtain ⟨found, foundMember, equal⟩ := List.mem_map.mp member
    apply fresh
    rw [← equal]
    exact List.mem_map_of_mem
      (List.mem_of_mem_filter (List.mem_of_mem_take foundMember))
  have kept : result.states waiter.id ≠ .pending := by
    rw [notifies.states, if_neg outside]
    exact stale
  constructor
  · rw [notifies.woken, pendingAt, pendingAt, List.filter_cons, if_neg]
    simp [stale]
  · exact notifies.notified
  · exact notifies.states
  · rw [notifies.waiters, List.filter_cons, if_neg]
    simpa using kept

theorem Notifies.keep
    (notifies : Notifies byteIndex count rest notified states result)
    (pending : states waiter.id = .pending)
    (passed : waiter.byteIndex ≠ byteIndex ∨ count ≤ notified)
    (fresh : waiter.id ∉ rest.map SharedWaiter.id) :
    Notifies byteIndex count (waiter :: rest) notified states
      { result with waiters := waiter :: result.waiters } := by
  have outside : waiter.id ∉ result.woken.map SharedWaiter.id := by
    rw [notifies.woken]
    intro member
    obtain ⟨found, foundMember, equal⟩ := List.mem_map.mp member
    apply fresh
    rw [← equal]
    exact List.mem_map_of_mem
      (List.mem_of_mem_filter (List.mem_of_mem_take foundMember))
  have kept : result.states waiter.id = .pending := by
    rw [notifies.states, if_neg outside]
    exact pending
  constructor
  · simp only
    rcases passed with elsewhere | enough
    · rw [notifies.woken, pendingAt, pendingAt, List.filter_cons, if_neg]
      simp [elsewhere]
    · rw [notifies.woken, Nat.sub_eq_zero_of_le enough, List.take_zero,
        List.take_zero]
  · exact notifies.notified
  · exact notifies.states
  · simp only
    rw [List.filter_cons, if_pos (by simpa using kept), notifies.waiters]

theorem Notifies.wake
    (notifies : Notifies byteIndex count rest (notified + 1)
      (states.exchange waiter.id .notified) result)
    (pending : states waiter.id = .pending)
    (here : waiter.byteIndex = byteIndex) (more : notified < count)
    (fresh : waiter.id ∉ rest.map SharedWaiter.id) :
    Notifies byteIndex count (waiter :: rest) notified states
      { result with woken := waiter :: result.woken } := by
  have others : ∀ other ∈ rest,
      states.exchange waiter.id .notified other.id = states other.id := by
    intro other member
    apply WaiterStates.exchange_of_ne
    intro equal
    exact fresh (equal ▸ List.mem_map_of_mem member)
  have own : result.states waiter.id = .notified := by
    rw [notifies.states, WaiterStates.exchange_of_pending pending]
    simp
  constructor
  · simp only
    have room : count - notified = (count - (notified + 1)) + 1 := by omega
    rw [notifies.woken, pendingAt_congr others, pendingAt, pendingAt,
      List.filter_cons, if_pos (by simp [pending, here]), room,
      List.take_succ_cons]
  · simp only
    rw [notifies.notified, List.length_cons]
    omega
  · intro id
    by_cases same : id = waiter.id
    · subst same
      simpa using own
    · simp only [List.map_cons, List.mem_cons, same, false_or]
      rw [notifies.states, WaiterStates.exchange_of_ne same]
  · simp only
    rw [List.filter_cons, if_neg (by simp [own]), notifies.waiters]

end Notify

/-- A notification wakes the first pending waiters of its location. -/
theorem notifyWaiters_notifies {byteIndex count notified : Nat}
    {waiters : List SharedWaiter} {states : WaiterStates}
    (distinct : (waiters.map SharedWaiter.id).Nodup) :
    Notifies byteIndex count waiters notified states
      (notifyWaiters byteIndex count waiters notified states) := by
  induction waiters generalizing notified states with
  | nil => constructor <;> simp [notifyWaiters, pendingAt]
  | cons waiter rest induction =>
      obtain ⟨fresh, distinct⟩ := List.nodup_cons.mp distinct
      unfold notifyWaiters
      by_cases pending : states waiter.id = .pending
      · rw [if_neg (by simpa using pending)]
        by_cases passed : waiter.byteIndex ≠ byteIndex ∨ count ≤ notified
        · rw [if_pos passed]
          exact (induction distinct).keep pending passed fresh
        · rw [if_neg passed]
          have here : waiter.byteIndex = byteIndex := by
            by_contra elsewhere
            exact passed (.inl elsewhere)
          have more : notified < count := by
            by_contra enough
            exact passed (.inr (Nat.le_of_not_lt enough))
          simp only [WaiterStates.tryNotify, pending, decide_true]
          exact (induction distinct).wake pending here more fresh
      · rw [if_pos pending]
        exact (induction distinct).stale pending fresh

end SharedDataBlock

end Fusor.Atomics
