import Mathlib.Algebra.Ring.Nat
import Mathlib.Data.List.Sort
import Mathlib.Data.List.Count
import Mathlib.Logic.Function.Basic

/-!
# Timer state

Deadlines live in a heap and callbacks in a registry keyed by the timer's
identity.  A cancelled timer leaves the registry at once, and its heap entry
when a sweep prunes the heap.  Instants and durations are milliseconds of the
virtual clock.
-/

namespace Fusor.Host.EventLoop

structure TimerCallback where
  repeating : Bool
  delay : Nat
deriving DecidableEq

structure TimerEntry where
  deadline : Nat
  sequence : Nat
  id : Nat
deriving DecidableEq

/-- The order in which entries fire: by deadline, then by sequence, then by
identity. -/
def TimerEntry.before (left right : TimerEntry) : Prop :=
  left.deadline < right.deadline ∨ left.deadline = right.deadline ∧
    (left.sequence < right.sequence ∨ left.sequence = right.sequence ∧
      left.id ≤ right.id)

instance : DecidableRel TimerEntry.before := by
  intro left right
  unfold TimerEntry.before
  infer_instance

instance : Std.Total TimerEntry.before where
  total left right := by
    simp only [TimerEntry.before]
    omega

instance : IsTrans TimerEntry TimerEntry.before where
  trans first second third := by
    simp only [TimerEntry.before]
    omega

structure TimerState where
  heap : List TimerEntry := []
  callbacks : Nat → Option TimerCallback := fun _ => none
  immediates : List Nat := []
  nextId : Nat := 0
  sequence : Nat := 0
  now : Nat := 0

namespace TimerState

/-- `u32::saturating_add(1)`. -/
def saturatingNextId (id : Nat) : Nat := min (id + 1) (2 ^ 32 - 1)

/-- `u64::saturating_add(1)`. -/
def saturatingSequence (sequence : Nat) : Nat := min (sequence + 1) (2 ^ 64 - 1)

/-- Registers one timer under the identity `nextId`. -/
def push (state : TimerState) (callback : TimerCallback) (deadline : Nat) :
    TimerState :=
  { state with
    heap := ⟨deadline, state.sequence, state.nextId⟩ :: state.heap
    callbacks := Function.update state.callbacks state.nextId (some callback)
    nextId := saturatingNextId state.nextId
    sequence := saturatingSequence state.sequence }

/-- Registers one immediate under the identity `nextId`. -/
def pushImmediate (state : TimerState) (callback : TimerCallback) :
    TimerState :=
  { state with
    callbacks := Function.update state.callbacks state.nextId (some callback)
    immediates := state.immediates ++ [state.nextId]
    nextId := saturatingNextId state.nextId }

/-- Takes a callback out of the registry. -/
def remove (state : TimerState) (id : Nat) : TimerState :=
  { state with callbacks := Function.update state.callbacks id none }

/-- Puts a callback back under its identity. -/
def insert (state : TimerState) (id : Nat) (callback : TimerCallback) :
    TimerState :=
  { state with callbacks := Function.update state.callbacks id (some callback) }

/-- Removes a timer without firing it. -/
def cancel (state : TimerState) (id : Nat) : TimerState := state.remove id

/-- The entries that are due, in firing order. -/
def due (state : TimerState) : List TimerEntry :=
  (state.heap.insertionSort TimerEntry.before).takeWhile fun entry =>
    entry.deadline ≤ state.now

/-- The entry of a repeating timer that is armed again.  The sequence is not
advanced. -/
def rearmedEntry (state : TimerState) (id : Nat) (callback : TimerCallback) :
    TimerEntry :=
  ⟨state.now + callback.delay, state.sequence, id⟩

/-- Arms a repeating timer again. -/
def rearm (state : TimerState) (id : Nat) (callback : TimerCallback) :
    TimerState :=
  { state with heap := state.rearmedEntry id callback :: state.heap }.insert id
    callback

/-- Whether a callback is registered. -/
def registered (state : TimerState) (id : Nat) : Bool :=
  (state.callbacks id).isSome

/-- Whether a repeating callback is registered. -/
def repeats (state : TimerState) (id : Nat) : Bool :=
  (state.callbacks id).any (·.repeating)

/-- The pending timers with the deadline and the sequence of an entry, those
apart whose entries a sweep has fired or will fire. -/
def tied (state : TimerState) (swept : List TimerEntry) (entry : TimerEntry) :
    List Nat :=
  (state.heap.filter fun pending =>
    pending ∉ swept && state.registered pending.id &&
      pending.deadline == entry.deadline &&
      pending.sequence == entry.sequence).map (·.id)

/-- The entries whose timers are registered intervals. -/
def intervals (state : TimerState) (entries : List TimerEntry) : List Nat :=
  (entries.filter fun entry => state.repeats entry.id).map (·.id)

/-- Drops the entries of completed firings and of cancelled timers. -/
def prune (state : TimerState) (fired : List TimerEntry) : TimerState :=
  { state with
    heap := state.heap.filter fun entry =>
      entry ∉ fired && state.registered entry.id }

end TimerState

end Fusor.Host.EventLoop
