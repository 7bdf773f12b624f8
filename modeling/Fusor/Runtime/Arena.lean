import Fusor.Support.FreeList
import Fusor.Support.Result

/-!
# Generational arenas

Slots are named by an index and a generation.  Vacant slots carry the index
of the next vacant one, and a slot whose generation is used up is retired.
Whether memory can be reserved is an argument of the operations that reserve;
the places where the implementation would panic are faults.
-/

namespace Fusor.Runtime

open Support

structure ArenaId where
  runtime : Nat
  index : Nat
  generation : Nat
  deriving DecidableEq

inductive SlotState (T : Type) where
  | occupied (value : T)
  | vacant (next : Option Nat)
  | retired

structure Slot (T : Type) where
  generation : Nat
  state : SlotState T

structure Arena (T : Type) where
  runtime : Nat
  slots : List (Slot T)
  freeHead : Option Nat
  liveLen : Nat
  freeLen : Nat
  retiredLen : Nat

inductive ArenaFault where
  | unreachable
  | underflow
  | outOfBounds
  | endless
  deriving DecidableEq

def maxGeneration : Nat := 2 ^ 32 - 1

variable {T : Type}

namespace Slot

def isOccupied (slot : Slot T) : Bool :=
  match slot.state with
  | .occupied _ => true
  | _ => false

def isVacant (slot : Slot T) : Bool :=
  match slot.state with
  | .vacant _ => true
  | _ => false

def isRetired (slot : Slot T) : Bool :=
  match slot.state with
  | .retired => true
  | _ => false

/-- The link a vacant slot carries. -/
def link (slot : Slot T) : Option (Option Nat) :=
  match slot.state with
  | .vacant next => some next
  | _ => none

/-- The value under a generation of the slot. -/
def read (slot : Slot T) (generation : Nat) : Option T :=
  if slot.generation ≠ generation then none
  else match slot.state with
    | .occupied value => some value
    | .vacant _ | .retired => none

end Slot

namespace Arena

def decrement : Nat → Except ArenaFault Nat
  | 0 => .error .underflow
  | count + 1 => .ok count

def links (slots : List (Slot T)) (index : Nat) : Option (Option Nat) :=
  slots[index]?.bind Slot.link

def new (runtime : Nat) : Arena T where
  runtime
  slots := []
  freeHead := none
  liveLen := 0
  freeLen := 0
  retiredLen := 0

def tryInsert (arena : Arena T) (value : T) (granted : Bool) :
    Except ArenaFault (Arena T × Option ArenaId) :=
  match arena.freeHead with
  | some index =>
      match arena.slots[index]? with
      | none => .error .outOfBounds
      | some slot =>
          match slot.state with
          | .vacant next => do
              let freeLen ← decrement arena.freeLen
              .ok ({ arena with
                  slots := arena.slots.set index
                    { slot with state := .occupied value }
                  freeHead := next
                  freeLen
                  liveLen := arena.liveLen + 1 },
                some ⟨arena.runtime, index, slot.generation⟩)
          | .occupied _ | .retired => .error .unreachable
  | none =>
      if granted then
        .ok ({ arena with
            slots := arena.slots ++ [⟨0, .occupied value⟩]
            liveLen := arena.liveLen + 1 },
          some ⟨arena.runtime, arena.slots.length, 0⟩)
      else
        .ok (arena, none)

def get (arena : Arena T) (id : ArenaId) : Option T :=
  if id.runtime ≠ arena.runtime then none
  else arena.slots[id.index]?.bind fun slot => slot.read id.generation

def contains (arena : Arena T) (id : ArenaId) : Bool :=
  (arena.get id).isSome

/-- The occupied slots in their order, with the identities of the values. -/
def iter (arena : Arena T) : List (ArenaId × T) :=
  arena.slots.zipIdx.filterMap fun (slot, index) =>
    match slot.state with
    | .occupied value =>
        some (⟨arena.runtime, index, slot.generation⟩, value)
    | .vacant _ | .retired => none

/-- The value behind a mutable reference, replaced by what is written to it. -/
def getMut (arena : Arena T) (id : ArenaId) (write : T → T) :
    Arena T × Option T :=
  if id.runtime ≠ arena.runtime then (arena, none)
  else match arena.slots[id.index]? with
    | none => (arena, none)
    | some slot =>
        match slot.read id.generation with
        | none => (arena, none)
        | some value =>
            ({ arena with
                slots := arena.slots.set id.index
                  { slot with state := .occupied (write value) } },
              some value)

def remove (arena : Arena T) (id : ArenaId) :
    Except ArenaFault (Arena T × Option T) :=
  if id.runtime ≠ arena.runtime then .ok (arena, none)
  else match arena.slots[id.index]? with
    | none => .ok (arena, none)
    | some slot =>
        match slot.read id.generation with
        | none => .ok (arena, none)
        | some value => do
            let liveLen ← decrement arena.liveLen
            if slot.generation + 1 ≤ maxGeneration then
              .ok ({ arena with
                  slots := arena.slots.set id.index
                    ⟨slot.generation + 1, .vacant arena.freeHead⟩
                  freeHead := some id.index
                  freeLen := arena.freeLen + 1
                  liveLen },
                some value)
            else
              .ok ({ arena with
                  slots := arena.slots.set id.index
                    ⟨slot.generation, .retired⟩
                  retiredLen := arena.retiredLen + 1
                  liveLen },
                some value)

/-- Appends a vacant slot in front of the free list. -/
def addHole (arena : Arena T) : Arena T :=
  { arena with
    slots := arena.slots ++ [⟨0, .vacant arena.freeHead⟩]
    freeHead := some arena.slots.length
    freeLen := arena.freeLen + 1 }

def pad : Nat → Arena T → Arena T
  | 0, arena => arena
  | count + 1, arena => pad count arena.addHole

def setSlot (arena : Arena T) (index : Nat) (slot : Slot T) : Arena T :=
  { arena with slots := arena.slots.set index slot }

/-- Makes the predecessor on the free list, or the head, skip a slot. -/
def skip (arena : Arena T) (previous next : Option Nat) :
    Except ArenaFault (Option (Arena T)) :=
  match previous with
  | none => .ok (some { arena with freeHead := next })
  | some previous =>
      match arena.slots[previous]? with
      | none => .error .outOfBounds
      | some slot =>
          match slot.state with
          | .vacant _ =>
              .ok (some (arena.setSlot previous
                { slot with state := .vacant next }))
          | .occupied _ | .retired => .ok none

/-- Stores a value at a vacant slot taken off the free list. -/
def occupy (arena : Arena T) (index : Nat) (value : T) :
    Except ArenaFault (Arena T × Option ArenaId) := do
  let freeLen ← decrement arena.freeLen
  .ok ({ arena with
      slots := arena.slots.set index ⟨0, .occupied value⟩
      freeLen
      liveLen := arena.liveLen + 1 },
    some ⟨arena.runtime, index, 0⟩)

def restoreInsert (arena : Arena T) (index : Nat) (value : T)
    (granted : Bool) : Except ArenaFault (Arena T × Option ArenaId) :=
  if index ≥ arena.slots.length then
    if granted then
      let padded := pad (index - arena.slots.length) arena
      .ok ({ padded with
          slots := padded.slots ++ [⟨0, .occupied value⟩]
          liveLen := padded.liveLen + 1 },
        some ⟨padded.runtime, index, 0⟩)
    else
      .ok (arena, none)
  else match links arena.slots index with
    | none => .ok (arena, none)
    | some next =>
        match locate (links arena.slots) index (arena.slots.length + 1) none
            arena.freeHead with
        | .endless => .error .endless
        | .missing => .ok (arena, none)
        | .found previous => do
            match ← arena.skip previous next with
            | none => .ok (arena, none)
            | some skipped => skipped.occupy index value

inductive Operation (T : Type) where
  | tryInsert (value : T) (granted : Bool)
  | remove (id : ArenaId)
  | getMut (id : ArenaId) (write : T → T)
  | restoreInsert (index : Nat) (value : T) (granted : Bool)

def Operation.isRestore : Operation T → Bool
  | .restoreInsert .. => true
  | _ => false

inductive Outcome (T : Type) where
  | inserted (id : Option ArenaId)
  | accessed (value : Option T)

def step (arena : Arena T) :
    Operation T → Except ArenaFault (Arena T × Outcome T)
  | .tryInsert value granted => do
      let (next, id) ← arena.tryInsert value granted
      .ok (next, .inserted id)
  | .remove id => do
      let (next, value) ← arena.remove id
      .ok (next, .accessed value)
  | .getMut id write =>
      let (next, value) := arena.getMut id write
      .ok (next, .accessed value)
  | .restoreInsert index value granted => do
      let (next, id) ← arena.restoreInsert index value granted
      .ok (next, .inserted id)

def run (arena : Arena T) :
    List (Operation T) → Except ArenaFault (Arena T × List (Outcome T))
  | [] => .ok (arena, [])
  | operation :: operations => do
      let (next, outcome) ← arena.step operation
      let (final, outcomes) ← run next operations
      .ok (final, outcome :: outcomes)

/-- What is stored under each identity, as a caller sees it: the value of the
latest store unless the identity was removed since. -/
def remember (memory : ArenaId → Option T) :
    Operation T → Outcome T → ArenaId → Option T
  | .tryInsert value _, .inserted (some id) =>
      Function.update memory id (some value)
  | .restoreInsert _ value _, .inserted (some id) =>
      Function.update memory id (some value)
  | .getMut id write, .accessed (some value) =>
      Function.update memory id (some (write value))
  | .remove id, .accessed (some _) => Function.update memory id none
  | _, _ => memory

def remembered (memory : ArenaId → Option T) :
    List (Operation T) → List (Outcome T) → ArenaId → Option T
  | operation :: operations, outcome :: outcomes =>
      remembered (remember memory operation outcome) operations outcomes
  | _, _ => memory

/-- The counters are those of the slots. -/
structure Counted (arena : Arena T) : Prop where
  freeCount : arena.freeLen = arena.slots.countP Slot.isVacant
  liveCount : arena.liveLen = arena.slots.countP Slot.isOccupied
  retiredCount : arena.retiredLen = arena.slots.countP Slot.isRetired

/-- The free list from the head visits the vacant slots, each once. -/
structure Valid (arena : Arena T) : Prop extends Counted arena where
  freeList : ∃ path, FreeList (links arena.slots) arena.freeHead path

end Arena

end Fusor.Runtime
