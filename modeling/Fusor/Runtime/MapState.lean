import Fusor.Collections.OrderedMap
import Fusor.Runtime.Value

/-!
# Map data with live iterators

A map keeps its entries in the order of insertion, deleted ones as
tombstones, beside a hash index of the live keys.  Iterators and `forEach`
loops hold an index into the entries.  The hash function is a parameter.
Limits and reservations are taken to succeed.
-/

namespace Fusor.Runtime

open Collections

inductive MapKey where
  | undefined
  | null
  | boolean (value : Bool)
  | number (bits : Binary64)
  | bigInt (value : JsBigInt)
  | string (value : Text)
  | symbol (atom : Nat)
  | function (id : ArenaId)
  | object (id : ArenaId)

namespace MapKey

def numberBits (value : Binary64) : Binary64 :=
  if value.equals 0#64 then 0#64
  else if value.isNaN then Binary64.nan
  else value

def fromValue : StoredValue → MapKey
  | .undefined => undefined
  | .null => null
  | .boolean value => boolean value
  | .number value => number (numberBits value.asF64)
  | .bigInt value => bigInt value
  | .string value => string value
  | .symbol atom => symbol atom
  | .function id => function id
  | .object id => object id

def same : MapKey → MapKey → Bool
  | undefined, undefined => true
  | null, null => true
  | boolean left, boolean right => left == right
  | number left, number right => left == right
  | bigInt left, bigInt right => left.limbs == right.limbs
  | string left, string right => left.equals right
  | symbol left, symbol right => left == right
  | function left, function right => left == right
  | object left, object right => left == right
  | _, _ => false

/-- What a key feeds to the hasher: its kind and its contents. -/
def hashed : MapKey → List Nat
  | undefined => [0]
  | null => [1]
  | boolean value => [2, if value then 1 else 0]
  | number bits => [3, bits.toNat]
  | bigInt value => 4 :: value.limbs.length :: value.limbs.map BitVec.toNat
  | string value =>
      5 :: value.string.len :: value.codeUnits.map UInt16.toNat
  | symbol atom => [6, atom]
  | function id => [7, id.runtime, id.index, id.generation]
  | object id => [8, id.runtime, id.index, id.generation]

end MapKey

structure MapEntry where
  key : StoredValue
  value : StoredValue
  live : Bool

/-- The hash index: an entry is found under the hash of its key. -/
abbrev MapIndex := List (MapKey × Nat)

structure MapState where
  entries : List MapEntry
  index : MapIndex
  live : Nat

inductive MapCursorKind where
  | key
  | value
  | keyAndValue
  | forEach
  deriving DecidableEq

/-- The parts of an entry that reach the script, in order. -/
def MapCursorKind.observe :
    MapCursorKind → StoredValue → StoredValue → List StoredValue
  | .key, name, _ => [name]
  | .value, _, content => [content]
  | .keyAndValue, name, content => [name, content]
  | .forEach, name, content => [content, name]

def canonicalizeMapKey : StoredValue → StoredValue
  | .number value =>
      if value.asF64.equals 0#64 then .number (JsNumber.fromF64 0#64)
      else .number value
  | key => key

section Hashing

variable (hasher : List Nat → Nat)

namespace MapIndex

def agrees (stored key : MapKey) : Bool :=
  hasher stored.hashed == hasher key.hashed && stored.same key

def lookup (index : MapIndex) (key : MapKey) : Option Nat :=
  (index.find? fun slot => agrees hasher slot.1 key).map Prod.snd

def insert (index : MapIndex) (key : MapKey) (position : Nat) : MapIndex :=
  (key, position) :: index.filter fun slot => !agrees hasher slot.1 key

def remove (index : MapIndex) (key : MapKey) : MapIndex :=
  index.filter fun slot => !agrees hasher slot.1 key

end MapIndex

namespace MapEntry

def tombstone : MapEntry :=
  ⟨.undefined, .undefined, false⟩

end MapEntry

namespace MapState

def empty : MapState :=
  ⟨[], [], 0⟩

def get (state : MapState) (key : StoredValue) : Option StoredValue :=
  (((MapIndex.lookup hasher state.index (.fromValue key)).bind
    fun position => state.entries[position]?).filter MapEntry.live).map
      MapEntry.value

def containsKey (state : MapState) (key : StoredValue) : Bool :=
  (MapIndex.lookup hasher state.index (.fromValue key)).isSome

def append (state : MapState) (key value : StoredValue) : MapState where
  entries := state.entries ++ [⟨key, value, true⟩]
  index := MapIndex.insert hasher state.index (.fromValue key)
    state.entries.length
  live := state.live + 1

def trySet (state : MapState) (key value : StoredValue) : MapState :=
  match MapIndex.lookup hasher state.index (.fromValue key) with
  | some position =>
      match state.entries[position]? with
      | some entry =>
          { state with entries :=
              state.entries.set position { entry with value } }
      | none => state.append hasher key value
  | none => state.append hasher key value

def mapSet (state : MapState) (key value : StoredValue) : MapState :=
  state.trySet hasher (canonicalizeMapKey key) value

def delete (state : MapState) (key : StoredValue) : MapState × Bool :=
  match MapIndex.lookup hasher state.index (.fromValue key) with
  | none => (state, false)
  | some position =>
      let index := MapIndex.remove hasher state.index (.fromValue key)
      match state.entries[position]? with
      | none => ({ state with index }, false)
      | some _ =>
          (⟨state.entries.set position MapEntry.tombstone, index,
            state.live - 1⟩, true)

def clear (state : MapState) : MapState :=
  ⟨state.entries.map fun _ => MapEntry.tombstone, [], 0⟩

/-- The live entries in the order of insertion. -/
def liveEntries (state : MapState) : List (StoredValue × StoredValue) :=
  (state.entries.filter MapEntry.live).map fun entry =>
    (entry.key, entry.value)

end MapState

/-- An iterator, or the continuation of a `forEach` loop. -/
structure MapIterator where
  kind : MapCursorKind
  next : Nat
  finished : Bool
  deriving DecidableEq

namespace MapIterator

/-- Passes over tombstones from a position on. -/
def scan : List MapEntry → Nat → Nat × Option MapEntry
  | [], next => (next, none)
  | entry :: entries, next =>
      if entry.live then (next + 1, some entry) else scan entries (next + 1)

def advance (iterator : MapIterator) (state : MapState) :
    MapIterator × Option MapEntry :=
  if iterator.finished then (iterator, none)
  else match scan (state.entries.drop iterator.next) iterator.next with
    | (next, some entry) => ({ iterator with next }, some entry)
    | (next, none) => ({ iterator with next, finished := true }, none)

end MapIterator

structure MapRuntime where
  state : MapState
  iterators : List MapIterator

namespace MapRuntime

def empty : MapRuntime :=
  ⟨MapState.empty, []⟩

def step (runtime : MapRuntime) :
    MapOperation StoredValue StoredValue MapCursorKind →
      MapRuntime × MapOutput StoredValue (List StoredValue)
  | .set key value =>
      ({ runtime with state := runtime.state.mapSet hasher key value }, .unit)
  | .get key => (runtime, .value (runtime.state.get hasher key))
  | .has key => (runtime, .flag (runtime.state.containsKey hasher key))
  | .delete key =>
      let (state, deleted) := runtime.state.delete hasher key
      ({ runtime with state }, .flag deleted)
  | .clear => ({ runtime with state := runtime.state.clear }, .unit)
  | .size => (runtime, .count runtime.state.live)
  | .start kind =>
      ({ runtime with iterators := runtime.iterators ++ [⟨kind, 0, false⟩] },
        .started runtime.iterators.length)
  | .next index =>
      match runtime.iterators[index]? with
      | none => (runtime, .noCursor)
      | some iterator =>
          let (moved, delivered) := iterator.advance runtime.state
          ({ runtime with iterators := runtime.iterators.set index moved },
            .item (delivered.map fun entry =>
              iterator.kind.observe entry.key entry.value))

def run (runtime : MapRuntime) :
    List (MapOperation StoredValue StoredValue MapCursorKind) →
      MapRuntime × List (MapOutput StoredValue (List StoredValue))
  | [] => (runtime, [])
  | operation :: operations =>
      let (next, output) := runtime.step hasher operation
      let (final, outputs) := next.run operations
      (final, output :: outputs)

end MapRuntime

end Hashing

end Fusor.Runtime
