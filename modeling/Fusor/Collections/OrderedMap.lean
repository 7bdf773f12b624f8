import Mathlib.Tactic

/-!
# Insertion-ordered maps with live cursors

An association list in the order of insertion, keyed up to a relation, whose
entries carry the time of their insertion.  A cursor moves over these times
while the map changes.  Every entry that is still present behind a cursor has
been delivered by it, and no entry is delivered twice.
-/

namespace Fusor.Collections

structure Entry (K V : Type) where
  stamp : Nat
  key : K
  value : V

structure OrderedMap (K V : Type) where
  entries : List (Entry K V)
  clock : Nat

/-- A cursor remembers the stamps it delivered, the latest first. -/
structure Cursor (Kind : Type) where
  kind : Kind
  next : Nat
  finished : Bool
  seen : List Nat

variable {K V Kind : Type}

namespace OrderedMap

def empty : OrderedMap K V :=
  ⟨[], 0⟩

variable (same : K → K → Bool)

def find (map : OrderedMap K V) (key : K) : Option (Entry K V) :=
  map.entries.find? fun entry => same entry.key key

def get (map : OrderedMap K V) (key : K) : Option V :=
  (map.find same key).map Entry.value

def has (map : OrderedMap K V) (key : K) : Bool :=
  (map.find same key).isSome

def set (map : OrderedMap K V) (key : K) (value : V) : OrderedMap K V :=
  if map.has same key then
    { map with entries := map.entries.map fun entry =>
        if same entry.key key then { entry with value } else entry }
  else
    ⟨map.entries ++ [⟨map.clock, key, value⟩], map.clock + 1⟩

def delete (map : OrderedMap K V) (key : K) : OrderedMap K V :=
  { map with entries := map.entries.filter fun entry => !same entry.key key }

def clear (map : OrderedMap K V) : OrderedMap K V :=
  { map with entries := [] }

def size (map : OrderedMap K V) : Nat :=
  map.entries.length

/-- The first entry at or after the cursor. -/
def ahead (map : OrderedMap K V) (next : Nat) : Option (Entry K V) :=
  map.entries.find? fun entry => decide (next ≤ entry.stamp)

end OrderedMap

namespace Cursor

def advance (cursor : Cursor Kind) (map : OrderedMap K V) :
    Cursor Kind × Option (Entry K V) :=
  if cursor.finished then (cursor, none)
  else match map.ahead cursor.next with
    | some entry =>
        ({ cursor with next := entry.stamp + 1, seen := entry.stamp ::
            cursor.seen }, some entry)
    | none => ({ cursor with next := map.clock, finished := true }, none)

/-- The entries behind the cursor have been delivered, each once. -/
structure Sound (cursor : Cursor Kind) (map : OrderedMap K V) : Prop where
  within : cursor.next ≤ map.clock
  behind : ∀ stamp ∈ cursor.seen, stamp < cursor.next
  once : cursor.seen.Pairwise (· > ·)
  delivered : ∀ entry ∈ map.entries, entry.stamp < cursor.next →
    entry.stamp ∈ cursor.seen

end Cursor

namespace OrderedMap

/-- Entries are in the order of their stamps. -/
structure Ordered (map : OrderedMap K V) : Prop where
  sorted : map.entries.Pairwise (·.stamp < ·.stamp)
  past : ∀ entry ∈ map.entries, entry.stamp < map.clock

/-- No entry gets an old stamp. -/
structure Later (before after : OrderedMap K V) : Prop where
  clock : before.clock ≤ after.clock
  entries : ∀ entry ∈ after.entries, entry.stamp < before.clock →
    ∃ old ∈ before.entries, old.stamp = entry.stamp ∧ old.key = entry.key

variable {same : K → K → Bool} {map : OrderedMap K V}

theorem set_later (map : OrderedMap K V) (key : K) (value : V) :
    Later map (map.set same key value) := by
  unfold set
  split
  · refine ⟨Nat.le_refl _, fun entry member _ => ?_⟩
    obtain ⟨old, oldMember, rfl⟩ := List.mem_map.mp member
    refine ⟨old, oldMember, ?_, ?_⟩
    · split <;> rfl
    · split <;> rfl
  · refine ⟨Nat.le_succ _, fun entry member early => ?_⟩
    rcases List.mem_append.mp member with old | new
    · exact ⟨entry, old, rfl, rfl⟩
    · rw [List.mem_singleton] at new
      subst new
      exact absurd early (Nat.lt_irrefl _)

theorem delete_later (map : OrderedMap K V) (key : K) :
    Later map (map.delete same key) :=
  ⟨Nat.le_refl _, fun entry member _ =>
    ⟨entry, (List.mem_filter.mp member).1, rfl, rfl⟩⟩

theorem clear_later (map : OrderedMap K V) : Later map map.clear :=
  ⟨Nat.le_refl _, fun _ member => by simp [clear] at member⟩

theorem set_ordered (ordered : map.Ordered) (key : K) (value : V) :
    (map.set same key value).Ordered := by
  unfold set
  split
  · have stamp : ∀ entry : Entry K V, (if same entry.key key then
        { entry with value } else entry).stamp = entry.stamp := by
      intro entry
      split <;> rfl
    refine ⟨?_, ?_⟩
    · rw [List.pairwise_map]
      exact ordered.sorted.imp fun before => by rw [stamp, stamp]; exact before
    · intro entry member
      obtain ⟨old, oldMember, rfl⟩ := List.mem_map.mp member
      rw [stamp]
      exact ordered.past old oldMember
  · refine ⟨?_, ?_⟩
    · rw [List.pairwise_append]
      refine ⟨ordered.sorted, List.pairwise_singleton _ _, ?_⟩
      intro old oldMember new newMember
      rw [List.mem_singleton] at newMember
      subst newMember
      exact ordered.past old oldMember
    · intro entry member
      rcases List.mem_append.mp member with old | new
      · exact Nat.lt_succ_of_lt (ordered.past entry old)
      · rw [List.mem_singleton] at new
        subst new
        exact Nat.lt_succ_self _

theorem delete_ordered (ordered : map.Ordered) (key : K) :
    (map.delete same key).Ordered :=
  ⟨ordered.sorted.sublist List.filter_sublist, fun entry member =>
    ordered.past entry (List.mem_filter.mp member).1⟩

theorem clear_ordered (map : OrderedMap K V) : map.clear.Ordered :=
  ⟨List.Pairwise.nil, fun _ member => by simp [clear] at member⟩

end OrderedMap

namespace Cursor

variable {map : OrderedMap K V} {cursor : Cursor Kind}

theorem Sound.later {after : OrderedMap K V} (sound : cursor.Sound map)
    (later : OrderedMap.Later map after) : cursor.Sound after := by
  refine ⟨Nat.le_trans sound.within later.clock, sound.behind, sound.once, ?_⟩
  intro entry member behind
  obtain ⟨old, oldMember, same, _⟩ := later.entries entry member
    (Nat.lt_of_lt_of_le behind sound.within)
  rw [← same]
  exact sound.delivered old oldMember (by rw [same]; exact behind)

/-- A cursor delivers the next entry that is present, or reports the end once
everything present has been delivered. -/
theorem advance_cases (ordered : map.Ordered) (sound : cursor.Sound map) :
    (cursor.finished = true ∧ cursor.advance map = (cursor, none)) ∨
      (∃ entry ∈ map.entries, entry.stamp ∉ cursor.seen ∧
        cursor.next ≤ entry.stamp ∧
        cursor.advance map = ({ cursor with
          next := entry.stamp + 1
          seen := entry.stamp :: cursor.seen }, some entry) ∧
        (cursor.advance map).1.Sound map) ∨
      ((∀ entry ∈ map.entries, entry.stamp ∈ cursor.seen) ∧
        cursor.advance map =
          ({ cursor with next := map.clock, finished := true }, none) ∧
        (cursor.advance map).1.Sound map) := by
  unfold advance
  by_cases finished : cursor.finished = true
  · rw [if_pos finished]
    exact .inl ⟨finished, rfl⟩
  · rw [if_neg finished]
    right
    cases found : map.ahead cursor.next with
    | some entry =>
        left
        obtain ⟨reached, before, after, split, earlier⟩ :=
          List.find?_eq_some_iff_append.mp found
        have ahead : cursor.next ≤ entry.stamp := by simpa using reached
        have member : entry ∈ map.entries := by
          rw [split]
          simp
        refine ⟨entry, member, ?_, ahead, rfl, ?_⟩
        · intro seen
          exact absurd (sound.behind _ seen) (Nat.not_lt.mpr ahead)
        · refine ⟨ordered.past entry member, ?_, ?_, ?_⟩
          · intro stamp stampMember
            rcases List.mem_cons.mp stampMember with rfl | old
            · exact Nat.lt_succ_self _
            · have bound := sound.behind stamp old
              simp only
              omega
          · rw [List.pairwise_cons]
            refine ⟨fun stamp old => ?_, sound.once⟩
            exact Nat.lt_of_lt_of_le (sound.behind stamp old) ahead
          · intro other otherMember behind
            by_cases passed : other.stamp < cursor.next
            · exact List.mem_cons_of_mem _
                (sound.delivered other otherMember passed)
            · have sorted := ordered.sorted
              rw [split] at otherMember sorted
              rw [List.pairwise_append] at sorted
              rcases List.mem_append.mp otherMember with old | new
              · have skipped := earlier other old
                simp at skipped
                omega
              · rcases List.mem_cons.mp new with rfl | new
                · exact List.mem_cons_self
                · have above := (List.pairwise_cons.mp sorted.2.1).1 other new
                  simp only at behind
                  omega
    | none =>
        right
        have everything : ∀ entry ∈ map.entries,
            entry.stamp ∈ cursor.seen := by
          intro entry member
          apply sound.delivered entry member
          have missed := List.find?_eq_none.mp found entry member
          simpa using missed
        refine ⟨everything, rfl, Nat.le_refl _, ?_, sound.once, ?_⟩
        · intro stamp seen
          exact Nat.lt_of_lt_of_le (sound.behind stamp seen) sound.within
        · intro entry member _
          exact everything entry member

end Cursor

/-- The operations on one map and its cursors. -/
inductive MapOperation (K V Kind : Type) where
  | set (key : K) (value : V)
  | get (key : K)
  | has (key : K)
  | delete (key : K)
  | clear
  | size
  | start (kind : Kind)
  | next (cursor : Nat)

/-- What an operation lets its caller see.  A cursor that reports the end
delivers no item. -/
inductive MapOutput (V O : Type) where
  | unit
  | value (found : Option V)
  | flag (answer : Bool)
  | count (size : Nat)
  | started (cursor : Nat)
  | item (delivered : Option O)
  | noCursor
  deriving DecidableEq

structure MapSystem (K V Kind : Type) where
  map : OrderedMap K V
  cursors : List (Cursor Kind)

namespace MapSystem

variable {O : Type}

def empty : MapSystem K V Kind :=
  ⟨OrderedMap.empty, []⟩

section Steps

variable (same : K → K → Bool) (canonical : K → K) (observe : Kind → K → V → O)

def step (system : MapSystem K V Kind) :
    MapOperation K V Kind → MapSystem K V Kind × MapOutput V O
  | .set key value =>
      ({ system with map := system.map.set same (canonical key) value }, .unit)
  | .get key => (system, .value (system.map.get same key))
  | .has key => (system, .flag (system.map.has same key))
  | .delete key =>
      ({ system with map := system.map.delete same key },
        .flag (system.map.has same key))
  | .clear => ({ system with map := system.map.clear }, .unit)
  | .size => (system, .count system.map.size)
  | .start kind =>
      ({ system with cursors := system.cursors ++ [⟨kind, 0, false, []⟩] },
        .started system.cursors.length)
  | .next index =>
      match system.cursors[index]? with
      | none => (system, .noCursor)
      | some cursor =>
          let (moved, delivered) := cursor.advance system.map
          ({ system with cursors := system.cursors.set index moved },
            .item (delivered.map fun entry =>
              observe cursor.kind entry.key entry.value))

def run (system : MapSystem K V Kind) :
    List (MapOperation K V Kind) → MapSystem K V Kind × List (MapOutput V O)
  | [] => (system, [])
  | operation :: operations =>
      let (next, output) := system.step same canonical observe operation
      let (final, outputs) := next.run operations
      (final, output :: outputs)

end Steps

/-- The entries are ordered and every cursor is sound. -/
structure Sound (system : MapSystem K V Kind) : Prop where
  ordered : system.map.Ordered
  cursors : ∀ cursor ∈ system.cursors, cursor.Sound system.map

theorem empty_sound : (empty : MapSystem K V Kind).Sound :=
  ⟨⟨List.Pairwise.nil, fun _ member => by simp [empty, OrderedMap.empty] at member⟩,
    fun _ member => by simp [empty] at member⟩

theorem Sound.later {system : MapSystem K V Kind} (sound : system.Sound)
    {map : OrderedMap K V} (ordered : map.Ordered)
    (later : OrderedMap.Later system.map map) :
    Sound { system with map } :=
  ⟨ordered, fun cursor member => (sound.cursors cursor member).later later⟩

variable {same : K → K → Bool} {canonical : K → K} {observe : Kind → K → V → O}

theorem step_sound {system : MapSystem K V Kind} (sound : system.Sound)
    (operation : MapOperation K V Kind) :
    (system.step same canonical observe operation).1.Sound := by
  cases operation with
  | set key value =>
      exact sound.later (OrderedMap.set_ordered sound.ordered _ _)
        (OrderedMap.set_later _ _ _)
  | get key => exact sound
  | has key => exact sound
  | delete key =>
      exact sound.later (OrderedMap.delete_ordered sound.ordered _)
        (OrderedMap.delete_later _ _)
  | clear =>
      exact sound.later (OrderedMap.clear_ordered _)
        (OrderedMap.clear_later _)
  | size => exact sound
  | start kind =>
      refine ⟨sound.ordered, fun cursor member => ?_⟩
      rcases List.mem_append.mp member with old | new
      · exact sound.cursors cursor old
      · rw [List.mem_singleton] at new
        subst new
        exact ⟨Nat.zero_le _, by simp, List.Pairwise.nil, by simp⟩
  | next index =>
      rw [step]
      cases found : system.cursors[index]? with
      | none => exact sound
      | some cursor =>
          have current := sound.cursors cursor (List.mem_of_getElem? found)
          refine ⟨sound.ordered, fun moved member => ?_⟩
          rcases List.mem_or_eq_of_mem_set member with old | rfl
          · exact sound.cursors moved old
          · rcases Cursor.advance_cases sound.ordered current with
              ⟨_, stays⟩ | ⟨_, _, _, _, _, advanced⟩ | ⟨_, _, advanced⟩
            · rw [stays]
              exact current
            · exact advanced
            · exact advanced

/-- A cursor that has reported the end stays where it is. -/
theorem step_finished {system : MapSystem K V Kind} {index : Nat}
    {cursor : Cursor Kind} (found : system.cursors[index]? = some cursor)
    (finished : cursor.finished = true) (operation : MapOperation K V Kind) :
    (system.step same canonical observe operation).1.cursors[index]? =
      some cursor := by
  obtain ⟨inside, reached⟩ := List.getElem?_eq_some_iff.mp found
  cases operation with
  | start kind =>
      rw [step, List.getElem?_append_left inside]
      exact found
  | next other =>
      rw [step]
      cases target : system.cursors[other]? with
      | none => exact found
      | some moving =>
          by_cases here : other = index
          · subst here
            rw [found, Option.some.injEq] at target
            subst target
            simp [Cursor.advance, finished, inside]
          · simp only
            rw [List.getElem?_set_ne here]
            exact found
  | _ => exact found

theorem run_finished {system : MapSystem K V Kind} {index : Nat}
    {cursor : Cursor Kind} (found : system.cursors[index]? = some cursor)
    (finished : cursor.finished = true)
    (operations : List (MapOperation K V Kind)) :
    (system.run same canonical observe operations).1.cursors[index]? =
      some cursor := by
  induction operations generalizing system with
  | nil => exact found
  | cons operation operations induction =>
      exact induction (step_finished found finished operation)

end MapSystem

end Fusor.Collections
