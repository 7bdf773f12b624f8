import Fusor.Runtime.MapState

/-!
# Map data refines an insertion-ordered map

The live entries with their positions are the entries of an insertion-ordered
map keyed by `SameValueZero`, the index holds exactly the positions of the
live keys, and iterators move as cursors do.
-/

namespace Fusor.Runtime

open Collections

namespace MapKey

theorem same_iff_hashed (left right : MapKey) :
    left.same right = true ↔ left.hashed = right.hashed := by
  cases left <;> cases right <;>
    simp [same, hashed, StoredValue.boolean_eq_iff, StoredValue.map_toNat_inj,
      StoredValue.map_unit_inj, StoredValue.arenaId_eq_iff, BitVec.toNat_inj]
  case bigInt.bigInt left right =>
      intro equal
      rw [equal]
  case string.string left right =>
      rw [Text.equals_iff]
      constructor
      · intro equal
        refine ⟨?_, equal⟩
        rw [left.formed.len_eq, right.formed.len_eq, ← Text.codeUnits_eq,
          ← Text.codeUnits_eq, equal]
      · exact And.right

theorem same_comm (left right : MapKey) : left.same right = right.same left := by
  rw [Bool.eq_iff_iff, same_iff_hashed, same_iff_hashed]
  exact eq_comm

theorem same_congr {left right : MapKey} (equal : left.same right = true)
    (other : MapKey) : left.same other = right.same other := by
  rw [same_iff_hashed] at equal
  rw [Bool.eq_iff_iff, same_iff_hashed, same_iff_hashed, equal]

/-- The three kinds of numbers that a key tells apart. -/
theorem numberBits_cases (bits : Binary64) :
    (bits.isZero = true ∧ bits.isNaN = false ∧ numberBits bits = 0#64) ∨
      (bits.isZero = false ∧ bits.isNaN = true ∧
        numberBits bits = Binary64.nan) ∨
      (bits.isZero = false ∧ bits.isNaN = false ∧ numberBits bits = bits) := by
  rw [numberBits, Binary64.equals_zero]
  cases zero : bits.isZero with
  | true => exact .inl ⟨rfl, Binary64.not_isNaN_of_isZero zero, rfl⟩
  | false =>
      cases nan : bits.isNaN with
      | true => exact .inr (.inl ⟨rfl, rfl, rfl⟩)
      | false => exact .inr (.inr ⟨rfl, rfl, rfl⟩)

theorem numberBits_eq_iff (left right : Binary64) :
    numberBits left = numberBits right ↔
      (left.equals right || left.isNaN && right.isNaN) = true := by
  have zero : Binary64.isZero 0#64 = true := by decide
  have nan : Binary64.nan.isNaN = true := by decide
  have differ : ∀ {first second : Binary64} (test : Binary64 → Bool),
      test first ≠ test second → first ≠ second := by
    intro first second test apart same
    exact apart (congrArg test same)
  rw [Binary64.equals]
  rcases numberBits_cases left with
      ⟨leftZero, leftNaN, leftBits⟩ | ⟨leftZero, leftNaN, leftBits⟩ |
      ⟨leftZero, leftNaN, leftBits⟩ <;>
    rcases numberBits_cases right with
      ⟨rightZero, rightNaN, rightBits⟩ | ⟨rightZero, rightNaN, rightBits⟩ |
      ⟨rightZero, rightNaN, rightBits⟩ <;>
    rw [leftBits, rightBits, leftZero, rightZero, leftNaN, rightNaN]
  · simp
  · simp [Binary64.nan]
  · have apart := @differ left right Binary64.isZero
      (by rw [leftZero, rightZero]; simp)
    have nonzero := @differ 0#64 right Binary64.isZero
      (by rw [zero, rightZero]; simp)
    simp [apart, nonzero]
  · simp [Binary64.nan]
  · simp
  · have apart := @differ Binary64.nan right Binary64.isNaN
      (by rw [nan, rightNaN]; simp)
    simp [apart]
  · have apart := @differ left right Binary64.isZero
      (by rw [leftZero, rightZero]; simp)
    have nonzero := @differ left 0#64 Binary64.isZero
      (by rw [zero, leftZero]; simp)
    simp [apart, nonzero]
  · have apart := @differ left Binary64.nan Binary64.isNaN
      (by rw [nan, leftNaN]; simp)
    simp [apart]
  · simp

theorem same_fromValue (left right : StoredValue) :
    (fromValue left).same (fromValue right) = left.sameValueZero right := by
  cases left <;> cases right <;>
    simp [fromValue, same, StoredValue.sameValueZero, StoredValue.strictEquals]
  rw [Bool.eq_iff_iff, beq_iff_eq, numberBits_eq_iff, JsNumber.sameValueZero]

end MapKey

namespace MapIndex

variable (hasher : List Nat → Nat)

theorem agrees_eq (stored key : MapKey) :
    agrees hasher stored key = stored.same key := by
  rw [agrees]
  cases equal : stored.same key with
  | false => simp
  | true =>
      rw [MapKey.same_iff_hashed] at equal
      simp [equal]

theorem lookup_eq (index : MapIndex) (key : MapKey) :
    lookup hasher index key =
      (index.find? fun slot => slot.1.same key).map Prod.snd := by
  simp only [lookup, agrees_eq]

theorem lookup_remove (index : MapIndex) (key other : MapKey) :
    lookup hasher (remove hasher index key) other =
      if key.same other then none else lookup hasher index other := by
  rw [lookup_eq, lookup_eq, remove, List.find?_filter]
  simp only [agrees_eq]
  by_cases equal : key.same other = true
  · rw [if_pos equal]
    have nothing : (index.find? fun slot =>
        decide ((!slot.1.same key) = true ∧ slot.1.same other = true)) =
          none := by
      rw [List.find?_eq_none]
      intro slot _
      rw [MapKey.same_comm slot.1 key, MapKey.same_congr equal,
        MapKey.same_comm other]
      simp
    rw [nothing]
    rfl
  · rw [if_neg equal]
    congr 1
    apply List.find?_congr
    intro slot _
    rw [Bool.eq_iff_iff, decide_eq_true_eq]
    constructor
    · exact And.right
    · intro agreed
      refine ⟨?_, agreed⟩
      rw [Bool.not_eq_true', ← Bool.not_eq_true]
      intro also
      apply equal
      rw [← MapKey.same_congr also]
      exact agreed

theorem lookup_insert (index : MapIndex) (key other : MapKey)
    (position : Nat) :
    lookup hasher (insert hasher index key position) other =
      if key.same other then some position
      else lookup hasher index other := by
  have removed := lookup_remove hasher index key other
  rw [remove, lookup_eq] at removed
  rw [insert, lookup_eq, List.find?_cons]
  cases equal : key.same other with
  | true => simp
  | false =>
      rw [equal] at removed
      simpa using removed

end MapIndex

namespace MapEntry

/-- The live entries with their positions. -/
def stampedFrom : Nat → List MapEntry → List (Entry StoredValue StoredValue)
  | _, [] => []
  | stamp, entry :: entries =>
      if entry.live then
        ⟨stamp, entry.key, entry.value⟩ :: stampedFrom (stamp + 1) entries
      else stampedFrom (stamp + 1) entries

theorem stampedFrom_append (stamp : Nat) (first second : List MapEntry) :
    stampedFrom stamp (first ++ second) =
      stampedFrom stamp first ++
        stampedFrom (stamp + first.length) second := by
  induction first generalizing stamp with
  | nil => rfl
  | cons entry entries induction =>
      rw [List.cons_append, stampedFrom, stampedFrom, induction,
        List.length_cons, Nat.add_assoc, Nat.add_comm 1]
      split <;> rfl

theorem mem_stampedFrom {stamp : Nat} {entries : List MapEntry}
    {found : Entry StoredValue StoredValue} :
    found ∈ stampedFrom stamp entries ↔
      ∃ (position : Nat) (entry : MapEntry), entries[position]? = some entry ∧
        entry.live = true ∧
        found = ⟨stamp + position, entry.key, entry.value⟩ := by
  induction entries generalizing stamp with
  | nil => simp [stampedFrom]
  | cons head entries induction =>
      have rest : found ∈ stampedFrom (stamp + 1) entries ↔
          ∃ (position : Nat) (entry : MapEntry),
            (head :: entries)[position + 1]? = some entry ∧
            entry.live = true ∧
            found = ⟨stamp + (position + 1), entry.key, entry.value⟩ := by
        rw [induction]
        simp only [List.getElem?_cons_succ, Nat.add_assoc, Nat.add_comm 1]
      rw [stampedFrom]
      constructor
      · intro member
        by_cases live : head.live = true
        · rw [if_pos live] at member
          rcases List.mem_cons.mp member with here | later
          · exact ⟨0, head, rfl, live, here⟩
          · obtain ⟨position, entry, parts⟩ := rest.mp later
            exact ⟨position + 1, entry, parts⟩
        · rw [if_neg live] at member
          obtain ⟨position, entry, parts⟩ := rest.mp member
          exact ⟨position + 1, entry, parts⟩
      · rintro ⟨position, entry, reached, live, rfl⟩
        cases position with
        | zero =>
            rw [List.getElem?_cons_zero, Option.some.injEq] at reached
            subst reached
            rw [if_pos live]
            exact List.mem_cons_self
        | succ position =>
            have later := rest.mpr ⟨position, entry, reached, live, rfl⟩
            split
            · exact List.mem_cons_of_mem _ later
            · exact later

theorem le_of_mem_stampedFrom {stamp : Nat} {entries : List MapEntry}
    {found : Entry StoredValue StoredValue}
    (member : found ∈ stampedFrom stamp entries) :
    stamp ≤ found.stamp ∧ found.stamp < stamp + entries.length := by
  obtain ⟨position, entry, reached, _, rfl⟩ := mem_stampedFrom.mp member
  obtain ⟨inside, _⟩ := List.getElem?_eq_some_iff.mp reached
  simp only
  omega

/-- Writing a value changes the entry with that stamp. -/
theorem stampedFrom_update {stamp position : Nat} {entries : List MapEntry}
    {entry : MapEntry} (reached : entries[position]? = some entry)
    (value : StoredValue) :
    stampedFrom stamp (entries.set position { entry with value }) =
      (stampedFrom stamp entries).map fun found =>
        if found.stamp = stamp + position then { found with value }
        else found := by
  induction entries generalizing stamp position with
  | nil => simp at reached
  | cons head entries induction =>
      have others : ∀ found ∈ stampedFrom (stamp + 1) entries,
          found.stamp ≠ stamp := by
        intro found member
        have bound := le_of_mem_stampedFrom member
        omega
      cases position with
      | zero =>
          rw [List.getElem?_cons_zero, Option.some.injEq] at reached
          subst reached
          have kept : (stampedFrom (stamp + 1) entries).map (fun found =>
              if found.stamp = stamp + 0 then { found with value }
              else found) = stampedFrom (stamp + 1) entries := by
            refine (List.map_congr_left ?_).trans (List.map_id _)
            intro found member
            exact if_neg (others found member)
          rw [List.set_cons_zero, stampedFrom, stampedFrom]
          split
          · rw [List.map_cons, kept]
            simp
          · rw [kept]
      | succ position =>
          have rest := @induction (stamp + 1) position (by simpa using reached)
          rw [Nat.add_assoc, Nat.add_comm 1] at rest
          rw [List.set_cons_succ, stampedFrom, stampedFrom, rest]
          split
          · rw [List.map_cons, if_neg (by simp)]
          · rfl

/-- A tombstone takes out the entry with that stamp. -/
theorem stampedFrom_tombstone {stamp position : Nat}
    {entries : List MapEntry} (inside : position < entries.length) :
    stampedFrom stamp (entries.set position tombstone) =
      (stampedFrom stamp entries).filter fun found =>
        found.stamp != stamp + position := by
  induction entries generalizing stamp position with
  | nil => simp at inside
  | cons head entries induction =>
      cases position with
      | zero =>
          have kept : (stampedFrom (stamp + 1) entries).filter (fun found =>
              found.stamp != stamp + 0) = stampedFrom (stamp + 1) entries := by
            rw [List.filter_eq_self]
            intro found member
            have bound := le_of_mem_stampedFrom member
            simp
            omega
          rw [List.set_cons_zero, stampedFrom, stampedFrom]
          split
          · rename_i live
            cases live
          · split
            · rw [List.filter_cons_of_neg (by simp), kept]
            · rw [kept]
      | succ position =>
          have rest := @induction (stamp + 1) position (by simpa using inside)
          rw [Nat.add_assoc, Nat.add_comm 1] at rest
          rw [List.set_cons_succ, stampedFrom, stampedFrom, rest]
          split
          · rw [List.filter_cons_of_pos (by simp)]
          · rfl

theorem stampedFrom_cleared (stamp : Nat) (entries : List MapEntry) :
    stampedFrom stamp (entries.map fun _ => tombstone) = [] := by
  induction entries generalizing stamp with
  | nil => rfl
  | cons head entries induction =>
      rw [List.map_cons, stampedFrom, induction]
      rfl

theorem length_stampedFrom (stamp : Nat) (entries : List MapEntry) :
    (stampedFrom stamp entries).length = entries.countP live := by
  induction entries generalizing stamp with
  | nil => rfl
  | cons head entries induction =>
      rw [stampedFrom, List.countP_cons]
      split
      · rw [List.length_cons, induction]
      · rw [induction, Nat.add_zero]

theorem map_stampedFrom (stamp : Nat) (entries : List MapEntry) :
    (stampedFrom stamp entries).map (fun entry => (entry.key, entry.value)) =
      (entries.filter MapEntry.live).map fun entry =>
        (entry.key, entry.value) := by
  induction entries generalizing stamp with
  | nil => rfl
  | cons head entries induction =>
      rw [stampedFrom]
      by_cases live : head.live = true
      · rw [if_pos live, List.filter_cons_of_pos live, List.map_cons,
          List.map_cons, induction]
      · rw [if_neg live, List.filter_cons_of_neg live, induction]

end MapEntry

/-- The zero of negative sign. -/
def NegativeZero (value : StoredValue) : Prop :=
  ∃ number, value = .number number ∧
    number.asF64 = 0x8000000000000000#64

theorem not_negativeZero_canonicalizeMapKey (key : StoredValue) :
    ¬ NegativeZero (canonicalizeMapKey key) := by
  rintro ⟨number, same, bits⟩
  cases key with
  | number value =>
      rw [canonicalizeMapKey] at same
      split at same
      · rw [StoredValue.number.injEq] at same
        rw [← same] at bits
        revert bits
        decide
      · rename_i nonzero
        rw [StoredValue.number.injEq] at same
        rw [same, bits] at nonzero
        revert nonzero
        decide
  | _ => cases same

/-- The map data holds the entries of an insertion-ordered map. -/
structure Represents (hasher : List Nat → Nat) (state : MapState)
    (map : OrderedMap StoredValue StoredValue) : Prop where
  entries : map.entries = MapEntry.stampedFrom 0 state.entries
  clock : map.clock = state.entries.length
  index : ∀ key position,
    MapIndex.lookup hasher state.index key = some position ↔
      ∃ entry, state.entries[position]? = some entry ∧ entry.live = true ∧
        (MapKey.fromValue entry.key).same key = true
  live : state.live = state.entries.countP MapEntry.live
  canonical : ∀ entry ∈ map.entries, ¬ NegativeZero entry.key

namespace Represents

variable {hasher : List Nat → Nat} {state : MapState}
  {map : OrderedMap StoredValue StoredValue}

theorem size (represents : Represents hasher state map) :
    state.live = map.size := by
  rw [represents.live, OrderedMap.size, represents.entries,
    MapEntry.length_stampedFrom]

/-- Under the index of a key, and only there, its entry is live. -/
theorem same_iff_stamp (represents : Represents hasher state map)
    {key : StoredValue} {position : Nat}
    (found : MapIndex.lookup hasher state.index (.fromValue key) =
      some position) {entry : Entry StoredValue StoredValue}
    (member : entry ∈ map.entries) :
    entry.key.sameValueZero key = true ↔ entry.stamp = position := by
  rw [represents.entries, MapEntry.mem_stampedFrom] at member
  obtain ⟨other, stored, reached, live, rfl⟩ := member
  simp only [Nat.zero_add]
  constructor
  · intro same
    rw [← MapKey.same_fromValue] at same
    have second := (represents.index (.fromValue key) other).mpr
      ⟨stored, reached, live, same⟩
    rw [found, Option.some.injEq] at second
    exact second.symm
  · rintro rfl
    obtain ⟨first, firstReached, _, same⟩ :=
      (represents.index (.fromValue key) other).mp found
    rw [reached, Option.some.injEq] at firstReached
    subst firstReached
    rw [← MapKey.same_fromValue]
    exact same

theorem find_none (represents : Represents hasher state map)
    {key : StoredValue}
    (missing : MapIndex.lookup hasher state.index (.fromValue key) = none) :
    map.find StoredValue.sameValueZero key = none := by
  rw [OrderedMap.find, List.find?_eq_none]
  intro entry member same
  rw [represents.entries, MapEntry.mem_stampedFrom] at member
  obtain ⟨position, stored, reached, live, rfl⟩ := member
  rw [← MapKey.same_fromValue] at same
  have found := (represents.index (.fromValue key) position).mpr
    ⟨stored, reached, live, same⟩
  rw [missing] at found
  cases found

theorem find_some (represents : Represents hasher state map)
    {key : StoredValue} {position : Nat}
    (found : MapIndex.lookup hasher state.index (.fromValue key) =
      some position) :
    ∃ entry, state.entries[position]? = some entry ∧ entry.live = true ∧
      map.find StoredValue.sameValueZero key =
        some ⟨position, entry.key, entry.value⟩ := by
  obtain ⟨entry, reached, live, _⟩ :=
    (represents.index (.fromValue key) position).mp found
  refine ⟨entry, reached, live, ?_⟩
  have member : (⟨position, entry.key, entry.value⟩ :
      Entry StoredValue StoredValue) ∈ map.entries := by
    rw [represents.entries, MapEntry.mem_stampedFrom]
    exact ⟨position, entry, reached, live, by rw [Nat.zero_add]⟩
  have hit : (map.find StoredValue.sameValueZero key).isSome := by
    rw [OrderedMap.find, List.find?_isSome]
    exact ⟨_, member, (represents.same_iff_stamp found member).mpr rfl⟩
  obtain ⟨other, located⟩ := Option.isSome_iff_exists.mp hit
  have otherMember := List.mem_of_find?_eq_some located
  have same := List.find?_some located
  have stamp := (represents.same_iff_stamp found otherMember).mp same
  rw [located]
  rw [represents.entries, MapEntry.mem_stampedFrom] at otherMember
  obtain ⟨place, stored, placed, _, rfl⟩ := otherMember
  simp only [Nat.zero_add] at stamp
  subst stamp
  rw [reached, Option.some.injEq] at placed
  rw [placed, Nat.zero_add]

theorem has (represents : Represents hasher state map) (key : StoredValue) :
    state.containsKey hasher key =
      map.has StoredValue.sameValueZero key := by
  rw [MapState.containsKey, OrderedMap.has]
  cases found : MapIndex.lookup hasher state.index (.fromValue key) with
  | none => rw [represents.find_none found]; rfl
  | some position =>
      obtain ⟨entry, _, _, located⟩ := represents.find_some found
      rw [located]
      rfl

theorem get (represents : Represents hasher state map) (key : StoredValue) :
    state.get hasher key = map.get StoredValue.sameValueZero key := by
  rw [MapState.get, OrderedMap.get]
  cases found : MapIndex.lookup hasher state.index (.fromValue key) with
  | none => rw [represents.find_none found]; rfl
  | some position =>
      obtain ⟨entry, reached, live, located⟩ := represents.find_some found
      rw [located]
      simp [reached, live]

/-- Replacing an entry by one with the same key and life keeps the index. -/
theorem index_of_set (represents : Represents hasher state map)
    {position : Nat} {entry new : MapEntry}
    (reached : state.entries[position]? = some entry)
    (key : new.key = entry.key) (life : new.live = entry.live)
    (target : MapKey) (other : Nat) :
    MapIndex.lookup hasher state.index target = some other ↔
      ∃ stored, (state.entries.set position new)[other]? = some stored ∧
        stored.live = true ∧
        (MapKey.fromValue stored.key).same target = true := by
  obtain ⟨inside, same⟩ := List.getElem?_eq_some_iff.mp reached
  rw [represents.index]
  by_cases here : position = other
  · subst here
    simp [inside, key, life, same]
  · rw [List.getElem?_set_ne here]

theorem update (represents : Represents hasher state map) {key : StoredValue}
    {position : Nat} {entry : MapEntry} (value : StoredValue)
    (found : MapIndex.lookup hasher state.index (.fromValue key) =
      some position) (reached : state.entries[position]? = some entry) :
    Represents hasher
      { state with entries := state.entries.set position { entry with value } }
      (map.set StoredValue.sameValueZero key value) := by
  obtain ⟨_, _, _, located⟩ := represents.find_some found
  obtain ⟨inside, same⟩ := List.getElem?_eq_some_iff.mp reached
  have present : map.has StoredValue.sameValueZero key = true := by
    rw [OrderedMap.has, located]
    rfl
  have stamped := @MapEntry.stampedFrom_update 0 _ _ _ reached value
  rw [OrderedMap.set, if_pos present]
  refine ⟨?_, ?_, ?_, ?_, ?_⟩
  · simp only
    rw [stamped, ← represents.entries]
    apply List.map_congr_left
    intro stored member
    have same := represents.same_iff_stamp found member
    rw [Nat.zero_add]
    by_cases here : stored.stamp = position
    · rw [if_pos (same.mpr here), if_pos here]
    · rw [if_neg (mt same.mp here), if_neg here]
  · simp [represents.clock]
  · exact represents.index_of_set reached rfl rfl
  · simp only
    rw [represents.live, List.countP_set inside, same]
    by_cases live : entry.live = true
    · have positive : 0 < state.entries.countP MapEntry.live :=
        List.countP_pos_iff.mpr ⟨entry, List.mem_of_getElem? reached, live⟩
      simp only [live, ↓reduceIte]
      omega
    · simp [live]
  · intro stored member
    obtain ⟨old, oldMember, rfl⟩ := List.mem_map.mp member
    have kept := represents.canonical old oldMember
    split
    · exact kept
    · exact kept

theorem append (represents : Represents hasher state map)
    {key : StoredValue} (value : StoredValue)
    (canonical : ¬ NegativeZero key)
    (missing : MapIndex.lookup hasher state.index (.fromValue key) = none) :
    Represents hasher (state.append hasher key value)
      (map.set StoredValue.sameValueZero key value) := by
  have absent : map.has StoredValue.sameValueZero key = false := by
    rw [OrderedMap.has, represents.find_none missing]
    rfl
  rw [OrderedMap.set, absent]
  refine ⟨?_, ?_, ?_, ?_, ?_⟩
  · simp only [Bool.false_eq_true, ↓reduceIte, MapState.append]
    rw [MapEntry.stampedFrom_append, represents.entries, represents.clock,
      Nat.zero_add]
    rfl
  · simp [represents.clock, MapState.append]
  · intro target position
    simp only [MapState.append]
    rw [MapIndex.lookup_insert]
    by_cases same : (MapKey.fromValue key).same target = true
    · rw [if_pos same]
      constructor
      · rintro ⟨⟩
        exact ⟨⟨key, value, true⟩, by simp, rfl, same⟩
      · rintro ⟨entry, reached, live, agreed⟩
        by_cases old : position < state.entries.length
        · rw [List.getElem?_append_left old] at reached
          have found := (represents.index (.fromValue key) position).mpr
            ⟨entry, reached, live, by
              rw [MapKey.same_comm, MapKey.same_congr same, MapKey.same_comm]
              exact agreed⟩
          rw [missing] at found
          cases found
        · obtain ⟨inside, _⟩ := List.getElem?_eq_some_iff.mp reached
          rw [List.length_append, List.length_singleton] at inside
          rw [Option.some.injEq]
          omega
    · rw [if_neg same, represents.index]
      constructor
      · rintro ⟨entry, reached, parts⟩
        obtain ⟨inside, _⟩ := List.getElem?_eq_some_iff.mp reached
        exact ⟨entry, by rw [List.getElem?_append_left inside]; exact reached,
          parts⟩
      · rintro ⟨entry, reached, live, agreed⟩
        by_cases old : position < state.entries.length
        · rw [List.getElem?_append_left old] at reached
          exact ⟨entry, reached, live, agreed⟩
        · obtain ⟨inside, last⟩ := List.getElem?_eq_some_iff.mp reached
          rw [List.length_append, List.length_singleton] at inside
          have place : position = state.entries.length := by omega
          subst place
          rw [List.getElem_concat_length rfl] at last
          subst last
          exact absurd agreed same
  · simp [MapState.append, represents.live]
  · intro entry member
    simp only [Bool.false_eq_true, ↓reduceIte] at member
    rcases List.mem_append.mp member with old | new
    · exact represents.canonical entry old
    · rw [List.mem_singleton] at new
      subst new
      exact canonical

theorem mapSet (represents : Represents hasher state map)
    (key value : StoredValue) :
    Represents hasher (state.mapSet hasher key value)
      (map.set StoredValue.sameValueZero (canonicalizeMapKey key) value) := by
  have canonical := not_negativeZero_canonicalizeMapKey key
  rw [MapState.mapSet, MapState.trySet]
  split
  · rename_i position found
    obtain ⟨entry, reached, _, _⟩ := represents.find_some found
    rw [reached]
    exact represents.update value found reached
  · rename_i missing
    exact represents.append value canonical missing

/-- A tombstone at the position of a key takes the key out of the index. -/
theorem index_of_tombstone (represents : Represents hasher state map)
    {key : StoredValue} {position : Nat}
    (found : MapIndex.lookup hasher state.index (.fromValue key) =
      some position) (target : MapKey) (other : Nat) :
    (if (MapKey.fromValue key).same target then none
        else MapIndex.lookup hasher state.index target) = some other ↔
      ∃ stored, (state.entries.set position MapEntry.tombstone)[other]? =
          some stored ∧
        stored.live = true ∧
        (MapKey.fromValue stored.key).same target = true := by
  obtain ⟨entry, reached, live, agreed⟩ :=
    (represents.index (.fromValue key) position).mp found
  obtain ⟨inside, _⟩ := List.getElem?_eq_some_iff.mp reached
  by_cases same : (MapKey.fromValue key).same target = true
  · rw [if_pos same]
    constructor
    · intro nothing
      cases nothing
    · rintro ⟨stored, stays, storedLive, storedSame⟩
      by_cases here : position = other
      · subst here
        rw [List.getElem?_set_self inside, Option.some.injEq] at stays
        subst stays
        cases storedLive
      · rw [List.getElem?_set_ne here] at stays
        have second := (represents.index (.fromValue key) other).mpr
          ⟨stored, stays, storedLive, by
            rw [MapKey.same_comm, MapKey.same_congr same, MapKey.same_comm]
            exact storedSame⟩
        rw [found, Option.some.injEq] at second
        exact absurd second here
  · rw [if_neg same, represents.index]
    by_cases here : position = other
    · subst here
      rw [List.getElem?_set_self inside]
      constructor
      · rintro ⟨stored, stays, _, storedSame⟩
        rw [reached, Option.some.injEq] at stays
        subst stays
        rw [MapKey.same_congr agreed] at storedSame
        exact absurd storedSame same
      · rintro ⟨stored, stays, storedLive, _⟩
        rw [Option.some.injEq] at stays
        subst stays
        cases storedLive
    · rw [List.getElem?_set_ne here]

theorem delete (represents : Represents hasher state map)
    (key : StoredValue) :
    Represents hasher (state.delete hasher key).1
        (map.delete StoredValue.sameValueZero key) ∧
      (state.delete hasher key).2 =
        map.has StoredValue.sameValueZero key := by
  rw [MapState.delete, OrderedMap.has]
  cases found : MapIndex.lookup hasher state.index (.fromValue key) with
  | none =>
      have missing := represents.find_none found
      rw [missing]
      refine ⟨?_, rfl⟩
      have kept : map.delete StoredValue.sameValueZero key = map := by
        rw [OrderedMap.delete]
        have all : (map.entries.filter fun entry =>
            !entry.key.sameValueZero key) = map.entries := by
          rw [List.filter_eq_self]
          intro entry member
          have different := List.find?_eq_none.mp missing entry member
          simpa using different
        rw [all]
      rw [kept]
      exact represents
  | some position =>
      obtain ⟨entry, reached, live, located⟩ := represents.find_some found
      obtain ⟨inside, same⟩ := List.getElem?_eq_some_iff.mp reached
      simp only [located, reached]
      refine ⟨⟨?_, ?_, ?_, ?_, ?_⟩, rfl⟩
      · rw [OrderedMap.delete]
        simp only
        rw [MapEntry.stampedFrom_tombstone inside, ← represents.entries]
        apply List.filter_congr
        intro stored member
        have exactly := represents.same_iff_stamp found member
        rw [Nat.zero_add, Bool.eq_iff_iff, Bool.not_eq_true', bne_iff_ne,
          ← Bool.not_eq_true, exactly]
      · simp [OrderedMap.delete, represents.clock]
      · intro target other
        simp only
        rw [MapIndex.lookup_remove]
        exact represents.index_of_tombstone found target other
      · simp only
        rw [represents.live, List.countP_set inside, same, live]
        simp [MapEntry.tombstone]
      · intro stored member
        exact represents.canonical stored (List.mem_filter.mp member).1

theorem clear (represents : Represents hasher state map) :
    Represents hasher state.clear map.clear := by
  have dead : ∀ entry ∈ state.clear.entries, entry.live = false := by
    intro entry member
    obtain ⟨_, _, rfl⟩ := List.mem_map.mp member
    rfl
  refine ⟨?_, ?_, ?_, ?_, ?_⟩
  · exact (MapEntry.stampedFrom_cleared 0 state.entries).symm
  · simp [OrderedMap.clear, MapState.clear, represents.clock]
  · intro key position
    constructor
    · intro found
      cases found
    · rintro ⟨entry, reached, live, _⟩
      rw [dead entry (List.mem_of_getElem? reached)] at live
      cases live
  · symm
    rw [MapState.clear, List.countP_eq_zero]
    intro entry member
    rw [dead entry member]
    simp
  · intro entry member
    simp [OrderedMap.clear] at member

end Represents

namespace MapIterator

theorem scan_eq (entries : List MapEntry) (next : Nat) :
    scan entries next =
      match MapEntry.stampedFrom next entries with
      | [] => (next + entries.length, none)
      | entry :: _ =>
          (entry.stamp + 1, some ⟨entry.key, entry.value, true⟩) := by
  induction entries generalizing next with
  | nil => rfl
  | cons entry entries induction =>
      rw [scan, MapEntry.stampedFrom]
      by_cases live : entry.live = true
      · rw [if_pos live, if_pos live]
        obtain ⟨key, value, _⟩ := entry
        simp only at live
        rw [live]
      · rw [if_neg live, if_neg live, induction, List.length_cons,
          Nat.add_assoc, Nat.add_comm 1]

/-- The entry ahead of a position is the first live one from there on. -/
theorem ahead_eq {hasher : List Nat → Nat} {state : MapState}
    {map : OrderedMap StoredValue StoredValue}
    (represents : Represents hasher state map) {next : Nat}
    (within : next ≤ state.entries.length) :
    map.ahead next =
      (MapEntry.stampedFrom next (state.entries.drop next)).head? := by
  have whole : map.entries =
      MapEntry.stampedFrom 0 (state.entries.take next) ++
        MapEntry.stampedFrom next (state.entries.drop next) := by
    have split := MapEntry.stampedFrom_append 0 (state.entries.take next)
      (state.entries.drop next)
    rw [List.take_append_drop, List.length_take, Nat.min_eq_left within,
      Nat.zero_add] at split
    rw [represents.entries, split]
  have passed : (MapEntry.stampedFrom 0 (state.entries.take next)).find?
      (fun entry => decide (next ≤ entry.stamp)) = none := by
    rw [List.find?_eq_none]
    intro entry member
    have bound := (MapEntry.le_of_mem_stampedFrom member).2
    rw [List.length_take] at bound
    simp
    omega
  rw [OrderedMap.ahead, whole, List.find?_append, passed, Option.none_or]
  cases rest : MapEntry.stampedFrom next (state.entries.drop next) with
  | nil => rfl
  | cons entry entries =>
      have bound := (MapEntry.le_of_mem_stampedFrom
        (show entry ∈ MapEntry.stampedFrom next (state.entries.drop next) by
          rw [rest]
          exact List.mem_cons_self)).1
      rw [List.find?_cons_of_pos (by simpa using bound)]
      rfl

/-- The iterator without the record of what it delivered. -/
def ofCursor (cursor : Cursor MapCursorKind) : MapIterator :=
  ⟨cursor.kind, cursor.next, cursor.finished⟩

theorem advance_eq {hasher : List Nat → Nat} {state : MapState}
    {map : OrderedMap StoredValue StoredValue}
    (represents : Represents hasher state map)
    {cursor : Cursor MapCursorKind} (within : cursor.next ≤ map.clock) :
    (ofCursor cursor).advance state =
      (ofCursor (cursor.advance map).1,
        (cursor.advance map).2.map fun entry =>
          ⟨entry.key, entry.value, true⟩) := by
  have inside : cursor.next ≤ state.entries.length := by
    rw [← represents.clock]
    exact within
  rw [advance, Cursor.advance, ahead_eq represents inside]
  by_cases finished : cursor.finished = true
  · simp [ofCursor, finished]
  · simp only [ofCursor, finished, Bool.false_eq_true, ↓reduceIte, scan_eq]
    cases MapEntry.stampedFrom cursor.next
        (state.entries.drop cursor.next) with
    | nil =>
        simp [represents.clock, Nat.add_sub_cancel' inside]
    | cons entry entries => simp

end MapIterator

namespace MapRuntime

/-- The abstract system beside the runtime. -/
structure Simulates (hasher : List Nat → Nat) (runtime : MapRuntime)
    (system : MapSystem StoredValue StoredValue MapCursorKind) : Prop where
  state : Represents hasher runtime.state system.map
  iterators : runtime.iterators = system.cursors.map MapIterator.ofCursor
  sound : system.Sound

variable {hasher : List Nat → Nat}

theorem step_simulates {runtime : MapRuntime}
    {system : MapSystem StoredValue StoredValue MapCursorKind}
    (simulates : Simulates hasher runtime system)
    (operation : MapOperation StoredValue StoredValue MapCursorKind) :
    Simulates hasher (runtime.step hasher operation).1
        (system.step StoredValue.sameValueZero canonicalizeMapKey
          MapCursorKind.observe operation).1 ∧
      (runtime.step hasher operation).2 =
        (system.step StoredValue.sameValueZero canonicalizeMapKey
          MapCursorKind.observe operation).2 := by
  obtain ⟨state, iterators, sound⟩ := simulates
  have sound' := @MapSystem.step_sound _ _ _ _ StoredValue.sameValueZero
    canonicalizeMapKey MapCursorKind.observe _ sound operation
  cases operation with
  | set key value => exact ⟨⟨state.mapSet key value, iterators, sound'⟩, rfl⟩
  | get key =>
      exact ⟨⟨state, iterators, sound⟩, congrArg _ (state.get key)⟩
  | has key =>
      exact ⟨⟨state, iterators, sound⟩, congrArg _ (state.has key)⟩
  | delete key =>
      obtain ⟨deleted, answer⟩ := state.delete key
      exact ⟨⟨deleted, iterators, sound'⟩, congrArg _ answer⟩
  | clear => exact ⟨⟨state.clear, iterators, sound'⟩, rfl⟩
  | size => exact ⟨⟨state, iterators, sound⟩, congrArg _ state.size⟩
  | start kind =>
      refine ⟨⟨state, ?_, sound'⟩, ?_⟩
      · simp [step, MapSystem.step, iterators, MapIterator.ofCursor]
      · simp [step, MapSystem.step, iterators]
  | next index =>
      cases found : system.cursors[index]? with
      | none =>
          have missing : runtime.iterators[index]? = none := by
            rw [iterators, List.getElem?_map, found, Option.map_none]
          simp only [step, MapSystem.step, found, missing]
          exact ⟨⟨state, iterators, sound⟩, trivial⟩
      | some cursor =>
          have present : runtime.iterators[index]? =
              some (MapIterator.ofCursor cursor) := by
            rw [iterators, List.getElem?_map, found, Option.map_some]
          have within :=
            (sound.cursors cursor (List.mem_of_getElem? found)).within
          have advanced := MapIterator.advance_eq state within
          simp only [MapSystem.step, found] at sound' ⊢
          simp only [step, present, advanced]
          refine ⟨⟨state, ?_, sound'⟩, ?_⟩
          · rw [List.map_set, ← iterators]
          · rw [Option.map_map]
            rfl

theorem run_simulates {runtime : MapRuntime}
    {system : MapSystem StoredValue StoredValue MapCursorKind}
    (simulates : Simulates hasher runtime system)
    (operations :
      List (MapOperation StoredValue StoredValue MapCursorKind)) :
    Simulates hasher (runtime.run hasher operations).1
        (system.run StoredValue.sameValueZero canonicalizeMapKey
          MapCursorKind.observe operations).1 ∧
      (runtime.run hasher operations).2 =
        (system.run StoredValue.sameValueZero canonicalizeMapKey
          MapCursorKind.observe operations).2 := by
  induction operations generalizing runtime system with
  | nil => exact ⟨simulates, rfl⟩
  | cons operation operations induction =>
      obtain ⟨next, output⟩ := step_simulates simulates operation
      obtain ⟨final, outputs⟩ := induction next
      refine ⟨final, ?_⟩
      rw [run, MapSystem.run]
      exact congrArg₂ List.cons output outputs

theorem empty_simulates : Simulates hasher empty MapSystem.empty := by
  refine ⟨⟨rfl, rfl, ?_, rfl, ?_⟩, rfl, MapSystem.empty_sound⟩
  · intro key position
    constructor
    · intro found
      cases found
    · rintro ⟨entry, reached, _⟩
      cases reached
  · intro entry member
    cases member

/-- What the next call of an iterator does, given what it delivered before:
it stays at the end, delivers a present entry for the first time, or reports
the end when nothing present is left. -/
def Delivers (cursor : Cursor MapCursorKind) (state : MapState)
    (map : OrderedMap StoredValue StoredValue) : Prop :=
  let iterator := MapIterator.ofCursor cursor
  (iterator.finished = true ∧ iterator.advance state = (iterator, none)) ∨
    (∃ entry ∈ map.entries, entry.stamp ∉ cursor.seen ∧
      iterator.advance state =
        ({ iterator with next := entry.stamp + 1 },
          some ⟨entry.key, entry.value, true⟩) ∧
      (cursor.advance map).1.seen = entry.stamp :: cursor.seen) ∨
    ((∀ entry ∈ map.entries, entry.stamp ∈ cursor.seen) ∧
      iterator.advance state =
        ({ iterator with next := map.clock, finished := true }, none))

/-- The map data and its iterators beside the association list. -/
structure Observes (hasher : List Nat → Nat) (runtime : MapRuntime)
    (system : MapSystem StoredValue StoredValue MapCursorKind) : Prop where
  entries : runtime.state.liveEntries =
    system.map.entries.map fun entry => (entry.key, entry.value)
  size : runtime.state.live = system.map.size
  canonical : ∀ pair ∈ runtime.state.liveEntries, ¬ NegativeZero pair.1
  index : ∀ key position,
    MapIndex.lookup hasher runtime.state.index key = some position ↔
      ∃ entry, runtime.state.entries[position]? = some entry ∧
        entry.live = true ∧ (MapKey.fromValue entry.key).same key = true
  iterators : runtime.iterators = system.cursors.map MapIterator.ofCursor
  sound : ∀ cursor ∈ system.cursors, cursor.Sound system.map
  delivers : ∀ cursor ∈ system.cursors,
    Delivers cursor runtime.state system.map
  done : ∀ position iterator,
    runtime.iterators[position]? = some iterator →
      iterator.finished = true → ∀ operations,
        ((runtime.run hasher operations).1.step hasher
          (.next position)).2 = .item none

theorem Simulates.delivers {runtime : MapRuntime}
    {system : MapSystem StoredValue StoredValue MapCursorKind}
    (simulates : Simulates hasher runtime system)
    {cursor : Cursor MapCursorKind} (member : cursor ∈ system.cursors) :
    Delivers cursor runtime.state system.map := by
  have sound := simulates.sound.cursors cursor member
  have advanced := MapIterator.advance_eq simulates.state sound.within
  rw [Delivers]
  simp only [advanced]
  rcases Cursor.advance_cases simulates.sound.ordered sound with
    ⟨finished, stays⟩ | ⟨entry, present, unseen, _, moves, _⟩ |
      ⟨everything, ends, _⟩
  · left
    rw [stays]
    exact ⟨finished, rfl⟩
  · right
    left
    rw [moves]
    exact ⟨entry, present, unseen, rfl, rfl⟩
  · right
    right
    rw [ends]
    exact ⟨everything, rfl⟩

theorem Simulates.done {runtime : MapRuntime}
    {system : MapSystem StoredValue StoredValue MapCursorKind}
    (simulates : Simulates hasher runtime system) {position : Nat}
    {iterator : MapIterator}
    (found : runtime.iterators[position]? = some iterator)
    (finished : iterator.finished = true)
    (operations :
      List (MapOperation StoredValue StoredValue MapCursorKind)) :
    ((runtime.run hasher operations).1.step hasher (.next position)).2 =
      .item none := by
  rw [simulates.iterators, List.getElem?_map, Option.map_eq_some_iff] at found
  obtain ⟨cursor, reached, rfl⟩ := found
  have stays := @MapSystem.run_finished _ _ _ _ StoredValue.sameValueZero
    canonicalizeMapKey MapCursorKind.observe _ _ _ reached finished operations
  have later := (run_simulates simulates operations).1
  rw [(step_simulates later (.next position)).2, MapSystem.step, stays]
  simp only [MapIterator.ofCursor] at finished
  simp [Cursor.advance, finished]

theorem Simulates.observes {runtime : MapRuntime}
    {system : MapSystem StoredValue StoredValue MapCursorKind}
    (simulates : Simulates hasher runtime system) :
    Observes hasher runtime system := by
  have entries : runtime.state.liveEntries =
      system.map.entries.map fun entry => (entry.key, entry.value) := by
    rw [simulates.state.entries, MapEntry.map_stampedFrom]
    rfl
  refine ⟨entries, simulates.state.size, ?_, simulates.state.index,
    simulates.iterators, simulates.sound.cursors, ?_, ?_⟩
  · intro pair member
    rw [entries] at member
    obtain ⟨entry, present, rfl⟩ := List.mem_map.mp member
    exact simulates.state.canonical entry present
  · intro cursor member
    exact simulates.delivers member
  · intro position iterator found finished operations
    exact simulates.done found finished operations

/-- Map data with live iterators behaves as an association list keyed by
SameValueZero, whatever the hash function. -/
theorem run_observes (hasher : List Nat → Nat)
    (operations :
      List (MapOperation StoredValue StoredValue MapCursorKind)) :
    let actual := empty.run hasher operations
    let expected := MapSystem.empty.run StoredValue.sameValueZero
      canonicalizeMapKey MapCursorKind.observe operations
    actual.2 = expected.2 ∧ Observes hasher actual.1 expected.1 := by
  obtain ⟨simulates, outputs⟩ :=
    @run_simulates hasher _ _ empty_simulates operations
  exact ⟨outputs, simulates.observes⟩

end MapRuntime

end Fusor.Runtime
