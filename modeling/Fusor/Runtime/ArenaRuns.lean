import Fusor.Runtime.Arena

/-!
# Runs of an arena

Every operation keeps the free list and the counters, never faults, and
changes what is stored as its outcome says.  Without restoring, the
generation of a slot only grows, so a removed identity stays dead.
-/

namespace Fusor.Runtime

open Support

variable {T : Type}

namespace Arena

section Slots

variable {slots : List (Slot T)} {index : Nat} {old : Slot T}

theorem countP_replace (count : Slot T → Bool)
    (found : slots[index]? = some old) (new : Slot T) :
    (slots.set index new).countP count + (if count old then 1 else 0) =
      slots.countP count + (if count new then 1 else 0) := by
  obtain ⟨inside, rfl⟩ := List.getElem?_eq_some_iff.mp found
  rw [List.countP_set inside]
  by_cases counted : count slots[index]
  · have positive : 0 < slots.countP count :=
      List.countP_pos_iff.mpr ⟨_, List.getElem_mem inside, counted⟩
    simp only [counted, ↓reduceIte]
    omega
  · simp [counted]

theorem links_set (found : slots[index]? = some old) (new : Slot T) :
    links (slots.set index new) =
      Function.update (links slots) index new.link := by
  obtain ⟨inside, _⟩ := List.getElem?_eq_some_iff.mp found
  funext other
  by_cases same : other = index
  · subst same
    simp [links, inside]
  · rw [Function.update_of_ne same, links, List.getElem?_set_ne (Ne.symm same),
      links]

theorem links_append (slots : List (Slot T)) (new : Slot T) :
    links (slots ++ [new]) =
      Function.update (links slots) slots.length new.link := by
  funext other
  by_cases same : other = slots.length
  · subst same
    simp [links]
  · rw [Function.update_of_ne same, links, links]
    by_cases inside : other < slots.length
    · rw [List.getElem?_append_left inside]
    · rw [List.getElem?_eq_none (by simp; omega),
        List.getElem?_eq_none (by omega)]

theorem links_of_ge {other : Nat} (outside : slots.length ≤ other) :
    links slots other = none := by
  rw [links, List.getElem?_eq_none outside]
  rfl

theorem links_of_found (found : slots[index]? = some old) :
    links slots index = old.link := by
  rw [links, found]
  rfl

theorem links_eq_some {next : Option Nat}
    (carried : links slots index = some next) :
    ∃ generation, slots[index]? = some ⟨generation, .vacant next⟩ := by
  rw [links, Option.bind_eq_some_iff] at carried
  obtain ⟨⟨generation, state⟩, found, linked⟩ := carried
  cases state with
  | occupied value => simp [Slot.link] at linked
  | retired => simp [Slot.link] at linked
  | vacant other =>
      simp only [Slot.link, Option.some.injEq] at linked
      exact ⟨generation, by rw [found, linked]⟩

theorem freeList_length {head : Option Nat} {path : List Nat}
    (list : FreeList (links slots) head path) :
    path.length ≤ slots.length := by
  have inside : path ⊆ List.range slots.length := by
    intro node member
    rw [list.complete] at member
    by_contra outside
    rw [List.mem_range, Nat.not_lt] at outside
    rw [links_of_ge outside] at member
    cases member
  have bound := (list.nodup.subperm inside).length_le
  rwa [List.length_range] at bound

end Slots

theorem decrement_of_pos {count : Nat} (positive : 0 < count) :
    decrement count = .ok (count - 1) := by
  cases count with
  | zero => omega
  | succ count => rfl

section Reading

variable {arena next : Arena T} {index : Nat} {old new : Slot T}

theorem get_of_set (runtime : next.runtime = arena.runtime)
    (slots : next.slots = arena.slots.set index new)
    (found : arena.slots[index]? = some old) (id : ArenaId) :
    next.get id =
      if id.runtime = arena.runtime ∧ id.index = index then
        new.read id.generation
      else arena.get id := by
  obtain ⟨inside, _⟩ := List.getElem?_eq_some_iff.mp found
  rw [get, get, runtime, slots]
  by_cases foreign : id.runtime ≠ arena.runtime
  · simp [foreign]
  · by_cases same : id.index = index
    · simp [foreign, same, inside]
    · simp [foreign, same, List.getElem?_set_ne (Ne.symm same)]

theorem get_of_append (runtime : next.runtime = arena.runtime)
    (slots : next.slots = arena.slots ++ [new]) (id : ArenaId) :
    next.get id =
      if id.runtime = arena.runtime ∧ id.index = arena.slots.length then
        new.read id.generation
      else arena.get id := by
  rw [get, get, runtime, slots]
  by_cases foreign : id.runtime ≠ arena.runtime
  · simp [foreign]
  · by_cases same : id.index = arena.slots.length
    · simp [foreign, same]
    · by_cases inside : id.index < arena.slots.length
      · simp [foreign, same, List.getElem?_append_left inside]
      · have outside : (arena.slots ++ [new])[id.index]? = none := by
          rw [List.getElem?_eq_none_iff, List.length_append,
            List.length_singleton]
          omega
        have before : arena.slots[id.index]? = none := by
          rw [List.getElem?_eq_none_iff]
          omega
        simp [foreign, same, outside, before]

theorem get_of_found (found : arena.slots[index]? = some old)
    (generation : Nat) :
    arena.get ⟨arena.runtime, index, generation⟩ = old.read generation := by
  simp [get, found]

end Reading

/-- The next state, and what is stored in it. -/
structure Stepped (arena next : Arena T) (memory : ArenaId → Option T) :
    Prop where
  valid : Valid next
  runtime : next.runtime = arena.runtime
  stored : ∀ id, next.get id = memory id

/-- The slot has moved past the generation of the identity. -/
def Spent (arena : Arena T) (id : ArenaId) : Prop :=
  ∃ slot, arena.slots[id.index]? = some slot ∧
    (id.generation < slot.generation ∨ slot.state = .retired)

theorem Spent.contains_eq_false {arena : Arena T} {id : ArenaId}
    (spent : arena.Spent id) : arena.contains id = false := by
  obtain ⟨slot, found, passed⟩ := spent
  have unread : slot.read id.generation = none := by
    rcases passed with later | retired
    · rw [Slot.read, if_pos (by omega)]
    · rw [Slot.read, retired]
      simp
  rw [contains, get, found, Option.bind_some, unread]
  simp

theorem Spent.of_set {arena next : Arena T} {index : Nat} {old new : Slot T}
    {id : ArenaId} (spent : arena.Spent id)
    (slots : next.slots = arena.slots.set index new)
    (found : arena.slots[index]? = some old)
    (grown : old.generation ≤ new.generation)
    (usable : old.state ≠ .retired) : next.Spent id := by
  obtain ⟨slot, reached, passed⟩ := spent
  obtain ⟨inside, _⟩ := List.getElem?_eq_some_iff.mp found
  by_cases same : id.index = index
  · rw [same, found, Option.some.injEq] at reached
    subst reached
    refine ⟨new, by rw [slots, same]; simp [inside], ?_⟩
    rcases passed with later | retired
    · exact .inl (by omega)
    · exact absurd retired usable
  · refine ⟨slot, ?_, passed⟩
    rw [slots, List.getElem?_set_ne (Ne.symm same)]
    exact reached

theorem Spent.of_append {arena next : Arena T} {new : List (Slot T)}
    {id : ArenaId} (spent : arena.Spent id)
    (slots : next.slots = arena.slots ++ new) : next.Spent id := by
  obtain ⟨slot, reached, passed⟩ := spent
  obtain ⟨inside, _⟩ := List.getElem?_eq_some_iff.mp reached
  exact ⟨slot, by rw [slots, List.getElem?_append_left inside]; exact reached,
    passed⟩

theorem read_occupied (generation other : Nat) (value : T) :
    (⟨generation, .occupied value⟩ : Slot T).read other =
      if other = generation then some value else none := by
  by_cases same : other = generation
  · simp [Slot.read, same]
  · simp [Slot.read, same, Ne.symm same]

theorem read_vacant (generation other : Nat) (next : Option Nat) :
    (⟨generation, .vacant next⟩ : Slot T).read other = none := by
  simp [Slot.read]

theorem read_retired (generation other : Nat) :
    (⟨generation, .retired⟩ : Slot T).read other = none := by
  simp [Slot.read]

/-- Filling a slot in which nothing else could be read stores one value. -/
theorem stored_update {arena next : Arena T} {index generation : Nat}
    {value : T}
    (unread : ∀ other, other ≠ generation →
      arena.get ⟨arena.runtime, index, other⟩ = none)
    (read : ∀ id, next.get id =
      if id.runtime = arena.runtime ∧ id.index = index then
        (⟨generation, .occupied value⟩ : Slot T).read id.generation
      else arena.get id) (id : ArenaId) :
    next.get id = Function.update arena.get
      ⟨arena.runtime, index, generation⟩ (some value) id := by
  rw [read]
  by_cases here : id.runtime = arena.runtime ∧ id.index = index
  · obtain ⟨runtime, position, other⟩ := id
    obtain ⟨rfl, rfl⟩ := here
    rw [if_pos ⟨rfl, rfl⟩, read_occupied]
    by_cases same : other = generation
    · subst same
      rw [if_pos rfl, Function.update_self]
    · rw [if_neg same, Function.update_of_ne (by simp [same]),
        unread other same]
  · rw [if_neg here, Function.update_of_ne]
    rintro rfl
    exact here ⟨rfl, rfl⟩

/-- Replacing a slot keeps the counters when they follow. -/
theorem Counted.of_set {arena next : Arena T} (counted : arena.Counted)
    {index : Nat} {old new : Slot T} (found : arena.slots[index]? = some old)
    (slots : next.slots = arena.slots.set index new)
    (free : next.freeLen + (if old.isVacant then 1 else 0) =
      arena.freeLen + (if new.isVacant then 1 else 0))
    (live : next.liveLen + (if old.isOccupied then 1 else 0) =
      arena.liveLen + (if new.isOccupied then 1 else 0))
    (retired : next.retiredLen + (if old.isRetired then 1 else 0) =
      arena.retiredLen + (if new.isRetired then 1 else 0)) :
    next.Counted := by
  have vacant := countP_replace Slot.isVacant found new
  have occupied := countP_replace Slot.isOccupied found new
  have used := countP_replace Slot.isRetired found new
  rw [← slots] at vacant occupied used
  rw [← counted.freeCount] at vacant
  rw [← counted.liveCount] at occupied
  rw [← counted.retiredCount] at used
  exact ⟨by omega, by omega, by omega⟩

/-- Replacing a slot keeps the invariant when the free list follows too. -/
theorem Valid.of_set {arena next : Arena T} {index : Nat} {old new : Slot T}
    (found : arena.slots[index]? = some old)
    (slots : next.slots = arena.slots.set index new)
    (list : ∃ path, FreeList
      (Function.update (links arena.slots) index new.link) next.freeHead path)
    (counted : next.Counted) : next.Valid := by
  refine ⟨counted, ?_⟩
  rw [slots, links_set found]
  exact list

theorem Valid.freeList_of_none {arena : Arena T} (valid : arena.Valid)
    {index : Nat} (unlinked : links arena.slots index = none) :
    ∃ path, FreeList (Function.update (links arena.slots) index none)
      arena.freeHead path := by
  obtain ⟨path, list⟩ := valid.freeList
  rw [← unlinked, Function.update_eq_self]
  exact ⟨path, list⟩

theorem Valid.freeLen_pos {arena : Arena T} (valid : arena.Valid)
    {index generation : Nat} {next : Option Nat}
    (found : arena.slots[index]? = some ⟨generation, .vacant next⟩) :
    0 < arena.freeLen := by
  rw [valid.freeCount, List.countP_pos_iff]
  exact ⟨_, List.mem_of_getElem? found, rfl⟩

theorem Valid.liveLen_pos {arena : Arena T} (valid : arena.Valid)
    {index generation : Nat} {value : T}
    (found : arena.slots[index]? = some ⟨generation, .occupied value⟩) :
    0 < arena.liveLen := by
  rw [valid.liveCount, List.countP_pos_iff]
  exact ⟨_, List.mem_of_getElem? found, rfl⟩

/-- Appending an occupied slot. -/
theorem Valid.append {arena : Arena T} (valid : arena.Valid) (value : T) :
    Valid { arena with
      slots := arena.slots ++ [⟨0, .occupied value⟩]
      liveLen := arena.liveLen + 1 } := by
  refine ⟨⟨?_, ?_, ?_⟩, ?_⟩
  · simp [valid.freeCount, Slot.isVacant]
  · simp [valid.liveCount, Slot.isOccupied]
  · simp [valid.retiredCount, Slot.isRetired]
  · rw [links_append]
    exact valid.freeList_of_none (links_of_ge (Nat.le_refl _))

theorem get_of_length (arena : Arena T) (generation : Nat) :
    arena.get ⟨arena.runtime, arena.slots.length, generation⟩ = none := by
  simp [get]

theorem tryInsert_spec {arena : Arena T} (valid : arena.Valid) (value : T)
    (granted : Bool) :
    ∃ next id, arena.tryInsert value granted = .ok (next, id) ∧
      Stepped arena next
        (remember arena.get (.tryInsert value granted) (.inserted id)) ∧
      ∀ other, arena.Spent other → next.Spent other := by
  unfold tryInsert
  cases head : arena.freeHead with
  | some index =>
      obtain ⟨path, list⟩ := valid.freeList
      rw [head] at list
      obtain ⟨following, rest, carried, _, shorter⟩ := list.pop
      obtain ⟨generation, found⟩ := links_eq_some carried
      have positive := valid.freeLen_pos found
      simp only [found, decrement_of_pos positive]
      refine ⟨_, _, rfl, ⟨?_, rfl, ?_⟩, ?_⟩
      · refine Valid.of_set found rfl ⟨rest, shorter⟩
          (valid.toCounted.of_set found rfl ?_ ?_ ?_)
        · simp [Slot.isVacant]
          omega
        · simp [Slot.isOccupied]
        · simp [Slot.isRetired]
      · apply stored_update
        · intro other _
          rw [get_of_found found, read_vacant]
        · exact get_of_set rfl rfl found
      · intro other spent
        exact spent.of_set rfl found (Nat.le_refl _) (by simp)
  | none =>
      cases granted with
      | false =>
          exact ⟨arena, none, rfl, ⟨valid, rfl, fun _ => rfl⟩,
            fun _ spent => spent⟩
      | true =>
          refine ⟨_, _, rfl, ⟨?_, rfl, ?_⟩, ?_⟩
          · simpa [head] using valid.append value
          · apply stored_update
            · intro other _
              exact arena.get_of_length other
            · exact get_of_append rfl rfl
          · intro other spent
            exact spent.of_append rfl

theorem read_eq_some {slot : Slot T} {generation : Nat} {value : T}
    (read : slot.read generation = some value) :
    slot = ⟨generation, .occupied value⟩ := by
  obtain ⟨own, state⟩ := slot
  cases state with
  | vacant next => simp [read_vacant] at read
  | retired => simp [read_retired] at read
  | occupied stored =>
      rw [read_occupied] at read
      split at read
      · rename_i same
        rw [Option.some.injEq] at read
        rw [same, read]
      · cases read

/-- A slot in which nothing can be read takes the place of a value. -/
theorem stored_removed {arena next : Arena T} {index : Nat} {new : Slot T}
    {generation : Nat} {value : T}
    (found : arena.slots[index]? = some ⟨generation, .occupied value⟩)
    (unread : ∀ generation, new.read generation = none)
    (read : ∀ id, next.get id =
      if id.runtime = arena.runtime ∧ id.index = index then
        new.read id.generation
      else arena.get id) (id : ArenaId) :
    next.get id = Function.update arena.get
      ⟨arena.runtime, index, generation⟩ none id := by
  rw [read]
  by_cases here : id.runtime = arena.runtime ∧ id.index = index
  · obtain ⟨runtime, position, other⟩ := id
    obtain ⟨rfl, rfl⟩ := here
    rw [if_pos ⟨rfl, rfl⟩, unread]
    by_cases same : other = generation
    · subst same
      rw [Function.update_self]
    · rw [Function.update_of_ne (by simp [same]), get_of_found found,
        read_occupied, if_neg same]
  · rw [if_neg here, Function.update_of_ne]
    rintro rfl
    exact here ⟨rfl, rfl⟩

theorem remove_spec {arena : Arena T} (valid : arena.Valid) (id : ArenaId) :
    ∃ next value, arena.remove id = .ok (next, value) ∧
      Stepped arena next
        (remember arena.get (.remove id) (.accessed value)) ∧
      (∀ other, arena.Spent other → next.Spent other) ∧
      (value.isSome → next.Spent id) := by
  have unchanged : Stepped arena arena arena.get := ⟨valid, rfl, fun _ => rfl⟩
  unfold remove
  by_cases foreign : id.runtime ≠ arena.runtime
  · rw [if_pos foreign]
    exact ⟨arena, none, rfl, unchanged, fun _ spent => spent, by simp⟩
  rw [if_neg foreign]
  cases found : arena.slots[id.index]? with
  | none => exact ⟨arena, none, rfl, unchanged, fun _ spent => spent, by simp⟩
  | some slot =>
      cases taken : slot.read id.generation with
      | none =>
          simp only [taken]
          exact ⟨arena, none, rfl, unchanged, fun _ spent => spent, by simp⟩
      | some value =>
          have held := read_eq_some taken
          subst held
          obtain ⟨runtime, index, generation⟩ := id
          rw [not_not] at foreign
          subst foreign
          simp only at found
          obtain ⟨inside, _⟩ := List.getElem?_eq_some_iff.mp found
          have positive := valid.liveLen_pos found
          have unlinked := links_of_found found
          simp only [taken, decrement_of_pos positive]
          by_cases room : generation + 1 ≤ maxGeneration
          · obtain ⟨path, list⟩ := valid.freeList
            simp only [bind, Except.bind, room, ↓reduceIte]
            refine ⟨_, _, rfl, ⟨?_, rfl, ?_⟩, ?_, ?_⟩
            · refine Valid.of_set found rfl
                ⟨index :: path, list.push unlinked⟩
                (valid.toCounted.of_set found rfl ?_ ?_ ?_)
              · simp [Slot.isVacant]
              · simp [Slot.isOccupied]
                omega
              · simp [Slot.isRetired]
            · exact stored_removed found (fun _ => read_vacant _ _ _)
                (get_of_set rfl rfl found)
            · intro other spent
              exact spent.of_set rfl found (Nat.le_succ _) (by simp)
            · intro _
              exact ⟨⟨generation + 1, .vacant arena.freeHead⟩,
                by simp [inside], .inl (Nat.lt_succ_self generation)⟩
          · simp only [bind, Except.bind, room, ↓reduceIte]
            refine ⟨_, _, rfl, ⟨?_, rfl, ?_⟩, ?_, ?_⟩
            · refine Valid.of_set found rfl
                (valid.freeList_of_none unlinked)
                (valid.toCounted.of_set found rfl ?_ ?_ ?_)
              · simp [Slot.isVacant]
              · simp [Slot.isOccupied]
                omega
              · simp [Slot.isRetired]
            · exact stored_removed found (fun _ => read_retired _ _)
                (get_of_set rfl rfl found)
            · intro other spent
              exact spent.of_set rfl found (Nat.le_refl _) (by simp)
            · intro _
              exact ⟨⟨generation, .retired⟩, by simp [inside], .inr rfl⟩

theorem getMut_spec {arena : Arena T} (valid : arena.Valid) (id : ArenaId)
    (write : T → T) :
    ∃ next value, arena.getMut id write = (next, value) ∧
      Stepped arena next
        (remember arena.get (.getMut id write) (.accessed value)) ∧
      ∀ other, arena.Spent other → next.Spent other := by
  have unchanged : Stepped arena arena arena.get := ⟨valid, rfl, fun _ => rfl⟩
  unfold getMut
  by_cases foreign : id.runtime ≠ arena.runtime
  · rw [if_pos foreign]
    exact ⟨arena, none, rfl, unchanged, fun _ spent => spent⟩
  rw [if_neg foreign]
  cases found : arena.slots[id.index]? with
  | none => exact ⟨arena, none, rfl, unchanged, fun _ spent => spent⟩
  | some slot =>
      cases taken : slot.read id.generation with
      | none =>
          simp only [taken]
          exact ⟨arena, none, rfl, unchanged, fun _ spent => spent⟩
      | some value =>
          have held := read_eq_some taken
          subst held
          obtain ⟨runtime, index, generation⟩ := id
          rw [not_not] at foreign
          subst foreign
          simp only at found
          simp only [taken]
          refine ⟨_, _, rfl, ⟨?_, rfl, ?_⟩, ?_⟩
          · refine Valid.of_set found rfl
              (valid.freeList_of_none (links_of_found found))
              (valid.toCounted.of_set found rfl ?_ ?_ ?_)
            · simp [Slot.isVacant]
            · simp [Slot.isOccupied]
            · simp [Slot.isRetired]
          · apply stored_update
            · intro other different
              rw [get_of_found found, read_occupied, if_neg different]
            · exact get_of_set rfl rfl found
          · intro other spent
            exact spent.of_set rfl found (Nat.le_refl _) (by simp)

theorem addHole_valid {arena : Arena T} (valid : arena.Valid) :
    arena.addHole.Valid := by
  obtain ⟨path, list⟩ := valid.freeList
  refine ⟨⟨?_, ?_, ?_⟩, arena.slots.length :: path, ?_⟩
  · simp [addHole, valid.freeCount, Slot.isVacant]
  · simp [addHole, valid.liveCount, Slot.isOccupied]
  · simp [addHole, valid.retiredCount, Slot.isRetired]
  · rw [addHole, links_append]
    exact list.push (links_of_ge (Nat.le_refl arena.slots.length))

theorem get_addHole (arena : Arena T) (id : ArenaId) :
    arena.addHole.get id = arena.get id := by
  rw [@get_of_append _ arena arena.addHole ⟨0, .vacant arena.freeHead⟩ rfl
    rfl id, read_vacant]
  split
  · rename_i here
    obtain ⟨runtime, index, generation⟩ := id
    obtain ⟨rfl, rfl⟩ := here
    exact (arena.get_of_length generation).symm
  · rfl

theorem pad_spec {arena : Arena T} (valid : arena.Valid) (count : Nat) :
    (pad count arena).Valid ∧
      (pad count arena).runtime = arena.runtime ∧
      (pad count arena).slots.length = arena.slots.length + count ∧
      (pad count arena).get = arena.get := by
  induction count generalizing arena with
  | zero => exact ⟨valid, rfl, rfl, rfl⟩
  | succ count induction =>
      obtain ⟨padded, runtime, length, stored⟩ :=
        induction (addHole_valid valid)
      refine ⟨padded, runtime, ?_, ?_⟩
      · rw [pad, length, addHole, List.length_append, List.length_singleton]
        omega
      · rw [pad, stored]
        exact funext arena.get_addHole

/-- Filling a vacant slot that is off the free list. -/
theorem occupy_spec {arena : Arena T} {index generation : Nat}
    {following : Option Nat} (counted : arena.Counted)
    (found : arena.slots[index]? = some ⟨generation, .vacant following⟩)
    (positive : 0 < arena.freeLen)
    (list : ∃ path, FreeList (Function.update (links arena.slots) index none)
      arena.freeHead path) (value : T) :
    ∃ next, arena.occupy index value =
        .ok (next, some ⟨arena.runtime, index, 0⟩) ∧
      Stepped arena next (Function.update arena.get
        ⟨arena.runtime, index, 0⟩ (some value)) := by
  unfold occupy
  rw [decrement_of_pos positive]
  refine ⟨_, rfl, ⟨?_, rfl, ?_⟩⟩
  · refine Valid.of_set found rfl list (counted.of_set found rfl ?_ ?_ ?_)
    · simp [Slot.isVacant]
      omega
    · simp [Slot.isOccupied]
    · simp [Slot.isRetired]
  · apply stored_update
    · intro other _
      rw [get_of_found found, read_vacant]
    · exact get_of_set rfl rfl found

/-- Redirecting a vacant slot changes nothing that can be read. -/
theorem get_redirect {arena : Arena T} {index generation : Nat}
    {old next : Option Nat}
    (found : arena.slots[index]? = some ⟨generation, .vacant old⟩) :
    (arena.setSlot index ⟨generation, .vacant next⟩).get = arena.get := by
  funext id
  rw [@get_of_set _ arena (arena.setSlot index ⟨generation, .vacant next⟩)
    index _ _ rfl rfl found id, read_vacant]
  split
  · rename_i here
    obtain ⟨runtime, position, other⟩ := id
    obtain ⟨rfl, rfl⟩ := here
    rw [get_of_found found, read_vacant]
  · rfl

theorem restoreInsert_spec {arena : Arena T} (valid : arena.Valid)
    (index : Nat) (value : T) (granted : Bool) :
    ∃ next id, arena.restoreInsert index value granted = .ok (next, id) ∧
      Stepped arena next
        (remember arena.get (.restoreInsert index value granted)
          (.inserted id)) ∧
      (id = none → next = arena) := by
  have unchanged : Stepped arena arena arena.get := ⟨valid, rfl, fun _ => rfl⟩
  unfold restoreInsert
  by_cases beyond : index ≥ arena.slots.length
  · rw [if_pos beyond]
    cases granted with
    | false => exact ⟨arena, none, rfl, unchanged, fun _ => rfl⟩
    | true =>
        obtain ⟨padded, runtime, length, stored⟩ :=
          pad_spec valid (index - arena.slots.length)
        rw [Nat.add_sub_cancel' beyond] at length
        generalize pad (index - arena.slots.length) arena = grown at *
        subst length
        refine ⟨_, _, rfl, ⟨padded.append value, runtime, ?_⟩, by simp⟩
        rw [remember, ← stored]
        apply stored_update
        · intro other _
          exact get_of_length _ other
        · exact get_of_append rfl rfl
  · rw [if_neg beyond]
    cases carried : links arena.slots index with
    | none => exact ⟨arena, none, rfl, unchanged, fun _ => rfl⟩
    | some following =>
        obtain ⟨generation, found⟩ := links_eq_some carried
        obtain ⟨path, list⟩ := valid.freeList
        have member : index ∈ path := by
          rw [list.complete, carried]
          rfl
        have positive := valid.freeLen_pos found
        have enough : path.length < arena.slots.length + 1 :=
          Nat.lt_succ_of_le (freeList_length list)
        rcases list.locate_of_mem member enough none with
          ⟨first, located⟩ | ⟨before, last, after, split, located⟩
        · rw [first] at list
          obtain ⟨after, rest, link, _, shorter⟩ := list.pop
          rw [carried, Option.some.injEq] at link
          subst link
          obtain ⟨next, occupied, stepped⟩ := @occupy_spec _
            { arena with freeHead := following } _ _ _
            ⟨valid.freeCount, valid.liveCount, valid.retiredCount⟩ found
            positive ⟨rest, shorter⟩ value
          refine ⟨next, some ⟨arena.runtime, index, 0⟩, ?_,
            ⟨stepped.valid, stepped.runtime, stepped.stored⟩, by simp⟩
          simp only [located]
          exact occupied
        · subst split
          have lastFree : (links arena.slots last).isSome := by
            rw [← list.complete]
            simp
          obtain ⟨lastNext, lastCarried⟩ := Option.isSome_iff_exists.mp lastFree
          obtain ⟨lastGeneration, lastFound⟩ := links_eq_some lastCarried
          have different : last ≠ index := by
            rintro rfl
            have nodup := list.nodup
            simp [List.nodup_append] at nodup
          have shorter := list.unlink carried
          rw [show some following =
            (⟨lastGeneration, .vacant following⟩ : Slot T).link from rfl,
            ← links_set lastFound] at shorter
          obtain ⟨next, occupied, stepped⟩ := @occupy_spec _
            (arena.setSlot last ⟨lastGeneration, .vacant following⟩) _ _ _
            (valid.toCounted.of_set lastFound rfl rfl rfl rfl)
            ((List.getElem?_set_ne different).trans found) positive
            ⟨_, shorter⟩ value
          rw [get_redirect lastFound] at stepped
          refine ⟨next, some ⟨arena.runtime, index, 0⟩, ?_,
            ⟨stepped.valid, stepped.runtime, stepped.stored⟩, by simp⟩
          simp only [located, skip, lastFound]
          exact occupied

theorem step_spec {arena : Arena T} (valid : arena.Valid)
    (operation : Operation T) :
    ∃ next outcome, arena.step operation = .ok (next, outcome) ∧
      Stepped arena next (remember arena.get operation outcome) ∧
      (operation.isRestore = false →
        ∀ other, arena.Spent other → next.Spent other) := by
  cases operation with
  | tryInsert value granted =>
      obtain ⟨next, id, inserted, stepped, kept⟩ :=
        tryInsert_spec valid value granted
      exact ⟨next, .inserted id, by simp only [step, inserted]; rfl, stepped,
        fun _ => kept⟩
  | remove id =>
      obtain ⟨next, value, removed, stepped, kept, _⟩ := remove_spec valid id
      exact ⟨next, .accessed value, by simp only [step, removed]; rfl, stepped,
        fun _ => kept⟩
  | getMut id write =>
      obtain ⟨next, value, accessed, stepped, kept⟩ :=
        getMut_spec valid id write
      exact ⟨next, .accessed value, by simp only [step, accessed], stepped,
        fun _ => kept⟩
  | restoreInsert index value granted =>
      obtain ⟨next, id, restored, stepped, _⟩ :=
        restoreInsert_spec valid index value granted
      exact ⟨next, .inserted id, by simp only [step, restored]; rfl, stepped,
        fun plain => by cases plain⟩

theorem run_spec {arena : Arena T} (valid : arena.Valid)
    (operations : List (Operation T)) :
    ∃ final outcomes, run arena operations = .ok (final, outcomes) ∧
      Stepped arena final (remembered arena.get operations outcomes) ∧
      ((∀ operation ∈ operations, operation.isRestore = false) →
        ∀ other, arena.Spent other → final.Spent other) := by
  induction operations generalizing arena with
  | nil =>
      exact ⟨arena, [], rfl, ⟨valid, rfl, fun _ => rfl⟩,
        fun _ _ spent => spent⟩
  | cons operation operations induction =>
      obtain ⟨next, outcome, stepping, stepped, kept⟩ :=
        step_spec valid operation
      obtain ⟨final, outcomes, running, ran, keptLater⟩ :=
        induction stepped.valid
      have memory : next.get = remember arena.get operation outcome :=
        funext stepped.stored
      refine ⟨final, outcome :: outcomes, ?_, ⟨ran.valid,
        ran.runtime.trans stepped.runtime, ?_⟩, ?_⟩
      · simp only [run, stepping, bind, Except.bind, running]
      · rw [remembered, ← memory]
        exact ran.stored
      · intro plain other spent
        apply keptLater
        · intro later member
          exact plain later (List.mem_cons_of_mem _ member)
        · exact kept (plain operation (by simp)) other spent

theorem new_valid (runtime : Nat) : (new runtime : Arena T).Valid :=
  ⟨⟨rfl, rfl, rfl⟩, [], rfl, List.nodup_nil, fun node => by simp [links, new]⟩

/-- Every run of a fresh arena completes without a fault.  The free list and
the counters are exact after it, what can be read is what was stored last, a
refused restoration changes nothing, and an identity removed next stays dead
for as long as nothing is restored. -/
theorem run_new (runtime : Nat) (operations : List (Operation T)) :
    ∃ arena outcomes,
      run (new runtime) operations = .ok (arena, outcomes) ∧
      arena.Valid ∧
      (∀ id, arena.get id =
        remembered (fun _ => none) operations outcomes id) ∧
      (∀ index value granted, ∃ next id,
        arena.restoreInsert index value granted = .ok (next, id) ∧
          (id = none → next = arena)) ∧
      ∀ id value next later, arena.remove id = .ok (next, some value) →
        (∀ operation ∈ later, operation.isRestore = false) →
        ∃ final outcomes, run next later = .ok (final, outcomes) ∧
          final.contains id = false := by
  obtain ⟨arena, outcomes, running, ran, _⟩ :=
    run_spec (@new_valid T runtime) operations
  have empty : (new runtime : Arena T).get = fun _ => none := by
    funext id
    simp [get, new]
  refine ⟨arena, outcomes, running, ran.valid, ?_, ?_, ?_⟩
  · rw [← empty]
    exact ran.stored
  · intro index value granted
    obtain ⟨next, id, restored, _, kept⟩ :=
      restoreInsert_spec ran.valid index value granted
    exact ⟨next, id, restored, kept⟩
  · intro id value next later removed plain
    obtain ⟨next', value', removed', stepped, _, dead⟩ :=
      remove_spec ran.valid id
    rw [removed] at removed'
    cases removed'
    obtain ⟨final, outcomes, finishing, _, kept⟩ :=
      run_spec stepped.valid later
    exact ⟨final, outcomes, finishing,
      (kept plain id (dead rfl)).contains_eq_false⟩

end Arena

end Fusor.Runtime
