import Fusor.Runtime.ArenaRuns

/-!
# Iterating over an arena

Iteration yields the identities under which something is stored.  Values are
replaced and removed one after another, and a quantity summed over the
occupied slots changes with each of them.
-/

namespace Fusor.Runtime

variable {T : Type}

namespace Arena

theorem mem_iter (arena : Arena T) (id : ArenaId) (value : T) :
    (id, value) ∈ arena.iter ↔ arena.get id = some value := by
  unfold iter
  rw [List.mem_filterMap]
  constructor
  · rintro ⟨⟨slot, index⟩, member, stored⟩
    have found := List.mem_zipIdx_iff_getElem?.mp member
    obtain ⟨generation, state⟩ := slot
    cases state with
    | occupied held =>
        simp only [Option.some.injEq, Prod.mk.injEq] at stored
        obtain ⟨rfl, rfl⟩ := stored
        simp only at found
        simp [get, found, Slot.read]
    | vacant next => cases stored
    | retired => cases stored
  · intro stored
    unfold get at stored
    split at stored
    · cases stored
    rename_i own
    rw [not_not] at own
    obtain ⟨slot, found, read⟩ := Option.bind_eq_some_iff.mp stored
    have held := read_eq_some read
    subst held
    refine ⟨(⟨id.generation, .occupied value⟩, id.index),
      List.mem_zipIdx_iff_getElem?.mpr found, ?_⟩
    simp [← own]

theorem getMut_of_none (arena : Arena T) {id : ArenaId} (write : T → T)
    (absent : arena.get id = none) :
    arena.getMut id write = (arena, none) := by
  unfold getMut
  by_cases foreign : id.runtime ≠ arena.runtime
  · rw [if_pos foreign]
  · rw [get, if_neg foreign] at absent
    rw [if_neg foreign]
    cases found : arena.slots[id.index]? with
    | none => rfl
    | some slot =>
        rw [found, Option.bind_some] at absent
        simp only [absent]

/-- Where a value is stored. -/
theorem slot_of_get {arena : Arena T} {id : ArenaId} {value : T}
    (stored : arena.get id = some value) :
    id.runtime = arena.runtime ∧
      arena.slots[id.index]? = some ⟨id.generation, .occupied value⟩ := by
  unfold get at stored
  split at stored
  · cases stored
  rename_i own
  rw [not_not] at own
  obtain ⟨slot, found, read⟩ := Option.bind_eq_some_iff.mp stored
  rw [read_eq_some read] at found
  exact ⟨own, found⟩

theorem getMut_of_some (arena : Arena T) {id : ArenaId} {value : T}
    (write : T → T) (stored : arena.get id = some value) :
    arena.getMut id write =
      (arena.setSlot id.index ⟨id.generation, .occupied (write value)⟩,
        some value) := by
  obtain ⟨own, found⟩ := slot_of_get stored
  unfold getMut setSlot
  rw [if_neg (by simpa using own), found]
  simp [Slot.read]

theorem get_setSlot_occupied {arena : Arena T} {id : ArenaId} {old : T}
    (stored : arena.get id = some old) (value : T) (other : ArenaId) :
    (arena.setSlot id.index ⟨id.generation, .occupied value⟩).get other =
      if other = id then some value else arena.get other := by
  obtain ⟨own, found⟩ := slot_of_get stored
  obtain ⟨runtime, index, generation⟩ := id
  simp only at own found
  subst own
  have unread : ∀ other, other ≠ generation →
      arena.get ⟨arena.runtime, index, other⟩ = none := by
    intro other different
    rw [get_of_found found, read_occupied, if_neg different]
  have read : ∀ id,
      (arena.setSlot index ⟨generation, .occupied value⟩).get id =
        if id.runtime = arena.runtime ∧ id.index = index then
          (⟨generation, .occupied value⟩ : Slot T).read id.generation
        else arena.get id :=
    get_of_set rfl rfl found
  rw [stored_update unread read other, Function.update_apply]

theorem get_getMut (arena : Arena T) (id other : ArenaId) (write : T → T) :
    (arena.getMut id write).1.get other =
      if other = id then (arena.get id).map write else arena.get other := by
  cases stored : arena.get id with
  | none =>
      rw [getMut_of_none arena write stored]
      by_cases same : other = id
      · rw [if_pos same, same, stored, Option.map_none]
      · rw [if_neg same]
  | some value =>
      rw [getMut_of_some arena write stored]
      exact get_setSlot_occupied stored (write value) other

/-- Removes what is stored under the identities, and returns it. -/
def removeAll (arena : Arena T) :
    List ArenaId → Except ArenaFault (Arena T × List T)
  | [] => .ok (arena, [])
  | id :: ids => do
      let (next, removed) ← arena.remove id
      let (last, others) ← next.removeAll ids
      .ok (last, removed.toList ++ others)

/-- A removal returns what was stored and leaves a slot in which nothing can
be read. -/
theorem remove_eq_ok {arena next : Arena T} {id : ArenaId}
    {removed : Option T} (returned : arena.remove id = .ok (next, removed)) :
    removed = arena.get id ∧
      ((arena.get id = none ∧ next = arena) ∨
        ∃ value, arena.get id = some value ∧
          ∃ slot : Slot T, (∀ generation, slot.read generation = none) ∧
            slot.isOccupied = false ∧ next.runtime = arena.runtime ∧
            next.slots = arena.slots.set id.index slot) := by
  cases stored : arena.get id with
  | none =>
      have unchanged : arena.remove id = .ok (arena, none) := by
        unfold remove
        by_cases foreign : id.runtime ≠ arena.runtime
        · rw [if_pos foreign]
        · rw [get, if_neg foreign] at stored
          rw [if_neg foreign]
          cases found : arena.slots[id.index]? with
          | none => rfl
          | some slot =>
              rw [found, Option.bind_some] at stored
              simp only [stored]
      rw [unchanged, Except.ok.injEq, Prod.mk.injEq] at returned
      exact ⟨returned.2.symm, .inl ⟨rfl, returned.1.symm⟩⟩
  | some value =>
      obtain ⟨own, found⟩ := slot_of_get stored
      unfold remove at returned
      rw [if_neg (by simpa using own), found] at returned
      have reading : (⟨id.generation, .occupied value⟩ : Slot T).read
          id.generation = some value := by
        rw [read_occupied, if_pos rfl]
      simp only [reading] at returned
      obtain ⟨liveLen, _, returned⟩ :=
        Support.bind_eq_ok_iff.mp returned
      split at returned
      · rw [Except.ok.injEq, Prod.mk.injEq] at returned
        refine ⟨returned.2.symm, .inr ⟨value, rfl,
          ⟨id.generation + 1, .vacant arena.freeHead⟩,
            fun _ => read_vacant _ _ _, rfl, ?_, ?_⟩⟩
        · rw [← returned.1]
        · rw [← returned.1]
      · rw [Except.ok.injEq, Prod.mk.injEq] at returned
        refine ⟨returned.2.symm, .inr ⟨value, rfl,
          ⟨id.generation, .retired⟩, fun _ => read_retired _ _, rfl, ?_,
            ?_⟩⟩
        · rw [← returned.1]
        · rw [← returned.1]

theorem get_remove {arena next : Arena T} {id : ArenaId}
    {removed : Option T} (returned : arena.remove id = .ok (next, removed))
    (other : ArenaId) :
    next.get other = if other = id then none else arena.get other := by
  obtain ⟨_, ⟨absent, rfl⟩ |
    ⟨value, stored, slot, unread, _, runtime, slots⟩⟩ := remove_eq_ok returned
  · by_cases same : other = id
    · rw [if_pos same, same, absent]
    · rw [if_neg same]
  · obtain ⟨own, found⟩ := slot_of_get stored
    obtain ⟨run, index, generation⟩ := id
    simp only at own found slots
    subst own
    rw [stored_removed found unread (get_of_set runtime slots found) other,
      Function.update_apply]

theorem removeAll_cons {arena last : Arena T} {id : ArenaId}
    {ids : List ArenaId} {removed : List T}
    (returned : arena.removeAll (id :: ids) = .ok (last, removed)) :
    ∃ next first others, arena.remove id = .ok (next, first) ∧
      next.removeAll ids = .ok (last, others) ∧
      removed = first.toList ++ others := by
  unfold removeAll at returned
  obtain ⟨⟨next, first⟩, removal, returned⟩ :=
    Support.bind_eq_ok_iff.mp returned
  obtain ⟨⟨final, others⟩, rest, returned⟩ :=
    Support.bind_eq_ok_iff.mp returned
  simp only [Except.ok.injEq, Prod.mk.injEq] at returned
  obtain ⟨rfl, rfl⟩ := returned
  exact ⟨next, first, others, removal, rest, rfl⟩

theorem get_removeAll {ids : List ArenaId} {arena last : Arena T}
    {removed : List T} (returned : arena.removeAll ids = .ok (last, removed))
    (other : ArenaId) :
    last.get other = if other ∈ ids then none else arena.get other := by
  induction ids generalizing arena removed with
  | nil =>
      cases returned
      simp
  | cons id ids induction =>
      obtain ⟨next, first, others, removal, rest, _⟩ :=
        removeAll_cons returned
      rw [induction rest, get_remove removal]
      by_cases same : other = id
      · simp [same]
      · simp [same]

/-- A quantity summed over the occupied slots. -/
def total (quantity : T → Nat) (arena : Arena T) : Nat :=
  (arena.slots.map fun slot =>
    match slot.state with
    | .occupied value => quantity value
    | .vacant _ | .retired => 0).sum

theorem sum_set {α : Type} (measure : α → Nat) {list : List α} {index : Nat}
    {old : α} (found : list[index]? = some old) (new : α) :
    ((list.set index new).map measure).sum + measure old =
      (list.map measure).sum + measure new := by
  induction list generalizing index with
  | nil => simp at found
  | cons first rest induction =>
      cases index with
      | zero =>
          simp only [List.getElem?_cons_zero, Option.some.injEq] at found
          subst found
          simp only [List.set_cons_zero, List.map_cons, List.sum_cons]
          omega
      | succ index =>
          simp only [List.getElem?_cons_succ] at found
          have step := induction found
          simp only [List.set_cons_succ, List.map_cons, List.sum_cons]
          omega

theorem total_getMut (quantity : T → Nat) (arena : Arena T) (id : ArenaId)
    (write : T → T) :
    (arena.getMut id write).1.total quantity +
        ((arena.get id).map quantity).getD 0 =
      arena.total quantity +
        ((arena.get id).map (quantity ∘ write)).getD 0 := by
  cases stored : arena.get id with
  | none =>
      rw [getMut_of_none arena write stored]
      rfl
  | some value =>
      obtain ⟨_, found⟩ := slot_of_get stored
      rw [getMut_of_some arena write stored]
      exact sum_set _ found ⟨id.generation, .occupied (write value)⟩

theorem total_remove (quantity : T → Nat) {arena next : Arena T}
    {id : ArenaId} {removed : Option T}
    (returned : arena.remove id = .ok (next, removed)) :
    next.total quantity + (removed.toList.map quantity).sum =
      arena.total quantity := by
  obtain ⟨rfl, ⟨absent, rfl⟩ |
    ⟨value, stored, slot, _, empty, _, slots⟩⟩ := remove_eq_ok returned
  · simp [absent]
  · obtain ⟨_, found⟩ := slot_of_get stored
    have changed := sum_set (fun slot : Slot T =>
      match slot.state with
      | .occupied value => quantity value
      | .vacant _ | .retired => 0) found slot
    rw [total, slots, stored]
    have nothing : (match slot.state with
        | .occupied value => quantity value
        | .vacant _ | .retired => 0) = 0 := by
      unfold Slot.isOccupied at empty
      cases state : slot.state with
      | occupied other => simp [state] at empty
      | vacant next => rfl
      | retired => rfl
    simp only [nothing] at changed
    simpa [total] using changed

theorem total_removeAll (quantity : T → Nat) {ids : List ArenaId}
    {arena last : Arena T} {removed : List T}
    (returned : arena.removeAll ids = .ok (last, removed)) :
    last.total quantity + (removed.map quantity).sum =
      arena.total quantity := by
  induction ids generalizing arena removed with
  | nil =>
      cases returned
      simp
  | cons id ids induction =>
      obtain ⟨next, first, others, removal, rest, rfl⟩ :=
        removeAll_cons returned
      have head := total_remove quantity removal
      have tail := induction rest
      rw [List.map_append, List.sum_append]
      omega

/-- Removals from a valid arena succeed. -/
theorem removeAll_succeeds (ids : List ArenaId) {arena : Arena T}
    (valid : arena.Valid) :
    ∃ last removed, arena.removeAll ids = .ok (last, removed) ∧
      last.Valid := by
  induction ids generalizing arena with
  | nil => exact ⟨arena, [], rfl, valid⟩
  | cons id ids induction =>
      obtain ⟨next, first, removal, stepped, _, _⟩ := remove_spec valid id
      obtain ⟨last, others, rest, remains⟩ := induction stepped.valid
      refine ⟨last, first.toList ++ others, ?_, remains⟩
      rw [removeAll, removal]
      simp only [bind, Except.bind, rest]

/-- An arena into which values were stored one after another. -/
def filled (runtime : Nat) (values : List T) : Arena T where
  runtime
  slots := values.map fun value => ⟨0, .occupied value⟩
  freeHead := none
  liveLen := values.length
  freeLen := 0
  retiredLen := 0

theorem filled_valid (runtime : Nat) (values : List T) :
    (filled runtime values).Valid := by
  refine ⟨⟨?_, ?_, ?_⟩, [], rfl, List.nodup_nil, ?_⟩
  · simp [filled, List.countP_map, Slot.isVacant, Function.comp_def]
  · simp [filled, List.countP_map, Slot.isOccupied, Function.comp_def]
  · simp [filled, List.countP_map, Slot.isRetired, Function.comp_def]
  · intro index
    cases found : values[index]? with
    | none => simp [filled, links, found]
    | some value => simp [filled, links, found, Slot.link]

end Arena

end Fusor.Runtime
