import Fusor.Gc.Collection

/-!
# Pruning what is held weakly

While the marked objects are pruned their weak keys are examined one after
another.  A key that is found dead may drop a symbol, and the number of owners
of that symbol goes down for the keys examined later.
-/

namespace Fusor.Gc

open Fusor.Runtime Fusor.Graph

/-- A weak key that is examined, and the symbol that is dropped when it is
dead. -/
structure Examined where
  key : WeakKey
  dropped : Option Nat

namespace HeapObjectKind

/-- The keys that are examined when an object is pruned, in their order. -/
def examined : HeapObjectKind → List Examined
  | weakMap entries =>
      entries.map fun entry => ⟨entry.1, valueSymbol entry.2⟩
  | weakSet entries => entries.map fun key => ⟨key, none⟩
  | weakRef target => target.toList.map fun key => ⟨key, none⟩
  | finalizationRegistry state =>
      state.cells.flatMap fun cell =>
        (cell.target.toList ++ cell.unregisterToken.toList).map fun key =>
          ⟨key, none⟩
  | _ => []

end HeapObjectKind

section Examining

variable (live : (Nat → Nat) → WeakKey → Bool)

/-- The owners of the symbols after a key was examined. -/
def examine (strongCount : Nat → Nat) (step : Examined) : Nat → Nat :=
  if live strongCount step.key then strongCount
  else dropSymbol strongCount step.dropped

/-- Every key is found alive when it is examined exactly if it is in a set. -/
def Agrees (alive : WeakKey → Prop) :
    (Nat → Nat) → List Examined → Prop
  | _, [] => True
  | strongCount, step :: rest =>
      (live strongCount step.key = true ↔ alive step.key) ∧
        Agrees alive (examine live strongCount step) rest

variable {live} {alive : WeakKey → Prop}

theorem agrees_append (strongCount : Nat → Nat)
    (first second : List Examined) :
    Agrees live alive strongCount (first ++ second) ↔
      Agrees live alive strongCount first ∧
        Agrees live alive (first.foldl (examine live) strongCount)
          second := by
  induction first generalizing strongCount with
  | nil => simp [Agrees]
  | cons step rest induction =>
      rw [List.cons_append, Agrees, Agrees, induction, List.foldl_cons,
        and_assoc]

theorem examine_none (strongCount : Nat → Nat) (key : WeakKey) :
    examine live strongCount ⟨key, none⟩ = strongCount := by
  unfold examine
  split <;> rfl

theorem foldl_examine_none (keys : List WeakKey) (strongCount : Nat → Nat) :
    (keys.map fun key => (⟨key, none⟩ : Examined)).foldl (examine live)
      strongCount = strongCount := by
  induction keys with
  | nil => rfl
  | cons key keys induction =>
      rw [List.map_cons, List.foldl_cons, examine_none, induction]

theorem agrees_none (keys : List WeakKey) (strongCount : Nat → Nat) :
    Agrees live alive strongCount
        (keys.map fun key => (⟨key, none⟩ : Examined)) ↔
      ∀ key ∈ keys, live strongCount key = true ↔ alive key := by
  induction keys with
  | nil => simp [Agrees]
  | cons key keys induction =>
      rw [List.map_cons, Agrees, examine_none, induction,
        List.forall_mem_cons]

theorem examine_entry (strongCount : Nat → Nat) (key : WeakKey)
    (value : StoredValue) :
    examine live strongCount ⟨key, valueSymbol value⟩ =
      if live strongCount key then strongCount
      else dropValue strongCount value :=
  rfl

theorem retainKeys_snd (entries : List (WeakKey × StoredValue))
    (strongCount : Nat → Nat) :
    (retainKeys live strongCount entries).2 =
      (entries.map fun entry =>
        (⟨entry.1, valueSymbol entry.2⟩ : Examined)).foldl (examine live)
        strongCount := by
  induction entries generalizing strongCount with
  | nil => rfl
  | cons entry rest induction =>
      obtain ⟨key, value⟩ := entry
      rw [List.map_cons, List.foldl_cons, examine_entry]
      unfold retainKeys
      split
      · exact induction strongCount
      · exact induction (dropValue strongCount value)

theorem flatMap_keys (cells : List FinalizationCell) :
    (cells.flatMap fun cell =>
      (cell.target.toList ++ cell.unregisterToken.toList).map fun key =>
        (⟨key, none⟩ : Examined)) =
      (cells.flatMap fun cell =>
        cell.target.toList ++ cell.unregisterToken.toList).map fun key =>
          ⟨key, none⟩ := by
  rw [List.map_flatMap]

theorem pruneKind_strongCount (strongCount : Nat → Nat)
    (kind : HeapObjectKind) :
    (pruneKind live strongCount kind).2.1 =
      kind.examined.foldl (examine live) strongCount := by
  cases kind with
  | weakMap entries => exact retainKeys_snd entries strongCount
  | weakSet entries => exact (foldl_examine_none entries strongCount).symm
  | weakRef target =>
      exact (foldl_examine_none target.toList strongCount).symm
  | finalizationRegistry state =>
      simp only [pruneKind, HeapObjectKind.examined, flatMap_keys]
      exact (foldl_examine_none _ strongCount).symm
  | _ => rfl

end Examining

section Exactness

open Classical

/-- An object in which exactly the weak keys that are alive are left. -/
noncomputable def settledKind (alive : WeakKey → Prop) :
    HeapObjectKind → HeapObjectKind
  | .weakMap entries => .weakMap (entries.filter fun entry => alive entry.1)
  | .weakSet entries => .weakSet (entries.filter fun key => alive key)
  | .weakRef target => .weakRef (target.filter fun key => alive key)
  | .finalizationRegistry state =>
      .finalizationRegistry { state with
        cells := state.cells.map fun cell =>
          { cell with
            target := cell.target.filter fun key => alive key
            unregisterToken :=
              cell.unregisterToken.filter fun key => alive key } }
  | kind => kind

variable {live : (Nat → Nat) → WeakKey → Bool} {alive : WeakKey → Prop}

theorem filter_eq_iff {keys : List WeakKey} {keep : WeakKey → Bool}
    (sound : ∀ key, keep key = true → alive key) :
    keys.filter keep = keys.filter (fun key => alive key) ↔
      ∀ key ∈ keys, keep key = true ↔ alive key := by
  constructor
  · intro same key member
    refine ⟨sound key, ?_⟩
    intro lives
    have kept : key ∈ keys.filter (fun key => alive key) := by
      simp [member, lives]
    rw [← same] at kept
    exact (List.mem_filter.mp kept).2
  · intro agrees
    apply List.filter_congr
    intro key member
    rw [Bool.eq_iff_iff, agrees key member, decide_eq_true_iff]

theorem option_filter_eq_iff {target : Option WeakKey}
    {keep : WeakKey → Bool} (sound : ∀ key, keep key = true → alive key) :
    target.filter keep = target.filter (fun key => alive key) ↔
      ∀ key ∈ target.toList, keep key = true ↔ alive key := by
  cases target with
  | none => simp
  | some key =>
      by_cases kept : keep key = true
      · simp [Option.filter, kept, sound key kept]
      · by_cases lives : alive key
        · simp [Option.filter, kept, lives]
        · simp [Option.filter, kept, lives]

theorem dropSymbol_le (strongCount : Nat → Nat) (dropped : Option Nat) :
    dropSymbol strongCount dropped ≤ strongCount := by
  intro other
  cases dropped with
  | none => exact Nat.le_refl _
  | some symbol =>
      rw [dropSymbol, Function.update_apply]
      split
      · rename_i same
        rw [same]
        exact Nat.sub_le _ _
      · exact Nat.le_refl _

theorem examine_le (strongCount : Nat → Nat) (step : Examined) :
    examine live strongCount step ≤ strongCount := by
  unfold examine
  split
  · exact le_refl _
  · exact dropSymbol_le strongCount step.dropped

/-- As owners only go down, no key that is not alive is found alive. -/
def Sound (live : (Nat → Nat) → WeakKey → Bool) (alive : WeakKey → Prop)
    (strongCount : Nat → Nat) : Prop :=
  ∀ fewer, fewer ≤ strongCount → ∀ key, live fewer key = true → alive key

theorem Sound.mono {strongCount fewer : Nat → Nat}
    (sound : Sound live alive strongCount) (less : fewer ≤ strongCount) :
    Sound live alive fewer :=
  fun other below => sound other (below.trans less)

theorem retainKeys_sublist (entries : List (WeakKey × StoredValue))
    {strongCount : Nat → Nat} (sound : Sound live alive strongCount) :
    (retainKeys live strongCount entries).1.Sublist
      (entries.filter fun entry => alive entry.1) := by
  induction entries generalizing strongCount with
  | nil => exact List.Sublist.slnil
  | cons entry rest induction =>
      obtain ⟨key, value⟩ := entry
      unfold retainKeys
      by_cases kept : live strongCount key = true
      · have lives := sound strongCount (le_refl _) key kept
        simp only [kept, ↓reduceIte, List.filter_cons, lives, decide_true]
        exact (induction sound).cons_cons (key, value)
      · simp only [kept, ↓reduceIte, Bool.false_eq_true]
        have fewer := induction (sound.mono
          (dropSymbol_le strongCount (valueSymbol value)))
        by_cases lives : alive key
        · simp only [List.filter_cons, lives, decide_true, ↓reduceIte]
          exact fewer.cons (key, value)
        · simp only [List.filter_cons, lives, decide_false,
            Bool.false_eq_true, ↓reduceIte]
          exact fewer

/-- Whether a pruned map keeps exactly the entries whose keys are alive. -/
theorem retainKeys_eq_iff (entries : List (WeakKey × StoredValue))
    {strongCount : Nat → Nat} (sound : Sound live alive strongCount) :
    (retainKeys live strongCount entries).1 =
        entries.filter (fun entry => alive entry.1) ↔
      Agrees live alive strongCount (entries.map fun entry =>
        ⟨entry.1, valueSymbol entry.2⟩) := by
  induction entries generalizing strongCount with
  | nil => simp [retainKeys, Agrees]
  | cons entry rest induction =>
      obtain ⟨key, value⟩ := entry
      rw [List.map_cons, Agrees, examine_entry]
      unfold retainKeys
      by_cases kept : live strongCount key = true
      · have lives := sound strongCount (le_refl _) key kept
        simp only [kept, ↓reduceIte, List.filter_cons, lives, decide_true,
          List.cons.injEq, true_and, iff_self]
        exact induction sound
      · have fewer : Sound live alive (dropValue strongCount value) :=
          sound.mono (dropSymbol_le strongCount (valueSymbol value))
        by_cases lives : alive key
        · simp only [kept, ↓reduceIte, List.filter_cons, lives, decide_true,
            Bool.false_eq_true, iff_true, false_and, iff_false]
          intro same
          have bound := (retainKeys_sublist rest fewer).length_le
          rw [same, List.length_cons] at bound
          omega
        · simp only [kept, ↓reduceIte, List.filter_cons, lives, decide_false,
            Bool.false_eq_true, true_and, iff_self]
          exact induction fewer

theorem pruneCells_eq_iff (cells : List FinalizationCell)
    {strongCount : Nat → Nat} (sound : Sound live alive strongCount) :
    cells.map (pruneCell live strongCount) =
        cells.map (fun cell =>
          { cell with
            target := cell.target.filter fun key => alive key
            unregisterToken :=
              cell.unregisterToken.filter fun key => alive key }) ↔
      ∀ key ∈ cells.flatMap fun cell =>
          cell.target.toList ++ cell.unregisterToken.toList,
        live strongCount key = true ↔ alive key := by
  have found := sound strongCount (le_refl _)
  induction cells with
  | nil => simp
  | cons cell cells induction =>
      rw [List.map_cons, List.map_cons, List.cons.injEq, List.flatMap_cons,
        List.forall_mem_append, List.forall_mem_append]
      refine and_congr ?_ induction
      simp only [pruneCell, FinalizationCell.mk.injEq, true_and]
      rw [option_filter_eq_iff found, option_filter_eq_iff found]

theorem pruneKind_eq_iff (kind : HeapObjectKind) {strongCount : Nat → Nat}
    (sound : Sound live alive strongCount) :
    (pruneKind live strongCount kind).1 = settledKind alive kind ↔
      Agrees live alive strongCount kind.examined := by
  have found := sound strongCount (le_refl _)
  cases kind with
  | weakMap entries =>
      simp only [pruneKind, settledKind, HeapObjectKind.weakMap.injEq]
      exact retainKeys_eq_iff entries sound
  | weakSet entries =>
      simp only [pruneKind, settledKind, HeapObjectKind.weakSet.injEq]
      rw [filter_eq_iff found]
      exact (agrees_none entries strongCount).symm
  | weakRef target =>
      simp only [pruneKind, settledKind, HeapObjectKind.weakRef.injEq]
      rw [option_filter_eq_iff found]
      exact (agrees_none target.toList strongCount).symm
  | finalizationRegistry state =>
      simp only [pruneKind, settledKind,
        HeapObjectKind.finalizationRegistry.injEq,
        FinalizationRegistryState.mk.injEq, true_and, and_true]
      rw [pruneCells_eq_iff state.cells sound]
      simp only [HeapObjectKind.examined, flatMap_keys]
      exact (agrees_none _ strongCount).symm
  | _ => simp [pruneKind, settledKind, HeapObjectKind.examined, Agrees]

/-- How many of the examined keys that are not alive drop a symbol. -/
noncomputable def doomed (alive : WeakKey → Prop) (steps : List Examined)
    (symbol : Nat) : Nat :=
  steps.countP fun step =>
    decide (step.dropped = some symbol ∧ ¬ alive step.key)

/-- Whenever a symbol that is alive for its owners alone is examined, enough
of its owners are left: more than the ephemerons that had it as a value when
they were counted. -/
def OwnersSuffice (alive : WeakKey → Prop) (marked : Finset HeapItem)
    (owners strongCount : Nat → Nat) (steps : List Examined) : Prop :=
  ∀ before step after, steps = before ++ step :: after →
    ∀ symbol, step.key = .symbol symbol → .token symbol ∉ marked →
      alive (.symbol symbol) →
      owners symbol + doomed alive before symbol < strongCount symbol

theorem doomed_cons (step : Examined) (steps : List Examined)
    (symbol : Nat) :
    doomed alive (step :: steps) symbol = doomed alive steps symbol +
      if step.dropped = some symbol ∧ ¬ alive step.key then 1 else 0 := by
  unfold doomed
  rw [List.countP_cons]
  simp only [decide_eq_true_eq]

theorem dropSymbol_apply (strongCount : Nat → Nat) (dropped : Option Nat)
    (symbol : Nat) :
    dropSymbol strongCount dropped symbol =
      strongCount symbol - if dropped = some symbol then 1 else 0 := by
  cases dropped with
  | none => rfl
  | some other =>
      rw [dropSymbol, Function.update_apply]
      by_cases same : symbol = other
      · simp [same]
      · simp [same, Ne.symm same]

theorem ownersSuffice_cons (marked : Finset HeapItem)
    (owners strongCount : Nat → Nat) (step : Examined)
    (steps : List Examined) :
    OwnersSuffice alive marked owners strongCount (step :: steps) ↔
      (∀ symbol, step.key = .symbol symbol → .token symbol ∉ marked →
        alive (.symbol symbol) → owners symbol < strongCount symbol) ∧
      OwnersSuffice alive marked owners
        (if alive step.key then strongCount
          else dropSymbol strongCount step.dropped) steps := by
  have shifted : ∀ (before : List Examined) (symbol : Nat),
      (owners symbol + doomed alive (step :: before) symbol <
        strongCount symbol) ↔
      (owners symbol + doomed alive before symbol <
        (if alive step.key then strongCount
          else dropSymbol strongCount step.dropped) symbol) := by
    intro before symbol
    rw [doomed_cons]
    by_cases lives : alive step.key
    · simp [lives]
    · rw [if_neg lives, dropSymbol_apply]
      by_cases drops : step.dropped = some symbol
      · simp only [drops, lives, not_false_eq_true, and_self, if_true]
        omega
      · simp [drops]
  constructor
  · intro suffices_
    constructor
    · intro symbol key unmarked lives
      have bound := suffices_ [] step steps rfl symbol key unmarked lives
      exact Nat.lt_of_le_of_lt (Nat.le_add_right _ _) bound
    · intro before other after split symbol key unmarked lives
      rw [← shifted]
      apply suffices_ (step :: before) other after _ symbol key unmarked lives
      rw [split, List.cons_append]
  · rintro ⟨first, rest⟩ before other after split symbol key unmarked lives
    cases before with
    | nil =>
        rw [List.nil_append, List.cons.injEq] at split
        obtain ⟨rfl, _⟩ := split
        exact first symbol key unmarked lives
    | cons head before =>
        rw [List.cons_append, List.cons.injEq] at split
        obtain ⟨rfl, split⟩ := split
        rw [shifted]
        exact rest before other after split symbol key unmarked lives

/-- With the keys that are alive before the pruning, every key is found alive
exactly if it is, just when the owners suffice. -/
theorem agrees_iff_ownersSuffice (marked : Finset HeapItem)
    {owners initial : Nat → Nat} (steps : List Examined)
    {strongCount : Nat → Nat} (fewer : strongCount ≤ initial) :
    Agrees (weakKeyIsLive marked owners)
        (fun key => weakKeyIsLive marked owners initial key = true)
        strongCount steps ↔
      OwnersSuffice
        (fun key => weakKeyIsLive marked owners initial key = true) marked
        owners strongCount steps := by
  induction steps generalizing strongCount with
  | nil =>
      refine iff_of_true trivial ?_
      intro before step after split
      exact absurd split.symm (by simp)
  | cons step rest induction =>
      rw [Agrees, ownersSuffice_cons]
      have here : (weakKeyIsLive marked owners strongCount step.key = true ↔
            weakKeyIsLive marked owners initial step.key = true) ↔
          ∀ symbol, step.key = .symbol symbol → .token symbol ∉ marked →
            weakKeyIsLive marked owners initial (.symbol symbol) = true →
            owners symbol < strongCount symbol := by
        cases key : step.key with
        | function id => simp [weakKeyIsLive]
        | object id => simp [weakKeyIsLive]
        | symbol name =>
            by_cases reached : Item.token name ∈ marked
            · simp [weakKeyIsLive, reached]
            · have bound : strongCount name ≤ initial name := fewer name
              simp only [weakKeyIsLive, reached, decide_false, Bool.false_or,
                decide_eq_true_eq, WeakKey.symbol.injEq, forall_eq',
                not_false_eq_true, forall_true_left]
              omega
      refine and_congr_left' here |>.trans (and_congr_right ?_)
      intro enough
      have agrees := here.mpr enough
      by_cases lives : weakKeyIsLive marked owners initial step.key = true
      · rw [if_pos lives, examine, if_pos (agrees.mpr lives)]
        exact induction fewer
      · rw [if_neg lives, examine,
          if_neg (fun found => lives (agrees.mp found))]
        exact induction ((dropSymbol_le strongCount step.dropped).trans fewer)

end Exactness

end Fusor.Gc
