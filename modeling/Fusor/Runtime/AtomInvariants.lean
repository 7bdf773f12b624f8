import Fusor.Runtime.AtomTable
import Fusor.Support.Result
import Mathlib.Algebra.BigOperators.Group.Finset.Basic
import Mathlib.Algebra.Order.BigOperators.Group.Finset

/-!
# Invariants of the atom table

The counters are the exact numbers of what is live and of the slots held, and
a live interned atom is found under its content and alone there.  Each change
of the table is one of three: a change of the owners, a loss of dead slots, or
a new entry.
-/

namespace Fusor.Runtime

open Collections

/-- The entry is interned with this content. -/
def Interned (entries : List AtomEntry) (atom : Nat) (space : InternNamespace)
    (description : List UInt16) : Prop :=
  ∃ entry, entries[atom]? = some entry ∧ entry.kind = space.atomKind ∧
    entry.description = some description

/-- The code units of an atom's description. -/
def unitsOf (entries : List AtomEntry) (atom : Nat) : Nat :=
  entries[atom]?.elim 0 AtomEntry.descriptionCodeUnits

/-- The data of a table beside the set of its live atoms. -/
structure Accounts (hasher : List Nat → Nat) (limits : AtomLimits)
    (entries : List AtomEntry) (buckets : Buckets BucketKey Nat)
    (usage : AtomUsage) (live : Finset Nat) : Prop where
  owned : ∀ atom ∈ live, atom < entries.length
  described : ∀ entry ∈ entries, ∀ space : InternNamespace,
    entry.kind = space.atomKind → entry.description.isSome = true
  keys : buckets.keys.Nodup
  once : buckets.slots.Nodup
  placed : ∀ slot ∈ buckets.slots, ∃ description,
    Interned entries slot.2 slot.1.space description ∧
      slot.1 = AtomTable.bucketKey hasher slot.1.space description
  found : ∀ atom ∈ live, ∀ space description,
    Interned entries atom space description →
      (AtomTable.bucketKey hasher space description, atom) ∈ buckets.slots
  unique : ∀ atom ∈ live, ∀ other ∈ live, ∀ space description,
    Interned entries atom space description →
      Interned entries other space description → atom = other
  liveAtoms : usage.liveAtoms = live.card
  liveUnits : usage.liveDescriptionCodeUnits =
    ∑ atom ∈ live, unitsOf entries atom
  slots : usage.internerSlots = buckets.slots.length
  atomLimit : usage.liveAtoms ≤ limits.maxLiveAtoms.toNat
  unitLimit : usage.liveDescriptionCodeUnits ≤
    limits.maxLiveDescriptionCodeUnits.toNat
  slotLimit : usage.internerSlots ≤ limits.maxInternerSlots.toNat

theorem interned_append {entries more : List AtomEntry} {atom : Nat}
    (inside : atom < entries.length) {space : InternNamespace}
    {description : List UInt16} :
    Interned (entries ++ more) atom space description ↔
      Interned entries atom space description := by
  rw [Interned, Interned, List.getElem?_append_left inside]

theorem interned_lt {entries : List AtomEntry} {atom : Nat}
    {space : InternNamespace} {description : List UInt16}
    (interned : Interned entries atom space description) :
    atom < entries.length := by
  obtain ⟨entry, found, _⟩ := interned
  exact (List.getElem?_eq_some_iff.mp found).1

theorem interned_last {entries : List AtomEntry} {entry : AtomEntry}
    {space : InternNamespace} {description : List UInt16} :
    Interned (entries ++ [entry]) entries.length space description ↔
      entry.kind = space.atomKind ∧ entry.description = some description := by
  rw [Interned, List.getElem?_concat_length]
  constructor
  · rintro ⟨_, same, rest⟩
    cases same
    exact rest
  · intro rest
    exact ⟨entry, rfl, rest⟩

namespace Accounts

variable {hasher : List Nat → Nat} {limits : AtomLimits}
  {entries : List AtomEntry} {buckets : Buckets BucketKey Nat}
  {usage : AtomUsage} {live : Finset Nat}

/-- The last handle of an atom is dropped. -/
theorem release (accounts :
    Accounts hasher limits entries buckets usage live) {atom : Nat}
    (member : atom ∈ live) :
    Accounts hasher limits entries buckets
      { usage with
        liveAtoms := usage.liveAtoms - 1
        liveDescriptionCodeUnits := usage.liveDescriptionCodeUnits -
          unitsOf entries atom } (live.erase atom) := by
  have sum := Finset.sum_erase_add live (unitsOf entries) member
  have card := Finset.card_erase_add_one member
  refine ⟨?_, accounts.described, accounts.keys, accounts.once, accounts.placed,
    ?_, ?_, ?_, ?_, accounts.slots, ?_, ?_, accounts.slotLimit⟩
  · intro other kept
    exact accounts.owned other (Finset.mem_of_mem_erase kept)
  · intro other kept
    exact accounts.found other (Finset.mem_of_mem_erase kept)
  · intro first firstKept second secondKept
    exact accounts.unique first (Finset.mem_of_mem_erase firstKept) second
      (Finset.mem_of_mem_erase secondKept)
  · simp only
    rw [accounts.liveAtoms, ← card, Nat.add_sub_cancel]
  · simp only
    rw [accounts.liveUnits, ← sum, Nat.add_sub_cancel]
  · exact Nat.le_trans (Nat.sub_le _ _) accounts.atomLimit
  · exact Nat.le_trans (Nat.sub_le _ _) accounts.unitLimit

/-- Some slots are lost, but none of a live atom. -/
theorem reclaim (accounts :
    Accounts hasher limits entries buckets usage live)
    {kept : Buckets BucketKey Nat} (keys : kept.keys.Nodup)
    (once : kept.slots.Nodup)
    (subset : ∀ slot ∈ kept.slots, slot ∈ buckets.slots)
    (keeps : ∀ slot ∈ buckets.slots, slot.2 ∈ live → slot ∈ kept.slots)
    (fewer : kept.slots.length ≤ buckets.slots.length) :
    Accounts hasher limits entries kept
      { usage with internerSlots := kept.slots.length } live := by
  refine ⟨accounts.owned, accounts.described, keys, once, ?_, ?_,
    accounts.unique, accounts.liveAtoms, accounts.liveUnits, rfl,
    accounts.atomLimit, accounts.unitLimit, ?_⟩
  · intro slot member
    exact accounts.placed slot (subset slot member)
  · intro atom member space description interned
    exact keeps _ (accounts.found atom member space description interned)
      member
  · have limit := accounts.slotLimit
    rw [accounts.slots] at limit
    exact Nat.le_trans fewer limit

/-- A new atom of its own, with a slot when it is interned. -/
theorem insert (accounts :
    Accounts hasher limits entries buckets usage live) {entry : AtomEntry}
    {grown : Buckets BucketKey Nat}
    (described : ∀ space : InternNamespace, entry.kind = space.atomKind →
      entry.description.isSome = true)
    (keys : grown.keys.Nodup) (once : grown.slots.Nodup)
    (subset : ∀ slot ∈ grown.slots, slot ∈ buckets.slots ∨
      ∃ space description, entry.kind = space.atomKind ∧
        entry.description = some description ∧
        slot = (AtomTable.bucketKey hasher space description, entries.length))
    (keeps : ∀ slot ∈ buckets.slots, slot.2 ∈ live → slot ∈ grown.slots)
    (placed : ∀ space description, entry.kind = space.atomKind →
      entry.description = some description →
      (AtomTable.bucketKey hasher space description, entries.length) ∈
        grown.slots)
    (fresh : ∀ atom ∈ live, ∀ space description,
      entry.kind = space.atomKind → entry.description = some description →
        ¬ Interned entries atom space description)
    {next : AtomUsage} (atoms : next.liveAtoms = usage.liveAtoms + 1)
    (units : next.liveDescriptionCodeUnits = usage.liveDescriptionCodeUnits +
      entry.descriptionCodeUnits)
    (slots : next.internerSlots = grown.slots.length)
    (atomLimit : next.liveAtoms ≤ limits.maxLiveAtoms.toNat)
    (unitLimit : next.liveDescriptionCodeUnits ≤
      limits.maxLiveDescriptionCodeUnits.toNat)
    (slotLimit : next.internerSlots ≤ limits.maxInternerSlots.toNat) :
    Accounts hasher limits (entries ++ [entry]) grown next
      (Insert.insert entries.length live) := by
  have new : entries.length ∉ live := fun member =>
    Nat.lt_irrefl _ (accounts.owned _ member)
  have old : ∀ {atom}, atom ∈ live → ∀ {space description},
      Interned (entries ++ [entry]) atom space description ↔
        Interned entries atom space description := fun member =>
    interned_append (accounts.owned _ member)
  refine ⟨?_, ?_, keys, once, ?_, ?_, ?_, ?_, ?_, slots, atomLimit, unitLimit,
    slotLimit⟩
  · intro atom member
    rw [List.length_append, List.length_singleton]
    rcases Finset.mem_insert.mp member with rfl | member
    · exact Nat.lt_succ_self _
    · exact Nat.lt_succ_of_lt (accounts.owned atom member)
  · intro other member
    rcases List.mem_append.mp member with earlier | last
    · exact accounts.described other earlier
    · rw [List.mem_singleton] at last
      subst last
      exact described
  · intro slot member
    rcases subset slot member with earlier |
      ⟨space, description, kind, text, rfl⟩
    · obtain ⟨description, interned, same⟩ := accounts.placed slot earlier
      exact ⟨description, (interned_append (interned_lt interned)).mpr interned,
        same⟩
    · exact ⟨description, interned_last.mpr ⟨kind, text⟩, rfl⟩
  · intro atom member space description interned
    rcases Finset.mem_insert.mp member with rfl | member
    · obtain ⟨kind, text⟩ := interned_last.mp interned
      exact placed space description kind text
    · exact keeps _ (accounts.found atom member space description
        ((old member).mp interned)) member
  · intro atom member other otherMember space description interned
      otherInterned
    rcases Finset.mem_insert.mp member with rfl | member <;>
      rcases Finset.mem_insert.mp otherMember with rfl | otherMember
    · rfl
    · obtain ⟨kind, text⟩ := interned_last.mp interned
      exact absurd ((old otherMember).mp otherInterned)
        (fresh other otherMember space description kind text)
    · obtain ⟨kind, text⟩ := interned_last.mp otherInterned
      exact absurd ((old member).mp interned)
        (fresh atom member space description kind text)
    · exact accounts.unique atom member other otherMember space description
        ((old member).mp interned) ((old otherMember).mp otherInterned)
  · rw [Finset.card_insert_of_notMem new, atoms, accounts.liveAtoms]
  · have here : unitsOf (entries ++ [entry]) entries.length =
        entry.descriptionCodeUnits := by
      rw [unitsOf, List.getElem?_concat_length]
      rfl
    have others : ∑ atom ∈ live, unitsOf (entries ++ [entry]) atom =
        ∑ atom ∈ live, unitsOf entries atom := by
      apply Finset.sum_congr rfl
      intro atom member
      rw [unitsOf, unitsOf,
        List.getElem?_append_left (accounts.owned atom member)]
    rw [Finset.sum_insert new, here, others, units, accounts.liveUnits,
      Nat.add_comm]

end Accounts

namespace AtomTable

/-- The atoms that some handle owns. -/
def live (table : AtomTable) : Finset Nat :=
  (table.handles ++ table.predefined).toFinset

/-- The counters and the interner agree with what is live. -/
def Sound (hasher : List Nat → Nat) (table : AtomTable) : Prop :=
  Accounts hasher table.limits table.entries table.buckets table.usage
    table.live

theorem isLive_iff (table : AtomTable) (atom : Nat) :
    table.isLive atom = true ↔ atom ∈ table.live := by
  simp [isLive, strongCount, live, List.count_eq_zero, imp_iff_not_or]

theorem foldl_saturatingAdd {α : Type} (count : α → Nat) (list : List α)
    {start : Nat} (bounded : start ≤ 2 ^ 32 - 1) :
    list.foldl (fun total item => saturatingAdd total (count item)) start =
      min (start + (list.map count).sum) (2 ^ 32 - 1) := by
  induction list generalizing start with
  | nil =>
      rw [List.foldl_nil, List.map_nil, List.sum_nil, Nat.add_zero,
        Nat.min_eq_left bounded]
  | cons head tail induction =>
      have next : saturatingAdd start (count head) ≤ 2 ^ 32 - 1 :=
        Nat.min_le_right _ _
      rw [List.foldl_cons, induction next, List.map_cons, List.sum_cons,
        saturatingAdd]
      omega

/-- The slots whose atom nothing owns. -/
def deadCount (table : AtomTable) (atoms : List Nat) : Nat :=
  atoms.countP fun atom => !table.isLive atom

theorem deadCount_eq (table : AtomTable) (atoms : List Nat) :
    table.deadCount atoms =
      atoms.length - (atoms.filter table.isLive).length := by
  have whole := @List.length_eq_countP_add_countP _ table.isLive atoms
  rw [List.countP_eq_length_filter] at whole
  rw [deadCount, whole, Nat.add_sub_cancel_left]
  congr 1
  funext atom
  cases table.isLive atom <;> rfl

theorem deadSlots_eq (table : AtomTable) {bucket : List Nat}
    (bounded : bucket.length ≤ 2 ^ 32 - 1) :
    table.deadSlots bucket = table.deadCount bucket := by
  have ones : (bucket.map fun atom =>
      if table.strongCount atom = 0 then 1 else 0).sum =
        table.deadCount bucket := by
    rw [deadCount]
    induction bucket with
    | nil => rfl
    | cons head tail induction =>
        rw [List.map_cons, List.sum_cons, List.countP_cons,
          induction (by simp at bounded; omega)]
        by_cases dead : table.strongCount head = 0
        · simp [isLive, dead, Nat.add_comm]
        · simp [isLive, dead]
  have few : table.deadCount bucket ≤ bucket.length := List.countP_le_length
  rw [deadSlots, foldl_saturatingAdd _ _ (Nat.zero_le _), ones, Nat.zero_add]
  omega

theorem deadCount_slots (table : AtomTable) (buckets : Buckets BucketKey Nat) :
    (buckets.map fun bucket => table.deadCount bucket.2).sum =
      table.deadCount (buckets.slots.map Prod.snd) := by
  induction buckets with
  | nil => rfl
  | cons bucket buckets induction =>
      obtain ⟨key, items⟩ := bucket
      rw [List.map_cons, List.sum_cons, induction, Buckets.slots_cons,
        List.map_append, deadCount, deadCount, deadCount, List.countP_append,
        List.map_map]
      congr 2
      exact (List.map_id items).symm

theorem length_bucket_le {buckets : Buckets BucketKey Nat}
    {bucket : BucketKey × List Nat} (member : bucket ∈ buckets) :
    bucket.2.length ≤ buckets.slots.length := by
  rw [Buckets.slots, List.length_flatMap]
  have single := List.single_le_sum (l := buckets.map fun bucket =>
    (bucket.2.map fun item => (bucket.1, item)).length) (fun _ _ =>
      Nat.zero_le _) bucket.2.length
  apply single
  exact List.mem_map.mpr ⟨bucket, member, by simp⟩

/-- The dead slots of all buckets, counted bucket by bucket. -/
theorem foldl_deadCount (table : AtomTable) {buckets : Buckets BucketKey Nat}
    (bounded : buckets.slots.length ≤ 2 ^ 32 - 1)
    {count : BucketKey × List Nat → Nat}
    (counts : ∀ bucket ∈ buckets, count bucket =
      table.deadCount bucket.2) :
    buckets.foldl (fun total bucket => saturatingAdd total (count bucket)) 0 =
      table.deadCount (buckets.slots.map Prod.snd) := by
  rw [foldl_saturatingAdd _ _ (Nat.zero_le _), List.map_congr_left counts,
    deadCount_slots, Nat.zero_add]
  have few : table.deadCount (buckets.slots.map Prod.snd) ≤
      (buckets.slots.map Prod.snd).length := List.countP_le_length
  rw [List.length_map] at few
  omega

variable {hasher : List Nat → Nat} {table : AtomTable}

theorem Sound.bounded (sound : table.Sound hasher) :
    table.buckets.slots.length ≤ 2 ^ 32 - 1 := by
  have limit := sound.slotLimit
  rw [sound.slots] at limit
  have word := table.limits.maxInternerSlots.toNat_lt
  omega

/-- The slots without the dead ones. -/
theorem Sound.slots_sub_deadCount (sound : table.Sound hasher) :
    table.usage.internerSlots -
        table.deadCount (table.buckets.slots.map Prod.snd) =
      (table.buckets.slots.filter fun slot => table.isLive slot.2).length := by
  have mapped : ((table.buckets.slots.map Prod.snd).filter
      table.isLive).length = (table.buckets.slots.filter
        fun slot => table.isLive slot.2).length := by
    rw [List.filter_map, List.length_map]
    rfl
  have fewer := List.length_filter_le (fun slot : BucketKey × Nat =>
    table.isLive slot.2) table.buckets.slots
  rw [deadCount_eq, List.length_map, mapped, sound.slots]
  omega

theorem decreaseInternerSlots_eq (table : AtomTable) (removed : Nat) :
    table.decreaseInternerSlots removed =
      { table with usage := { table.usage with
        internerSlots := table.usage.internerSlots - removed } } := by
  unfold decreaseInternerSlots
  split
  · rename_i nothing
    rw [nothing]
    rfl
  · rfl

theorem collectDead_sound (sound : table.Sound hasher) :
    table.collectDead.1.Sound hasher := by
  have counts : ∀ bucket ∈ table.buckets,
      (table.pruneDeadSlots bucket.2).2 = table.deadCount bucket.2 := by
    intro bucket member
    have short := length_bucket_le member
    have bounded := sound.bounded
    rw [deadCount_eq]
    simp only [pruneDeadSlots]
    omega
  have removed : (table.pruneBuckets 0 table.buckets).2 =
      table.deadCount (table.buckets.slots.map Prod.snd) :=
    table.foldl_deadCount sound.bounded counts
  have kept := Buckets.slots_retain table.isLive table.buckets
  have left : table.usage.internerSlots -
      (table.pruneBuckets 0 table.buckets).2 =
        (table.buckets.retain table.isLive).slots.length := by
    rw [removed, sound.slots_sub_deadCount, kept]
  have result := @Accounts.reclaim _ _ _ _ _ _ sound
    (table.buckets.retain table.isLive) (Buckets.nodup_keys_retain sound.keys _)
    (by rw [kept]; exact sound.once.filter _)
    (by
      intro slot member
      rw [kept] at member
      exact (List.mem_filter.mp member).1)
    (by
      intro slot member live
      rw [kept, List.mem_filter]
      exact ⟨member, (table.isLive_iff slot.2).mpr live⟩)
    (by rw [kept]; exact List.length_filter_le _ _)
  rw [collectDead, Sound]
  simp only [decreaseInternerSlots_eq, left]
  exact result

/-- A handle less: the atom is as live as before, or was owned by it alone. -/
theorem live_eraseIdx {position atom : Nat}
    (held : table.handles[position]? = some atom) :
    let next := { table with handles := table.handles.eraseIdx position }
    atom ∈ table.live ∧
      next.live = if next.strongCount atom = 0 then table.live.erase atom
        else table.live := by
  intro next
  obtain ⟨inside, same⟩ := List.getElem?_eq_some_iff.mp held
  have perm := List.getElem_cons_eraseIdx_perm inside
  rw [same] at perm
  have grown : table.live = insert atom next.live := by
    ext other
    simp only [live, List.mem_toFinset, List.mem_append, Finset.mem_insert,
      next]
    rw [← perm.mem_iff, List.mem_cons, or_assoc]
  have member : atom ∈ next.live ↔ next.strongCount atom ≠ 0 := by
    rw [← isLive_iff, isLive]
    simp
  refine ⟨by rw [grown]; exact Finset.mem_insert_self _ _, ?_⟩
  split
  · rename_i last
    have gone : atom ∉ next.live := fun kept => member.mp kept last
    rw [grown, Finset.erase_insert gone]
  · rename_i kept
    rw [grown, Finset.insert_eq_of_mem (member.mpr kept)]

theorem dropHandle_sound (sound : table.Sound hasher) {position atom : Nat}
    (held : table.handles[position]? = some atom) :
    (table.dropHandle position atom).Sound hasher := by
  obtain ⟨member, live⟩ := table.live_eraseIdx held
  rw [dropHandle]
  split
  · rename_i last
    rw [if_pos last] at live
    have inside := sound.owned atom member
    rw [releaseEntry]
    simp only [List.getElem?_eq_getElem inside]
    have released := sound.release member
    have units : unitsOf table.entries atom =
        (table.entries[atom]).descriptionCodeUnits := by
      rw [unitsOf, List.getElem?_eq_getElem inside]
      rfl
    rw [units, ← live] at released
    exact released
  · rename_i kept
    rw [if_neg kept] at live
    rw [Sound, live]
    exact sound

/-- The counters after an insertion, or the ceiling that refuses it. -/
theorem checkedUsage_cases (table : AtomTable)
    (atoms units slots reclaimed : Nat) :
    (∃ next, table.checkedUsageAfterReclaim atoms units slots reclaimed =
        .ok next ∧
      next = ⟨table.usage.liveAtoms + atoms,
        table.usage.liveDescriptionCodeUnits + units,
        table.usage.internerSlots - reclaimed + slots⟩ ∧
      next.liveAtoms ≤ table.limits.maxLiveAtoms.toNat ∧
      next.liveDescriptionCodeUnits ≤
        table.limits.maxLiveDescriptionCodeUnits.toNat ∧
      next.internerSlots ≤ table.limits.maxInternerSlots.toNat) ∨
    (∃ error, table.checkedUsageAfterReclaim atoms units slots reclaimed =
        .error error ∧
      ∀ current additional maximum,
        error = .internerSlotLimit current additional maximum →
          table.limits.maxInternerSlots.toNat <
            table.usage.internerSlots - reclaimed + slots) := by
  have word := table.limits.maxInternerSlots.toNat_lt
  unfold checkedUsageAfterReclaim
  simp only [bind, Except.bind]
  by_cases atomsRefused : table.usage.liveAtoms + atoms ≥ 2 ^ 32 ∨
      table.usage.liveAtoms + atoms > table.limits.maxLiveAtoms.toNat
  · right
    rw [if_pos atomsRefused]
    exact ⟨_, rfl, fun _ _ _ same => by cases same⟩
  · rw [if_neg atomsRefused]
    by_cases unitsRefused : table.usage.liveDescriptionCodeUnits + units ≥
        2 ^ 64 ∨ table.usage.liveDescriptionCodeUnits + units >
          table.limits.maxLiveDescriptionCodeUnits.toNat
    · right
      rw [if_pos unitsRefused]
      exact ⟨_, rfl, fun _ _ _ same => by cases same⟩
    · rw [if_neg unitsRefused]
      by_cases slotsRefused : table.usage.internerSlots - reclaimed + slots ≥
          2 ^ 32 ∨ table.usage.internerSlots - reclaimed + slots >
            table.limits.maxInternerSlots.toNat
      · right
        rw [if_pos slotsRefused]
        refine ⟨_, rfl, fun _ _ _ _ => ?_⟩
        omega
      · left
        rw [if_neg slotsRefused]
        refine ⟨_, rfl, rfl, ?_, ?_, ?_⟩
        · simp only
          omega
        · simp only
          omega
        · simp only
          omega

/-- A created entry with the handle that is given out for it. -/
theorem live_handOut (table : AtomTable) (atom : Nat) :
    live { table with handles := atom :: table.handles } =
      insert atom table.live := by
  ext other
  simp [live]

theorem live_install (table : AtomTable) (atom : Nat) :
    live { table with predefined := table.predefined ++ [atom] } =
      insert atom table.live := by
  ext other
  simp only [live, List.mem_toFinset, List.mem_append, List.mem_singleton,
    Finset.mem_insert]
  tauto

/-- The accounts of a table whose new entry has its first owner. -/
def SoundWith (hasher : List Nat → Nat) (table : AtomTable) (atom : Nat) :
    Prop :=
  Accounts hasher table.limits table.entries table.buckets table.usage
    (insert atom table.live)

theorem insertUnique_sound (sound : table.Sound hasher) {kind : AtomKind}
    {description : Option (List UInt16)} {predefined : Option Nat}
    (unique : ∀ space : InternNamespace, kind ≠ space.atomKind)
    {next : AtomTable} {atom : Nat}
    (inserted : table.insertUnique kind description predefined =
      .ok (next, atom)) :
    next.SoundWith hasher atom ∧ atom = table.entries.length := by
  rw [insertUnique, Support.bind_eq_ok_iff] at inserted
  obtain ⟨usage, checked, created⟩ := inserted
  cases created
  rcases table.checkedUsage_cases 1 (description.elim 0 List.length) 0 0 with
    ⟨nextUsage, allowed, same, atoms, units, slots⟩ | ⟨_, refused, _⟩
  · rw [checkedUsageAfter, allowed] at checked
    cases checked
    refine ⟨?_, rfl⟩
    refine sound.insert ?_ sound.keys sound.once (fun _ member => .inl member)
      (fun _ member _ => member) ?_ ?_ ?_ ?_ ?_ atoms units slots
    · intro space kindSame
      exact absurd kindSame (unique space)
    · intro space text kindSame
      exact absurd kindSame (unique space)
    · intro other _ space text kindSame
      exact absurd kindSame (unique space)
    · rw [same]
    · rw [same]
      rfl
    · rw [same, ← sound.slots]
      rfl
  · rw [checkedUsageAfter, refused] at checked
    cases checked

/-- The slots that a reclaim of this scope leaves. -/
def survives (table : AtomTable) (scope : ReclaimScope) (key : BucketKey)
    (slot : BucketKey × Nat) : Bool :=
  match scope with
  | .none => true
  | .targetBucket => decide (slot.1 ≠ key) || table.isLive slot.2
  | .allBuckets => table.isLive slot.2

theorem filter_survives_none (table : AtomTable) (key : BucketKey)
    (slots : List (BucketKey × Nat)) :
    slots.filter (table.survives .none key) = slots :=
  List.filter_eq_self.mpr fun _ _ => rfl

theorem publishedBuckets_perm (distinct : table.buckets.keys.Nodup)
    (key : BucketKey) (reclaim : ReclaimPlan) (atom : Nat) :
    (table.publishedBuckets key reclaim atom).slots.Perm
      ((key, atom) :: table.buckets.slots.filter
        (table.survives reclaim.scope key)) := by
  have parts := Buckets.slots_perm distinct key
  have again : ∀ slots : List (BucketKey × Nat),
      (slots.filter fun slot => decide (slot.1 ≠ key)).filter
        (fun slot => decide (slot.1 ≠ key)) =
          slots.filter fun slot => decide (slot.1 ≠ key) := by
    intro slots
    rw [List.filter_filter]
    simp
  have target : ∀ keep : BucketKey × Nat → Bool,
      (∀ item, keep (key, item) = table.isLive item) →
      ((table.buckets.bucket key).map fun item => (key, item)).filter keep =
        ((table.buckets.bucket key).filter table.isLive).map
          fun item => (key, item) := by
    intro keep same
    rw [List.filter_map]
    congr 2
    funext item
    exact same item
  have push : ∀ (items : List Nat) (rest : List (BucketKey × Nat)),
      (((items ++ [atom]).map fun item => (key, item)) ++ rest).Perm
        ((key, atom) :: ((items.map fun item => (key, item)) ++ rest)) := by
    intro items rest
    rw [List.map_append, List.map_singleton, List.append_assoc]
    exact List.perm_middle
  rw [publishedBuckets]
  cases reclaim.scope with
  | none =>
      simp only [Buckets.slots_put, Buckets.slots_erase, again]
      refine (push _ _).trans (.cons _ ?_)
      rw [filter_survives_none, ← Buckets.slots_erase]
      exact parts.symm
  | targetBucket =>
      simp only [Buckets.slots_put, Buckets.slots_erase, again, pruneDeadSlots]
      refine (push _ _).trans (.cons _ ?_)
      have split := parts.filter (table.survives .targetBucket key)
      rw [List.filter_append, target _ (by simp [survives]),
        Buckets.slots_erase, List.filter_filter] at split
      refine .trans (.of_eq ?_) split.symm
      congr 2
      funext slot
      by_cases same : slot.1 = key <;> simp [survives, same]
  | allBuckets =>
      simp only [Buckets.slots_put, Buckets.slots_erase, Buckets.slots_retain,
        pruneDeadSlots]
      refine (push _ _).trans (.cons _ ?_)
      have split := parts.filter (table.survives .allBuckets key)
      rw [List.filter_append, target _ (by simp [survives]),
        Buckets.slots_erase, List.filter_filter] at split
      refine .trans (.of_eq ?_) split.symm
      rw [List.filter_filter, List.filter_filter]
      congr 2
      funext slot
      by_cases same : slot.1 = key <;> simp [survives, same]

theorem nodup_keys_publishedBuckets (distinct : table.buckets.keys.Nodup)
    (key : BucketKey) (reclaim : ReclaimPlan) (atom : Nat) :
    (table.publishedBuckets key reclaim atom).keys.Nodup := by
  rw [publishedBuckets]
  have erased := Buckets.nodup_keys_erase distinct key
  cases reclaim.scope with
  | none => exact Buckets.nodup_keys_put erased _ _
  | targetBucket => exact Buckets.nodup_keys_put erased _ _
  | allBuckets =>
      exact Buckets.nodup_keys_put (Buckets.nodup_keys_retain erased _) _ _

/-- The planned number of slots is the number that is reclaimed. -/
structure Plans (table : AtomTable) (key : BucketKey)
    (reclaim : ReclaimPlan) : Prop where
  total : table.usage.internerSlots - reclaim.totalDead =
    (table.buckets.slots.filter (table.survives reclaim.scope key)).length
  room : table.usage.internerSlots - reclaim.totalDead <
      table.limits.maxInternerSlots.toNat ∨
    table.usage.internerSlots - reclaim.totalDead =
      (table.buckets.slots.filter fun slot => table.isLive slot.2).length

theorem plans_nothing (sound : table.Sound hasher) (key : BucketKey)
    (room : table.usage.internerSlots < table.limits.maxInternerSlots.toNat) :
    table.Plans key .nothing := by
  refine ⟨?_, .inl room⟩
  rw [ReclaimPlan.nothing, filter_survives_none, ← sound.slots]
  rfl

theorem length_bucket_le_slots (distinct : table.buckets.keys.Nodup)
    (key : BucketKey) :
    (table.buckets.bucket key).length ≤ table.buckets.slots.length := by
  have parts := (Buckets.slots_perm distinct key).length_eq
  rw [List.length_append, List.length_map] at parts
  omega

theorem planReclaim_plans (sound : table.Sound hasher) (key : BucketKey) :
    table.Plans key (table.planReclaim key) := by
  have bounded := sound.bounded
  have target := length_bucket_le_slots sound.keys key
  have dead := table.deadSlots_eq (Nat.le_trans target bounded)
  have parts := Buckets.slots_perm sound.keys key
  have reclaimed : table.usage.internerSlots -
      table.deadSlots (table.buckets.bucket key) =
        (table.buckets.slots.filter
          (table.survives .targetBucket key)).length := by
    have split := (parts.filter (table.survives .targetBucket key)).length_eq
    have whole := parts.length_eq
    have kept : (table.buckets.erase key).slots.filter
        (table.survives .targetBucket key) =
          (table.buckets.erase key).slots := by
      rw [Buckets.slots_erase, List.filter_filter]
      congr 1
      funext slot
      by_cases same : slot.1 = key <;> simp [survives, same]
    have live : ((table.buckets.bucket key).map fun item =>
        (key, item)).filter (table.survives .targetBucket key) =
          ((table.buckets.bucket key).filter table.isLive).map
            fun item => (key, item) := by
      rw [List.filter_map]
      congr 2
      funext item
      simp [survives]
    have fewer := List.length_filter_le table.isLive (table.buckets.bucket key)
    rw [List.filter_append, kept, live, List.length_append,
      List.length_map] at split
    rw [List.length_append, List.length_map] at whole
    rw [dead, deadCount_eq, sound.slots]
    omega
  unfold planReclaim
  simp only
  split
  · rename_i room
    split
    · rename_i none
      rw [none] at room
      exact plans_nothing sound key room
    · exact ⟨reclaimed, .inl room⟩
  · have total : table.usage.internerSlots -
        table.buckets.foldl (fun total bucket =>
          saturatingAdd total (table.deadSlots bucket.2)) 0 =
        (table.buckets.slots.filter fun slot =>
          table.isLive slot.2).length := by
      have each : ∀ bucket ∈ table.buckets, table.deadSlots bucket.2 =
          table.deadCount bucket.2 :=
        fun bucket member => table.deadSlots_eq
          (Nat.le_trans (length_bucket_le member) bounded)
      have counted := table.foldl_deadCount bounded each
      rw [counted, sound.slots_sub_deadCount]
    exact ⟨total, .inr total⟩

/-- An atom with new content gets an entry and a slot. -/
theorem publish_sound (sound : table.Sound hasher) {space : InternNamespace}
    {description : List UInt16} {predefined : Option Nat}
    {reclaim : ReclaimPlan} {usage : AtomUsage}
    (plans : table.Plans (bucketKey hasher space description) reclaim)
    (fresh : ∀ atom ∈ table.live,
      ¬ Interned table.entries atom space description)
    (same : usage = ⟨table.usage.liveAtoms + 1,
      table.usage.liveDescriptionCodeUnits + description.length,
      table.usage.internerSlots - reclaim.totalDead + 1⟩)
    (atoms : usage.liveAtoms ≤ table.limits.maxLiveAtoms.toNat)
    (units : usage.liveDescriptionCodeUnits ≤
      table.limits.maxLiveDescriptionCodeUnits.toNat)
    (slots : usage.internerSlots ≤ table.limits.maxInternerSlots.toNat) :
    (table.publishInternedPrepared (bucketKey hasher space description)
      description predefined reclaim usage).1.SoundWith hasher
        table.entries.length := by
  have perm := table.publishedBuckets_perm sound.keys
    (bucketKey hasher space description) reclaim table.entries.length
  have sameSpace : ∀ {other : InternNamespace},
      space.atomKind = other.atomKind → space = other := by
    intro other
    cases space <;> cases other <;> simp [InternNamespace.atomKind]
  have new : ∀ slot ∈ table.buckets.slots,
      slot.2 ≠ table.entries.length := by
    intro slot member here
    obtain ⟨_, interned, _⟩ := sound.placed slot member
    exact Nat.ne_of_lt (interned_lt interned) here
  refine sound.insert (by simp) (nodup_keys_publishedBuckets sound.keys _ _ _)
    ?_ ?_ ?_ ?_ ?_ ?_ ?_ ?_ atoms units slots
  · rw [perm.nodup_iff, List.nodup_cons]
    refine ⟨?_, sound.once.filter _⟩
    intro member
    exact new _ (List.mem_filter.mp member).1 rfl
  · intro slot member
    rw [perm.mem_iff, List.mem_cons] at member
    rcases member with rfl | kept
    · exact .inr ⟨space, description, rfl, rfl, rfl⟩
    · exact .inl (List.mem_filter.mp kept).1
  · intro slot member live
    have alive := (table.isLive_iff slot.2).mpr live
    rw [perm.mem_iff, List.mem_cons, List.mem_filter]
    refine .inr ⟨member, ?_⟩
    unfold survives
    split
    · rfl
    · rw [alive, Bool.or_true]
    · exact alive
  · intro other text kind textSame
    obtain rfl := sameSpace kind
    cases textSame
    rw [perm.mem_iff]
    exact List.mem_cons_self
  · intro atom live other text kind textSame
    obtain rfl := sameSpace kind
    cases textSame
    exact fresh atom live
  · rw [same]
    rfl
  · rw [same]
    rfl
  · rw [same, perm.length_eq, List.length_cons]
    exact congrArg (· + 1) plans.total

theorem mem_of_findInterned {key : BucketKey} {description : List UInt16}
    {atom : Nat} (found : table.findInterned key description = some atom) :
    atom ∈ table.live ∧ Interned table.entries atom key.space description := by
  have holds := List.find?_some found
  rw [holdsDescription, Bool.and_eq_true] at holds
  obtain ⟨entry, reached, matching⟩ := (Option.any_eq_true _ _).mp holds.2
  simp only [Bool.and_eq_true, decide_eq_true_eq] at matching
  exact ⟨(table.isLive_iff atom).mp holds.1, entry, reached, matching⟩

/-- A live atom with this content is the one that is found. -/
theorem findInterned_eq (sound : table.Sound hasher) {atom : Nat}
    (live : atom ∈ table.live) {space : InternNamespace}
    {description : List UInt16}
    (interned : Interned table.entries atom space description) :
    table.findInterned (bucketKey hasher space description) description =
      some atom := by
  have slot := sound.found atom live space description interned
  rw [Buckets.mem_slots_iff sound.keys] at slot
  cases found : table.findInterned (bucketKey hasher space description)
      description with
  | some other =>
      obtain ⟨otherLive, otherInterned⟩ := mem_of_findInterned found
      rw [sound.unique atom live other otherLive space description interned
        otherInterned]
  | none =>
      exfalso
      have missed := List.find?_eq_none.mp found atom slot
      apply missed
      obtain ⟨entry, reached, kind, text⟩ := interned
      rw [holdsDescription, (table.isLive_iff atom).mpr live, reached]
      simp [kind, text, bucketKey]

/-- Interning finds the live atom of the content, creates it, or is refused
by a ceiling that leaves no room. -/
theorem internDescription_cases (sound : table.Sound hasher)
    (space : InternNamespace) (description : List UInt16) :
    (∃ atom ∈ table.live, Interned table.entries atom space description ∧
        table.internDescription hasher space description = .ok (table, atom)) ∨
      (∃ next, table.internDescription hasher space description =
          .ok (next, table.entries.length) ∧
        next.handles = table.handles ∧ next.predefined = table.predefined ∧
        (∀ atom ∈ table.live, ¬ Interned table.entries atom space description) ∧
        Interned next.entries table.entries.length space description ∧
        next.SoundWith hasher table.entries.length) ∨
      (∃ error, table.internDescription hasher space description =
          .error error ∧
        (∀ atom ∈ table.live, ¬ Interned table.entries atom space description) ∧
        ∀ current additional maximum,
          error = .internerSlotLimit current additional maximum →
            table.limits.maxInternerSlots.toNat ≤
              (table.buckets.slots.filter fun slot =>
                table.isLive slot.2).length) := by
  unfold internDescription
  simp only
  cases found : table.findInterned (bucketKey hasher space description)
      description with
  | some atom =>
      obtain ⟨live, interned⟩ := mem_of_findInterned found
      exact .inl ⟨atom, live, interned, rfl⟩
  | none =>
      right
      have fresh : ∀ atom ∈ table.live,
          ¬ Interned table.entries atom space description := by
        intro atom live interned
        rw [findInterned_eq sound live interned] at found
        cases found
      have plans := planReclaim_plans sound (bucketKey hasher space description)
      rcases table.checkedUsage_cases 1 description.length 1
          (table.planReclaim (bucketKey hasher space description)).totalDead with
        ⟨usage, allowed, same, atoms, units, slots⟩ | ⟨error, refused, why⟩
      · left
        rw [allowed]
        refine ⟨_, rfl, rfl, rfl, fresh, ?_,
          publish_sound sound plans fresh same atoms units slots⟩
        exact interned_last.mpr ⟨rfl, rfl⟩
      · right
        rw [refused]
        refine ⟨error, rfl, fresh, ?_⟩
        intro current additional maximum limit
        have exceeded := why current additional maximum limit
        rcases plans.room with room | exactly
        · omega
        · rw [← exactly]
          omega

theorem swapRemove_perm {bucket : List Nat} {index : Nat}
    (inside : index < bucket.length) :
    (swapRemove bucket index).Perm (bucket.eraseIdx index) := by
  obtain ⟨init, last, rfl⟩ : ∃ init last, bucket = init ++ [last] := by
    induction bucket using List.reverseRecOn with
    | nil => cases inside
    | append_singleton init last _ => exact ⟨init, last, rfl⟩
  rw [swapRemove, List.getLast?_concat]
  simp only
  by_cases early : index < init.length
  · rw [List.set_append_left _ _ early, List.dropLast_concat,
      List.eraseIdx_append_of_lt_length early]
    exact (List.set_perm_cons_eraseIdx early last).trans
      (List.perm_append_singleton _ _).symm
  · have atEnd : index = init.length := by
      rw [List.length_append, List.length_singleton] at inside
      omega
    subst atEnd
    rw [List.set_append_right _ _ (Nat.le_refl _), Nat.sub_self,
      List.set_cons_zero, List.dropLast_concat,
      List.eraseIdx_append_of_length_le (Nat.le_refl _), Nat.sub_self]
    simp

theorem removeSlot_sound (sound : table.Sound hasher) (key : BucketKey)
    (atom : Nat) : (table.removeSlot key atom).Sound hasher := by
  unfold removeSlot
  simp only
  split
  · exact sound
  · rename_i index located
    obtain ⟨inside, matching, _⟩ := List.findIdx?_eq_some_iff_getElem.mp located
    rw [Bool.and_eq_true, beq_iff_eq, beq_iff_eq] at matching
    obtain ⟨here, dead⟩ := matching
    have swapped := swapRemove_perm inside
    generalize keptIs : swapRemove (table.buckets.bucket key) index = kept at *
    have target : (table.buckets.bucket key).Perm (atom :: kept) := by
      have whole := (List.getElem_cons_eraseIdx_perm inside).symm
      rw [here] at whole
      exact whole.trans (.cons _ swapped.symm)
    have rest : table.buckets.slots.Perm ((key, atom) ::
        ((kept.map fun item => (key, item)) ++
          (table.buckets.erase key).slots)) :=
      (Buckets.slots_perm sound.keys key).trans
        ((target.map _).append_right _)
    have left : (if kept.isEmpty = true then table.buckets.erase key
        else table.buckets.put key kept).slots =
          (kept.map fun item => (key, item)) ++
            (table.buckets.erase key).slots := by
      split
      · rename_i empty
        rw [List.isEmpty_iff.mp empty, List.map_nil, List.nil_append]
      · exact Buckets.slots_put _ _ _
    have keys : (if kept.isEmpty = true then table.buckets.erase key
        else table.buckets.put key kept).keys.Nodup := by
      split
      · exact Buckets.nodup_keys_erase sound.keys key
      · exact Buckets.nodup_keys_put sound.keys key kept
    rw [← left] at rest
    generalize (if kept.isEmpty = true then table.buckets.erase key
      else table.buckets.put key kept) = buckets at *
    have notLive : atom ∉ table.live := by
      rw [← table.isLive_iff, isLive, ← here, dead]
      simp
    have result := sound.reclaim keys
      (by
        have once := rest.nodup_iff.mp sound.once
        exact (List.nodup_cons.mp once).2)
      (by
        intro slot member
        exact rest.mem_iff.mpr (List.mem_cons_of_mem _ member))
      (by
        intro slot member live
        rcases List.mem_cons.mp (rest.mem_iff.mp member) with rfl | kept
        · exact absurd live notLive
        · exact kept)
      (by
        rw [rest.length_eq, List.length_cons]
        exact Nat.le_succ _)
    have count : table.usage.internerSlots - 1 = buckets.slots.length := by
      rw [sound.slots, rest.length_eq, List.length_cons, Nat.add_sub_cancel]
    rw [decreaseInternerSlots_eq, Sound]
    simp only [count]
    exact result

theorem rollbackInternedString_sound (sound : table.Sound hasher)
    {position atom : Nat} (held : table.handles[position]? = some atom)
    (entry : AtomEntry) :
    (table.rollbackInternedString hasher position atom entry).Sound hasher := by
  have dropped := dropHandle_sound sound held
  unfold rollbackInternedString
  simp only
  split
  · exact dropped
  · split
    · exact dropped
    · exact removeSlot_sound dropped _ _

end AtomTable

end Fusor.Runtime
