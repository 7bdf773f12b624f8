import Mathlib.Tactic
import Mathlib.Data.List.Perm.Basic
import Mathlib.Data.List.Nodup

/-!
# Buckets under distinct keys

A table from keys to buckets of items, described by the list of its slots: the
pairs of a key and an item in its bucket.  Every change of the table is a
change of this list up to the order of its entries.
-/

namespace Fusor.Collections

abbrev Buckets (K α : Type) := List (K × List α)

namespace Buckets

variable {K α : Type}

def slots (buckets : Buckets K α) : List (K × α) :=
  buckets.flatMap fun bucket => bucket.2.map fun item => (bucket.1, item)

theorem slots_cons (key : K) (items : List α) (buckets : Buckets K α) :
    slots ((key, items) :: buckets) =
      (items.map fun item => (key, item)) ++ buckets.slots :=
  rfl

def keys (buckets : Buckets K α) : List K :=
  buckets.map Prod.fst

/-- Keeps the items with a property, and drops the buckets this empties. -/
def retain (keep : α → Bool) (buckets : Buckets K α) : Buckets K α :=
  (buckets.map fun bucket => (bucket.1, bucket.2.filter keep)).filter
    fun bucket => !bucket.2.isEmpty

variable [DecidableEq K]

def find (buckets : Buckets K α) (key : K) : Option (List α) :=
  (buckets.find? fun bucket => decide (bucket.1 = key)).map Prod.snd

/-- The bucket of a key, empty when there is none. -/
def bucket (buckets : Buckets K α) (key : K) : List α :=
  (buckets.find key).getD []

def erase (buckets : Buckets K α) (key : K) : Buckets K α :=
  buckets.filter fun bucket => decide (bucket.1 ≠ key)

def put (buckets : Buckets K α) (key : K) (items : List α) : Buckets K α :=
  (key, items) :: buckets.erase key

variable {buckets : Buckets K α}

theorem slots_put (buckets : Buckets K α) (key : K) (items : List α) :
    (buckets.put key items).slots =
      (items.map fun item => (key, item)) ++ (buckets.erase key).slots :=
  rfl

omit [DecidableEq K] in
theorem slots_retain (keep : α → Bool) (buckets : Buckets K α) :
    (buckets.retain keep).slots =
      buckets.slots.filter fun slot => keep slot.2 := by
  induction buckets with
  | nil => rfl
  | cons bucket buckets induction =>
      obtain ⟨key, items⟩ := bucket
      have filtered : (items.filter keep).map (fun item => (key, item)) =
          (items.map fun item => (key, item)).filter
            fun slot => keep slot.2 := by
        rw [List.filter_map]
        rfl
      rw [slots_cons, List.filter_append, ← induction, ← filtered]
      unfold retain
      rw [List.map_cons]
      cases kept : items.filter keep with
      | nil => rw [List.filter_cons_of_neg (by simp), List.map_nil,
          List.nil_append]
      | cons item others =>
          rw [List.filter_cons_of_pos (by simp), slots_cons]

theorem slots_erase (buckets : Buckets K α) (key : K) :
    (buckets.erase key).slots =
      buckets.slots.filter fun slot => decide (slot.1 ≠ key) := by
  induction buckets with
  | nil => rfl
  | cons bucket buckets induction =>
      obtain ⟨other, items⟩ := bucket
      rw [slots_cons, List.filter_append, ← induction, List.filter_map, erase]
      by_cases same : other = key
      · rw [List.filter_cons_of_neg (by simpa using same), ← erase,
          List.filter_eq_nil_iff.mpr (by simp [same]), List.map_nil,
          List.nil_append]
      · rw [List.filter_cons_of_pos (by simpa using same), ← erase,
          slots_cons, List.filter_eq_self.mpr (by simp [same])]

theorem nodup_keys_erase (distinct : buckets.keys.Nodup) (key : K) :
    (buckets.erase key).keys.Nodup :=
  distinct.sublist (List.Sublist.map _ List.filter_sublist)

theorem nodup_keys_put (distinct : buckets.keys.Nodup) (key : K)
    (items : List α) : (buckets.put key items).keys.Nodup := by
  rw [put, keys, List.map_cons, List.nodup_cons]
  refine ⟨?_, nodup_keys_erase distinct key⟩
  intro member
  obtain ⟨bucket, kept, same⟩ := List.mem_map.mp member
  have different := (List.mem_filter.mp kept).2
  simp [same] at different

omit [DecidableEq K] in
theorem nodup_keys_retain (distinct : buckets.keys.Nodup)
    (keep : α → Bool) : (buckets.retain keep).keys.Nodup := by
  refine distinct.sublist ?_
  have mapped : (buckets.map fun bucket =>
      (bucket.1, bucket.2.filter keep)).map Prod.fst = buckets.keys := by
    rw [List.map_map]
    rfl
  rw [← mapped]
  exact List.Sublist.map _ List.filter_sublist

theorem bucket_cons (key other : K) (items : List α)
    (buckets : Buckets K α) :
    bucket ((other, items) :: buckets) key =
      if other = key then items else buckets.bucket key := by
  rw [bucket, find, List.find?_cons]
  by_cases same : other = key
  · simp [same]
  · simp [same, bucket, find]

theorem bucket_eq_nil_of_notMem {key : K} (missing : key ∉ buckets.keys) :
    buckets.bucket key = [] := by
  induction buckets with
  | nil => rfl
  | cons entry buckets induction =>
      obtain ⟨other, items⟩ := entry
      rw [keys, List.map_cons, List.mem_cons, not_or] at missing
      rw [bucket_cons, if_neg (Ne.symm missing.1), induction missing.2]

/-- The slots of a key and those of the others. -/
theorem slots_perm (distinct : buckets.keys.Nodup) (key : K) :
    buckets.slots.Perm
      (((buckets.bucket key).map fun item => (key, item)) ++
        (buckets.erase key).slots) := by
  induction buckets with
  | nil => exact .nil
  | cons entry buckets induction =>
      obtain ⟨other, items⟩ := entry
      rw [keys, List.map_cons, List.nodup_cons] at distinct
      have rest := induction distinct.2
      rw [slots_cons, bucket_cons, erase]
      by_cases same : other = key
      · subst same
        rw [if_pos rfl, List.filter_cons_of_neg (by simp), ← erase]
        rw [bucket_eq_nil_of_notMem distinct.1, List.map_nil,
          List.nil_append] at rest
        exact rest.append_left _
      · rw [if_neg same, List.filter_cons_of_pos (by simpa using same),
          ← erase, slots_cons]
        exact (rest.append_left _).trans (List.perm_append_comm_assoc _ _ _)

theorem mem_slots_iff {key : K} (distinct : buckets.keys.Nodup) {item : α} :
    (key, item) ∈ buckets.slots ↔ item ∈ buckets.bucket key := by
  rw [(slots_perm distinct key).mem_iff, List.mem_append]
  constructor
  · rintro (here | other)
    · obtain ⟨found, member, same⟩ := List.mem_map.mp here
      cases same
      exact member
    · obtain ⟨entry, kept, inside⟩ := List.mem_flatMap.mp other
      have different := (List.mem_filter.mp kept).2
      obtain ⟨_, _, same⟩ := List.mem_map.mp inside
      cases same
      simp at different
  · intro member
    exact .inl (List.mem_map.mpr ⟨item, member, rfl⟩)

end Buckets

end Fusor.Collections
