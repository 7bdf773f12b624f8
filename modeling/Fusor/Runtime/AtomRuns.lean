import Fusor.Runtime.AtomInvariants
import Fusor.Runtime.StringIteration

/-!
# Runs of the atom table

Every operation keeps the accounts of the table.  A table that was created
with its predefined atoms keeps them through any sequence of operations, and
every call answers as interning by content should.
-/

namespace Fusor.Runtime

open Collections

namespace AtomOperation

/-- The namespace and the content that an operation interns. -/
def interns : AtomOperation → Option (InternNamespace × List UInt16)
  | internString description => some (.string, description.codeUnits)
  | internGlobalSymbol description =>
      some (.globalSymbol, description.codeUnits)
  | _ => none

/-- The operation creates an atom of its own. -/
def creates : AtomOperation → Bool
  | newUniqueSymbol _ => true
  | newPrivateName _ => true
  | _ => false

end AtomOperation

namespace AtomTable

variable {hasher : List Nat → Nat} {table : AtomTable}

/-- Two predefined strings have different texts. -/
def Distinct (first second : PredefinedAtomSpec) : Prop :=
  first.kind = .string → second.kind = .string →
    first.description ≠ second.description

theorem pairwise_predefinedAtomSpecs :
    predefinedAtomSpecs.Pairwise Distinct := by
  have strings : (predefinedStrings.map
      (PredefinedAtomSpec.mk · .string)).Pairwise Distinct := by
    rw [List.pairwise_map]
    have distinct := nodup_predefinedStrings
    rw [List.Nodup, List.pairwise_map] at distinct
    exact distinct.imp fun different _ _ => different
  have others : ∀ spec ∈ PredefinedAtomSpec.mk "<brand>" .privateName ::
      predefinedSymbols.map (PredefinedAtomSpec.mk · .symbol),
        spec.kind ≠ .string := by
    intro spec member
    rcases List.mem_cons.mp member with rfl | symbol
    · simp
    · obtain ⟨_, _, rfl⟩ := List.mem_map.mp symbol
      simp
  rw [predefinedAtomSpecs, List.pairwise_append]
  refine ⟨strings, ?_, ?_⟩
  · apply List.pairwise_of_forall_mem_list
    intro first member _ _ string
    exact absurd string (others first member)
  · intro first _ second member _ string
    exact absurd string (others second member)

/-- No live string atom has the text of the spec. -/
def Missing (table : AtomTable) (spec : PredefinedAtomSpec) : Prop :=
  spec.kind = .string → ∀ atom ∈ table.live,
    ¬ Interned table.entries atom .string spec.description

theorem insertPredefined_sound (sound : table.Sound hasher)
    {spec : PredefinedAtomSpec} (missing : table.Missing spec)
    {index atom : Nat} {next : AtomTable}
    (inserted : table.insertPredefined hasher index spec = .ok (next, atom)) :
    next.SoundWith hasher atom ∧ atom = table.entries.length ∧
      next.live = table.live ∧
      ∃ entry : AtomEntry, next.entries = table.entries ++ [entry] ∧
        (entry.kind = .string → spec.kind = .string ∧
          entry.description = some spec.description) := by
  have unique : ∀ {kind : AtomKind},
      (∀ space : InternNamespace, kind ≠ space.atomKind) →
      table.insertUnique kind (some spec.description) (some index) =
        .ok (next, atom) →
      next.SoundWith hasher atom ∧ atom = table.entries.length ∧
        next.live = table.live ∧
        ∃ entry : AtomEntry, next.entries = table.entries ++ [entry] ∧
          (entry.kind = .string → spec.kind = .string ∧
            entry.description = some spec.description) := by
    intro kind apart created
    obtain ⟨soundNext, here⟩ := insertUnique_sound sound apart created
    rw [insertUnique, Support.bind_eq_ok_iff] at created
    obtain ⟨usage, _, same⟩ := created
    cases same
    refine ⟨soundNext, rfl, rfl, _, rfl, fun string => ?_⟩
    exact absurd string (apart .string)
  unfold insertPredefined at inserted
  split at inserted
  · rename_i string
    rw [publishInterned, Support.bind_eq_ok_iff] at inserted
    obtain ⟨usage, checked, same⟩ := inserted
    cases same
    rcases table.checkedUsage_cases 1 spec.description.length 1 0 with
      ⟨nextUsage, allowed, same, atoms, units, slots⟩ | ⟨_, refused, _⟩
    · rw [checkedUsageAfter, allowed] at checked
      cases checked
      have room : table.usage.internerSlots <
          table.limits.maxInternerSlots.toNat := by
        rw [same] at slots
        exact slots
      refine ⟨publish_sound sound (plans_nothing sound _ room)
        (missing string) same atoms units slots, rfl, rfl, _, rfl, ?_⟩
      exact fun _ => ⟨string, rfl⟩
    · rw [checkedUsageAfter, refused] at checked
      cases checked
  · exact unique (by intro space; cases space <;> simp [InternNamespace.atomKind])
      inserted
  · exact unique (by intro space; cases space <;> simp [InternNamespace.atomKind])
      inserted

theorem installPredefined_sound {specs : List PredefinedAtomSpec}
    (sound : table.Sound hasher) (distinct : specs.Pairwise Distinct)
    (missing : ∀ spec ∈ specs, table.Missing spec) {final : AtomTable}
    (installed : table.installPredefined hasher specs = .ok final) :
    final.Sound hasher := by
  induction specs generalizing table with
  | nil =>
      cases installed
      exact sound
  | cons spec specs induction =>
      rw [List.pairwise_cons] at distinct
      rw [installPredefined, Support.bind_eq_ok_iff] at installed
      obtain ⟨⟨next, atom⟩, inserted, rest⟩ := installed
      obtain ⟨soundNext, rfl, live, entry, entries, string⟩ :=
        insertPredefined_sound sound (missing spec List.mem_cons_self) inserted
      have grown := live_install next table.entries.length
      refine induction ?_ distinct.2 ?_ rest
      · rw [Sound, grown]
        exact soundNext
      · intro other member otherString found foundLive interned
        rw [grown, live, Finset.mem_insert] at foundLive
        simp only [entries] at interned
        rcases foundLive with rfl | old
        · obtain ⟨kind, text⟩ := interned_last.mp interned
          obtain ⟨specString, same⟩ := string kind
          rw [text, Option.some.injEq] at same
          exact distinct.1 other member specString otherString same.symm
        · exact missing other (List.mem_cons_of_mem _ member) otherString found
            old ((interned_append (sound.owned found old)).mp interned)

theorem tryNew_sound {limits : AtomLimits}
    (created : tryNew hasher limits = .ok table) : table.Sound hasher := by
  have installed : AtomTable.installPredefined hasher
      ⟨[], ⟨0, 0, 0⟩, limits, [], [], []⟩ predefinedAtomSpecs = .ok table := by
    unfold tryNew at created
    simp only [bind, Except.bind] at created
    split at created
    · cases created
    · split at created
      · cases created
      · exact created
  refine installPredefined_sound ?_ pairwise_predefinedAtomSpecs ?_ installed
  · refine ⟨?_, ?_, List.nodup_nil, List.nodup_nil, ?_, ?_, ?_, rfl, rfl, rfl,
      Nat.zero_le _, Nat.zero_le _, Nat.zero_le _⟩
    · intro atom member
      simp [live] at member
    · intro entry member
      cases member
    · intro slot member
      cases member
    · intro atom member
      simp [live] at member
    · intro atom member
      simp [live] at member
  · intro spec _ _ atom member
    simp [live] at member

/-- A live atom gets one more handle. -/
theorem handle_sound (sound : table.Sound hasher) {atom : Nat}
    (live : atom ∈ table.live) :
    Sound hasher { table with handles := atom :: table.handles } := by
  rw [Sound, live_handOut, Finset.insert_eq_of_mem live]
  exact sound

theorem intern_sound (sound : table.Sound hasher) (space : InternNamespace)
    (description : List UInt16) :
    (table.handOut
      (table.internDescription hasher space description)).1.Sound hasher := by
  rcases internDescription_cases sound space description with
    ⟨atom, live, _, found⟩ | ⟨next, created, _, _, _, _, soundNext⟩ |
      ⟨error, refused, _⟩
  · rw [found]
    exact handle_sound sound live
  · rw [created, handOut, Sound, live_handOut]
    exact soundNext
  · rw [refused]
    exact sound

theorem unique_sound (sound : table.Sound hasher) {kind : AtomKind}
    (apart : ∀ space : InternNamespace, kind ≠ space.atomKind)
    (description : Option (List UInt16)) :
    (table.handOut (table.insertUnique kind description none)).1.Sound
      hasher := by
  cases inserted : table.insertUnique kind description none with
  | error error => exact sound
  | ok created =>
      obtain ⟨next, atom⟩ := created
      rw [handOut, Sound, live_handOut]
      exact (insertUnique_sound sound apart inserted).1

theorem live_of_handle {position atom : Nat}
    (held : table.handles[position]? = some atom) : atom ∈ table.live := by
  rw [live, List.mem_toFinset]
  exact List.mem_append_left _ (List.mem_of_getElem? held)

theorem step_sound (sound : table.Sound hasher) (operation : AtomOperation) :
    (table.step hasher operation).1.Sound hasher := by
  cases operation with
  | internString description => exact intern_sound sound _ _
  | internGlobalSymbol description => exact intern_sound sound _ _
  | newUniqueSymbol description =>
      apply unique_sound sound
      intro space
      cases space <;> simp [InternNamespace.atomKind]
  | newPrivateName description =>
      apply unique_sound sound
      intro space
      cases space <;> simp [InternNamespace.atomKind]
  | predefined index =>
      rw [step]
      split
      · exact sound
      · rename_i atom kept
        apply handle_sound sound
        rw [live, List.mem_toFinset]
        exact List.mem_append_right _ (List.mem_of_getElem? kept)
  | clone position =>
      rw [step]
      split
      · exact sound
      · rename_i held
        exact handle_sound sound (live_of_handle held)
  | drop position =>
      rw [step]
      split
      · exact sound
      · rename_i held
        exact dropHandle_sound sound held
  | collectDead => exact collectDead_sound sound
  | rollbackInternedString position =>
      rw [step]
      split
      · exact sound
      · rename_i held
        split
        · exact sound
        · split
          · exact rollbackInternedString_sound sound held _
          · exact sound

theorem run_keeps_sound (sound : table.Sound hasher)
    (operations : List AtomOperation) :
    (table.run hasher operations).1.Sound hasher := by
  induction operations generalizing table with
  | nil => exact sound
  | cons operation operations induction =>
      exact induction (step_sound sound operation)

/-- How the next call answers. -/
structure Answers (hasher : List Nat → Nat) (table : AtomTable)
    (operation : AtomOperation) : Prop where
  unchanged : ∀ error, (table.step hasher operation).2 = .failed error →
    (table.step hasher operation).1 = table
  full : ∀ current additional maximum,
    (table.step hasher operation).2 =
        .failed (.internerSlotLimit current additional maximum) →
      table.limits.maxInternerSlots.toNat ≤
        (table.buckets.slots.filter fun slot => table.isLive slot.2).length
  same : ∀ space description atom,
    operation.interns = some (space, description) → atom ∈ table.live →
      Interned table.entries atom space description →
        (table.step hasher operation).2 = .atom atom
  content : ∀ space description atom,
    operation.interns = some (space, description) →
      (table.step hasher operation).2 = .atom atom →
        Interned (table.step hasher operation).1.entries atom space description
  fresh : operation.creates = true → ∀ atom,
    (table.step hasher operation).2 = .atom atom →
      atom ∉ table.live ∧ ∀ slot ∈ table.buckets.slots, slot.2 ≠ atom

theorem handOut_failed {result : Except AtomError (AtomTable × Nat)}
    {error : AtomError} (failed : (table.handOut result).2 = .failed error) :
    result = .error error ∧ (table.handOut result).1 = table := by
  cases result with
  | error other =>
      cases failed
      exact ⟨rfl, rfl⟩
  | ok created => cases failed

theorem intern_answers (sound : table.Sound hasher)
    {operation : AtomOperation} {space : InternNamespace}
    {description : List UInt16}
    (interns : operation.interns = some (space, description))
    (creates : operation.creates = false)
    (stepped : table.step hasher operation =
      table.handOut (table.internDescription hasher space description)) :
    table.Answers hasher operation := by
  constructor
  · intro error failed
    rw [stepped] at failed ⊢
    exact (handOut_failed failed).2
  · intro current additional maximum failed
    rw [stepped] at failed
    have refused := (handOut_failed failed).1
    rcases internDescription_cases sound space description with
      ⟨_, _, _, found⟩ | ⟨_, created, _⟩ | ⟨error, other, _, full⟩
    · rw [found] at refused
      cases refused
    · rw [created] at refused
      cases refused
    · rw [other] at refused
      cases refused
      exact full current additional maximum rfl
  · intro otherSpace otherDescription atom same live interned
    rw [interns] at same
    cases same
    rw [stepped]
    rcases internDescription_cases sound space description with
      ⟨found, foundLive, foundInterned, result⟩ | ⟨_, _, _, _, none, _⟩ |
        ⟨_, _, none, _⟩
    · rw [result, sound.unique atom live found foundLive space description
        interned foundInterned]
      rfl
    · exact absurd interned (none atom live)
    · exact absurd interned (none atom live)
  · intro otherSpace otherDescription atom same answer
    rw [interns] at same
    cases same
    rw [stepped] at answer ⊢
    rcases internDescription_cases sound space description with
      ⟨found, _, interned, result⟩ | ⟨next, result, _, _, _, interned, _⟩ |
        ⟨_, result, _⟩
    · rw [result] at answer ⊢
      cases answer
      exact interned
    · rw [result] at answer ⊢
      cases answer
      exact interned
    · rw [result] at answer
      cases answer
  · intro creating
    rw [creates] at creating
    cases creating

theorem unique_answers (sound : table.Sound hasher)
    {operation : AtomOperation} {kind : AtomKind}
    {description : Option (List UInt16)}
    (apart : ∀ space : InternNamespace, kind ≠ space.atomKind)
    (interns : operation.interns = none)
    (stepped : table.step hasher operation =
      table.handOut (table.insertUnique kind description none)) :
    table.Answers hasher operation := by
  constructor
  · intro error failed
    rw [stepped] at failed ⊢
    exact (handOut_failed failed).2
  · intro current additional maximum failed
    rw [stepped] at failed
    have refused := (handOut_failed failed).1
    have within := sound.slotLimit
    rw [insertUnique] at refused
    rcases table.checkedUsage_cases 1 (description.elim 0 List.length) 0 0 with
      ⟨_, allowed, _⟩ | ⟨error, limited, why⟩
    · rw [checkedUsageAfter, allowed] at refused
      cases refused
    · rw [checkedUsageAfter, limited] at refused
      cases refused
      have exceeded := why current additional maximum rfl
      omega
  · intro space text atom same
    rw [interns] at same
    cases same
  · intro space text atom same
    rw [interns] at same
    cases same
  · intro _ atom answer
    rw [stepped] at answer
    cases inserted : table.insertUnique kind description none with
    | error error =>
        rw [inserted] at answer
        cases answer
    | ok created =>
        obtain ⟨next, new⟩ := created
        rw [inserted] at answer
        cases answer
        obtain ⟨_, rfl⟩ := insertUnique_sound sound apart inserted
        refine ⟨fun member => Nat.lt_irrefl _ (sound.owned _ member), ?_⟩
        intro slot member
        obtain ⟨_, interned, _⟩ := sound.placed slot member
        exact Nat.ne_of_lt (interned_lt interned)

/-- An operation that neither interns nor creates never fails. -/
theorem other_answers {operation : AtomOperation}
    (interns : operation.interns = none) (creates : operation.creates = false)
    (succeeds : ∀ error, (table.step hasher operation).2 ≠ .failed error) :
    table.Answers hasher operation := by
  constructor
  · intro error failed
    exact absurd failed (succeeds error)
  · intro current additional maximum failed
    exact absurd failed (succeeds _)
  · intro space text atom same
    rw [interns] at same
    cases same
  · intro space text atom same
    rw [interns] at same
    cases same
  · intro creating
    rw [creates] at creating
    cases creating

theorem step_answers (sound : table.Sound hasher) (operation : AtomOperation) :
    table.Answers hasher operation := by
  have symbolApart : ∀ space : InternNamespace,
      AtomKind.symbol ≠ space.atomKind := by
    intro space
    cases space <;> simp [InternNamespace.atomKind]
  have privateApart : ∀ space : InternNamespace,
      AtomKind.privateName ≠ space.atomKind := by
    intro space
    cases space <;> simp [InternNamespace.atomKind]
  cases operation with
  | internString description => exact intern_answers sound rfl rfl rfl
  | internGlobalSymbol description => exact intern_answers sound rfl rfl rfl
  | newUniqueSymbol description =>
      exact unique_answers sound symbolApart rfl rfl
  | newPrivateName description =>
      exact unique_answers sound privateApart rfl rfl
  | predefined index =>
      apply other_answers rfl rfl
      intro error
      rw [step]
      split <;> simp
  | clone position =>
      apply other_answers rfl rfl
      intro error
      rw [step]
      split <;> simp
  | drop position =>
      apply other_answers rfl rfl
      intro error
      rw [step]
      split <;> simp
  | collectDead =>
      apply other_answers rfl rfl
      intro error
      simp [step]
  | rollbackInternedString position =>
      apply other_answers rfl rfl
      intro error
      rw [step]
      split
      · simp
      · split
        · simp
        · split <;> simp

/-- What the counters give up is never more than they hold. -/
structure Exact (table : AtomTable) : Prop where
  atoms : ∀ atom ∈ table.live, 1 ≤ table.usage.liveAtoms
  units : ∀ atom ∈ table.live, unitsOf table.entries atom ≤
    table.usage.liveDescriptionCodeUnits
  slots : table.deadCount (table.buckets.slots.map Prod.snd) ≤
    table.usage.internerSlots
  bucket : ∀ key, table.deadSlots (table.buckets.bucket key) ≤
    table.usage.internerSlots

theorem Sound.exactness (sound : table.Sound hasher) : table.Exact := by
  constructor
  · intro atom member
    rw [sound.liveAtoms]
    exact Finset.card_pos.mpr ⟨atom, member⟩
  · intro atom member
    rw [sound.liveUnits]
    exact Finset.single_le_sum (fun _ _ => Nat.zero_le _) member
  · rw [sound.slots]
    exact Nat.le_trans List.countP_le_length (Nat.le_of_eq (List.length_map _))
  · intro key
    have target := length_bucket_le_slots sound.keys key
    rw [table.deadSlots_eq (Nat.le_trans target sound.bounded), sound.slots]
    exact Nat.le_trans List.countP_le_length target

/-- After any operations on a new table its accounts are right, and any next
call answers as interning by content should. -/
theorem run_accounts {hasher : List Nat → Nat} {limits : AtomLimits}
    {table : AtomTable} (created : tryNew hasher limits = .ok table)
    (operations : List AtomOperation) :
    let final := (table.run hasher operations).1
    final.Sound hasher ∧ final.Exact ∧
      ∀ operation, final.Answers hasher operation := by
  have sound := run_keeps_sound (tryNew_sound created) operations
  exact ⟨sound, sound.exactness, step_answers sound⟩

/-- The limits leave room for so many more atoms, units and slots. -/
structure Room (table : AtomTable) (atoms units slots : Nat) : Prop where
  atoms : table.usage.liveAtoms + atoms ≤ table.limits.maxLiveAtoms.toNat
  units : table.usage.liveDescriptionCodeUnits + units ≤
    table.limits.maxLiveDescriptionCodeUnits.toNat
  slots : table.usage.internerSlots + slots ≤
    table.limits.maxInternerSlots.toNat

theorem Room.checkedUsageAfter {atoms units slots : Nat}
    (room : table.Room atoms units slots) :
    table.checkedUsageAfter atoms units slots =
      .ok ⟨table.usage.liveAtoms + atoms,
        table.usage.liveDescriptionCodeUnits + units,
        table.usage.internerSlots + slots⟩ := by
  obtain ⟨atoms, units, slots⟩ := room
  have limited := table.limits.maxLiveAtoms.toNat_lt
  have described := table.limits.maxLiveDescriptionCodeUnits.toNat_lt
  have word := table.limits.maxInternerSlots.toNat_lt
  unfold AtomTable.checkedUsageAfter checkedUsageAfterReclaim
  simp only [Nat.sub_zero]
  rw [if_neg (by omega), if_neg (by omega), if_neg (by omega)]

theorem insertPredefined_of_room (hasher : List Nat → Nat)
    (table : AtomTable) (index : Nat) (spec : PredefinedAtomSpec)
    (room : table.Room 1 spec.description.length
      (if spec.kind = .string then 1 else 0)) :
    ∃ next atom, table.insertPredefined hasher index spec =
        .ok (next, atom) ∧ next.limits = table.limits ∧
      next.usage = ⟨table.usage.liveAtoms + 1,
        table.usage.liveDescriptionCodeUnits + spec.description.length,
        table.usage.internerSlots +
          if spec.kind = .string then 1 else 0⟩ := by
  have checked := room.checkedUsageAfter
  cases kind : spec.kind with
  | string =>
      rw [kind, if_pos rfl] at checked
      rw [insertPredefined, kind, publishInterned, checked]
      exact ⟨_, _, rfl, rfl, rfl⟩
  | privateName | symbol =>
      rw [kind, if_neg (by decide)] at checked
      simp only [insertPredefined, kind, insertUnique, Option.elim_some,
        checked]
      exact ⟨_, _, rfl, rfl, rfl⟩

theorem installPredefined_of_room (hasher : List Nat → Nat)
    (specs : List PredefinedAtomSpec) (table : AtomTable)
    (room : table.Room specs.length
      (specs.map (·.description.length)).sum
      (specs.countP (·.kind = .string))) :
    ∃ next, table.installPredefined hasher specs = .ok next ∧
      next.usage = ⟨table.usage.liveAtoms + specs.length,
        table.usage.liveDescriptionCodeUnits +
          (specs.map (·.description.length)).sum,
        table.usage.internerSlots + specs.countP (·.kind = .string)⟩ := by
  induction specs generalizing table with
  | nil => exact ⟨table, rfl, rfl⟩
  | cons spec specs ih =>
      simp only [List.length_cons, List.map_cons, List.sum_cons,
        List.countP_cons, decide_eq_true_eq] at room ⊢
      obtain ⟨atoms, units, slots⟩ := room
      obtain ⟨next, atom, inserted, limits, usage⟩ :=
        insertPredefined_of_room hasher table table.predefined.length spec
          ⟨by omega, by omega, by omega⟩
      have left : Room { next with predefined := next.predefined ++ [atom] }
          specs.length (specs.map (·.description.length)).sum
          (specs.countP (·.kind = .string)) := by
        constructor <;> simp only [limits, usage] <;> omega
      obtain ⟨final, installed, total⟩ := ih _ left
      refine ⟨final, ?_, ?_⟩
      · rw [installPredefined, inserted]
        exact installed
      · rw [total, usage]
        simp only [AtomUsage.mk.injEq]
        omega

theorem tryNew_of_limits (hasher : List Nat → Nat) {limits : AtomLimits}
    (atoms : predefinedAtomCount ≤ limits.maxLiveAtoms.toNat)
    (representable : limits.maxLiveAtoms.toNat ≤ maxAtomEntries)
    (units : predefinedDescriptionCodeUnits ≤
      limits.maxLiveDescriptionCodeUnits.toNat)
    (slots : predefinedInternerSlots ≤ limits.maxInternerSlots.toNat) :
    ∃ table, tryNew hasher limits = .ok table ∧
      table.usage = ⟨predefinedAtomCount, predefinedDescriptionCodeUnits,
        predefinedInternerSlots⟩ := by
  have length : predefinedAtomSpecs.length = 244 := by decide +kernel
  have strings : predefinedAtomSpecs.countP (·.kind = .string) = 228 := by
    decide +kernel
  obtain ⟨table, installed, usage⟩ :=
    installPredefined_of_room hasher predefinedAtomSpecs
      ⟨[], ⟨0, 0, 0⟩, limits, [], [], []⟩
      ⟨by rw [length, Nat.zero_add]; exact atoms,
        by rw [sum_predefinedAtomSpecs, Nat.zero_add]; exact units,
        by rw [strings, Nat.zero_add]; exact slots⟩
  rw [length, sum_predefinedAtomSpecs, strings] at usage
  refine ⟨table, ?_, usage⟩
  rw [tryNew, if_neg (by omega), validateStartupLimits, if_neg (by omega),
    if_neg (by omega), if_neg (by omega)]
  exact installed

/-- A table is created when its limits leave room for the predefined
atoms. -/
theorem exists_tryNew :
    ∃ table, tryNew (fun _ => 0) ⟨1000, 5000, 1000⟩ = .ok table := by
  obtain ⟨table, created, -⟩ : ∃ table,
      tryNew (fun _ => 0) ⟨1000, 5000, 1000⟩ = .ok table ∧ _ :=
    tryNew_of_limits (fun _ => 0) (by decide) (by decide) (by decide)
      (by decide)
  exact ⟨table, created⟩

/-- A text of Latin-1 units. -/
def latin1Text (units : List UInt8)
    (short : units.length ≤ maxStringCodeUnits) : Text where
  string := .latin1 units
  formed := .latin1 short
  readable := JsString.codeUnits_eq (.latin1 short)
    (by simp [JsString.pending, ropeIterStackCapacity])

/-- Two strings of one bucket are interned, one is dropped, collected, interned
again and rolled back. -/
theorem run_accounts_collision :
    let operations : List AtomOperation :=
      [.internString (latin1Text [97] (by decide)),
        .internString (latin1Text [98] (by decide)), .drop 1, .collectDead,
        .internString (latin1Text [97] (by decide)),
        .rollbackInternedString 0]
    ∃ table, tryNew (fun _ => 0) ⟨1000, 5000, 1000⟩ = .ok table ∧
      ((table.run (fun _ => 0) operations).1).Sound (fun _ => 0) ∧
      ((table.run (fun _ => 0) operations).1).Exact := by
  intro operations
  obtain ⟨table, created⟩ := exists_tryNew
  have accounts := run_accounts created operations
  exact ⟨table, created, accounts.1, accounts.2.1⟩

/-- The limits that are checked before the vocabulary is installed are exactly
those under which it fits, with any hash function. -/
theorem tryNew_isOk_iff (hasher : List Nat → Nat) (limits : AtomLimits) :
    ((∃ table, tryNew hasher limits = .ok table) ↔
      predefinedAtomCount ≤ limits.maxLiveAtoms.toNat ∧
        limits.maxLiveAtoms.toNat ≤ maxAtomEntries ∧
        predefinedDescriptionCodeUnits ≤
          limits.maxLiveDescriptionCodeUnits.toNat ∧
        predefinedInternerSlots ≤ limits.maxInternerSlots.toNat) ∧
      ∀ table, tryNew hasher limits = .ok table →
        table.usage = ⟨predefinedAtomCount, predefinedDescriptionCodeUnits,
          predefinedInternerSlots⟩ := by
  have needed : ∀ table, tryNew hasher limits = .ok table →
      predefinedAtomCount ≤ limits.maxLiveAtoms.toNat ∧
        limits.maxLiveAtoms.toNat ≤ maxAtomEntries ∧
        predefinedDescriptionCodeUnits ≤
          limits.maxLiveDescriptionCodeUnits.toNat ∧
        predefinedInternerSlots ≤ limits.maxInternerSlots.toNat := by
    intro table created
    unfold tryNew validateStartupLimits at created
    simp only [bind, Except.bind] at created
    split at created
    · cases created
    · split at created
      · cases created
      · rename_i checked
        revert checked
        repeat' split
        all_goals
          intro checked
          cases checked
        omega
  constructor
  · constructor
    · rintro ⟨table, created⟩
      exact needed table created
    · rintro ⟨atoms, representable, units, slots⟩
      obtain ⟨table, created, -⟩ :=
        tryNew_of_limits hasher atoms representable units slots
      exact ⟨table, created⟩
  · intro table created
    obtain ⟨atoms, representable, units, slots⟩ := needed table created
    obtain ⟨other, same, usage⟩ :=
      tryNew_of_limits hasher atoms representable units slots
    rw [created] at same
    cases same
    exact usage

end AtomTable

end Fusor.Runtime
