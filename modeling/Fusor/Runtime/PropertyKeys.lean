import Fusor.Runtime.ArrayIndex
import Fusor.Runtime.AtomRuns
import Fusor.Runtime.StringIteration

/-!
# Property keys of strings

A string is either an array index, which needs no atom, or interned.  Entries
of the atom table never change and are only added to, so an atom keeps its
text, and a string whose atom is still owned is given the same atom again.
-/

namespace Fusor.Runtime

inductive PropertyKey where
  | index (index : ArrayIndex)
  | atom (atom : Nat)
  deriving DecidableEq

namespace PropertyKey

/-- The key can still be in use: an atom needs an owner. -/
def Held (table : AtomTable) : PropertyKey → Prop
  | .index _ => True
  | .atom owned => owned ∈ table.live

end PropertyKey

namespace AtomTable

def propertyKeyFromString (hasher : List Nat → Nat) (table : AtomTable)
    (description : Text) : AtomTable × Except AtomError PropertyKey :=
  match ArrayIndex.parsePropertyKey description.string with
  | some index => (table, .ok (.index index))
  | none =>
      match table.internDescription hasher .string description.codeUnits with
      | .error error => (table, .error error)
      | .ok (next, atom) =>
          ({ next with handles := atom :: next.handles }, .ok (.atom atom))

variable {hasher : List Nat → Nat} {table : AtomTable}

/-- The entries of one table are the first entries of the other. -/
def Extends (later earlier : AtomTable) : Prop :=
  ∃ more, later.entries = earlier.entries ++ more

theorem Extends.refl (table : AtomTable) : table.Extends table :=
  ⟨[], (List.append_nil _).symm⟩

theorem Extends.trans {first second third : AtomTable}
    (later : third.Extends second) (earlier : second.Extends first) :
    third.Extends first := by
  obtain ⟨more, appended⟩ := earlier
  obtain ⟨most, extended⟩ := later
  refine ⟨more ++ most, ?_⟩
  rw [extended, appended, List.append_assoc]

theorem Extends.interned {later earlier : AtomTable}
    (extended : later.Extends earlier) {atom : Nat} {space : InternNamespace}
    {description : List UInt16}
    (interned : Interned earlier.entries atom space description) :
    Interned later.entries atom space description := by
  obtain ⟨more, appended⟩ := extended
  rw [appended]
  exact (interned_append (interned_lt interned)).mpr interned

theorem internDescription_extends {space : InternNamespace}
    {description : List UInt16} {next : AtomTable} {atom : Nat}
    (done : table.internDescription hasher space description =
      .ok (next, atom)) :
    next.Extends table := by
  unfold internDescription at done
  cases found : table.findInterned (bucketKey hasher space description)
      description with
  | some atom =>
      simp only [found] at done
      cases done
      exact .refl table
  | none =>
      simp only [found] at done
      obtain ⟨usage, _, published⟩ := Support.bind_eq_ok_iff.mp done
      cases published
      exact ⟨_, rfl⟩

theorem insertUnique_extends {kind : AtomKind}
    {description : Option (List UInt16)} {predefined : Option Nat}
    {next : AtomTable} {atom : Nat}
    (done : table.insertUnique kind description predefined =
      .ok (next, atom)) :
    next.Extends table := by
  obtain ⟨usage, _, created⟩ := Support.bind_eq_ok_iff.mp done
  cases created
  exact ⟨_, rfl⟩

theorem handOut_extends {result : Except AtomError (AtomTable × Nat)}
    (made : ∀ next atom, result = .ok (next, atom) → next.Extends table) :
    (table.handOut result).1.Extends table := by
  cases result with
  | error error => exact .refl table
  | ok created =>
      obtain ⟨next, atom⟩ := created
      exact made next atom rfl

theorem dropHandle_entries (table : AtomTable) (position atom : Nat) :
    (table.dropHandle position atom).entries = table.entries := by
  unfold dropHandle releaseEntry
  simp only
  split
  · split <;> rfl
  · rfl

theorem decreaseInternerSlots_entries (table : AtomTable) (removed : Nat) :
    (table.decreaseInternerSlots removed).entries = table.entries := by
  unfold decreaseInternerSlots
  split <;> rfl

theorem removeSlot_entries (table : AtomTable) (key : BucketKey) (atom : Nat) :
    (table.removeSlot key atom).entries = table.entries := by
  unfold removeSlot
  simp only
  split
  · rfl
  · exact decreaseInternerSlots_entries _ 1

theorem rollbackInternedString_entries (table : AtomTable)
    (position atom : Nat) (entry : AtomEntry) :
    (table.rollbackInternedString hasher position atom entry).entries =
      table.entries := by
  unfold rollbackInternedString
  simp only
  split
  · exact dropHandle_entries table position atom
  · split
    · exact dropHandle_entries table position atom
    · rw [removeSlot_entries]
      exact dropHandle_entries table position atom

theorem extends_of_entries {later earlier : AtomTable}
    (same : later.entries = earlier.entries) : later.Extends earlier :=
  ⟨[], by rw [same, List.append_nil]⟩

theorem step_extends (hasher : List Nat → Nat) (table : AtomTable)
    (operation : AtomOperation) :
    (table.step hasher operation).1.Extends table := by
  cases operation with
  | internString description =>
      exact handOut_extends fun _ _ => internDescription_extends
  | internGlobalSymbol description =>
      exact handOut_extends fun _ _ => internDescription_extends
  | newUniqueSymbol description =>
      exact handOut_extends fun _ _ => insertUnique_extends
  | newPrivateName description =>
      exact handOut_extends fun _ _ => insertUnique_extends
  | predefined index =>
      apply extends_of_entries
      unfold step
      simp only
      split <;> rfl
  | clone position =>
      apply extends_of_entries
      unfold step
      simp only
      split <;> rfl
  | drop position =>
      apply extends_of_entries
      unfold step
      simp only
      split
      · rfl
      · exact dropHandle_entries _ _ _
  | collectDead =>
      exact extends_of_entries (decreaseInternerSlots_entries _ _)
  | rollbackInternedString position =>
      apply extends_of_entries
      unfold step
      simp only
      split
      · rfl
      · split
        · rfl
        · split
          · exact rollbackInternedString_entries _ _ _ _
          · rfl

theorem run_extends (hasher : List Nat → Nat) (table : AtomTable)
    (operations : List AtomOperation) :
    (table.run hasher operations).1.Extends table := by
  induction operations generalizing table with
  | nil => exact .refl table
  | cons operation operations induction =>
      exact (induction _).trans (step_extends hasher table operation)

theorem propertyKeyFromString_index {description : Text} {index : ArrayIndex}
    (parsed : ArrayIndex.parsePropertyKey description.string = some index) :
    table.propertyKeyFromString hasher description =
      (table, .ok (.index index)) := by
  rw [propertyKeyFromString, parsed]

theorem propertyKeyFromString_intern {description : Text}
    (parsed : ArrayIndex.parsePropertyKey description.string = none) :
    (table.propertyKeyFromString hasher description).1 =
      (table.step hasher (.internString description)).1 := by
  rw [propertyKeyFromString, parsed]
  simp only [step]
  cases table.internDescription hasher .string description.codeUnits <;> rfl

theorem propertyKeyFromString_sound (sound : table.Sound hasher)
    (description : Text) :
    (table.propertyKeyFromString hasher description).1.Sound hasher := by
  cases parsed : ArrayIndex.parsePropertyKey description.string with
  | some index =>
      rw [propertyKeyFromString_index parsed]
      exact sound
  | none =>
      rw [propertyKeyFromString_intern parsed]
      exact step_sound sound _

theorem propertyKeyFromString_extends (hasher : List Nat → Nat)
    (table : AtomTable) (description : Text) :
    (table.propertyKeyFromString hasher description).1.Extends table := by
  cases parsed : ArrayIndex.parsePropertyKey description.string with
  | some index =>
      rw [propertyKeyFromString_index parsed]
      exact .refl table
  | none =>
      rw [propertyKeyFromString_intern parsed]
      exact step_extends hasher table _

/-- An interned key is an atom with this text, and the one already owned if
there is one. -/
theorem propertyKeyFromString_atom (sound : table.Sound hasher)
    {description : Text} {key : PropertyKey}
    (parsed : ArrayIndex.parsePropertyKey description.string = none)
    (done : (table.propertyKeyFromString hasher description).2 = .ok key) :
    ∃ atom, key = .atom atom ∧
      Interned (table.propertyKeyFromString hasher description).1.entries atom
        .string description.codeUnits ∧
      ∀ other ∈ table.live, Interned table.entries other .string
        description.codeUnits → other = atom := by
  unfold propertyKeyFromString at done ⊢
  simp only [parsed] at done ⊢
  rcases internDescription_cases sound .string description.codeUnits with
    ⟨atom, owned, interned, found⟩ | ⟨next, made, _, _, missing, interned, _⟩ |
    ⟨error, failed, _⟩
  · simp only [found] at done ⊢
    cases done
    refine ⟨atom, rfl, interned, ?_⟩
    intro other otherOwned otherInterned
    exact sound.unique other otherOwned atom owned .string _ otherInterned
      interned
  · simp only [made] at done ⊢
    cases done
    refine ⟨_, rfl, interned, ?_⟩
    intro other otherOwned otherInterned
    exact absurd otherInterned (missing other otherOwned)
  · simp only [failed] at done
    cases done

theorem parsePropertyKey_text (text : Text) (index : ArrayIndex) :
    ArrayIndex.parsePropertyKey text.string = some index ↔
      text.codeUnits = ArrayIndex.canonicalDecimal index.value := by
  rw [text.codeUnits_eq]
  exact ArrayIndex.parsePropertyKey_iff text.formed index

theorem parsePropertyKey_congr {left right : Text}
    (same : left.codeUnits = right.codeUnits) :
    ArrayIndex.parsePropertyKey left.string =
      ArrayIndex.parsePropertyKey right.string := by
  apply Option.ext
  intro index
  rw [parsePropertyKey_text, parsePropertyKey_text, same]

theorem propertyKeyFromString_eq_index (hasher : List Nat → Nat)
    (table : AtomTable) (text : Text) (index : ArrayIndex) :
    (table.propertyKeyFromString hasher text).2 = .ok (.index index) ↔
      text.codeUnits = ArrayIndex.canonicalDecimal index.value := by
  rw [← parsePropertyKey_text]
  cases parsed : ArrayIndex.parsePropertyKey text.string with
  | some other =>
      rw [propertyKeyFromString_index parsed]
      simp
  | none =>
      unfold propertyKeyFromString
      simp only [parsed]
      cases table.internDescription hasher .string text.codeUnits <;> simp

/-- Two keys made one after the other, the first still held, are equal exactly
when their texts are. -/
theorem propertyKey_eq_iff (sound : table.Sound hasher)
    {first second : Text} {key other : PropertyKey}
    (between : List AtomOperation)
    (made : (table.propertyKeyFromString hasher first).2 = .ok key)
    (held : key.Held
      ((table.propertyKeyFromString hasher first).1.run hasher between).1)
    (again : ((((table.propertyKeyFromString hasher first).1.run hasher
      between).1).propertyKeyFromString hasher second).2 = .ok other) :
    key = other ↔ first.codeUnits = second.codeUnits := by
  have later : ((table.propertyKeyFromString hasher first).1.run hasher
      between).1.Sound hasher :=
    run_keeps_sound (propertyKeyFromString_sound sound first) between
  have kept := run_extends hasher
    (table.propertyKeyFromString hasher first).1 between
  cases parsed : ArrayIndex.parsePropertyKey first.string with
  | some index =>
      rw [propertyKeyFromString_index parsed] at made
      cases made
      have spelled := (parsePropertyKey_text first index).mp parsed
      rw [spelled]
      constructor
      · intro same
        subst same
        exact ((propertyKeyFromString_eq_index _ _ second index).mp again).symm
      · intro same
        rw [(propertyKeyFromString_eq_index _ _ second index).mpr same.symm]
          at again
        cases again
        rfl
  | none =>
      obtain ⟨atom, rfl, interned, _⟩ :=
        propertyKeyFromString_atom sound parsed made
      have still := kept.interned interned
      cases otherParsed : ArrayIndex.parsePropertyKey second.string with
      | some index =>
          rw [propertyKeyFromString_index otherParsed] at again
          cases again
          constructor
          · intro impossible
            cases impossible
          · intro same
            rw [← parsePropertyKey_congr same, parsed] at otherParsed
            cases otherParsed
      | none =>
          obtain ⟨latest, rfl, latestInterned, unique⟩ :=
            propertyKeyFromString_atom later otherParsed again
          constructor
          · intro same
            cases same
            have final := (propertyKeyFromString_extends hasher _
              second).interned still
            obtain ⟨entry, found, _, description⟩ := final
            obtain ⟨_, here, _, text⟩ := latestInterned
            rw [found] at here
            cases here
            rw [description] at text
            exact Option.some.inj text
          · intro same
            rw [same] at still
            rw [unique atom held still]

/-- On every table that operations on a new one lead to, a string is an array
index exactly when it is the canonical decimal of it, indices are printed and
read back, and two keys are equal exactly when the strings are. -/
theorem propertyKeys_canonical {hasher : List Nat → Nat} {limits : AtomLimits}
    {start : AtomTable} (created : tryNew hasher limits = .ok start)
    (earlier : List AtomOperation) :
    let table := (start.run hasher earlier).1
    (∀ text index,
      (table.propertyKeyFromString hasher text).2 = .ok (.index index) ↔
        text.codeUnits = ArrayIndex.canonicalDecimal index.value) ∧
    (∀ text : Text, ∀ index,
      ArrayIndex.parsePropertyKey text.string = some index →
        ∃ string, index.toJsString = .ok string ∧
          string.content = text.codeUnits) ∧
    (∀ index : ArrayIndex, ∃ string, index.toJsString = .ok string ∧
      ArrayIndex.parsePropertyKey string = some index) ∧
    ∀ first second key other between,
      (table.propertyKeyFromString hasher first).2 = .ok key →
      let later :=
        ((table.propertyKeyFromString hasher first).1.run hasher between).1
      key.Held later →
      (later.propertyKeyFromString hasher second).2 = .ok other →
        (key = other ↔ first.codeUnits = second.codeUnits) := by
  have sound := run_keeps_sound (tryNew_sound created) earlier
  refine ⟨propertyKeyFromString_eq_index hasher _, ?_, ?_, ?_⟩
  · intro text index parsed
    obtain ⟨string, printed, _, content⟩ := index.toJsString_eq
    refine ⟨string, printed, ?_⟩
    rw [content, (parsePropertyKey_text text index).mp parsed]
  · intro index
    obtain ⟨string, printed, formed, content⟩ := index.toJsString_eq
    exact ⟨string, printed,
      (ArrayIndex.parsePropertyKey_iff formed index).mpr content⟩
  · intro first second key other between made later held again
    exact propertyKey_eq_iff sound between made held again

/-- The text of one decimal digit. -/
def digitText (digit : Fin 10) : Text :=
  latin1Text [ArrayIndex.decimalDigit digit] (by simp [maxStringCodeUnits])

/-- The text `01`, which is no array index. -/
def paddedText : Text :=
  latin1Text [0x30, 0x31] (by decide)

theorem propertyKeys_canonical_digits :
    ∃ start, tryNew (fun _ => 0) ⟨1000, 5000, 1000⟩ = .ok start ∧
      (start.propertyKeyFromString (fun _ => 0) (digitText 7)).2 =
        .ok (.index ⟨7, by decide⟩) ∧
      (start.propertyKeyFromString (fun _ => 0) (digitText 8)).2 =
        .ok (.index ⟨8, by decide⟩) ∧
      (PropertyKey.index ⟨7, by decide⟩ = .index ⟨8, by decide⟩ ↔
        (digitText 7).codeUnits = (digitText 8).codeUnits) ∧
      ∀ key other,
        (start.propertyKeyFromString (fun _ => 0) paddedText).2 = .ok key →
        let later := (start.propertyKeyFromString (fun _ => 0) paddedText).1
        key.Held later →
        (later.propertyKeyFromString (fun _ => 0) paddedText).2 = .ok other →
          key = other := by
  obtain ⟨start, created⟩ := exists_tryNew
  have seven : (start.propertyKeyFromString (fun _ => 0) (digitText 7)).2 =
      .ok (.index ⟨7, by decide⟩) := rfl
  have eight : (start.propertyKeyFromString (fun _ => 0) (digitText 8)).2 =
      .ok (.index ⟨8, by decide⟩) := rfl
  have keys := (propertyKeys_canonical created []).2.2.2
  refine ⟨start, created, seven, eight,
    keys (digitText 7) (digitText 8) _ _ [] seven trivial eight, ?_⟩
  intro key other first later held second
  exact (keys paddedText paddedText key other [] first held second).mpr rfl

end AtomTable

end Fusor.Runtime
