import Fusor.Modules.ExportResolution

/-!
# The names of a namespace

The walk over the star exports visits every module once and drops at each
module the names that do not resolve there.  In a linked graph a dropped name
is ambiguous, and stays so in the modules above, unless its code units did not
survive their transport as bytes.
-/

namespace Fusor.Modules

open Fusor.Runtime Fusor.Search

/-- The module exports the name explicitly. -/
def Explicit (graph : ModuleGraph) (module : ModuleRecordId)
    (name : List UInt16) : Prop :=
  ∃ record, graph.modules[module]? = some record ∧
    (record.explicitEntry name).isSome

/-- The names of `GetExportedNames`: the explicit ones, and those of the
star-exported modules except the default one. -/
inductive Exports (graph : ModuleGraph) :
    ModuleRecordId → List UInt16 → Prop where
  | own {module : ModuleRecordId} {name : List UInt16}
      (explicit : Explicit graph module name) : Exports graph module name
  | star {module dependency : ModuleRecordId} {name : List UInt16}
      {record : SourceTextModuleRecord}
      (present : graph.modules[module]? = some record)
      (listed : dependency ∈ record.starDependencies)
      (notDefault : name ≠ defaultUnits)
      (rest : Exports graph dependency name) : Exports graph module name

/-- The code units of the property key made from a name. -/
def nameUnits (bytes : Bytes) : List UInt16 :=
  JsString.encodeUtf16 ((decodeUtf8 bytes).getD [])

/-- The list a namespace object must have: each exported name with a single
target once, in the order of its code units. -/
structure NamespaceNames (graph : ModuleGraph) (module : ModuleRecordId)
    (names : ExportList) : Prop where
  ascending : names.Pairwise fun left right =>
    nameUnits left.1 < nameUnits right.1
  exact : ∀ name target,
    (∃ bytes, nameUnits bytes = name ∧ (bytes, target) ∈ names) ↔
      Exports graph module name ∧ graph.targets (module, name) = {target}

/-- The second module can be reached from the first through star exports. -/
def ModuleGraph.StarReaches (graph : ModuleGraph) :
    ModuleRecordId → ModuleRecordId → Prop :=
  Relation.ReflTransGen fun source target =>
    ∃ record, graph.modules[source]? = some record ∧
      target ∈ record.starDependencies

/-- What linking leaves behind in every module that the root reaches: its
indirect exports have been checked, and its local ones have a cell. -/
structure Linked (graph : ModuleGraph) (fuel : Nat) (root : ModuleRecordId) :
    Prop where
  checked : ∀ module record, graph.Reaches root module →
    graph.modules[module]? = some record →
      resolveIndirectExports graph fuel module record.exportEntries = .ok ()
  declared : ∀ module record, graph.Reaches root module →
    graph.modules[module]? = some record → ∀ entry ∈ record.exportEntries,
      entry.role = .localExport → ∃ units cell,
        entry.localName.units = some units ∧
          record.bindingCell units = some cell

/-- No name that comes up when an explicit export of a module reached through
star exports is resolved has a surrogate. -/
def PlainResolutions (graph : ModuleGraph) (root : ModuleRecordId) : Prop :=
  ∀ module name, graph.StarReaches root module → Explicit graph module name →
    PlainFrom graph (module, name)

/-- No explicit export of a module reached through star exports has a
surrogate. -/
def PlainExports (graph : ModuleGraph) (root : ModuleRecordId) : Prop :=
  ∀ module name, graph.StarReaches root module → Explicit graph module name →
    Plain name

/-- Every plain name resolves to its targets in every module reached through
star exports. -/
def ResolvesPlain (graph : ModuleGraph) (fuel : Nat) (root : ModuleRecordId) :
    Prop :=
  ∀ module name, graph.StarReaches root module → Plain name →
    Resolves (resolveExport graph fuel module (unitsToUtf8 name) []) []
      (graph.targets (module, name))

theorem nameUnits_unitsToUtf8 {name : List UInt16} (plain : Plain name) :
    nameUnits (unitsToUtf8 name) = name := by
  rw [nameUnits, unitsToUtf8, decodeUtf8_encodeUtf8, plain.filterMap_eq]
  exact plain.encodeUtf16_eq

section Targets

variable {graph : ModuleGraph} {module : ModuleRecordId}
  {record : SourceTextModuleRecord} {name : List UInt16}

theorem starReaches_reaches {source target : ModuleRecordId}
    (path : graph.StarReaches source target) : graph.Reaches source target := by
  induction path with
  | refl => exact .refl
  | tail _ step induction =>
      obtain ⟨record, present, listed⟩ := step
      obtain ⟨entry, member, _, requested⟩ := requested_mem.mp listed
      exact induction.tail ⟨record, present, entry, member, requested⟩

theorem starReaches_lt (resolvable : Resolvable graph)
    {source target : ModuleRecordId} (known : source < graph.modules.length)
    (path : graph.StarReaches source target) :
    target < graph.modules.length := by
  induction path with
  | refl => exact known
  | tail _ step _ =>
      obtain ⟨record, present, listed⟩ := step
      obtain ⟨entry, member, _, requested⟩ := requested_mem.mp listed
      exact requested_lt resolvable (List.mem_of_getElem? present) member
        requested

theorem expand_star (present : graph.modules[module]? = some record)
    (implicit : ¬ Explicit graph module name) (notDefault : name ≠ defaultUnits) :
    graph.expand (module, name) =
      .branch (record.starDependencies.map (·, name)) := by
  have none : record.explicitEntry name = none := by
    cases chosen : record.explicitEntry name with
    | none => rfl
    | some entry =>
        exact absurd ⟨record, present, by rw [chosen]; rfl⟩ implicit
  unfold ModuleGraph.expand
  rw [present]
  simp [none, notDefault]

theorem mem_targets_star_iff (present : graph.modules[module]? = some record)
    (implicit : ¬ Explicit graph module name) (notDefault : name ≠ defaultUnits)
    {target : ResolvedExport} :
    target ∈ graph.targets (module, name) ↔
      ∃ dependency ∈ record.starDependencies,
        target ∈ graph.targets (dependency, name) := by
  have expanded := expand_star present implicit notDefault
  constructor
  · intro leads
    cases leads with
    | leaf here =>
        rw [expanded] at here
        cases here
    | branch here member rest =>
        rw [expanded] at here
        cases here
        obtain ⟨dependency, listed, rfl⟩ := List.mem_map.mp member
        exact ⟨dependency, listed, rest⟩
  · rintro ⟨dependency, listed, leads⟩
    exact .branch expanded (List.mem_map.mpr ⟨dependency, listed, rfl⟩) leads

theorem ownExportName_eq (name : ModuleExportName) :
    ownExportName name = name.units.map unitsToUtf8 := by
  cases name with
  | name units => rfl
  | default =>
      rw [ModuleExportName.units, Option.map_some, unitsToUtf8_default]
      rfl
  | null => rfl

theorem resolveIndirectExports_ok {fuel : Nat}
    {entries : List ModuleExportEntry}
    (checked : resolveIndirectExports graph fuel module entries = .ok ()) :
    ∀ entry ∈ entries, entry.role = .indirect → ∀ bytes,
      ownExportName entry.exportName = some bytes → ∃ target set,
        resolveExport graph fuel module bytes [] =
          .ok (.resolved target, set) := by
  induction entries with
  | nil => simp
  | cons entry entries induction =>
      rw [resolveIndirectExports] at checked
      have later : resolveIndirectExports graph fuel module entries = .ok () →
          (entry.role = .indirect → ∀ bytes,
            ownExportName entry.exportName = some bytes → ∃ target set,
              resolveExport graph fuel module bytes [] =
                .ok (.resolved target, set)) →
          ∀ other ∈ entry :: entries, other.role = .indirect → ∀ bytes,
            ownExportName other.exportName = some bytes → ∃ target set,
              resolveExport graph fuel module bytes [] =
                .ok (.resolved target, set) := by
        intro rest here other member
        rcases List.mem_cons.mp member with rfl | inside
        · exact here
        · exact induction rest other inside
      by_cases indirect : entry.role = .indirect
      · rw [if_neg (not_not.mpr indirect)] at checked
        cases named : ownExportName entry.exportName with
        | none =>
            rw [named] at checked
            refine later checked fun _ bytes other => ?_
            rw [named] at other
            cases other
        | some name =>
            rw [named] at checked
            obtain ⟨⟨resolution, set⟩, resolved, rest⟩ :=
              Support.bind_eq_ok_iff.mp checked
            cases resolution with
            | resolved target =>
                refine later rest fun _ bytes other => ?_
                rw [named] at other
                cases other
                exact ⟨target, set, resolved⟩
            | null => cases rest
            | ambiguous => cases rest
      · rw [if_pos indirect] at checked
        exact later checked fun role => absurd role indirect

theorem explicit_of_chosen {entry : ModuleExportEntry}
    (present : graph.modules[module]? = some record)
    (chosen : record.explicitEntry name = some entry) :
    Explicit graph module name :=
  ⟨record, present, by rw [chosen]; rfl⟩

/-- What comes up when a name is resolved is the name in a module reached
through star exports, or comes up for an explicit export of such a module. -/
theorem meets_explicit {root : ModuleRecordId} {node : ExportNode}
    (reached : graph.StarReaches root module)
    (met : graph.Meets (module, name) node) :
    (graph.StarReaches root node.1 ∧ node.2 = name) ∨
      ∃ source other, graph.StarReaches root source ∧
        Explicit graph source other ∧ graph.Meets (source, other) node := by
  induction met with
  | refl => exact .inl ⟨reached, rfl⟩
  | @tail middle next _ step induction =>
      obtain ⟨nodes, branch, found⟩ := step
      rcases induction with ⟨star, same⟩ | ⟨source, other, star, explicit, met⟩
      · by_cases own : Explicit graph middle.1 middle.2
        · exact .inr ⟨middle.1, middle.2, star, own,
            .single ⟨nodes, branch, found⟩⟩
        · obtain ⟨record, present, _⟩ := expand_cases branch found
          by_cases isDefault : middle.2 = defaultUnits
          · have dead : graph.expand middle = .branch [] := by
              cases chosen : record.explicitEntry middle.2 with
              | some entry => exact absurd (explicit_of_chosen present chosen) own
              | none =>
                  unfold ModuleGraph.expand
                  rw [present]
                  simp only [chosen]
                  rw [if_pos isDefault]
            rw [dead] at branch
            cases branch
            cases found
          · have stars := expand_star present own isDefault
            rw [show graph.expand (middle.1, middle.2) = graph.expand middle
              from rfl, branch] at stars
            cases stars
            obtain ⟨dependency, listed, rfl⟩ := List.mem_map.mp found
            exact .inl ⟨star.tail ⟨record, present, listed⟩, same⟩
      · exact .inr ⟨source, other, star, explicit,
          met.tail ⟨nodes, branch, found⟩⟩

theorem PlainResolutions.plainFrom {root : ModuleRecordId}
    (plain : PlainResolutions graph root)
    (reached : graph.StarReaches root module) (namePlain : Plain name) :
    PlainFrom graph (module, name) := by
  constructor
  · intro node met
    rcases meets_explicit reached met with ⟨_, same⟩ |
      ⟨source, other, star, explicit, further⟩
    · rw [same]
      exact namePlain
    · exact (plain source other star explicit).named node further
  · intro node met record present entry chosen
    rcases meets_explicit reached met with ⟨star, _⟩ |
      ⟨source, other, star, explicit, further⟩
    · exact (plain node.1 node.2 star
        (explicit_of_chosen present chosen)).declared node .refl record present
          entry chosen
    · exact (plain source other star explicit).declared node further record
        present entry chosen

theorem PlainResolutions.plainExports {root : ModuleRecordId}
    (plain : PlainResolutions graph root) : PlainExports graph root :=
  fun module name reached explicit =>
    (plain module name reached explicit).named (module, name) .refl

/-- An explicit export of a linked module leads to some target. -/
theorem Linked.targets_nonempty {fuel : Nat} {root : ModuleRecordId}
    (linked : Linked graph fuel root)
    (resolves : ResolvesPlain graph fuel root)
    (reached : graph.StarReaches root module) (namePlain : Plain name)
    (explicit : Explicit graph module name) :
    (graph.targets (module, name)).Nonempty := by
  obtain ⟨record, present, found⟩ := explicit
  obtain ⟨entry, chosen⟩ := Option.isSome_iff_exists.mp found
  have listed : entry ∈ record.exportEntries :=
    List.mem_of_find?_eq_some chosen
  have valid := List.find?_some chosen
  simp only [ne_eq, decide_eq_true_eq] at valid
  have expanded : graph.expand (module, name) =
      expandEntry record module entry := by
    unfold ModuleGraph.expand
    rw [present]
    simp only [chosen]
  cases role : entry.role with
  | localExport =>
      obtain ⟨units, cell, named, bound⟩ := linked.declared module record
        (starReaches_reaches reached) present entry listed role
      refine ⟨.binding module cell, .leaf ?_⟩
      rw [expanded, expandEntry, role]
      simp [named, bound]
  | indirect =>
      have bytes : ownExportName entry.exportName =
          some (unitsToUtf8 name) := by
        rw [ownExportName_eq, valid.2]
        rfl
      obtain ⟨target, set, resolved⟩ := resolveIndirectExports_ok
        (linked.checked module record (starReaches_reaches reached) present)
        entry listed role _ bytes
      obtain ⟨resolution, same, classified⟩ :=
        resolves module name reached namePlain
      rw [resolved] at same
      cases same
      have unique : graph.targets (module, name) = {target} := classified
      rw [unique]
      exact Set.singleton_nonempty target
  | star => exact absurd role valid.1

/-- The bytes that an explicit entry contributes. -/
def ownBytes (entry : ModuleExportEntry) : Option Bytes :=
  if entry.role = .star then none else ownExportName entry.exportName

theorem mem_ownBytes_iff (present : graph.modules[module]? = some record)
    {bytes : Bytes} :
    bytes ∈ record.exportEntries.filterMap ownBytes ↔
      ∃ name, Explicit graph module name ∧ unitsToUtf8 name = bytes := by
  have explicit : ∀ name, Explicit graph module name ↔
      ∃ entry ∈ record.exportEntries, entry.role ≠ .star ∧
        entry.exportName.units = some name := by
    intro name
    rw [Explicit, present]
    simp [SourceTextModuleRecord.explicitEntry, List.find?_isSome]
  rw [List.mem_filterMap]
  simp only [explicit]
  constructor
  · rintro ⟨entry, listed, written⟩
    rw [ownBytes] at written
    split at written
    · cases written
    · rename_i role
      rw [ownExportName_eq, Option.map_eq_some_iff] at written
      obtain ⟨name, named, same⟩ := written
      exact ⟨name, ⟨entry, listed, role, named⟩, same⟩
  · rintro ⟨name, ⟨entry, listed, role, named⟩, rfl⟩
    refine ⟨entry, listed, ?_⟩
    rw [ownBytes, if_neg role, ownExportName_eq, named]
    rfl

end Targets

section Collecting

variable {graph : ModuleGraph} {fuel : Nat} {module : ModuleRecordId}

theorem ownNames_eq (entries : List ModuleExportEntry) (result : ExportList)
    (seen : List Bytes) :
    ownNames graph fuel module entries result seen =
      collectNames graph fuel module (entries.filterMap ownBytes) result
        seen := by
  induction entries generalizing result seen with
  | nil => rfl
  | cons entry entries induction =>
      unfold ownNames
      cases named : ownExportName entry.exportName with
      | none =>
          have skipped : ownBytes entry = none := by
            rw [ownBytes, named, ite_self]
          rw [List.filterMap_cons_none skipped]
          exact induction result seen
      | some name =>
          by_cases star : entry.role = .star
          · have skipped : ownBytes entry = none := if_pos star
            rw [List.filterMap_cons_none skipped]
            simp only [star, ↓reduceIte]
            exact induction result seen
          · have kept : ownBytes entry = some name := by
              rw [ownBytes, if_neg star, named]
            rw [List.filterMap_cons_some kept, collectNames]
            simp only [star, ↓reduceIte, induction]

theorem starNames_eq (names : List Bytes) (result : ExportList)
    (seen : List Bytes) :
    starNames graph fuel module names result seen =
      (collectNames graph fuel module names result seen).map Prod.fst := by
  induction names generalizing result seen with
  | nil => rfl
  | cons name names induction =>
      rw [starNames, collectNames]
      split
      · exact induction result seen
      · cases pushResolved graph fuel module name result with
        | error failure => rfl
        | ok next => exact induction next (name :: seen)

/-- The bytes are those of a name with one target. -/
def UniqueTarget (graph : ModuleGraph) (module : ModuleRecordId)
    (bytes : Bytes) (target : ResolvedExport) : Prop :=
  ∃ name, Plain name ∧ unitsToUtf8 name = bytes ∧
    graph.targets (module, name) = {target}

theorem uniqueTarget_iff {name : List UInt16} (plain : Plain name)
    {target : ResolvedExport} :
    UniqueTarget graph module (unitsToUtf8 name) target ↔
      graph.targets (module, name) = {target} := by
  constructor
  · rintro ⟨other, otherPlain, same, unique⟩
    rw [← unitsToUtf8_injective otherPlain plain same]
    exact unique
  · intro unique
    exact ⟨name, plain, rfl, unique⟩

theorem uniqueTarget_unique {name : List UInt16} (plain : Plain name)
    {first second : ResolvedExport}
    (one : UniqueTarget graph module (unitsToUtf8 name) first)
    (other : UniqueTarget graph module (unitsToUtf8 name) second) :
    first = second := by
  rw [uniqueTarget_iff plain] at one other
  rw [one] at other
  exact Set.singleton_eq_singleton_iff.mp other

/-- What the names collected so far are. -/
structure Collected (graph : ModuleGraph) (module : ModuleRecordId)
    (names : List Bytes) (result : ExportList) (seen : List Bytes)
    (final : ExportList) (after : List Bytes) : Prop where
  known : ∀ bytes, bytes ∈ after ↔ bytes ∈ seen ∨ bytes ∈ names
  listed : ∀ bytes target, (bytes, target) ∈ final ↔
    (bytes, target) ∈ result ∨
      (bytes ∈ names ∧ bytes ∉ seen ∧ UniqueTarget graph module bytes target)
  distinct : (final.map Prod.fst).Nodup
  within : final.map Prod.fst ⊆ after

variable (resolves : ∀ name, Plain name →
  Resolves (resolveExport graph fuel module (unitsToUtf8 name) []) []
    (graph.targets (module, name)))

include resolves

theorem pushResolved_spec {name : List UInt16} (namePlain : Plain name)
    (result : ExportList) :
    ∃ next, pushResolved graph fuel module (unitsToUtf8 name) result =
        .ok next ∧
      ((next = result ∧ ∀ target,
          ¬ UniqueTarget graph module (unitsToUtf8 name) target) ∨
        ∃ target, next = result ++ [(unitsToUtf8 name, target)] ∧
          UniqueTarget graph module (unitsToUtf8 name) target) := by
  obtain ⟨resolution, resolved, classified⟩ :=
    resolves name namePlain
  rw [pushResolved, resolved]
  simp only [bind, Except.bind, uniqueTarget_iff namePlain]
  cases resolution with
  | resolved target => exact ⟨_, rfl, .inr ⟨target, rfl, classified⟩⟩
  | null =>
      refine ⟨_, rfl, .inl ⟨rfl, fun target unique => ?_⟩⟩
      have other : Classifies (graph.targets (module, name))
          (.unique target) := unique
      cases classified.unique_answer other
  | ambiguous =>
      refine ⟨_, rfl, .inl ⟨rfl, fun target unique => ?_⟩⟩
      have other : Classifies (graph.targets (module, name))
          (.unique target) := unique
      cases classified.unique_answer other

theorem collectNames_spec {names : List Bytes}
    (plainNames : ∀ bytes ∈ names, ∃ name, Plain name ∧
      unitsToUtf8 name = bytes)
    {result : ExportList} {seen : List Bytes}
    (distinct : (result.map Prod.fst).Nodup)
    (within : result.map Prod.fst ⊆ seen) :
    ∃ final after, collectNames graph fuel module names result seen =
        .ok (final, after) ∧
      Collected graph module names result seen final after := by
  induction names generalizing result seen with
  | nil => exact ⟨result, seen, rfl, by simp, by simp, distinct, within⟩
  | cons bytes names induction =>
      obtain ⟨name, namePlain, rfl⟩ := plainNames bytes List.mem_cons_self
      have others := fun other member => plainNames other (.tail _ member)
      rw [collectNames]
      by_cases old : unitsToUtf8 name ∈ seen
      · rw [if_pos old]
        obtain ⟨final, after, collected, spec⟩ :=
          induction others distinct within
        refine ⟨final, after, collected, ?_, ?_, spec.distinct, spec.within⟩
        · intro other
          rw [spec.known, List.mem_cons]
          constructor
          · rintro (early | late)
            · exact .inl early
            · exact .inr (.inr late)
          · rintro (early | rfl | late)
            · exact .inl early
            · exact .inl old
            · exact .inr late
        · intro other target
          rw [spec.listed, List.mem_cons]
          constructor
          · rintro (early | ⟨late, fresh, unique⟩)
            · exact .inl early
            · exact .inr ⟨.inr late, fresh, unique⟩
          · rintro (early | ⟨rfl | late, fresh, unique⟩)
            · exact .inl early
            · exact absurd old fresh
            · exact .inr ⟨late, fresh, unique⟩
      · rw [if_neg old]
        obtain ⟨next, pushed, cases⟩ :=
          pushResolved_spec resolves namePlain result
        rw [pushed]
        have nextWithin : next.map Prod.fst ⊆ unitsToUtf8 name :: seen := by
          rcases cases with ⟨rfl, _⟩ | ⟨target, rfl, _⟩
          · exact fun other member => .tail _ (within member)
          · intro other member
            rw [List.map_append, List.mem_append] at member
            rcases member with early | late
            · exact .tail _ (within early)
            · rw [List.mem_singleton.mp late]
              exact List.mem_cons_self
        have nextDistinct : (next.map Prod.fst).Nodup := by
          rcases cases with ⟨rfl, _⟩ | ⟨target, rfl, _⟩
          · exact distinct
          · rw [List.map_append, List.nodup_append]
            refine ⟨distinct, List.nodup_singleton _, ?_⟩
            intro other early last late
            rw [List.mem_singleton.mp late]
            rintro rfl
            exact old (within early)
        obtain ⟨final, after, collected, spec⟩ :=
          induction others nextDistinct nextWithin
        refine ⟨final, after, collected, ?_, ?_, spec.distinct, spec.within⟩
        · intro other
          rw [spec.known, List.mem_cons, List.mem_cons]
          tauto
        · intro other target
          have added : (other, target) ∈ next ↔ (other, target) ∈ result ∨
              (other = unitsToUtf8 name ∧
                UniqueTarget graph module (unitsToUtf8 name) target) := by
            rcases cases with ⟨rfl, none⟩ | ⟨found, rfl, unique⟩
            · constructor
              · exact .inl
              · rintro (early | ⟨_, unique⟩)
                · exact early
                · exact absurd unique (none target)
            · rw [List.mem_append, List.mem_singleton, Prod.mk.injEq]
              constructor
              · rintro (early | ⟨rfl, rfl⟩)
                · exact .inl early
                · exact .inr ⟨rfl, unique⟩
              · rintro (early | ⟨rfl, again⟩)
                · exact .inl early
                · exact .inr ⟨rfl, uniqueTarget_unique namePlain again unique⟩
          simp only [spec.listed, added, List.mem_cons, not_or]
          constructor
          · rintro ((early | ⟨rfl, unique⟩) | ⟨late, fresh, unique⟩)
            · exact .inl early
            · exact .inr ⟨.inl rfl, old, unique⟩
            · exact .inr ⟨.inr late, fresh.2, unique⟩
          · rintro (early | ⟨rfl | late, fresh, unique⟩)
            · exact .inl (.inl early)
            · exact .inl (.inr ⟨rfl, unique⟩)
            · by_cases same : other = unitsToUtf8 name
              · subst same
                exact .inl (.inr ⟨rfl, unique⟩)
              · exact .inr ⟨late, ⟨same, fresh⟩, unique⟩

end Collecting

section Walk

variable {graph : ModuleGraph}

/-- What a visit of a module has seen and listed. -/
structure Walked (graph : ModuleGraph) (module : ModuleRecordId)
    (before after : List ModuleRecordId) (names : ExportList) : Prop where
  grows : before ⊆ after
  entered : module ∈ after
  unchanged : module ∈ before → after ⊆ before
  reached : ∀ visited ∈ after, visited ∉ before →
    graph.StarReaches module visited
  closed : ∀ visited ∈ after, visited ∉ before → ∀ record,
    graph.modules[visited]? = some record → record.starDependencies ⊆ after
  sound : ∀ bytes target, (bytes, target) ∈ names → ∃ name, Plain name ∧
    unitsToUtf8 name = bytes ∧ Exports graph module name ∧
      graph.targets (module, name) = {target}
  complete : ∀ name target, graph.targets (module, name) = {target} →
    ∀ visited ∈ after, visited ∉ before → Explicit graph visited name →
      (name ≠ defaultUnits ∨ visited = module) →
        (unitsToUtf8 name, target) ∈ names
  inhabited : ∀ name, name ≠ defaultUnits →
    (Explicit graph module name → (graph.targets (module, name)).Nonempty) →
      ∀ visited ∈ after, visited ∉ before → Explicit graph visited name →
        (graph.targets (module, name)).Nonempty
  distinct : (names.map Prod.fst).Nodup
  ordered : names.Pairwise fun left right => left.1 ≤ right.1

/-- What the visits of star-exported modules have seen, and the names they
bring. -/
structure Gathered (graph : ModuleGraph) (dependencies : List ModuleRecordId)
    (before after : List ModuleRecordId) (names : List Bytes) : Prop where
  grows : before ⊆ after
  entered : dependencies ⊆ after
  reached : ∀ visited ∈ after, visited ∉ before →
    ∃ dependency ∈ dependencies, graph.StarReaches dependency visited
  closed : ∀ visited ∈ after, visited ∉ before → ∀ record,
    graph.modules[visited]? = some record → record.starDependencies ⊆ after
  sound : ∀ bytes ∈ names, ∃ name, Plain name ∧ unitsToUtf8 name = bytes ∧
    name ≠ defaultUnits ∧
      ∃ dependency ∈ dependencies, Exports graph dependency name
  complete : ∀ name target, name ≠ defaultUnits →
    (∀ dependency ∈ dependencies,
      graph.targets (dependency, name) ⊆ {target}) →
    ∀ visited ∈ after, visited ∉ before → Explicit graph visited name →
      unitsToUtf8 name ∈ names
  inhabited : ∀ name, name ≠ defaultUnits → ∀ visited ∈ after,
    visited ∉ before → Explicit graph visited name →
      ∃ dependency ∈ dependencies,
        (graph.targets (dependency, name)).Nonempty

theorem Gathered.nil (before : List ModuleRecordId) :
    Gathered graph [] before before [] := by
  refine ⟨List.Subset.refl _, List.nil_subset _, ?_, ?_, ?_, ?_, ?_⟩
  · intro visited member fresh
    exact absurd member fresh
  · intro visited member fresh
    exact absurd member fresh
  · intro bytes member
    cases member
  · intro name target _ _ visited member fresh
    exact absurd member fresh
  · intro name _ visited member fresh
    exact absurd member fresh

theorem Walked.gathered {dependency : ModuleRecordId}
    {before after : List ModuleRecordId} {names : ExportList}
    (walked : Walked graph dependency before after names)
    (exports : PlainExports graph dependency)
    (settled : dependency ∉ before → ∀ name, Explicit graph dependency name →
      (graph.targets (dependency, name)).Nonempty) :
    Gathered graph [dependency] before after
      ((names.map Prod.fst).filter (· ≠ defaultBytes)) := by
  have inhabited : ∀ name, name ≠ defaultUnits → ∀ visited ∈ after,
      visited ∉ before → Explicit graph visited name →
        (graph.targets (dependency, name)).Nonempty := by
    intro name notDefault visited member fresh explicit
    have new : dependency ∉ before := fun old =>
      fresh (walked.unchanged old member)
    exact walked.inhabited name notDefault (settled new name) visited member
      fresh explicit
  refine ⟨walked.grows, ?_, ?_, walked.closed, ?_, ?_, ?_⟩
  · intro other one
    rw [List.mem_singleton.mp one]
    exact walked.entered
  · intro visited member fresh
    exact ⟨dependency, List.mem_singleton_self _,
      walked.reached visited member fresh⟩
  · intro bytes member
    rw [List.mem_filter, decide_eq_true_eq] at member
    obtain ⟨⟨written, target⟩, listed, rfl⟩ := List.mem_map.mp member.1
    obtain ⟨name, plain, same, exported, _⟩ := walked.sound written target listed
    refine ⟨name, plain, same, ?_, dependency, List.mem_singleton_self _,
      exported⟩
    rintro rfl
    rw [unitsToUtf8_default] at same
    exact member.2 same.symm
  · intro name target notDefault few visited member fresh explicit
    have plain : Plain name := exports visited name
      (walked.reached visited member fresh) explicit
    have unique : graph.targets (dependency, name) = {target} :=
      (inhabited name notDefault visited member fresh explicit).subset_singleton_iff.mp
        (few dependency (List.mem_singleton_self _))
    have listed := walked.complete name target unique visited member fresh
      explicit (.inl notDefault)
    rw [List.mem_filter, decide_eq_true_eq]
    refine ⟨List.mem_map.mpr ⟨_, listed, rfl⟩, ?_⟩
    rw [← unitsToUtf8_default]
    intro same
    exact notDefault (unitsToUtf8_injective plain plain_defaultUnits same)
  · intro name notDefault visited member fresh explicit
    exact ⟨dependency, List.mem_singleton_self _,
      inhabited name notDefault visited member fresh explicit⟩

theorem Gathered.append {first second : List ModuleRecordId}
    {before middle after : List ModuleRecordId} {early late : List Bytes}
    (one : Gathered graph first before middle early)
    (other : Gathered graph second middle after late) :
    Gathered graph (first ++ second) before after (early ++ late) := by
  have split : ∀ visited ∈ after, visited ∉ before →
      (visited ∈ middle ∧ visited ∉ before) ∨ visited ∉ middle := by
    intro visited _ fresh
    by_cases soon : visited ∈ middle
    · exact .inl ⟨soon, fresh⟩
    · exact .inr soon
  refine ⟨fun visited old => other.grows (one.grows old), ?_, ?_, ?_, ?_, ?_, ?_⟩
  · intro dependency listed
    rcases List.mem_append.mp listed with left | right
    · exact other.grows (one.entered left)
    · exact other.entered right
  · intro visited member fresh
    rcases split visited member fresh with ⟨soon, _⟩ | later
    · obtain ⟨dependency, listed, path⟩ := one.reached visited soon fresh
      exact ⟨dependency, List.mem_append_left _ listed, path⟩
    · obtain ⟨dependency, listed, path⟩ := other.reached visited member later
      exact ⟨dependency, List.mem_append_right _ listed, path⟩
  · intro visited member fresh record present
    rcases split visited member fresh with ⟨soon, _⟩ | later
    · exact fun inner inside =>
        other.grows (one.closed visited soon fresh record present inside)
    · exact other.closed visited member later record present
  · intro bytes listed
    rcases List.mem_append.mp listed with left | right
    · obtain ⟨name, plain, same, notDefault, dependency, inside, exported⟩ :=
        one.sound bytes left
      exact ⟨name, plain, same, notDefault, dependency,
        List.mem_append_left _ inside, exported⟩
    · obtain ⟨name, plain, same, notDefault, dependency, inside, exported⟩ :=
        other.sound bytes right
      exact ⟨name, plain, same, notDefault, dependency,
        List.mem_append_right _ inside, exported⟩
  · intro name target notDefault few visited member fresh explicit
    rcases split visited member fresh with ⟨soon, _⟩ | later
    · exact List.mem_append_left _ (one.complete name target notDefault
        (fun dependency inside => few dependency (List.mem_append_left _ inside))
        visited soon fresh explicit)
    · exact List.mem_append_right _ (other.complete name target notDefault
        (fun dependency inside => few dependency
          (List.mem_append_right _ inside)) visited member later explicit)
  · intro name notDefault visited member fresh explicit
    rcases split visited member fresh with ⟨soon, _⟩ | later
    · obtain ⟨dependency, listed, some⟩ :=
        one.inhabited name notDefault visited soon fresh explicit
      exact ⟨dependency, List.mem_append_left _ listed, some⟩
    · obtain ⟨dependency, listed, some⟩ :=
        other.inhabited name notDefault visited member later explicit
      exact ⟨dependency, List.mem_append_right _ listed, some⟩

/-- The star-exported modules among some entries. -/
def starModules (record : SourceTextModuleRecord)
    (entries : List ModuleExportEntry) : List ModuleRecordId :=
  (entries.filter (·.role = .star)).filterMap record.requested

theorem starCandidates_spec {record : SourceTextModuleRecord}
    {visit : ModuleRecordId → List ModuleRecordId →
      Except LinkFailure (ExportList × List ModuleRecordId)}
    {bound : List ModuleRecordId → Prop} {entries : List ModuleExportEntry}
    (requests : ∀ entry ∈ entries, ∀ index, entry.request = some index →
      ∃ dependency, resolveRequest record index = .ok dependency)
    (visits : ∀ dependency ∈ starModules record entries, ∀ before,
      bound before → ∃ names after, visit dependency before =
        .ok (names, after) ∧ Walked graph dependency before after names)
    (grows : ∀ before after, bound before → before ⊆ after → bound after)
    (exports : ∀ dependency ∈ starModules record entries,
      PlainExports graph dependency)
    (settled : ∀ dependency ∈ starModules record entries, ∀ before,
      bound before → dependency ∉ before → ∀ name,
        Explicit graph dependency name →
          (graph.targets (dependency, name)).Nonempty)
    (candidates : List Bytes) (before : List ModuleRecordId)
    (bounded : bound before) :
    ∃ names after, starCandidates record visit entries candidates before =
        .ok (candidates ++ names, after) ∧
      Gathered graph (starModules record entries) before after names := by
  induction entries generalizing candidates before with
  | nil => exact ⟨[], before, by simp [starCandidates], .nil before⟩
  | cons entry entries induction =>
      have later : ∀ dependency ∈ starModules record entries,
          dependency ∈ starModules record (entry :: entries) := by
        intro dependency listed
        simp only [starModules, List.mem_filterMap, List.mem_filter,
          List.mem_cons] at listed ⊢
        obtain ⟨other, ⟨inside, role⟩, requested⟩ := listed
        exact ⟨other, ⟨.inr inside, role⟩, requested⟩
      have rest := induction
        (fun other member => requests other (.tail _ member))
        (fun dependency listed => visits dependency (later dependency listed))
        (fun dependency listed => exports dependency (later dependency listed))
        (fun dependency listed => settled dependency (later dependency listed))
      unfold starCandidates
      by_cases star : entry.role = .star
      · rw [if_neg (not_not.mpr star)]
        cases request : entry.request with
        | none =>
            have nothing : record.requested entry = none := by
              rw [SourceTextModuleRecord.requested, request]
              rfl
            have same : starModules record (entry :: entries) =
                starModules record entries := by
              simp [starModules, star, nothing]
            rw [same]
            exact rest candidates before bounded
        | some index =>
            obtain ⟨dependency, resolved⟩ :=
              requests entry List.mem_cons_self index request
            have requested := (resolveRequest_eq_ok_iff request).mp resolved
            have same : starModules record (entry :: entries) =
                [dependency] ++ starModules record entries := by
              simp [starModules, star, requested]
            have listed : dependency ∈ starModules record (entry :: entries) := by
              rw [same]
              exact List.mem_append_left _ (List.mem_singleton_self _)
            obtain ⟨names, middle, visited, walked⟩ :=
              visits dependency listed before bounded
            have gathered := walked.gathered (exports dependency listed)
              (settled dependency listed before bounded)
            obtain ⟨more, after, collected, following⟩ := rest
              (candidates ++ (names.map Prod.fst).filter (· ≠ defaultBytes))
              middle (grows before middle bounded walked.grows)
            refine ⟨_, after, ?_, same ▸ gathered.append following⟩
            simp only
            rw [resolved]
            simp only [bind, Except.bind]
            rw [visited]
            simp only
            rw [collected, List.append_assoc]
      · rw [if_pos star]
        have same : starModules record (entry :: entries) =
            starModules record entries := by
          simp [starModules, star]
        rw [same]
        exact rest candidates before bounded

theorem Walked.stale {module : ModuleRecordId} {before : List ModuleRecordId}
    (old : module ∈ before) : Walked graph module before before [] := by
  refine ⟨List.Subset.refl _, old, fun _ => List.Subset.refl _, ?_, ?_, ?_, ?_,
    ?_, List.nodup_nil, .nil⟩
  · intro visited member fresh
    exact absurd member fresh
  · intro visited member fresh
    exact absurd member fresh
  · intro bytes target listed
    cases listed
  · intro name target _ visited member fresh
    exact absurd member fresh
  · intro name _ _ visited member fresh
    exact absurd member fresh

theorem mergeSort_ordered (names : ExportList) :
    (names.mergeSort byteOrder).Pairwise fun left right =>
      left.1 ≤ right.1 := by
  have sorted := @List.pairwise_mergeSort _ byteOrder
    (fun first second third one two => by
      simp only [byteOrder, decide_eq_true_eq] at one two ⊢
      exact List.le_trans one two)
    (fun first second => by
      simp only [byteOrder, Bool.or_eq_true, decide_eq_true_eq]
      exact List.le_total first.1 second.1) names
  exact sorted.imp fun before => of_decide_eq_true before

/-- The names of a module, from its own entries and from what its star exports
bring. -/
theorem Walked.of_gathered {module : ModuleRecordId}
    {record : SourceTextModuleRecord} {before after : List ModuleRecordId}
    {candidates : List Bytes} {names : ExportList}
    (present : graph.modules[module]? = some record)
    (fresh : module ∉ before) (exports : PlainExports graph module)
    (gathered : Gathered graph record.starDependencies (before ++ [module])
      after candidates)
    (listed : ∀ bytes target, (bytes, target) ∈ names ↔
      (bytes ∈ record.exportEntries.filterMap ownBytes ∨ bytes ∈ candidates) ∧
        UniqueTarget graph module bytes target)
    (distinct : (names.map Prod.fst).Nodup) :
    Walked graph module before after (names.mergeSort byteOrder) := by
  have self : module ∈ after :=
    gathered.grows (List.mem_append_right _ (List.mem_singleton_self _))
  have next : ∀ dependency ∈ record.starDependencies,
      graph.StarReaches module dependency :=
    fun dependency inside => .single ⟨record, present, inside⟩
  have new : ∀ visited, visited ∉ before → visited ≠ module →
      visited ∉ before ++ [module] := by
    intro visited unseen other member
    rcases List.mem_append.mp member with early | late
    · exact unseen early
    · exact other (List.mem_singleton.mp late)
  have reached : ∀ visited ∈ after, visited ∉ before →
      graph.StarReaches module visited := by
    intro visited member unseen
    by_cases same : visited = module
    · rw [same]
      exact .refl
    · obtain ⟨dependency, inside, path⟩ :=
        gathered.reached visited member (new visited unseen same)
      exact (next dependency inside).trans path
  refine ⟨?_, self, fun old => absurd old fresh, reached, ?_, ?_, ?_, ?_, ?_,
    mergeSort_ordered names⟩
  · exact fun visited old => gathered.grows (List.mem_append_left _ old)
  · intro visited member unseen other found
    by_cases same : visited = module
    · rw [same, present] at found
      cases found
      exact gathered.entered
    · exact gathered.closed visited member (new visited unseen same) other found
  · intro bytes target member
    rw [List.mem_mergeSort, listed] at member
    obtain ⟨origin, name, plain, rfl, unique⟩ := member
    refine ⟨name, plain, rfl, ?_, unique⟩
    rcases origin with own | brought
    · obtain ⟨other, explicit, same⟩ := (mem_ownBytes_iff present).mp own
      rw [unitsToUtf8_injective (exports module other .refl explicit) plain
        same] at explicit
      exact .own explicit
    · obtain ⟨other, otherPlain, same, notDefault, dependency, inside,
        exported⟩ := gathered.sound _ brought
      rw [unitsToUtf8_injective otherPlain plain same] at notDefault exported
      exact .star present inside notDefault exported
  · intro name target unique visited member unseen explicit allowed
    have plain := exports visited name (reached visited member unseen) explicit
    rw [List.mem_mergeSort, listed]
    refine ⟨?_, (uniqueTarget_iff plain).mpr unique⟩
    by_cases own : Explicit graph module name
    · exact .inl ((mem_ownBytes_iff present).mpr ⟨name, own, rfl⟩)
    · right
      have other : visited ≠ module := by
        rintro rfl
        exact own explicit
      have notDefault : name ≠ defaultUnits := allowed.resolve_right other
      refine gathered.complete name target notDefault ?_ visited member
        (new visited unseen other) explicit
      intro dependency inside found leads
      rw [← unique, mem_targets_star_iff present own notDefault]
      exact ⟨dependency, inside, leads⟩
  · intro name notDefault settled visited member unseen explicit
    by_cases own : Explicit graph module name
    · exact settled own
    · have other : visited ≠ module := by
        rintro rfl
        exact own explicit
      obtain ⟨dependency, inside, target, leads⟩ := gathered.inhabited name
        notDefault visited member (new visited unseen other) explicit
      exact ⟨target, (mem_targets_star_iff present own notDefault).mpr
        ⟨dependency, inside, leads⟩⟩
  · exact ((List.mergeSort_perm names byteOrder).map Prod.fst).nodup_iff.mpr
      distinct

theorem moduleExportNamesInner_walks (resolvable : Resolvable graph)
    {fuel depth : Nat} {module : ModuleRecordId} {before : List ModuleRecordId}
    (known : module < graph.modules.length)
    (resolves : ResolvesPlain graph fuel module)
    (exports : PlainExports graph module)
    (settled : ∀ visited name, graph.StarReaches module visited →
      visited ∉ before → visited ≠ module → Explicit graph visited name →
        (graph.targets (visited, name)).Nonempty)
    (bounded : remaining (List.range graph.modules.length)
      {visited | visited ∈ before} < depth) :
    ∃ names after, moduleExportNamesInner graph fuel depth module before =
        .ok (names, after) ∧ Walked graph module before after names := by
  induction depth generalizing module before with
  | zero => exact absurd bounded (Nat.not_lt_zero _)
  | succ depth induction =>
      unfold moduleExportNamesInner
      by_cases old : module ∈ before
      · rw [if_pos old]
        exact ⟨[], before, rfl, .stale old⟩
      · rw [if_neg old]
        obtain ⟨record, present⟩ : ∃ record,
            graph.modules[module]? = some record :=
          ⟨_, List.getElem?_eq_getElem known⟩
        have inside := List.mem_of_getElem? present
        have smaller : remaining (List.range graph.modules.length)
            {visited | visited ∈ before ++ [module]} < depth := by
          have less := remaining_insert_lt (List.mem_range.mpr known)
            (show module ∉ {visited | visited ∈ before} from old)
          have same : insert module {visited | visited ∈ before} =
              {visited | visited ∈ before ++ [module]} := by
            ext visited
            simp [or_comm]
          rw [same] at less
          exact Nat.lt_of_lt_of_le less (Nat.le_of_lt_succ bounded)
        have ownPlain : ∀ bytes ∈ record.exportEntries.filterMap ownBytes,
            ∃ name, Plain name ∧ unitsToUtf8 name = bytes := by
          intro bytes listed
          obtain ⟨name, explicit, same⟩ := (mem_ownBytes_iff present).mp listed
          exact ⟨name, exports module name .refl explicit, same⟩
        have here := fun name => resolves module name .refl
        obtain ⟨own, seen, ownCollected, ownSpec⟩ := @collectNames_spec graph
          fuel module here _ ownPlain [] [] List.nodup_nil (List.nil_subset _)
        have dependencies : ∀ dependency ∈ record.starDependencies,
            graph.StarReaches module dependency :=
          fun dependency listed => .single ⟨record, present, listed⟩
        have deeper : ∀ dependency ∈ record.starDependencies, ∀ visited,
            graph.StarReaches dependency visited →
              graph.StarReaches module visited :=
          fun dependency listed visited path =>
            (dependencies dependency listed).trans path
        obtain ⟨candidates, after, gatheredCandidates, gathered⟩ :=
          @starCandidates_spec graph record
            (moduleExportNamesInner graph fuel depth)
            (fun set => before ++ [module] ⊆ set ∧
              remaining (List.range graph.modules.length)
                {visited | visited ∈ set} < depth) record.exportEntries
            (fun entry listed index request => by
              obtain ⟨dependency, found, _⟩ := resolvable.requested record
                inside entry listed index request
              exact ⟨dependency, found⟩)
            (fun dependency listed set fits => by
              obtain ⟨entry, entryListed, _, requested⟩ :=
                requested_mem.mp listed
              refine induction
                (requested_lt resolvable inside entryListed requested)
                (fun visited name path =>
                  resolves visited name (deeper dependency listed visited path))
                (fun visited name path =>
                  exports visited name (deeper dependency listed visited path))
                ?_ fits.2
              intro visited name path fresh other explicit
              refine settled visited name
                (deeper dependency listed visited path) ?_ ?_ explicit
              · exact fun early =>
                  fresh (fits.1 (List.mem_append_left _ early))
              · rintro rfl
                exact fresh (fits.1 (List.mem_append_right _
                  (List.mem_singleton_self _))))
            (fun set larger fits subset =>
              ⟨fun visited early => subset (fits.1 early),
                Nat.lt_of_le_of_lt
                  (remaining_le_of_subset fun _ early => subset early) fits.2⟩)
            (fun dependency listed visited name path =>
              exports visited name (deeper dependency listed visited path))
            (fun dependency listed set fits fresh name explicit => by
              refine settled dependency name (dependencies dependency listed)
                ?_ ?_ explicit
              · exact fun early =>
                  fresh (fits.1 (List.mem_append_left _ early))
              · rintro rfl
                exact fresh (fits.1 (List.mem_append_right _
                  (List.mem_singleton_self _))))
            [] (before ++ [module]) ⟨List.Subset.refl _, smaller⟩
        rw [List.nil_append] at gatheredCandidates
        have candidatesPlain : ∀ bytes ∈ candidates,
            ∃ name, Plain name ∧ unitsToUtf8 name = bytes := by
          intro bytes listed
          obtain ⟨name, namePlain, same, _⟩ := gathered.sound bytes listed
          exact ⟨name, namePlain, same⟩
        obtain ⟨names, all, allCollected, allSpec⟩ := @collectNames_spec graph
          fuel module here _ candidatesPlain own seen ownSpec.distinct
          ownSpec.within
        refine ⟨names.mergeSort byteOrder, after, ?_, ?_⟩
        · rw [getModule, present]
          simp only [bind, Except.bind]
          rw [ownNames_eq, ownCollected]
          simp only
          rw [gatheredCandidates]
          simp only
          rw [starNames_eq, allCollected]
          rfl
        · refine Walked.of_gathered present old exports gathered ?_
            allSpec.distinct
          intro bytes target
          rw [allSpec.listed, ownSpec.listed, ownSpec.known]
          simp only [List.not_mem_nil, false_or, not_false_eq_true, true_and]
          tauto

theorem exports_iff {module : ModuleRecordId} {name : List UInt16} :
    Exports graph module name ↔
      ∃ visited, graph.StarReaches module visited ∧
        Explicit graph visited name ∧
          (name ≠ defaultUnits ∨ visited = module) := by
  constructor
  · intro exported
    induction exported with
    | own explicit => exact ⟨_, .refl, explicit, .inr rfl⟩
    | star present listed notDefault _ induction =>
        obtain ⟨visited, path, explicit, _⟩ := induction
        exact ⟨visited, .head ⟨_, present, listed⟩ path, explicit,
          .inl notDefault⟩
  · rintro ⟨visited, path, explicit, allowed⟩
    by_cases notDefault : name ≠ defaultUnits
    · clear allowed
      induction path using Relation.ReflTransGen.head_induction_on with
      | refl => exact .own explicit
      | head step _ induction =>
          obtain ⟨record, present, listed⟩ := step
          exact .star present listed notDefault induction
    · rw [← allowed.resolve_left notDefault]
      exact .own explicit

theorem moduleExportNames_namespaceNames (resolvable : Resolvable graph)
    {module : ModuleRecordId} (known : module < graph.modules.length)
    (plain : PlainResolutions graph module) {fuel depth : Nat}
    (linked : Linked graph fuel module) (enough : graph.depth ≤ fuel)
    (deep : graph.modules.length < depth) :
    ∃ names, moduleExportNames graph fuel depth module = .ok names ∧
      NamespaceNames graph module names := by
  have bounded : remaining (List.range graph.modules.length)
      {visited | visited ∈ ([] : List ModuleRecordId)} < depth := by
    have bound := remaining_le_length (List.range graph.modules.length)
      {visited | visited ∈ ([] : List ModuleRecordId)}
    rw [List.length_range] at bound
    omega
  have exports := plain.plainExports
  have resolves : ResolvesPlain graph fuel module := fun visited name path
      namePlain => resolveExport_targets resolvable
    (plain.plainFrom path namePlain) (starReaches_lt resolvable known path)
    enough
  obtain ⟨names, after, walked, spec⟩ := moduleExportNamesInner_walks resolvable
    known resolves exports
    (fun visited name path _ _ explicit => linked.targets_nonempty resolves path
      (exports visited name path explicit) explicit) bounded
  have everywhere : ∀ visited, graph.StarReaches module visited →
      visited ∈ after := by
    intro visited path
    induction path with
    | refl => exact spec.entered
    | tail _ step induction =>
        obtain ⟨record, present, listed⟩ := step
        exact spec.closed _ induction List.not_mem_nil record present listed
  refine ⟨names, by rw [moduleExportNames, walked]; rfl, ?_, ?_⟩
  · have unequal := List.pairwise_map.mp spec.distinct
    refine (spec.ordered.and unequal).imp_of_mem ?_
    rintro ⟨left, leftTarget⟩ ⟨right, rightTarget⟩ leftListed rightListed
      ⟨ordered, different⟩
    obtain ⟨leftName, leftPlain, rfl, _⟩ := spec.sound _ _ leftListed
    obtain ⟨rightName, rightPlain, rfl, _⟩ := spec.sound _ _ rightListed
    rw [nameUnits_unitsToUtf8 leftPlain, nameUnits_unitsToUtf8 rightPlain,
      ← unitsToUtf8_lt_iff leftPlain rightPlain, ← List.not_le]
    exact fun reversed => different (List.le_antisymm ordered reversed)
  · intro name target
    constructor
    · rintro ⟨bytes, rfl, listed⟩
      obtain ⟨name, namePlain, rfl, exported, unique⟩ := spec.sound _ _ listed
      rw [nameUnits_unitsToUtf8 namePlain]
      exact ⟨exported, unique⟩
    · rintro ⟨exported, unique⟩
      obtain ⟨visited, path, explicit, allowed⟩ := exports_iff.mp exported
      exact ⟨unitsToUtf8 name,
        nameUnits_unitsToUtf8 (exports visited name path explicit),
        spec.complete name target unique visited (everywhere visited path)
          List.not_mem_nil explicit allowed⟩

end Walk

section Transport

variable {graph : ModuleGraph} {fuel : Nat}

/-- All names are units that went through the transport. -/
def Transported (names : List Bytes) : Prop :=
  ∀ bytes ∈ names, ∃ units, unitsToUtf8 units = bytes

theorem plain_nameUnits (units : List UInt16) :
    Plain (nameUnits (unitsToUtf8 units)) := by
  have kept : units.filterMap charFromUnit =
      (units.filter fun unit => unit < 0xd800 ∨ 0xdfff < unit).map
        charOfUnit := by
    induction units with
    | nil => rfl
    | cons unit units induction =>
        by_cases here : unit < 0xd800 ∨ 0xdfff < unit
        · have some : charFromUnit unit = some (charOfUnit unit) := if_pos here
          rw [List.filterMap_cons_some some, induction,
            List.filter_cons_of_pos (by simpa using here)]
          rfl
        · have none : charFromUnit unit = none := if_neg here
          rw [List.filterMap_cons_none none, induction,
            List.filter_cons_of_neg (by simpa using here)]
  have plain : Plain (units.filter fun unit =>
      unit < 0xd800 ∨ 0xdfff < unit) := by
    intro unit member
    simpa using (List.mem_filter.mp member).2
  rw [nameUnits, unitsToUtf8, decodeUtf8_encodeUtf8, Option.getD_some, kept,
    plain.encodeUtf16_eq]
  exact plain

theorem pushResolved_names {module : ModuleRecordId} {name : Bytes}
    {result next : ExportList}
    (pushed : pushResolved graph fuel module name result = .ok next) :
    next.map Prod.fst ⊆ name :: result.map Prod.fst := by
  rw [pushResolved, Support.bind_eq_ok_iff] at pushed
  obtain ⟨⟨resolution, set⟩, _, finished⟩ := pushed
  cases resolution with
  | resolved target =>
      cases finished
      intro other member
      rw [List.map_append, List.mem_append] at member
      rcases member with early | late
      · exact .tail _ early
      · rw [List.mem_singleton.mp late]
        exact List.mem_cons_self
  | null =>
      cases finished
      exact List.subset_cons_self _ _
  | ambiguous =>
      cases finished
      exact List.subset_cons_self _ _

theorem collectNames_transported {module : ModuleRecordId} {names : List Bytes}
    {result final : ExportList} {seen after : List Bytes}
    (transported : Transported names)
    (earlier : Transported (result.map Prod.fst))
    (collected : collectNames graph fuel module names result seen =
      .ok (final, after)) : Transported (final.map Prod.fst) := by
  induction names generalizing result seen with
  | nil =>
      cases collected
      exact earlier
  | cons name names induction =>
      have others : Transported names := fun other member =>
        transported other (.tail _ member)
      rw [collectNames] at collected
      split at collected
      · exact induction others earlier collected
      · rw [Support.bind_eq_ok_iff] at collected
        obtain ⟨next, pushed, rest⟩ := collected
        refine induction others ?_ rest
        intro bytes member
        rcases List.mem_cons.mp (pushResolved_names pushed member) with
          same | early
        · rw [same]
          exact transported name List.mem_cons_self
        · exact earlier bytes early

theorem starCandidates_transported {record : SourceTextModuleRecord}
    {visit : ModuleRecordId → List ModuleRecordId →
      Except LinkFailure (ExportList × List ModuleRecordId)}
    (visits : ∀ module before names after, visit module before =
      .ok (names, after) → Transported (names.map Prod.fst))
    {entries : List ModuleExportEntry} {candidates final : List Bytes}
    {before after : List ModuleRecordId} (earlier : Transported candidates)
    (collected : starCandidates record visit entries candidates before =
      .ok (final, after)) : Transported final := by
  induction entries generalizing candidates before with
  | nil =>
      cases collected
      exact earlier
  | cons entry entries induction =>
      unfold starCandidates at collected
      split at collected
      · exact induction earlier collected
      · cases request : entry.request with
        | none =>
            rw [request] at collected
            exact induction earlier collected
        | some index =>
            rw [request] at collected
            simp only at collected
            rw [Support.bind_eq_ok_iff] at collected
            obtain ⟨dependency, _, visited⟩ := collected
            rw [Support.bind_eq_ok_iff] at visited
            obtain ⟨⟨names, middle⟩, found, rest⟩ := visited
            refine induction ?_ rest
            intro bytes member
            rcases List.mem_append.mp member with early | late
            · exact earlier bytes early
            · exact visits dependency before names middle found bytes
                (List.mem_filter.mp late).1

theorem moduleExportNamesInner_transported {depth : Nat}
    {module : ModuleRecordId} {before after : List ModuleRecordId}
    {names : ExportList}
    (listed : moduleExportNamesInner graph fuel depth module before =
      .ok (names, after)) : Transported (names.map Prod.fst) := by
  induction depth generalizing module before names after with
  | zero => cases listed
  | succ depth induction =>
      unfold moduleExportNamesInner at listed
      split at listed
      · cases listed
        intro bytes member
        cases member
      · rw [Support.bind_eq_ok_iff] at listed
        obtain ⟨record, _, rest⟩ := listed
        rw [Support.bind_eq_ok_iff] at rest
        obtain ⟨⟨own, seen⟩, ownListed, rest⟩ := rest
        rw [Support.bind_eq_ok_iff] at rest
        obtain ⟨⟨candidates, starSet⟩, gathered, rest⟩ := rest
        rw [Support.bind_eq_ok_iff] at rest
        obtain ⟨result, collected, finished⟩ := rest
        cases finished
        rw [ownNames_eq] at ownListed
        rw [starNames_eq] at collected
        cases all : collectNames graph fuel module candidates own seen with
        | error failure =>
            rw [all] at collected
            cases collected
        | ok pair =>
            obtain ⟨final, last⟩ := pair
            rw [all] at collected
            cases collected
            have ownTransported : Transported
                (record.exportEntries.filterMap ownBytes) := by
              intro bytes member
              obtain ⟨entry, _, written⟩ := List.mem_filterMap.mp member
              rw [ownBytes] at written
              split at written
              · cases written
              · rw [ownExportName_eq, Option.map_eq_some_iff] at written
                obtain ⟨units, _, same⟩ := written
                exact ⟨units, same⟩
            have ownDone := collectNames_transported ownTransported
              (fun bytes member => absurd member List.not_mem_nil) ownListed
            have candidatesDone := starCandidates_transported
              (fun _ _ _ _ found => induction found)
              (fun bytes member => absurd member List.not_mem_nil) gathered
            have finalDone := collectNames_transported candidatesDone ownDone all
            intro bytes member
            apply finalDone
            obtain ⟨pair, inside, same⟩ := List.mem_map.mp member
            exact List.mem_map.mpr ⟨pair, List.mem_mergeSort.mp inside, same⟩

theorem moduleExportNames_plain {depth : Nat} {module : ModuleRecordId}
    {names : ExportList}
    (listed : moduleExportNames graph fuel depth module = .ok names) :
    ∀ bytes target, (bytes, target) ∈ names → Plain (nameUnits bytes) := by
  rw [moduleExportNames, Support.bind_eq_ok_iff] at listed
  obtain ⟨⟨found, after⟩, inner, finished⟩ := listed
  cases finished
  intro bytes target member
  obtain ⟨units, rfl⟩ := moduleExportNamesInner_transported inner bytes
    (List.mem_map.mpr ⟨(bytes, target), member, rfl⟩)
  exact plain_nameUnits units

end Transport

/-- When no name that is resolved has a surrogate, the list of a namespace in a
linked graph is what it must be; and it can only be so when none of the listed
names has a surrogate. -/
theorem moduleExportNames_lists (graph : ModuleGraph)
    (resolvable : Resolvable graph) (module : ModuleRecordId)
    (known : module < graph.modules.length) (fuel depth : Nat)
    (linked : Linked graph fuel module) (enough : graph.depth ≤ fuel)
    (deep : graph.modules.length < depth) :
    (PlainResolutions graph module →
      ∃ names, moduleExportNames graph fuel depth module = .ok names ∧
        NamespaceNames graph module names) ∧
      ∀ names, moduleExportNames graph fuel depth module = .ok names →
        NamespaceNames graph module names → ∀ name target,
          Exports graph module name →
            graph.targets (module, name) = {target} → Plain name := by
  constructor
  · intro plain
    exact moduleExportNames_namespaceNames resolvable known plain linked enough
      deep
  · intro names listed right name target exported unique
    obtain ⟨bytes, rfl, member⟩ := (right.exact name target).mpr
      ⟨exported, unique⟩
    exact moduleExportNames_plain listed bytes target member

/-- A module that exports a binding also under a second name, from a local name
outside the basic plane, and a module that re-exports the first name only and
star-exports a third module in a cycle. -/
def reexportGraph : ModuleGraph where
  modules :=
    [⟨[[0x31], [0x32]], [⟨.indirect, some 0, .name [0x78], .name [0x78], .null⟩,
          starEntry 1], [([0x31], 1), ([0x32], 2)], some [], [], []⟩,
      ⟨[], [⟨.localExport, none, .null, .name [0x78], .name [0x78]⟩,
          ⟨.localExport, none, .null, .name [0x79], .name [0xd835, 0xdcb3]⟩], [],
        some [some [0x78], some [0xd835, 0xdcb3]], [0, 1], [3, 4]⟩,
      ⟨[[0x30]], [starEntry 0, ⟨.localExport, none, .null, .name [0x7a],
          .name [0x7a]⟩], [([0x30], 0)], some [some [0x7a]], [0], [5]⟩]

theorem meets_mem {graph : ModuleGraph} {world : List ExportNode}
    (encloses : Encloses graph.expand world) {start node : ExportNode}
    (member : start ∈ world) (met : graph.Meets start node) : node ∈ world := by
  induction met with
  | refl => exact member
  | tail _ step induction =>
      obtain ⟨nodes, branch, found⟩ := step
      exact encloses _ induction nodes branch found

theorem reexportGraph_resolvable : Resolvable reexportGraph := by
  refine ⟨by decide, ?_⟩
  intro record inside entry listed index request
  fin_cases inside <;> fin_cases listed <;> cases request <;>
    exact ⟨_, rfl, by decide⟩

theorem reexportGraph_linked :
    Linked reexportGraph reexportGraph.depth 0 := by
  constructor
  · intro module record _ present
    have inside : module < 3 := (List.getElem?_eq_some_iff.mp present).1
    interval_cases module <;> cases present <;> decide +kernel
  · intro module record _ present entry listed role
    have inside := List.mem_of_getElem? present
    fin_cases inside <;> fin_cases listed <;> cases role <;>
      exact ⟨_, _, rfl, rfl⟩

theorem reexportGraph_encloses : Encloses reexportGraph.expand
    [(0, [0x78]), (1, [0x78]), (2, [0x7a])] := by
  intro node member nodes branch
  fin_cases member
  · have here : reexportGraph.expand (0, [0x78]) = .branch [(1, [0x78])] := rfl
    rw [here] at branch
    cases branch
    decide
  · have here : reexportGraph.expand (1, [0x78]) = .leaf (.binding 1 3) := rfl
    rw [here] at branch
    cases branch
  · have here : reexportGraph.expand (2, [0x7a]) = .leaf (.binding 2 5) := rfl
    rw [here] at branch
    cases branch

theorem reexportGraph_starReaches {module : ModuleRecordId}
    (reached : reexportGraph.StarReaches 0 module) :
    module = 0 ∨ module = 2 := by
  induction reached with
  | refl => exact .inl rfl
  | tail _ step induction =>
      obtain ⟨record, present, listed⟩ := step
      rcases induction with rfl | rfl
      · cases present
        exact .inr (List.mem_singleton.mp listed)
      · cases present
        exact .inl (List.mem_singleton.mp listed)

theorem reexportGraph_explicit {module : ModuleRecordId} {name : List UInt16}
    (reached : reexportGraph.StarReaches 0 module)
    (explicit : Explicit reexportGraph module name) :
    (module, name) ∈
      ([(0, [0x78]), (1, [0x78]), (2, [0x7a])] : List ExportNode) := by
  obtain ⟨record, present, found⟩ := explicit
  rcases reexportGraph_starReaches reached with rfl | rfl
  · cases present
    simp [SourceTextModuleRecord.explicitEntry, starEntry,
      ModuleExportName.units] at found
    simp [found]
  · cases present
    simp [SourceTextModuleRecord.explicitEntry, starEntry,
      ModuleExportName.units] at found
    simp [found]

theorem reexportGraph_plain : PlainResolutions reexportGraph 0 := by
  intro module name reached explicit
  have member := reexportGraph_explicit reached explicit
  constructor
  · intro node met
    have inside := meets_mem reexportGraph_encloses member met
    fin_cases inside <;> decide
  · intro node met record present entry chosen units named
    have inside := meets_mem reexportGraph_encloses member met
    fin_cases inside <;> cases present
    · cases chosen
      cases named
    · cases chosen
      cases named
      decide
    · cases chosen
      cases named
      decide

theorem moduleExportNames_lists_reexport :
    ∃ names, moduleExportNames reexportGraph reexportGraph.depth 4 0 =
        .ok names ∧ NamespaceNames reexportGraph 0 names :=
  (moduleExportNames_lists reexportGraph reexportGraph_resolvable 0 (by decide)
    reexportGraph.depth 4 reexportGraph_linked (Nat.le_refl _) (by decide)).1
    reexportGraph_plain

/-- One module that exports a binding under a name outside the basic plane. -/
def astralGraph : ModuleGraph where
  modules :=
    [⟨[], [⟨.localExport, none, .null, .name [0xd835, 0xdcb3],
        .name [0xd835, 0xdcb3]⟩], [], some [some [0xd835, 0xdcb3]], [0], [3]⟩]

theorem targets_astralGraph :
    astralGraph.targets (0, [0xd835, 0xdcb3]) = {.binding 0 3} := by
  have here : astralGraph.expand (0, [0xd835, 0xdcb3]) =
      .leaf (.binding 0 3) := rfl
  ext target
  constructor
  · intro leads
    cases leads with
    | leaf again =>
        rw [here] at again
        cases again
        rfl
    | branch again =>
        rw [here] at again
        cases again
  · rintro rfl
    exact .leaf here

theorem astralGraph_linked : Linked astralGraph 5 0 := by
  constructor
  · intro module record _ present
    have inside : module < 1 := (List.getElem?_eq_some_iff.mp present).1
    interval_cases module
    cases present
    rfl
  · intro module record _ present entry listed role
    have inside := List.mem_of_getElem? present
    fin_cases inside
    fin_cases listed
    exact ⟨_, _, rfl, rfl⟩

/-- The namespace of a linked module misses a name outside the basic plane. -/
theorem moduleExportNames_misses :
    Linked astralGraph 5 0 ∧
      moduleExportNames astralGraph 5 5 0 = .ok [] ∧
        ¬ NamespaceNames astralGraph 0 [] := by
  refine ⟨astralGraph_linked, by decide +kernel, ?_⟩
  intro right
  obtain ⟨_, _, member⟩ := (right.exact [0xd835, 0xdcb3] (.binding 0 3)).mpr
    ⟨.own ⟨_, rfl, rfl⟩, targets_astralGraph⟩
  cases member

end Fusor.Modules
