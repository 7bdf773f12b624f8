import Fusor.Modules.ExportNames

/-!
# Which names survive their transport

A name is written as UTF-8 one code unit at a time, so its surrogates are left
out.  It is read back as itself when it has none.  Exports and requests are
then found under their own names and no others.
-/

namespace Fusor.Modules

open Fusor.Runtime

/-- The code units that the transport keeps. -/
def plainUnits (units : List UInt16) : List UInt16 :=
  units.filter fun unit => unit < 0xd800 ∨ 0xdfff < unit

theorem plain_plainUnits (units : List UInt16) : Plain (plainUnits units) := by
  intro unit member
  have kept := (List.mem_filter.mp member).2
  exact of_decide_eq_true kept

theorem unitsToUtf8_plainUnits (units : List UInt16) :
    unitsToUtf8 (plainUnits units) = unitsToUtf8 units := by
  have same : (plainUnits units).filterMap charFromUnit =
      units.filterMap charFromUnit := by
    rw [plainUnits, List.filterMap_filter]
    apply List.filterMap_congr
    intro unit _
    by_cases plain : unit < 0xd800 ∨ 0xdfff < unit
    · rw [if_pos (decide_eq_true plain)]
    · rw [if_neg (by rw [decide_eq_true_eq]; exact plain), charFromUnit,
        if_neg plain]
  rw [unitsToUtf8, same, unitsToUtf8]

theorem plainUnits_eq_iff (units : List UInt16) :
    plainUnits units = units ↔ Plain units := by
  rw [plainUnits, List.filter_eq_self]
  constructor
  · intro kept unit member
    exact of_decide_eq_true (kept unit member)
  · intro plain unit member
    exact decide_eq_true (plain unit member)

/-- A name is read back as itself exactly when it has no surrogate. -/
theorem nameUnitsEqUtf8_self_iff (units : List UInt16) :
    nameUnitsEqUtf8 units (unitsToUtf8 units) = true ↔ Plain units := by
  rw [← unitsToUtf8_plainUnits, nameUnitsEqUtf8_iff (plain_plainUnits units),
    ← plainUnits_eq_iff]
  exact eq_comm

namespace SourceTextModuleRecord

/-- The specifiers of a module, and the names of its export entries. -/
def writtenNames (record : SourceTextModuleRecord) : List (List UInt16) :=
  record.requests ++ record.exportEntries.flatMap fun entry =>
    entry.exportName.units.toList ++ entry.localName.units.toList ++
      entry.importName.units.toList

/-- No two explicit exports have one name. -/
def DistinctExports (record : SourceTextModuleRecord) : Prop :=
  record.exportEntries.Pairwise fun first second =>
    first.role ≠ .star → second.role ≠ .star →
      ∀ name, first.exportName.units = some name →
        second.exportName.units ≠ some name

end SourceTextModuleRecord

/-- The transport keeps the names of a module and tells them apart. -/
structure NamesSurvive (record : SourceTextModuleRecord) : Prop where
  kept : ∀ name ∈ record.writtenNames,
    nameUnitsEqUtf8 name (unitsToUtf8 name) = true
  apart : ∀ left ∈ record.writtenNames, ∀ right ∈ record.writtenNames,
    unitsToUtf8 left = unitsToUtf8 right → left = right
  found : ∀ entry ∈ record.exportEntries, entry.role = .localExport →
    ∀ name, entry.exportName.units = some name →
      ∀ declared cell, entry.localName.units = some declared →
        record.bindingCell declared = some cell →
          ∀ graph module fuel, graph.modules[module]? = some record →
            resolveExport graph (fuel + 1) module (unitsToUtf8 name) [] =
              .ok (.resolved (.binding module cell), [])
  unconfused : ∀ first ∈ record.exportEntries,
    ∀ second ∈ record.exportEntries, ∀ name other,
      first.exportName.units = some name →
        second.exportName.units = some other → name ≠ other →
          exportMatches first (unitsToUtf8 other) = false
  edges : ∀ (first second : Nat) specifier other,
    record.requests[first]? = some specifier →
      record.requests[second]? = some other → specifier ≠ other →
        unitsToUtf8 specifier ≠ unitsToUtf8 other

section Names

variable {record : SourceTextModuleRecord} {entry : ModuleExportEntry}
  {name : List UInt16}

theorem mem_writtenNames_export (listed : entry ∈ record.exportEntries)
    (named : entry.exportName.units = some name) :
    name ∈ record.writtenNames := by
  apply List.mem_append_right
  rw [List.mem_flatMap]
  refine ⟨entry, listed, ?_⟩
  apply List.mem_append_left
  apply List.mem_append_left
  rw [named]
  exact List.mem_singleton_self _

theorem mem_writtenNames_local (listed : entry ∈ record.exportEntries)
    (named : entry.localName.units = some name) :
    name ∈ record.writtenNames := by
  apply List.mem_append_right
  rw [List.mem_flatMap]
  refine ⟨entry, listed, ?_⟩
  apply List.mem_append_left
  apply List.mem_append_right
  rw [named]
  exact List.mem_singleton_self _

theorem mem_writtenNames_request {index : Nat}
    (present : record.requests[index]? = some name) :
    name ∈ record.writtenNames := by
  apply List.mem_append_left
  exact List.mem_of_getElem? present

/-- The explicit entry of a name that no other has. -/
theorem explicitEntry_eq (distinct : record.DistinctExports)
    (listed : entry ∈ record.exportEntries) (explicit : entry.role ≠ .star)
    (named : entry.exportName.units = some name) :
    record.explicitEntry name = some entry := by
  unfold SourceTextModuleRecord.DistinctExports at distinct
  unfold SourceTextModuleRecord.explicitEntry
  generalize record.exportEntries = entries at distinct listed
  induction entries with
  | nil => exact absurd listed List.not_mem_nil
  | cons first entries induction =>
      rw [List.pairwise_cons] at distinct
      rw [List.find?_cons]
      rcases List.mem_cons.mp listed with same | later
      · rw [← same, decide_eq_true ⟨explicit, named⟩]
      · have other : ¬ (first.role ≠ .star ∧
            first.exportName.units = some name) := by
          intro ⟨role, sameName⟩
          exact distinct.1 entry later role explicit name sameName named
        rw [decide_eq_false other]
        exact induction distinct.2 later

/-- A local export with plain names is found under its own name. -/
theorem resolveExport_own (distinct : record.DistinctExports)
    (listed : entry ∈ record.exportEntries) (role : entry.role = .localExport)
    (named : entry.exportName.units = some name) (plain : Plain name)
    {declared : List UInt16} (written : entry.localName.units = some declared)
    (declaredPlain : Plain declared) {cell : BindingCellId}
    (bound : record.bindingCell declared = some cell)
    {graph : ModuleGraph} {module : ModuleRecordId} (fuel : Nat)
    (present : graph.modules[module]? = some record) :
    resolveExport graph (fuel + 1) module (unitsToUtf8 name) [] =
      .ok (.resolved (.binding module cell), []) := by
  have explicit : entry.role ≠ .star := by
    rw [role]
    decide
  have installed : record.atoms.isSome := by
    cases atoms : record.atoms with
    | none =>
        rw [SourceTextModuleRecord.bindingCell, atoms] at bound
        cases bound
    | some _ => rfl
  have found := explicitEntry_eq distinct listed explicit named
  rw [SourceTextModuleRecord.explicitEntry] at found
  rw [resolveExport, if_neg List.not_mem_nil, getModule, present]
  dsimp only
  rw [Support.ok_bind, resolveExplicit_eq plain, found]
  dsimp only
  rw [if_pos role, localBytes_eq written,
    resolveLocalExport_eq declaredPlain installed, bound]
  rfl

end Names

/-- The names of a module survive exactly when none has a surrogate. -/
theorem namesSurvive_iff (record : SourceTextModuleRecord)
    (distinct : record.DistinctExports) :
    NamesSurvive record ↔ ∀ name ∈ record.writtenNames, Plain name := by
  constructor
  · intro survive name member
    exact (nameUnitsEqUtf8_self_iff name).mp (survive.kept name member)
  · intro plain
    constructor
    · intro name member
      exact (nameUnitsEqUtf8_self_iff name).mpr (plain name member)
    · intro left leftMember right rightMember same
      exact unitsToUtf8_injective (plain left leftMember)
        (plain right rightMember) same
    · intro entry listed role name named declared cell written bound graph
        module fuel present
      exact resolveExport_own distinct listed role named
        (plain name (mem_writtenNames_export listed named)) written
        (plain declared (mem_writtenNames_local listed written)) bound fuel
        present
    · intro first _ second listed name other named otherNamed different
      rw [Bool.eq_false_iff, ne_eq, exportMatches_iff
        (plain other (mem_writtenNames_export listed otherNamed)), named,
        Option.some.injEq]
      exact different
    · intro first second specifier other present otherPresent different same
      exact different (unitsToUtf8_injective
        (plain specifier (mem_writtenNames_request present))
        (plain other (mem_writtenNames_request otherPresent)) same)

/-- One local export under a plain name. -/
theorem namesSurvive_letter :
    NamesSurvive ⟨[[0x31]], [⟨.localExport, none, .null, .name [0x78],
      .name [0x78]⟩], [], some [some [0x78]], [0], [7]⟩ := by
  have distinct : SourceTextModuleRecord.DistinctExports ⟨[[0x31]],
      [⟨.localExport, none, .null, .name [0x78], .name [0x78]⟩], [],
      some [some [0x78]], [0], [7]⟩ := List.pairwise_singleton _ _
  apply (namesSurvive_iff _ distinct).mpr
  intro name member
  rcases List.mem_cons.mp member with same | member
  · rw [same]
    decide
  · rcases List.mem_cons.mp member with same | member
    · rw [same]
      decide
    · rw [List.mem_singleton.mp member]
      decide

/-- A name outside the basic plane is lost, and so is another one. -/
theorem nameTransport_loses :
    JsString.encodeUtf16 [Char.ofNat 0x1d4b3] = [0xd835, 0xdcb3] ∧
      JsString.encodeUtf16 [Char.ofNat 0x1d4b4] = [0xd835, 0xdcb4] ∧
      nameUnitsEqUtf8 [0xd835, 0xdcb3] (unitsToUtf8 [0xd835, 0xdcb3]) =
        false ∧
      unitsToUtf8 [0xd835, 0xdcb3] = unitsToUtf8 [0xd835, 0xdcb4] ∧
      resolveExport astralGraph 2 0 (unitsToUtf8 [0xd835, 0xdcb3]) [] =
        .ok (.null, []) := by
  have lost : unitsToUtf8 [0xd835, 0xdcb3] = [] := by decide
  refine ⟨by decide, by decide, ?_, by decide, ?_⟩
  · rw [Bool.eq_false_iff, ne_eq, nameUnitsEqUtf8_self_iff]
    decide
  · rw [lost]
    rfl

end Fusor.Modules
