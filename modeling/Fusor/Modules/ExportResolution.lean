import Fusor.Modules.NameEncoding
import Fusor.Search.Leaves
import Fusor.Support.Result

/-!
# What an export resolves to

An export name of a module stands for a node of a graph: explicit exports are
leaves or lead to one other node, and a name without an explicit export leads
to the same name in every star-exported module.  The resolution prunes only its
current path and still classifies the leaves that can be reached, as the
specification does with a set it never shrinks.
-/

namespace Fusor.Modules

open Fusor.Runtime Fusor.Search

def ModuleExportName.units : ModuleExportName → Option (List UInt16)
  | .name units => some units
  | .default => some defaultUnits
  | .null => none

def ModuleExportLocalName.units : ModuleExportLocalName → Option (List UInt16)
  | .name units => some units
  | .syntheticDefault => some syntheticDefaultUnits
  | .null => none

def ModuleExportImportName.units :
    ModuleExportImportName → Option (List UInt16)
  | .name units => some units
  | .default => some defaultUnits
  | .all => none
  | .allButDefault => none
  | .null => none

namespace SourceTextModuleRecord

/-- The module an entry takes its exports from. -/
def requested (record : SourceTextModuleRecord) (entry : ModuleExportEntry) :
    Option ModuleRecordId := do
  let index ← entry.request
  let specifier ← record.requests[index]?
  record.resolvedDependencies.lookup (unitsToUtf8 specifier)

/-- The explicit export of a name. -/
def explicitEntry (record : SourceTextModuleRecord) (name : List UInt16) :
    Option ModuleExportEntry :=
  record.exportEntries.find? fun entry =>
    entry.role ≠ .star ∧ entry.exportName.units = some name

def starDependencies (record : SourceTextModuleRecord) : List ModuleRecordId :=
  (record.exportEntries.filter (·.role = .star)).filterMap record.requested

/-- The cell of a declared binding. -/
def bindingCell (record : SourceTextModuleRecord) (name : List UInt16) :
    Option BindingCellId := do
  let atoms ← record.atoms
  (record.bindings.zip record.environment).findSome? fun binding =>
    if atoms[binding.1]?.join = some name then some binding.2 else none

end SourceTextModuleRecord

/-- An export name of a module. -/
abbrev ExportNode := ModuleRecordId × List UInt16

def expandEntry (record : SourceTextModuleRecord) (module : ModuleRecordId)
    (entry : ModuleExportEntry) : Expansion ExportNode ResolvedExport :=
  match entry.role with
  | .localExport =>
      match entry.localName.units.bind record.bindingCell with
      | some cell => .leaf (.binding module cell)
      | none => .branch []
  | .indirect =>
      match record.requested entry with
      | none => .branch []
      | some dependency =>
          if entry.importName = .all then .leaf (.moduleNamespace dependency)
          else .branch (entry.importName.units.toList.map (dependency, ·))
  | .star => .branch []

/-- Where an export name leads. -/
def ModuleGraph.expand (graph : ModuleGraph) (node : ExportNode) :
    Expansion ExportNode ResolvedExport :=
  match graph.modules[node.1]? with
  | none => .branch []
  | some record =>
      match record.explicitEntry node.2 with
      | some entry => expandEntry record node.1 entry
      | none =>
          if node.2 = defaultUnits then .branch []
          else .branch (record.starDependencies.map (·, node.2))

/-- The targets that an export name leads to. -/
def ModuleGraph.targets (graph : ModuleGraph) (node : ExportNode) :
    Set ResolvedExport :=
  {target | Leads graph.expand node target}

def ExportResolution.answer : ExportResolution → Answer ResolvedExport
  | .resolved target => .unique target
  | .null => .nothing
  | .ambiguous => .several

/-- `ResolveExport` of the language specification, whose resolve set keeps
every node it has met. -/
def specResolveExport (graph : ModuleGraph) (fuel : Nat) (node : ExportNode) :
    Option (Answer ResolvedExport) :=
  (visitOnce graph.expand fuel node []).map Prod.fst

/-- The code of every module is installed and every request has its edge. -/
structure Resolvable (graph : ModuleGraph) : Prop where
  installed : ∀ record ∈ graph.modules, record.atoms.isSome
  requested : ∀ record ∈ graph.modules, ∀ entry ∈ record.exportEntries,
    ∀ index, entry.request = some index →
      ∃ dependency, resolveRequest record index = .ok dependency ∧
        dependency < graph.modules.length

/-- The second module can be reached from the first through export entries. -/
def ModuleGraph.Reaches (graph : ModuleGraph) :
    ModuleRecordId → ModuleRecordId → Prop :=
  Relation.ReflTransGen fun source target =>
    ∃ record, graph.modules[source]? = some record ∧
      ∃ entry ∈ record.exportEntries, record.requested entry = some target

/-- No imported or local name of an export entry has a surrogate, in the
modules that can be reached. -/
structure PlainEntries (graph : ModuleGraph) (root : ModuleRecordId) :
    Prop where
  imported : ∀ module record, graph.Reaches root module →
    graph.modules[module]? = some record → ∀ entry ∈ record.exportEntries,
      ∀ units, entry.importName.units = some units → Plain units
  declared : ∀ module record, graph.Reaches root module →
    graph.modules[module]? = some record → ∀ entry ∈ record.exportEntries,
      ∀ units, entry.localName.units = some units → Plain units

theorem PlainEntries.of_reaches {graph : ModuleGraph}
    {root module : ModuleRecordId} (plain : PlainEntries graph root)
    (reached : graph.Reaches root module) : PlainEntries graph module :=
  ⟨fun other record path => plain.imported other record (reached.trans path),
    fun other record path => plain.declared other record (reached.trans path)⟩

section Lookup

variable {record : SourceTextModuleRecord} {name : List UInt16}

theorem resolveRequest_eq_ok_iff {index : Nat} {dependency : ModuleRecordId}
    {entry : ModuleExportEntry} (request : entry.request = some index) :
    resolveRequest record index = .ok dependency ↔
      record.requested entry = some dependency := by
  rw [resolveRequest, SourceTextModuleRecord.requested, request]
  simp only [Option.bind_eq_bind, Option.bind_some]
  cases record.requests[index]? with
  | none => simp
  | some specifier =>
      cases found : record.resolvedDependencies.lookup
        (unitsToUtf8 specifier) with
      | none => simp [found]
      | some other => simp [found]

theorem exportMatches_iff (plain : Plain name) (entry : ModuleExportEntry) :
    exportMatches entry (unitsToUtf8 name) = true ↔
      entry.exportName.units = some name := by
  rw [exportMatches]
  cases entry.exportName with
  | name units =>
      rw [nameUnitsEqUtf8_iff plain]
      exact Option.some_inj.symm
  | default =>
      rw [beq_iff_eq, ← unitsToUtf8_default, ModuleExportName.units,
        Option.some_inj]
      constructor
      · intro same
        exact (unitsToUtf8_injective plain plain_defaultUnits same).symm
      · rintro rfl
        rfl
  | null => simp [ModuleExportName.units]

theorem localBytes_eq {entry : ModuleExportEntry} {units : List UInt16}
    (named : entry.localName.units = some units) (set : ResolveSet)
    (module : ModuleRecordId) :
    resolveLocalEntry record module entry set = (do
      let result ← resolveLocalExport record module (unitsToUtf8 units)
      match result with
      | some target => .ok (.resolved target, set.tail)
      | none => .ok (.null, set.tail)) := by
  unfold resolveLocalEntry
  cases written : entry.localName with
  | name other =>
      rw [written] at named
      cases named
      rfl
  | syntheticDefault =>
      rw [written] at named
      cases named
      rewrite [unitsToUtf8_syntheticDefault]
      rfl
  | null =>
      rw [written] at named
      cases named

theorem findBindingCell_eq (plain : Plain name)
    (atoms : List (Option (List UInt16))) (environment : List BindingCellId)
    (bindings : List Nat) (index : Nat) :
    findBindingCell atoms environment (unitsToUtf8 name) index bindings =
      (bindings.zip (environment.drop index)).findSome? (fun binding =>
        if atoms[binding.1]?.join = some name then some binding.2
        else none) := by
  induction bindings generalizing index with
  | nil => rfl
  | cons atom bindings induction =>
      unfold findBindingCell
      cases present : environment[index]? with
      | none =>
          have ended := List.getElem?_eq_none_iff.mp present
          have beyond : environment.drop (index + 1) = [] :=
            List.drop_eq_nil_of_le (by omega)
          rw [induction, List.drop_eq_nil_of_le ended, beyond]
          cases atoms[atom]?.join <;> simp
      | some cell =>
          obtain ⟨bound, here⟩ := List.getElem?_eq_some_iff.mp present
          rw [List.drop_eq_getElem_cons bound, here, List.zip_cons_cons,
            List.findSome?_cons]
          cases described : atoms[atom]?.join with
          | none => simpa [described] using induction (index + 1)
          | some units =>
              by_cases same : units = name
              · subst same
                have equal := (nameUnitsEqUtf8_iff plain).mpr rfl
                simp [equal]
              · have different : nameUnitsEqUtf8 units (unitsToUtf8 name) =
                    false := by
                  rw [Bool.eq_false_iff, ne_eq, nameUnitsEqUtf8_iff plain]
                  exact same
                simpa [described, different, same] using induction (index + 1)

theorem resolveLocalExport_eq (plain : Plain name)
    (installed : record.atoms.isSome) (module : ModuleRecordId) :
    resolveLocalExport record module (unitsToUtf8 name) =
      .ok ((record.bindingCell name).map (.binding module)) := by
  obtain ⟨atoms, present⟩ := Option.isSome_iff_exists.mp installed
  rw [resolveLocalExport, present, SourceTextModuleRecord.bindingCell, present]
  simp only [Option.bind_eq_bind, Option.bind_some]
  rw [findBindingCell_eq plain, List.drop_zero]

theorem sameResolvedBinding_iff (left right : ResolvedExport) :
    sameResolvedBinding left right = true ↔ left = right := by
  cases left <;> cases right <;> simp [sameResolvedBinding]

/-- The first loop decides by the explicit entry of the name. -/
theorem resolveExplicit_eq (plain : Plain name)
    (visit : ModuleRecordId → Bytes → ResolveSet →
      Except LinkFailure (ExportResolution × ResolveSet))
    (module : ModuleRecordId) (set : ResolveSet)
    (entries : List ModuleExportEntry) :
    resolveExplicit visit record module (unitsToUtf8 name) set entries =
      match entries.find? fun entry =>
        entry.role ≠ .star ∧ entry.exportName.units = some name with
      | none => .ok none
      | some entry =>
          if entry.role = .localExport then
            (resolveLocalEntry record module entry set).map some
          else (resolveIndirectEntry visit record entry set).map some := by
  induction entries with
  | nil => rfl
  | cons entry entries induction =>
      rw [resolveExplicit, List.find?_cons, induction]
      by_cases named : entry.exportName.units = some name
      · rw [if_pos ((exportMatches_iff plain entry).mpr named)]
        cases role : entry.role with
        | localExport => simp [named, role]
        | indirect => simp [named, role]
        | star => simp
      · have other : ¬ exportMatches entry (unitsToUtf8 name) = true := by
          rw [exportMatches_iff plain]
          exact named
        rw [if_neg other]
        simp [named]

end Lookup

section Resolution

variable {graph : ModuleGraph}

/-- The nodes whose bytes are in the resolve set. -/
def avoidedNodes (set : ResolveSet) : Set ExportNode :=
  {node | Plain node.2 ∧ (node.1, unitsToUtf8 node.2) ∈ set}

theorem avoidedNodes_cons {module : ModuleRecordId} {name : List UInt16}
    (plain : Plain name) (set : ResolveSet) :
    avoidedNodes ((module, unitsToUtf8 name) :: set) =
      insert (module, name) (avoidedNodes set) := by
  ext ⟨other, units⟩
  constructor
  · rintro ⟨otherPlain, member⟩
    rcases List.mem_cons.mp member with same | older
    · obtain ⟨sameModule, bytes⟩ := Prod.mk.inj same
      have sameName : units = name :=
        unitsToUtf8_injective otherPlain plain bytes
      exact .inl (Prod.ext sameModule sameName)
    · exact .inr ⟨otherPlain, older⟩
  · rintro (same | ⟨otherPlain, older⟩)
    · cases same
      exact ⟨plain, List.mem_cons_self⟩
    · exact ⟨otherPlain, .tail _ older⟩

theorem avoidedNodes_nil : avoidedNodes [] = ∅ := by
  apply Set.eq_empty_of_forall_notMem
  rintro node ⟨_, member⟩
  cases member

/-- A call that returns with its resolve set as it was and classifies the
targets. -/
def Resolves (call : Except LinkFailure (ExportResolution × ResolveSet))
    (set : ResolveSet) (targets : Set ResolvedExport) : Prop :=
  ∃ resolution, call = .ok (resolution, set) ∧
    Classifies targets resolution.answer

theorem resolveStars_resolves {record : SourceTextModuleRecord} {bytes : Bytes}
    {visit : ModuleRecordId → Bytes → ResolveSet →
      Except LinkFailure (ExportResolution × ResolveSet)}
    {set : ResolveSet} {targets : ModuleRecordId → Set ResolvedExport}
    {entries : List ModuleExportEntry}
    (requests : ∀ entry ∈ entries, ∀ index, entry.request = some index →
      ∃ dependency, resolveRequest record index = .ok dependency)
    (visits : ∀ entry ∈ entries, entry.role = .star → ∀ dependency,
      record.requested entry = some dependency →
        Resolves (visit dependency bytes set) set (targets dependency))
    (found : Option ResolvedExport) :
    Resolves (resolveStars visit record bytes entries found set) set.tail
      (foundLeaves found ∪ {target | ∃ entry ∈ entries, entry.role = .star ∧
        ∃ dependency, record.requested entry = some dependency ∧
          target ∈ targets dependency}) := by
  induction entries generalizing found with
  | nil =>
      have none : {target | ∃ entry ∈ ([] : List ModuleExportEntry),
          entry.role = .star ∧ ∃ dependency,
            record.requested entry = some dependency ∧
              target ∈ targets dependency} = ∅ := by
        simp
      rw [none, Set.union_empty]
      unfold resolveStars
      cases found with
      | none => exact ⟨.null, rfl, rfl⟩
      | some target => exact ⟨.resolved target, rfl, rfl⟩
  | cons entry entries induction =>
      have rest := induction
        (fun other member => requests other (.tail _ member))
        (fun other member => visits other (.tail _ member))
      unfold resolveStars
      by_cases star : entry.role = .star
      · rw [if_neg (not_not.mpr star)]
        cases request : entry.request with
        | none =>
            have nothing : record.requested entry = none := by
              rw [SourceTextModuleRecord.requested, request]
              rfl
            simp only [List.mem_cons, exists_eq_or_imp, star, nothing,
              reduceCtorEq, false_and, exists_false, and_false, false_or]
            exact rest found
        | some index =>
            obtain ⟨dependency, resolved⟩ :=
              requests entry List.mem_cons_self index request
            have requested := (resolveRequest_eq_ok_iff request).mp resolved
            obtain ⟨resolution, visited, classified⟩ :=
              visits entry List.mem_cons_self star dependency requested
            have split : {target | ∃ other ∈ entry :: entries,
                other.role = .star ∧ ∃ dependency,
                  record.requested other = some dependency ∧
                    target ∈ targets dependency} =
                targets dependency ∪ {target | ∃ other ∈ entries,
                  other.role = .star ∧ ∃ dependency,
                    record.requested other = some dependency ∧
                      target ∈ targets dependency} := by
              ext target
              simp [star, requested]
            rw [split, ← Set.union_assoc]
            simp only
            rw [resolved]
            simp only [bind, Except.bind]
            rw [visited]
            cases merged : Answer.merge found resolution.answer with
            | none =>
                have several := (merge_eq_none classified merged).mono
                  (@Set.subset_union_left _ _ {target | ∃ other ∈ entries,
                    other.role = .star ∧ ∃ dependency,
                      record.requested other = some dependency ∧
                        target ∈ targets dependency})
                refine ⟨.ambiguous, ?_, several⟩
                cases resolution with
                | null => cases found <;> cases merged
                | ambiguous => rfl
                | resolved target =>
                    cases found with
                    | none => cases merged
                    | some first =>
                        have different : ¬ first = target := by
                          intro same
                          simp [ExportResolution.answer, Answer.merge, same]
                            at merged
                        have unequal : ¬ sameResolvedBinding first target =
                            true := by
                          rw [sameResolvedBinding_iff]
                          exact different
                        simp [unequal]
            | some next =>
                rw [← merge_eq_some classified merged]
                cases resolution with
                | null =>
                    have kept : found = next := by
                      cases found <;> exact Option.some.inj merged
                    rw [← kept]
                    exact rest found
                | ambiguous => cases found <;> cases merged
                | resolved target =>
                    cases found with
                    | none =>
                        cases merged
                        exact rest (some target)
                    | some first =>
                        rw [ExportResolution.answer, Answer.merge] at merged
                        split at merged
                        · rename_i same
                          cases merged
                          have equal :=
                            (sameResolvedBinding_iff first target).mpr same
                          simp only [equal, ↓reduceIte]
                          exact rest (some first)
                        · cases merged
      · rw [if_pos star]
        simp only [List.mem_cons, exists_eq_or_imp, star, false_and, false_or]
        exact rest found

/-- A finite set of nodes that resolution does not leave. -/
structure Contains (graph : ModuleGraph) (world : List ExportNode) : Prop where
  known : ∀ node ∈ world, node.1 < graph.modules.length
  plain : ∀ node ∈ world, Plain node.2
  declared : ∀ node ∈ world, ∀ record, graph.modules[node.1]? = some record →
    ∀ entry, record.explicitEntry node.2 = some entry → ∀ units,
      entry.localName.units = some units → Plain units
  encloses : Encloses graph.expand world

theorem resolveLocalEntry_resolves {record : SourceTextModuleRecord}
    {module : ModuleRecordId} {entry : ModuleExportEntry} {set : ResolveSet}
    {node : ExportNode} {avoided : Set ExportNode}
    (installed : record.atoms.isSome)
    (plain : ∀ units, entry.localName.units = some units → Plain units)
    (fresh : node ∉ avoided) (role : entry.role = .localExport)
    (here : graph.expand node = expandEntry record module entry) :
    Resolves (resolveLocalEntry record module entry set) set.tail
      {target | LeadsOutside graph.expand avoided node target} := by
  unfold expandEntry at here
  rw [role] at here
  cases named : entry.localName.units with
  | none =>
      have null : entry.localName = .null := by
        cases written : entry.localName with
        | null => rfl
        | name units =>
            rw [written] at named
            cases named
        | syntheticDefault =>
            rw [written] at named
            cases named
      have dead : graph.expand node = .branch [] := by
        rw [here, named]
        rfl
      refine ⟨.null, ?_, ?_⟩
      · rw [resolveLocalEntry, null]
      · rw [leadsOutside_branch fresh dead]
        simp [ExportResolution.answer, Classifies]
  | some units =>
      rw [localBytes_eq named,
        resolveLocalExport_eq (plain units named) installed]
      cases found : record.bindingCell units with
      | none =>
          have dead : graph.expand node = .branch [] := by
            rw [here, named]
            simp [found]
          refine ⟨.null, rfl, ?_⟩
          rw [leadsOutside_branch fresh dead]
          simp [ExportResolution.answer, Classifies]
      | some cell =>
          have leaf : graph.expand node = .leaf (.binding module cell) := by
            rw [here, named]
            simp [found]
          refine ⟨.resolved (.binding module cell), rfl, ?_⟩
          exact leadsOutside_leaf fresh leaf

theorem resolveIndirectEntry_resolves {record : SourceTextModuleRecord}
    {module : ModuleRecordId} {entry : ModuleExportEntry} {set : ResolveSet}
    {node : ExportNode} {avoided : Set ExportNode}
    {visit : ModuleRecordId → Bytes → ResolveSet →
      Except LinkFailure (ExportResolution × ResolveSet)}
    (requests : ∀ index, entry.request = some index →
      ∃ dependency, resolveRequest record index = .ok dependency)
    (visits : ∀ dependency units, record.requested entry = some dependency →
      entry.importName.units = some units →
        Resolves (visit dependency (unitsToUtf8 units) set) set
          {target | LeadsOutside graph.expand (insert node avoided)
            (dependency, units) target})
    (fresh : node ∉ avoided) (role : entry.role = .indirect)
    (here : graph.expand node = expandEntry record module entry) :
    Resolves (resolveIndirectEntry visit record entry set) set.tail
      {target | LeadsOutside graph.expand avoided node target} := by
  unfold expandEntry at here
  rw [role] at here
  unfold resolveIndirectEntry
  cases request : entry.request with
  | none =>
      have nothing : record.requested entry = none := by
        rw [SourceTextModuleRecord.requested, request]
        rfl
      rw [nothing] at here
      refine ⟨.null, rfl, ?_⟩
      rw [leadsOutside_branch fresh here]
      simp [ExportResolution.answer, Classifies]
  | some index =>
      obtain ⟨dependency, resolved⟩ := requests index request
      have requested := (resolveRequest_eq_ok_iff request).mp resolved
      rw [requested] at here
      simp only at here ⊢
      rw [resolved]
      simp only [bind, Except.bind]
      have follow : ∀ units, entry.importName ≠ .all →
          entry.importName.units = some units →
          Resolves (visit dependency (unitsToUtf8 units) set) set
            {target | LeadsOutside graph.expand avoided node target} := by
        intro units other named
        rw [if_neg other, named] at here
        rw [leadsOutside_branch fresh here]
        simpa using visits dependency units requested named
      have dead : entry.importName ≠ .all → entry.importName.units = none →
          Resolves (.ok (.null, set.tail)) set.tail
            {target | LeadsOutside graph.expand avoided node target} := by
        intro other named
        rw [if_neg other, named] at here
        refine ⟨.null, rfl, ?_⟩
        rw [leadsOutside_branch fresh here]
        simp [ExportResolution.answer, Classifies]
      cases written : entry.importName with
      | all =>
          rw [if_pos written] at here
          exact ⟨.resolved (.moduleNamespace dependency), rfl,
            leadsOutside_leaf fresh here⟩
      | name units =>
          obtain ⟨resolution, visited, classified⟩ :=
            follow units (by simp [written]) (by rw [written]; rfl)
          exact ⟨resolution, by simp only [visited], classified⟩
      | default =>
          obtain ⟨resolution, visited, classified⟩ :=
            follow defaultUnits (by simp [written]) (by rw [written]; rfl)
          rw [unitsToUtf8_default] at visited
          exact ⟨resolution, by simp only [visited], classified⟩
      | allButDefault => exact dead (by simp [written]) (by rw [written]; rfl)
      | null => exact dead (by simp [written]) (by rw [written]; rfl)

theorem requested_mem {record : SourceTextModuleRecord}
    {dependency : ModuleRecordId} :
    dependency ∈ record.starDependencies ↔
      ∃ entry ∈ record.exportEntries, entry.role = .star ∧
        record.requested entry = some dependency := by
  simp [SourceTextModuleRecord.starDependencies, and_assoc]

theorem resolveExport_resolves (resolvable : Resolvable graph)
    {world : List ExportNode}
    (contains : Contains graph world) {fuel : Nat} {module : ModuleRecordId}
    {name : List UInt16} {set : ResolveSet} (member : (module, name) ∈ world)
    (enough : remaining world (avoidedNodes set) < fuel) :
    Resolves (resolveExport graph fuel module (unitsToUtf8 name) set) set
      {target | LeadsOutside graph.expand (avoidedNodes set) (module, name)
        target} := by
  induction fuel generalizing module name set with
  | zero => exact absurd enough (Nat.not_lt_zero _)
  | succ fuel induction =>
      have namePlain : Plain name := contains.plain _ member
      unfold resolveExport
      by_cases old : (module, unitsToUtf8 name) ∈ set
      · rw [if_pos old]
        exact ⟨.null, rfl, leadsOutside_of_mem ⟨namePlain, old⟩⟩
      · rw [if_neg old]
        have fresh : (module, name) ∉ avoidedNodes set := fun avoids =>
          old avoids.2
        have smaller : remaining world
            (avoidedNodes ((module, unitsToUtf8 name) :: set)) < fuel := by
          have less := remaining_insert_lt member fresh
          rw [avoidedNodes_cons namePlain]
          omega
        obtain ⟨record, present⟩ : ∃ record,
            graph.modules[module]? = some record :=
          ⟨_, List.getElem?_eq_getElem (contains.known _ member)⟩
        have inside := List.mem_of_getElem? present
        have expanded : graph.expand (module, name) =
            match record.explicitEntry name with
            | some entry => expandEntry record module entry
            | none =>
                if name = defaultUnits then .branch []
                else .branch (record.starDependencies.map (·, name)) := by
          unfold ModuleGraph.expand
          rw [present]
        have visits : ∀ nodes, graph.expand (module, name) = .branch nodes →
            ∀ node ∈ nodes, Resolves
              (resolveExport graph fuel node.1 (unitsToUtf8 node.2)
                ((module, unitsToUtf8 name) :: set))
              ((module, unitsToUtf8 name) :: set)
              {target | LeadsOutside graph.expand
                (insert (module, name) (avoidedNodes set)) node target} := by
          intro nodes branch node found
          have next := induction
            (contains.encloses _ member nodes branch found) smaller
          rw [avoidedNodes_cons namePlain] at next
          exact next
        rw [getModule, present]
        simp only [bind, Except.bind]
        rw [resolveExplicit_eq namePlain, ← SourceTextModuleRecord.explicitEntry]
        cases chosen : record.explicitEntry name with
        | some entry =>
            rw [chosen] at expanded
            simp only at expanded ⊢
            have listed : entry ∈ record.exportEntries :=
              List.mem_of_find?_eq_some chosen
            have valid := List.find?_some chosen
            simp only [ne_eq, decide_eq_true_eq] at valid
            by_cases role : entry.role = .localExport
            · obtain ⟨resolution, resolved, classified⟩ :=
                @resolveLocalEntry_resolves graph record module entry
                  ((module, unitsToUtf8 name) :: set) (module, name)
                  (avoidedNodes set) (resolvable.installed record inside)
                  (contains.declared _ member record present entry chosen)
                  fresh role expanded
              refine ⟨resolution, ?_, classified⟩
              rw [if_pos role, resolved]
              rfl
            · have indirect : entry.role = .indirect := by
                cases written : entry.role with
                | localExport => exact absurd written role
                | indirect => rfl
                | star => exact absurd written valid.1
              obtain ⟨resolution, resolved, classified⟩ :=
                @resolveIndirectEntry_resolves graph record module entry
                  ((module, unitsToUtf8 name) :: set) (module, name)
                  (avoidedNodes set) (resolveExport graph fuel)
                  (fun index request => by
                    obtain ⟨dependency, found, _⟩ := resolvable.requested record
                      inside entry listed index request
                    exact ⟨dependency, found⟩)
                  (fun dependency units requested named => by
                    have other : entry.importName ≠ .all := by
                      intro all
                      rw [all] at named
                      cases named
                    refine visits [(dependency, units)] ?_ _
                      List.mem_cons_self
                    unfold expandEntry at expanded
                    rw [indirect, requested] at expanded
                    simp only [other, ↓reduceIte, named] at expanded
                    exact expanded)
                  fresh indirect expanded
              refine ⟨resolution, ?_, classified⟩
              rw [if_neg role, resolved]
              rfl
        | none =>
            rw [chosen] at expanded
            simp only at expanded ⊢
            by_cases isDefault : name = defaultUnits
            · rw [if_pos isDefault] at expanded
              have bytes : ¬ unitsToUtf8 name ≠ defaultBytes := by
                rw [isDefault, unitsToUtf8_default]
                exact fun different => different rfl
              rw [if_neg bytes]
              refine ⟨.null, rfl, ?_⟩
              rw [leadsOutside_branch fresh expanded]
              simp [ExportResolution.answer, Classifies]
            · rw [if_neg isDefault] at expanded
              have bytes : unitsToUtf8 name ≠ defaultBytes := by
                rw [← unitsToUtf8_default]
                intro same
                exact isDefault
                  (unitsToUtf8_injective namePlain plain_defaultUnits same)
              rw [if_pos bytes]
              have stars := @resolveStars_resolves record (unitsToUtf8 name)
                (resolveExport graph fuel) ((module, unitsToUtf8 name) :: set)
                (fun dependency => {target | LeadsOutside graph.expand
                  (insert (module, name) (avoidedNodes set)) (dependency, name)
                    target}) record.exportEntries
                (fun entry listed index request => by
                  obtain ⟨dependency, found, _⟩ := resolvable.requested record
                    inside entry listed index request
                  exact ⟨dependency, found⟩)
                (fun entry listed star dependency requested =>
                  visits _ expanded (dependency, name) (List.mem_map.mpr
                    ⟨dependency, requested_mem.mpr
                      ⟨entry, listed, star, requested⟩, rfl⟩)) none
              rw [leadsOutside_branch fresh expanded]
              obtain ⟨resolution, resolved, classified⟩ := stars
              refine ⟨resolution, resolved, ?_⟩
              have same : {target | ∃ next ∈ record.starDependencies.map
                    (·, name), LeadsOutside graph.expand
                      (insert (module, name) (avoidedNodes set)) next target} =
                  foundLeaves none ∪ {target | ∃ entry ∈ record.exportEntries,
                    entry.role = .star ∧ ∃ dependency,
                      record.requested entry = some dependency ∧
                        target ∈ {target | LeadsOutside graph.expand
                          (insert (module, name) (avoidedNodes set))
                            (dependency, name) target}} := by
                rw [foundLeaves, Set.empty_union]
                ext target
                constructor
                · rintro ⟨next, found, leads⟩
                  obtain ⟨dependency, star, rfl⟩ := List.mem_map.mp found
                  obtain ⟨entry, listed, role, requested⟩ :=
                    requested_mem.mp star
                  exact ⟨entry, listed, role, dependency, requested, leads⟩
                · rintro ⟨entry, listed, role, dependency, requested, leads⟩
                  exact ⟨_, List.mem_map.mpr ⟨dependency, requested_mem.mpr
                    ⟨entry, listed, role, requested⟩, rfl⟩, leads⟩
              rw [same]
              exact classified

end Resolution

section Nodes

variable {graph : ModuleGraph}

/-- The names that can come up when a name is resolved. -/
def ModuleGraph.names (graph : ModuleGraph) (name : List UInt16) :
    List (List UInt16) :=
  name :: graph.modules.flatMap fun record =>
    record.exportEntries.filterMap (·.importName.units)

/-- The nodes that can come up when a name is resolved. -/
def ModuleGraph.nodes (graph : ModuleGraph) (name : List UInt16) :
    List ExportNode :=
  (List.range graph.modules.length).flatMap fun module =>
    (graph.names name).map (module, ·)

theorem mem_nodes_iff {name : List UInt16} {node : ExportNode} :
    node ∈ graph.nodes name ↔
      node.1 < graph.modules.length ∧ node.2 ∈ graph.names name := by
  obtain ⟨module, units⟩ := node
  simp [ModuleGraph.nodes]

theorem requested_lt (resolvable : Resolvable graph)
    {record : SourceTextModuleRecord} {entry : ModuleExportEntry}
    {dependency : ModuleRecordId} (inside : record ∈ graph.modules)
    (listed : entry ∈ record.exportEntries)
    (requested : record.requested entry = some dependency) :
    dependency < graph.modules.length := by
  cases request : entry.request with
  | none =>
      rw [SourceTextModuleRecord.requested, request] at requested
      cases requested
  | some index =>
      obtain ⟨other, resolved, known⟩ :=
        resolvable.requested record inside entry listed index request
      rw [resolveRequest_eq_ok_iff request, requested] at resolved
      cases resolved
      exact known

theorem expand_cases {node : ExportNode} {nodes : List ExportNode}
    (branch : graph.expand node = .branch nodes) {next : ExportNode}
    (member : next ∈ nodes) :
    ∃ record, graph.modules[node.1]? = some record ∧
      ∃ entry ∈ record.exportEntries, record.requested entry = some next.1 ∧
        (next.2 = node.2 ∨ entry.importName.units = some next.2) := by
  unfold ModuleGraph.expand at branch
  cases present : graph.modules[node.1]? with
  | none =>
      rw [present] at branch
      cases branch
      cases member
  | some record =>
      rw [present] at branch
      simp only at branch
      refine ⟨record, rfl, ?_⟩
      cases chosen : record.explicitEntry node.2 with
      | some entry =>
          rw [chosen] at branch
          have listed : entry ∈ record.exportEntries :=
            List.mem_of_find?_eq_some chosen
          simp only [expandEntry] at branch
          cases role : entry.role with
          | localExport =>
              rw [role] at branch
              simp only at branch
              split at branch
              · cases branch
              · cases branch
                cases member
          | indirect =>
              rw [role] at branch
              simp only at branch
              cases requested : record.requested entry with
              | none =>
                  rw [requested] at branch
                  cases branch
                  cases member
              | some dependency =>
                  rw [requested] at branch
                  simp only at branch
                  split at branch
                  · cases branch
                  · cases branch
                    obtain ⟨units, named, rfl⟩ := List.mem_map.mp member
                    exact ⟨entry, listed, requested,
                      .inr (Option.mem_toList.mp named)⟩
          | star =>
              rw [role] at branch
              cases branch
              cases member
      | none =>
          rw [chosen] at branch
          simp only at branch
          split at branch
          · cases branch
            cases member
          · cases branch
            obtain ⟨dependency, star, rfl⟩ := List.mem_map.mp member
            obtain ⟨entry, listed, _, requested⟩ := requested_mem.mp star
            exact ⟨entry, listed, requested, .inl rfl⟩

/-- The second node comes up when the first one is resolved. -/
def ModuleGraph.Meets (graph : ModuleGraph) : ExportNode → ExportNode → Prop :=
  Relation.ReflTransGen fun node next =>
    ∃ nodes, graph.expand node = .branch nodes ∧ next ∈ nodes

/-- No name that comes up when the node is resolved has a surrogate: neither
the export names that are looked for nor the local names of the bindings. -/
structure PlainFrom (graph : ModuleGraph) (start : ExportNode) : Prop where
  named : ∀ node, graph.Meets start node → Plain node.2
  declared : ∀ node, graph.Meets start node → ∀ record,
    graph.modules[node.1]? = some record → ∀ entry,
      record.explicitEntry node.2 = some entry → ∀ units,
        entry.localName.units = some units → Plain units

theorem PlainEntries.plainFrom {module : ModuleRecordId}
    (plain : PlainEntries graph module) {name : List UInt16}
    (namePlain : Plain name) : PlainFrom graph (module, name) := by
  have world : ∀ node, graph.Meets (module, name) node →
      graph.Reaches module node.1 ∧ Plain node.2 := by
    intro node met
    induction met with
    | refl => exact ⟨.refl, namePlain⟩
    | tail _ step induction =>
        obtain ⟨nodes, branch, found⟩ := step
        obtain ⟨reached, nodePlain⟩ := induction
        obtain ⟨record, present, entry, listed, requested, named⟩ :=
          expand_cases branch found
        refine ⟨reached.tail ⟨record, present, entry, listed, requested⟩, ?_⟩
        rcases named with same | imported
        · rw [same]
          exact nodePlain
        · exact plain.imported _ record reached present entry listed _ imported
  constructor
  · exact fun node met => (world node met).2
  · intro node met record present entry chosen
    exact plain.declared node.1 record (world node met).1 present entry
      (List.mem_of_find?_eq_some chosen)

open Classical in
/-- The nodes that the resolution of a node can meet. -/
noncomputable def ModuleGraph.world (graph : ModuleGraph)
    (start : ExportNode) : List ExportNode :=
  (graph.nodes start.2).filter fun node => graph.Meets start node

theorem mem_world_iff {start node : ExportNode} :
    node ∈ graph.world start ↔
      node ∈ graph.nodes start.2 ∧ graph.Meets start node := by
  simp [ModuleGraph.world]

theorem length_world_le (start : ExportNode) :
    (graph.world start).length ≤ (graph.nodes start.2).length :=
  List.length_filter_le _ _

theorem contains_world (resolvable : Resolvable graph) {start : ExportNode}
    (plain : PlainFrom graph start) : Contains graph (graph.world start) := by
  refine ⟨?_, ?_, ?_, ?_⟩
  · intro node member
    exact (mem_nodes_iff.mp (mem_world_iff.mp member).1).1
  · intro node member
    exact plain.named node (mem_world_iff.mp member).2
  · intro node member
    exact plain.declared node (mem_world_iff.mp member).2
  · intro node member nodes branch next found
    obtain ⟨listedNode, met⟩ := mem_world_iff.mp member
    obtain ⟨record, present, entry, listed, requested, named⟩ :=
      expand_cases branch found
    have known := requested_lt resolvable (List.mem_of_getElem? present) listed
      requested
    rw [mem_world_iff, mem_nodes_iff]
    refine ⟨⟨known, ?_⟩, met.tail ⟨nodes, branch, found⟩⟩
    rcases named with same | imported
    · rw [same]
      exact (mem_nodes_iff.mp listedNode).2
    · exact .tail _ (List.mem_flatMap.mpr ⟨record,
        List.mem_of_getElem? present,
        List.mem_filterMap.mpr ⟨entry, listed, imported⟩⟩)

theorem mem_world_self {start : ExportNode}
    (known : start.1 < graph.modules.length) : start ∈ graph.world start :=
  mem_world_iff.mpr ⟨mem_nodes_iff.mpr ⟨known, List.mem_cons_self⟩, .refl⟩

/-- A depth at which every resolution ends. -/
def ModuleGraph.depth (graph : ModuleGraph) : Nat :=
  (graph.nodes []).length + 1

theorem length_world_lt (start : ExportNode) :
    (graph.world start).length < graph.depth := by
  have same : (graph.nodes start.2).length = (graph.nodes []).length := by
    simp [ModuleGraph.nodes, ModuleGraph.names]
  have bound := @length_world_le graph start
  rw [ModuleGraph.depth]
  omega

theorem resolveExport_targets (resolvable : Resolvable graph)
    {module : ModuleRecordId} {name : List UInt16}
    (plain : PlainFrom graph (module, name))
    (known : module < graph.modules.length) {fuel : Nat}
    (enough : graph.depth ≤ fuel) :
    Resolves (resolveExport graph fuel module (unitsToUtf8 name) []) []
      (graph.targets (module, name)) := by
  have bound := @length_world_lt graph (module, name)
  have resolved := @resolveExport_resolves graph resolvable _
    (contains_world resolvable plain) fuel module name []
    (mem_world_self known)
    (Nat.lt_of_le_of_lt (remaining_le_length _ _) (by omega))
  rw [avoidedNodes_nil] at resolved
  simp only [leadsOutside_empty_iff] at resolved
  exact resolved

/-- Resolution ends with its set as it was, classifies the targets that the
export leads to, and agrees with the specification. -/
theorem resolveExport_classifies (graph : ModuleGraph)
    (resolvable : Resolvable graph) (module : ModuleRecordId)
    (known : module < graph.modules.length)
    (plain : PlainEntries graph module) (name : List UInt16)
    (namePlain : Plain name) (fuel : Nat) (enough : graph.depth ≤ fuel) :
    (∀ set, ∃ resolution,
        resolveExport graph fuel module (unitsToUtf8 name) set =
          .ok (resolution, set)) ∧
      ∃ resolution,
        resolveExport graph fuel module (unitsToUtf8 name) [] =
            .ok (resolution, []) ∧
          (resolution = .null ↔ graph.targets (module, name) = ∅) ∧
          (∀ target, resolution = .resolved target ↔
            graph.targets (module, name) = {target}) ∧
          (resolution = .ambiguous ↔
            (graph.targets (module, name)).Nontrivial) ∧
          specResolveExport graph fuel (module, name) =
            some resolution.answer := by
  have plainFrom := plain.plainFrom namePlain
  have contains := contains_world resolvable plainFrom
  have bound := @length_world_lt graph (module, name)
  constructor
  · intro set
    obtain ⟨resolution, resolved, _⟩ := resolveExport_resolves resolvable
      contains (mem_world_self known)
      (Nat.lt_of_le_of_lt (remaining_le_length _ (avoidedNodes set))
        (Nat.lt_of_lt_of_le bound enough))
    exact ⟨resolution, resolved⟩
  · obtain ⟨resolution, resolved, classified⟩ :=
      resolveExport_targets resolvable plainFrom known enough
    obtain ⟨answer, after, visited, spec⟩ := visitOnce_classifies
      contains.encloses (mem_world_self known)
      (Nat.lt_of_lt_of_le bound enough)
    have agree : answer = resolution.answer := spec.unique_answer classified
    have decides : ∀ other : ExportResolution,
        resolution = other ↔
          Classifies (graph.targets (module, name)) other.answer := by
      intro other
      constructor
      · rintro rfl
        exact classified
      · intro classifiedOther
        have same := classified.unique_answer classifiedOther
        cases resolution <;> cases other <;> cases same <;> rfl
    refine ⟨resolution, resolved, decides .null,
      fun target => decides (.resolved target), decides .ambiguous, ?_⟩
    rw [specResolveExport, visited, agree]
    rfl

def starEntry (request : Nat) : ModuleExportEntry :=
  ⟨.star, some request, .allButDefault, .null, .null⟩

/-- A star cycle of two modules over a diamond that ends in one binding. -/
def diamondGraph : ModuleGraph where
  modules :=
    [⟨[[0x31], [0x32]], [starEntry 0, starEntry 1], [([0x31], 1), ([0x32], 2)],
        some [], [], []⟩,
      ⟨[[0x30], [0x33]], [starEntry 0, starEntry 1], [([0x30], 0), ([0x33], 3)],
        some [], [], []⟩,
      ⟨[[0x33]], [starEntry 0], [([0x33], 3)], some [], [], []⟩,
      ⟨[], [⟨.localExport, none, .null, .name [0x78], .name [0x78]⟩], [],
        some [some [0x78]], [0], [7]⟩]

theorem diamondGraph_resolvable : Resolvable diamondGraph := by
  refine ⟨by decide, ?_⟩
  intro record inside entry listed index request
  fin_cases inside <;> fin_cases listed <;> cases request <;>
    exact ⟨_, rfl, by decide⟩

theorem diamondGraph_plain (root : ModuleRecordId) :
    PlainEntries diamondGraph root := by
  constructor
  · intro module record _ present entry listed units named
    have inside := List.mem_of_getElem? present
    fin_cases inside <;> fin_cases listed <;> cases named
  · intro module record _ present entry listed units named
    have inside := List.mem_of_getElem? present
    fin_cases inside <;> fin_cases listed <;> cases named
    decide

theorem resolveExport_classifies_diamond :
    ∃ resolution,
      resolveExport diamondGraph diamondGraph.depth 0 (unitsToUtf8 [0x78]) [] =
          .ok (resolution, []) ∧
        specResolveExport diamondGraph diamondGraph.depth (0, [0x78]) =
          some resolution.answer := by
  obtain ⟨_, resolution, resolved, _, _, _, agrees⟩ :=
    resolveExport_classifies diamondGraph diamondGraph_resolvable 0 (by decide)
      (diamondGraph_plain 0) [0x78] (by decide) _ (Nat.le_refl _)
  exact ⟨resolution, resolved, agrees⟩

end Nodes

end Fusor.Modules
