import Fusor.Runtime.JsString

/-!
# Export resolution and namespace names

Module records with their export entries and the functions that resolve an
export and list the names of a namespace.  Names are code units in the syntax
record and UTF-8 bytes while they are resolved.  The recursions carry a bound
on their depth.
-/

namespace Fusor.Modules

open Fusor.Runtime

abbrev ModuleRecordId := Nat

abbrev BindingCellId := Nat

abbrev Bytes := List UInt8

inductive ModuleExportEntryRole where
  | localExport
  | indirect
  | star
  deriving DecidableEq

inductive ModuleExportImportName where
  | name (units : List UInt16)
  | default
  | all
  | allButDefault
  | null
  deriving DecidableEq

inductive ModuleExportName where
  | name (units : List UInt16)
  | default
  | null
  deriving DecidableEq

inductive ModuleExportLocalName where
  | name (units : List UInt16)
  | syntheticDefault
  | null
  deriving DecidableEq

structure ModuleExportEntry where
  role : ModuleExportEntryRole
  request : Option Nat
  importName : ModuleExportImportName
  exportName : ModuleExportName
  localName : ModuleExportLocalName
  deriving DecidableEq

/-- The parts of a module record that linking reads: the syntax record, the
resolution edges of the host, the atoms of the installed root template with
their descriptions, the atoms naming the declared bindings, and the cells of
the bindings. -/
structure SourceTextModuleRecord where
  requests : List (List UInt16)
  exportEntries : List ModuleExportEntry
  resolvedDependencies : List (Bytes × ModuleRecordId)
  atoms : Option (List (Option (List UInt16)))
  bindings : List Nat
  environment : List BindingCellId

structure ModuleGraph where
  modules : List SourceTextModuleRecord

inductive ResolvedExport where
  | binding (module : ModuleRecordId) (cell : BindingCellId)
  | moduleNamespace (module : ModuleRecordId)
  deriving DecidableEq

inductive ExportResolution where
  | resolved (target : ResolvedExport)
  | null
  | ambiguous
  deriving DecidableEq

/-- A link error, a dependency without a registered resolution edge, a failed
expectation, or a recursion deeper than its bound. -/
inductive LinkFailure where
  | link (message : String)
  | unregistered (specifier : Bytes)
  | expected (message : String)
  | exhausted
  deriving DecidableEq

section Names

/-- `char::from_u32` of a code unit. -/
def charFromUnit (unit : UInt16) : Option Char :=
  if unit < 0xd800 ∨ 0xdfff < unit then some (Char.ofNat unit.toNat) else none

def encodeUtf8 (text : List Char) : Bytes :=
  text.flatMap String.utf8EncodeChar

/-- `str::from_utf8`. -/
def decodeUtf8 (bytes : Bytes) : Option (List Char) :=
  bytes.toByteArray.utf8Decode?.map Array.toList

def unitsToUtf8 (units : List UInt16) : Bytes :=
  encodeUtf8 (units.filterMap charFromUnit)

def nameUnitsEqUtf8 (units : List UInt16) (bytes : Bytes) : Bool :=
  match decodeUtf8 bytes with
  | some text => JsString.encodeUtf16 text == units
  | none => false

def defaultName : List Char :=
  ['d', 'e', 'f', 'a', 'u', 'l', 't']

def defaultBytes : Bytes :=
  encodeUtf8 defaultName

def syntheticDefaultBindingName : Bytes :=
  encodeUtf8 ['*', 'd', 'e', 'f', 'a', 'u', 'l', 't', '*']

end Names

abbrev ResolveSet := List (ModuleRecordId × Bytes)

def getModule (graph : ModuleGraph) (module : ModuleRecordId) :
    Except LinkFailure SourceTextModuleRecord :=
  match graph.modules[module]? with
  | some record => .ok record
  | none => .error (.expected "module exists")

def resolveRequest (record : SourceTextModuleRecord) (index : Nat) :
    Except LinkFailure ModuleRecordId :=
  match record.requests[index]? with
  | none => .error (.link "request index out of range")
  | some specifier =>
      match record.resolvedDependencies.lookup (unitsToUtf8 specifier) with
      | some dependency => .ok dependency
      | none => .error (.unregistered (unitsToUtf8 specifier))

def exportMatches (entry : ModuleExportEntry) (name : Bytes) : Bool :=
  match entry.exportName with
  | .name units => nameUnitsEqUtf8 units name
  | .default => name == defaultBytes
  | .null => false

/-- The loop of `resolve_local_export` over the declared bindings. -/
def findBindingCell (atoms : List (Option (List UInt16)))
    (environment : List BindingCellId) (name : Bytes) :
    Nat → List Nat → Option BindingCellId
  | _, [] => none
  | index, atom :: bindings =>
      match atoms[atom]?.join, environment[index]? with
      | some units, some cell =>
          if nameUnitsEqUtf8 units name then some cell
          else findBindingCell atoms environment name (index + 1) bindings
      | _, _ => findBindingCell atoms environment name (index + 1) bindings

def resolveLocalExport (record : SourceTextModuleRecord)
    (module : ModuleRecordId) (name : Bytes) :
    Except LinkFailure (Option ResolvedExport) :=
  match record.atoms with
  | none => .error (.expected "code installed")
  | some atoms =>
      .ok ((findBindingCell atoms record.environment name 0
        record.bindings).map (.binding module))

def sameResolvedBinding : ResolvedExport → ResolvedExport → Bool
  | .binding leftModule leftCell, .binding rightModule rightCell =>
      leftModule == rightModule && leftCell == rightCell
  | .moduleNamespace left, .moduleNamespace right => left == right
  | _, _ => false

/-- A local entry, with the current node on top of the resolve set. -/
def resolveLocalEntry (record : SourceTextModuleRecord)
    (module : ModuleRecordId) (entry : ModuleExportEntry) (set : ResolveSet) :
    Except LinkFailure (ExportResolution × ResolveSet) :=
  let resolve (bytes : Bytes) := do
    let result ← resolveLocalExport record module bytes
    match result with
    | some target => .ok (.resolved target, set.tail)
    | none => .ok (.null, set.tail)
  match entry.localName with
  | .name units => resolve (unitsToUtf8 units)
  | .syntheticDefault => resolve syntheticDefaultBindingName
  | .null => .ok (.null, set.tail)

section Recursion

variable (visit : ModuleRecordId → Bytes → ResolveSet →
  Except LinkFailure (ExportResolution × ResolveSet))

def resolveIndirectEntry (record : SourceTextModuleRecord)
    (entry : ModuleExportEntry) (set : ResolveSet) :
    Except LinkFailure (ExportResolution × ResolveSet) :=
  match entry.request with
  | none => .ok (.null, set.tail)
  | some index => do
      let dependency ← resolveRequest record index
      let follow (bytes : Bytes) := do
        let (result, set) ← visit dependency bytes set
        .ok (result, set.tail)
      match entry.importName with
      | .all => .ok (.resolved (.moduleNamespace dependency), set.tail)
      | .name units => follow (unitsToUtf8 units)
      | .default => follow defaultBytes
      | .allButDefault => .ok (.null, set.tail)
      | .null => .ok (.null, set.tail)

/-- The first loop of `resolve_export`: the explicit exports of the name. -/
def resolveExplicit (record : SourceTextModuleRecord)
    (module : ModuleRecordId) (name : Bytes) (set : ResolveSet) :
    List ModuleExportEntry →
      Except LinkFailure (Option (ExportResolution × ResolveSet))
  | [] => .ok none
  | entry :: entries =>
      if exportMatches entry name then
        match entry.role with
        | .localExport => (resolveLocalEntry record module entry set).map some
        | .indirect => (resolveIndirectEntry visit record entry set).map some
        | .star => resolveExplicit record module name set entries
      else resolveExplicit record module name set entries

/-- The second loop of `resolve_export`: the star exports. -/
def resolveStars (record : SourceTextModuleRecord) (name : Bytes) :
    List ModuleExportEntry → Option ResolvedExport → ResolveSet →
      Except LinkFailure (ExportResolution × ResolveSet)
  | [], found, set =>
      match found with
      | some target => .ok (.resolved target, set.tail)
      | none => .ok (.null, set.tail)
  | entry :: entries, found, set =>
      if entry.role ≠ .star then resolveStars record name entries found set
      else
        match entry.request with
        | none => resolveStars record name entries found set
        | some index => do
            let dependency ← resolveRequest record index
            let (result, set) ← visit dependency name set
            match result with
            | .ambiguous => .ok (.ambiguous, set.tail)
            | .null => resolveStars record name entries found set
            | .resolved target =>
                match found with
                | none => resolveStars record name entries (some target) set
                | some first =>
                    if sameResolvedBinding first target then
                      resolveStars record name entries (some first) set
                    else .ok (.ambiguous, set.tail)

end Recursion

/-- The resolve set has the current path, its last node in front. -/
def resolveExport (graph : ModuleGraph) : Nat → ModuleRecordId → Bytes →
    ResolveSet → Except LinkFailure (ExportResolution × ResolveSet)
  | 0, _, _, _ => .error .exhausted
  | fuel + 1, module, name, set =>
      if (module, name) ∈ set then .ok (.null, set)
      else do
        let set := (module, name) :: set
        let record ← getModule graph module
        let explicit ← resolveExplicit (resolveExport graph fuel) record module
          name set record.exportEntries
        match explicit with
        | some result => .ok result
        | none =>
            if name ≠ defaultBytes then
              resolveStars (resolveExport graph fuel) record name
                record.exportEntries none set
            else .ok (.null, set.tail)

section ExportNames

/-- The names of a module with their targets. -/
abbrev ExportList := List (Bytes × ResolvedExport)

/-- Resolves a name with an empty resolve set and appends it when it has a
single target. -/
def pushResolved (graph : ModuleGraph) (fuel : Nat) (module : ModuleRecordId)
    (name : Bytes) (result : ExportList) : Except LinkFailure ExportList := do
  let (resolution, _) ← resolveExport graph fuel module name []
  match resolution with
  | .resolved target => .ok (result ++ [(name, target)])
  | .null => .ok result
  | .ambiguous => .ok result

def ownExportName : ModuleExportName → Option Bytes
  | .name units => some (unitsToUtf8 units)
  | .default => some defaultBytes
  | .null => none

/-- The text of an export name in a message. -/
def exportText (name : Bytes) : String :=
  String.ofList ((decodeUtf8 name).getD [])

/-- The check of the indirect exports at the end of `resolve_module_imports`. -/
def resolveIndirectExports (graph : ModuleGraph) (fuel : Nat)
    (module : ModuleRecordId) : List ModuleExportEntry → Except LinkFailure Unit
  | [] => .ok ()
  | entry :: entries =>
      if entry.role ≠ .indirect then
        resolveIndirectExports graph fuel module entries
      else
        match ownExportName entry.exportName with
        | none => resolveIndirectExports graph fuel module entries
        | some name => do
            let (resolution, _) ← resolveExport graph fuel module name []
            match resolution with
            | .resolved _ => resolveIndirectExports graph fuel module entries
            | .null =>
                .error (.link ("unresolved export '" ++ exportText name ++ "'"))
            | .ambiguous =>
                .error (.link ("ambiguous export '" ++ exportText name ++ "'"))

/-- The first loop: the explicit names, with the names seen so far. -/
def ownNames (graph : ModuleGraph) (fuel : Nat) (module : ModuleRecordId) :
    List ModuleExportEntry → ExportList → List Bytes →
      Except LinkFailure (ExportList × List Bytes)
  | [], result, seen => .ok (result, seen)
  | entry :: entries, result, seen =>
      match ownExportName entry.exportName with
      | none => ownNames graph fuel module entries result seen
      | some name =>
          if entry.role = .star then ownNames graph fuel module entries result seen
          else if name ∈ seen then ownNames graph fuel module entries result seen
          else do
            let result ← pushResolved graph fuel module name result
            ownNames graph fuel module entries result (name :: seen)

/-- The loops over names: each name that was not seen before is resolved. -/
def collectNames (graph : ModuleGraph) (fuel : Nat) (module : ModuleRecordId) :
    List Bytes → ExportList → List Bytes →
      Except LinkFailure (ExportList × List Bytes)
  | [], result, seen => .ok (result, seen)
  | name :: names, result, seen =>
      if name ∈ seen then collectNames graph fuel module names result seen
      else do
        let result ← pushResolved graph fuel module name result
        collectNames graph fuel module names result (name :: seen)

/-- The second loop: the names of the star exports. -/
def starCandidates (record : SourceTextModuleRecord)
    (visit : ModuleRecordId → List ModuleRecordId →
      Except LinkFailure (ExportList × List ModuleRecordId)) :
    List ModuleExportEntry → List Bytes → List ModuleRecordId →
      Except LinkFailure (List Bytes × List ModuleRecordId)
  | [], candidates, starSet => .ok (candidates, starSet)
  | entry :: entries, candidates, starSet =>
      if entry.role ≠ .star then
        starCandidates record visit entries candidates starSet
      else
        match entry.request with
        | none => starCandidates record visit entries candidates starSet
        | some index => do
            let dependency ← resolveRequest record index
            let (names, starSet) ← visit dependency starSet
            starCandidates record visit entries
              (candidates ++ (names.map Prod.fst).filter (· ≠ defaultBytes))
              starSet

/-- The third loop: the candidates that this module resolves. -/
def starNames (graph : ModuleGraph) (fuel : Nat) (module : ModuleRecordId) :
    List Bytes → ExportList → List Bytes → Except LinkFailure ExportList
  | [], result, _ => .ok result
  | name :: candidates, result, seen =>
      if name ∈ seen then starNames graph fuel module candidates result seen
      else do
        let result ← pushResolved graph fuel module name result
        starNames graph fuel module candidates result (name :: seen)

/-- Lexicographic order of bytes. -/
def byteOrder (left right : Bytes × ResolvedExport) : Bool :=
  decide (left.1 ≤ right.1)

def moduleExportNamesInner (graph : ModuleGraph) (fuel : Nat) :
    Nat → ModuleRecordId → List ModuleRecordId →
      Except LinkFailure (ExportList × List ModuleRecordId)
  | 0, _, _ => .error .exhausted
  | depth + 1, module, starSet =>
      if module ∈ starSet then .ok ([], starSet)
      else do
        let record ← getModule graph module
        let (own, seen) ←
          ownNames graph fuel module record.exportEntries [] []
        let (candidates, starSet) ← starCandidates record
          (moduleExportNamesInner graph fuel depth) record.exportEntries []
          (starSet ++ [module])
        let result ← starNames graph fuel module candidates own seen
        .ok (result.mergeSort byteOrder, starSet)

def moduleExportNames (graph : ModuleGraph) (fuel depth : Nat)
    (module : ModuleRecordId) : Except LinkFailure ExportList := do
  let (names, _) ← moduleExportNamesInner graph fuel depth module []
  .ok names

end ExportNames

end Fusor.Modules
