import Fusor.Diagnostics.LineIndex

/-!
# Registered sources

A registry owns immutable source texts with their line indexes.  The
identity of the registry stands for the address that an identifier carries.
A source map is its single lookup.
-/

namespace Fusor.Diagnostics

open Fusor.Support

def SourceError.message : SourceError → String
  | .emptySourceName => "source name must not be empty"
  | .duplicateSourceName name =>
      "source name `" ++ name ++ "` is already registered"
  | .tooManySources => "source registry is full"
  | .sourceTooLarge bytes =>
      "source contains " ++ toString bytes ++ " UTF-8 bytes; at most " ++
        toString u32Max ++ " are supported"
  | .foreignSourceId => "source ID belongs to a different registry"
  | .unknownSourceId index =>
      "source ID " ++ toString index ++ " is not registered"
  | .invalidRange start finish sourceLength =>
      "byte range " ++ toString start ++ ".." ++ toString finish ++
        " is invalid for a " ++ toString sourceLength ++ "-byte source"
  | .invalidUtf8Boundary offset =>
      "byte offset " ++ toString offset ++ " is not a UTF-8 boundary"
  | .invalidSourceMapPosition line column =>
      "source-map position " ++ toString line ++ ":" ++ toString column ++
        " is outside the source or splits a UTF-16 surrogate pair"

inductive SourceMapErrorKind where
  | malformedMappings
  | lookupPanicked
  | unresolvedSection
  | invalidPosition
  | chainCycle
  | chainDepthExceeded
  deriving DecidableEq

structure SourceMapError where
  kind : SourceMapErrorKind
  message : String
  source : Option SourceError
  deriving DecidableEq

structure SourceMapPosition where
  line : Nat
  column : Nat
  deriving DecidableEq

structure SourceMapMapping where
  sourceName : String
  original : SourceMapPosition
  name : Option String
  sourceContent : Option Text
  deriving DecidableEq

/-- The kinds of the errors of a single lookup. -/
def SourceMapErrorKind.OfLookup (kind : SourceMapErrorKind) : Prop :=
  kind = .malformedMappings ∨ kind = .lookupPanicked ∨
    kind = .unresolvedSection

structure SourceMap where
  lookup : SourceMapPosition → Except SourceMapError (Option SourceMapMapping)
  kinds : ∀ position error, lookup position = .error error →
    error.kind.OfLookup

structure SourceFile where
  displayName : String
  text : Text
  lineIndex : LineIndex
  incomingSourceMap : Option SourceMap
  indexed : LineIndex.new text = .ok lineIndex

structure SourceId where
  registry : Nat
  index : Nat
  deriving DecidableEq

structure SourceSpan where
  sourceId : SourceId
  bytes : ByteSpan
  deriving DecidableEq

structure SourceSnippet where
  sourceName : String
  text : Text
  highlight : ByteSpan
  startsAt : LineColumn
  deriving DecidableEq

structure SourceRegistry where
  identity : Nat
  files : List SourceFile
  names : List (String × Nat)
  named : ∀ name index, names.lookup name = some index ↔
    ∃ file, files[index]? = some file ∧ file.displayName = name

namespace SourceFile

def positionWithEncoding (file : SourceFile) (byteOffset : Nat)
    (encoding : ColumnEncoding) : Checked LineColumn :=
  file.lineIndex.position file.text byteOffset encoding

def position (file : SourceFile) (byteOffset : Nat) : Checked LineColumn :=
  file.positionWithEncoding byteOffset .unicodeScalar

def byteOffsetForSourceMapPosition (file : SourceFile) (line column : Nat) :
    Checked Nat :=
  file.lineIndex.byteOffsetForSourceMapPosition file.text line column

def validateSourceMapPosition (file : SourceFile) (line column : Nat) :
    Checked Unit := do
  let _ ← file.lineIndex.byteOffsetForSourceMapPosition file.text line column
  return ()

end SourceFile

namespace SourceRegistry

def new (identity : Nat) : SourceRegistry where
  identity := identity
  files := []
  names := []
  named := by simp

theorem named_register {files : List SourceFile} {names : List (String × Nat)}
    (named : ∀ name index, names.lookup name = some index ↔
      ∃ file, files[index]? = some file ∧ file.displayName = name)
    (added : SourceFile) (fresh : names.lookup added.displayName = none)
    (name : String) (index : Nat) :
    ((added.displayName, files.length) :: names).lookup name = some index ↔
      ∃ file, (files ++ [added])[index]? = some file ∧
        file.displayName = name := by
  have absent : ∀ (position : Nat) (file : SourceFile), files[position]? = some file →
      file.displayName ≠ added.displayName := by
    intro position file present same
    have found := (named added.displayName position).mpr ⟨file, present, same⟩
    rw [fresh] at found
    cases found
  rw [List.lookup_cons]
  by_cases same : name = added.displayName
  · subst same
    rw [beq_self_eq_true]
    constructor
    · intro found
      cases found
      exact ⟨added, List.getElem?_concat_length, rfl⟩
    · intro ⟨file, present, sameName⟩
      rw [List.getElem?_append] at present
      split at present
      · exact absurd sameName (absent index file present)
      · have inside := (List.getElem?_eq_some_iff.mp present).1
        simp only [List.length_singleton] at inside
        simp only [Option.some.injEq]
        omega
  · rw [beq_false_of_ne same]
    simp only
    rw [named]
    constructor
    · intro ⟨file, present, sameName⟩
      refine ⟨file, ?_, sameName⟩
      rw [List.getElem?_append_left (List.getElem?_eq_some_iff.mp present).1]
      exact present
    · intro ⟨file, present, sameName⟩
      rw [List.getElem?_append] at present
      split at present
      · exact ⟨file, present, sameName⟩
      · have only := List.mem_of_getElem? present
        rw [List.mem_singleton] at only
        subst only
        exact absurd sameName.symm same

def registerWithSourceMap (registry : SourceRegistry) (displayName : String)
    (text : Text) (incomingSourceMap : Option SourceMap) :
    Checked (SourceRegistry × SourceId) :=
  if displayName = "" then
    fail .emptySourceName
  else
    match fresh : registry.names.lookup displayName with
    | some _ => fail (.duplicateSourceName displayName)
    | none => do
        let index ← u32TryFrom registry.files.length .tooManySources
        match indexed : LineIndex.new text with
        | .error error => .error error
        | .ok lineIndex =>
            let file : SourceFile :=
              ⟨displayName, text, lineIndex, incomingSourceMap, indexed⟩
            return (
              { identity := registry.identity
                files := registry.files ++ [file]
                names := (displayName, registry.files.length) :: registry.names
                named := named_register registry.named file fresh },
              ⟨registry.identity, index⟩)

def register (registry : SourceRegistry) (displayName : String) (text : Text) :
    Checked (SourceRegistry × SourceId) :=
  registry.registerWithSourceMap displayName text none

def source (registry : SourceRegistry) (sourceId : SourceId) :
    Checked SourceFile :=
  if sourceId.registry ≠ registry.identity then
    fail .foreignSourceId
  else
    match registry.files[sourceId.index]? with
    | some file => .ok file
    | none => fail (.unknownSourceId sourceId.index)

def sourceIdByName (registry : SourceRegistry) (displayName : String) :
    Option SourceId :=
  (registry.names.lookup displayName).map fun index =>
    ⟨registry.identity, index⟩

def span (registry : SourceRegistry) (sourceId : SourceId)
    (start finish : Nat) : Checked SourceSpan := do
  let source ← registry.source sourceId
  let bytes ← ByteSpan.new source.text start finish
  return ⟨sourceId, bytes⟩

def positionWithEncoding (registry : SourceRegistry) (sourceId : SourceId)
    (byteOffset : Nat) (encoding : ColumnEncoding) : Checked LineColumn := do
  let source ← registry.source sourceId
  source.positionWithEncoding byteOffset encoding

def sourceMapPosition (registry : SourceRegistry) (sourceId : SourceId)
    (byteOffset : Nat) : Checked SourceMapPosition := do
  let position ←
    registry.positionWithEncoding sourceId byteOffset .utf16CodeUnit
  let line ← checkedSub position.line 1
  let line ← u32TryFrom line (.invalidSourceMapPosition u32Max 0)
  let column ← checkedSub position.column 1
  let column ← u32TryFrom column (.invalidSourceMapPosition line u32Max)
  return ⟨line, column⟩

def byteOffsetForSourceMapPosition (registry : SourceRegistry)
    (sourceId : SourceId) (position : SourceMapPosition) : Checked Nat := do
  let source ← registry.source sourceId
  source.byteOffsetForSourceMapPosition position.line position.column

/-- An excerpt of whole lines around a span. -/
def snippet (registry : SourceRegistry) (span : SourceSpan)
    (contextLinesBefore contextLinesAfter : Nat) : Checked SourceSnippet := do
  let source ← registry.source span.sourceId
  let start := span.bytes.start
  let finish := span.bytes.finish
  let startLine := source.lineIndex.lineIndexAt start
  let lastHighlightedByte := if start = finish then start else finish - 1
  let endLine := source.lineIndex.lineIndexAt lastHighlightedByte
  let firstLine := startLine - contextLinesBefore
  let finalLine := min (usizeSaturatingAdd endLine contextLinesAfter)
    (source.lineIndex.starts.length - 1)
  let excerptStart ← elementAt source.lineIndex.starts firstLine
  let excerptEnd := source.lineIndex.nextStart source.text finalLine
  let text ← source.text.slice excerptStart excerptEnd
  let relativeStart ← checkedSub start excerptStart
  let relativeEnd ← checkedSub finish excerptStart
  let highlight ← ByteSpan.new text relativeStart relativeEnd
  let startsAt ← source.positionWithEncoding excerptStart .unicodeScalar
  return ⟨source.displayName, text, highlight, startsAt⟩

end SourceRegistry

end Fusor.Diagnostics
