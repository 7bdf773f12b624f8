import Fusor.Diagnostics.SourceRegistry

/-!
# Following source maps through registered sources

A generated position is followed from map to map until a place has no map
or no mapping, or its mapping names a source that is not registered.  A
place that was visited before and a chain longer than the limit are errors.
-/

namespace Fusor.Diagnostics

structure OriginalLocation where
  sourceName : String
  sourceId : Option SourceId
  position : SourceMapPosition
  embeddedSource : Option Text
  deriving DecidableEq

structure ResolvedLocation where
  generatedSource : SourceId
  generatedPosition : SourceMapPosition
  original : OriginalLocation
  name : Option String
  hops : Nat
  deriving DecidableEq

def ResolvedLocation.isMapped (location : ResolvedLocation) : Bool :=
  location.hops ≠ 0

structure ResolvedSpan where
  generatedSpan : SourceSpan
  mappedSpan : Option SourceSpan
  location : ResolvedLocation
  deriving DecidableEq

abbrev CheckedMap (α : Type) := Except (Abort SourceMapError) α

namespace SourceMapError

def new (kind : SourceMapErrorKind) (message : String) : SourceMapError :=
  ⟨kind, message, none⟩

def fromSource (source : SourceError) : SourceMapError :=
  ⟨.invalidPosition,
    "cannot resolve source-map position: " ++ source.message, some source⟩

def chainCycle (file : SourceFile) (position : SourceMapPosition) :
    SourceMapError :=
  new .chainCycle ("source-map chain cycles at " ++ file.displayName ++ ":" ++
    toString position.line ++ ":" ++ toString position.column)

def chainDepthExceeded (maxDepth : Nat) : SourceMapError :=
  new .chainDepthExceeded
    ("source-map chain exceeds the configured depth of " ++ toString maxDepth)

end SourceMapError

/-- The result of a source operation, with its error as a map error. -/
def fromSource {α : Type} : Checked α → CheckedMap α
  | .ok value => .ok value
  | .error (.failed error) => .error (.failed (.fromSource error))
  | .error .panicked => .error .panicked

structure ChainState where
  currentId : SourceId
  currentPosition : SourceMapPosition
  original : OriginalLocation
  name : Option String
  hops : Nat
  visited : List (SourceId × SourceMapPosition)
  deriving DecidableEq

namespace ChainState

def visit (state : ChainState) : ChainState :=
  { state with
    visited := (state.currentId, state.currentPosition) :: state.visited }

def advance (state : ChainState) (mapping : SourceMapMapping)
    (nextId : Option SourceId) : ChainState :=
  { state with
    hops := state.hops + 1
    name := match mapping.name with
      | some mappedName => some mappedName
      | none => state.name
    original :=
      ⟨mapping.sourceName, nextId, mapping.original, mapping.sourceContent⟩ }

def moveTo (state : ChainState) (nextId : SourceId) : ChainState :=
  { state with
    currentId := nextId
    currentPosition := state.original.position }

end ChainState

namespace SourceRegistry

def followChain (registry : SourceRegistry) (maxDepth : Nat)
    (state : ChainState) (bounded : state.hops ≤ maxDepth) :
    CheckedMap ChainState := do
  let currentFile ← fromSource (registry.source state.currentId)
  fromSource (currentFile.validateSourceMapPosition
    state.currentPosition.line state.currentPosition.column)
  match currentFile.incomingSourceMap with
  | none => return state
  | some sourceMap =>
      if (state.currentId, state.currentPosition) ∈ state.visited then
        .error (.failed (.chainCycle currentFile state.currentPosition))
      else
        match sourceMap.lookup state.currentPosition with
        | .error error => .error (.failed error)
        | .ok none => return state.visit
        | .ok (some mapping) =>
            if reached : state.hops = maxDepth then
              .error (.failed (.chainDepthExceeded maxDepth))
            else
              match registry.sourceIdByName mapping.sourceName with
              | none => return state.visit.advance mapping none
              | some nextId =>
                  registry.followChain maxDepth
                    ((state.visit.advance mapping (some nextId)).moveTo nextId)
                    (Nat.lt_of_le_of_ne bounded reached)
termination_by maxDepth - state.hops
decreasing_by
  exact Nat.sub_lt_sub_left (Nat.lt_of_le_of_ne bounded reached)
    (Nat.lt_succ_self _)

def initialState (file : SourceFile) (generatedSource : SourceId)
    (generatedPosition : SourceMapPosition) : ChainState where
  currentId := generatedSource
  currentPosition := generatedPosition
  original :=
    ⟨file.displayName, some generatedSource, generatedPosition, none⟩
  name := none
  hops := 0
  visited := []

def resolveOriginalWithLimit (registry : SourceRegistry)
    (generatedSource : SourceId) (generatedPosition : SourceMapPosition)
    (maxDepth : Nat) : CheckedMap ResolvedLocation := do
  let generatedFile ← fromSource (registry.source generatedSource)
  fromSource (generatedFile.validateSourceMapPosition generatedPosition.line
    generatedPosition.column)
  let state ← registry.followChain maxDepth
    (initialState generatedFile generatedSource generatedPosition)
    (Nat.zero_le maxDepth)
  return ⟨generatedSource, generatedPosition, state.original, state.name,
    state.hops⟩

def resolveSpanWithLimit (registry : SourceRegistry) (span : SourceSpan)
    (maxDepth : Nat) : CheckedMap ResolvedSpan := do
  let generatedSpan ← fromSource
    (registry.span span.sourceId span.bytes.start span.bytes.finish)
  let startPosition ← fromSource
    (registry.sourceMapPosition span.sourceId span.bytes.start)
  let location ←
    registry.resolveOriginalWithLimit span.sourceId startPosition maxDepth
  let mappedSpan ←
    if location.isMapped then
      match location.original.sourceId with
      | some mappedSource => do
          let start ← fromSource (registry.byteOffsetForSourceMapPosition
            mappedSource location.original.position)
          let endPosition ← fromSource
            (registry.sourceMapPosition span.sourceId span.bytes.finish)
          let endLocation ← registry.resolveOriginalWithLimit span.sourceId
            endPosition maxDepth
          let finish ←
            if endLocation.original.sourceId = some mappedSource then do
              let finish ← fromSource
                (registry.byteOffsetForSourceMapPosition mappedSource
                  endLocation.original.position)
              pure (max finish start)
            else
              pure start
          let mapped ← fromSource (registry.span mappedSource start finish)
          pure (some mapped)
      | none => pure none
    else
      pure none
  return ⟨generatedSpan, mappedSpan, location⟩

end SourceRegistry

end Fusor.Diagnostics
