import Fusor.Diagnostics.ChainCorrectness
import Fusor.Diagnostics.Snippets

/-!
# Resolving positions and spans

The ends of a span are followed independently.  Each ends at an offset of a
registered source, or outside of the registered sources, or fails.
-/

namespace Fusor.Diagnostics

open Fusor.Support Fusor.Graph

section Position

variable {registry : SourceRegistry} {maxDepth : Nat}

theorem resolveOriginal_outcome (registry : SourceRegistry)
    (generatedSource : SourceId) (generatedPosition : SourceMapPosition)
    (maxDepth : Nat) :
    ChainOutcome registry maxDepth (generatedSource, generatedPosition)
      ((registry.resolveOriginalWithLimit generatedSource generatedPosition
        maxDepth).map fun location => (location.original, location.hops)) := by
  rw [SourceRegistry.resolveOriginalWithLimit]
  rcases registry.source_cases generatedSource with
    ⟨file, found⟩ | ⟨error, missing⟩
  · rw [found, fromSource_ok, ok_bind]
    rcases file.validateSourceMapPosition_cases generatedPosition.line
      generatedPosition.column with valid | ⟨error, invalid⟩
    · rw [valid, fromSource_ok, ok_bind]
      have follows : Follows registry (generatedSource, generatedPosition)
          (SourceRegistry.initialState file generatedSource generatedPosition) := by
        refine ⟨rfl, ?_, ?_, rfl, rfl⟩
        · intro place
          constructor
          · intro member
            cases member
          · intro ⟨earlier, before, _⟩
            cases before
        · intro hops before
          cases before
      have outcome := followChain_outcome (Nat.zero_le maxDepth) follows
      cases result : registry.followChain maxDepth
          (SourceRegistry.initialState file generatedSource generatedPosition)
          (Nat.zero_le maxDepth) with
      | ok final =>
          rw [result] at outcome
          exact outcome
      | error error =>
          rw [result] at outcome
          exact outcome
    · rw [invalid]
      exact .failed 0 _ (.fromSource error) (Nat.zero_le _) rfl
        (.invalid file error found invalid)
  · rw [missing]
    exact .failed 0 _ (.fromSource error) (Nat.zero_le _) rfl
      (.missing error missing)

/-- The chain has a hop after the greatest number allowed. -/
def NeedsMore (registry : SourceRegistry) (maxDepth : Nat) (start : Place) :
    Prop :=
  ∃ place mapping, walk registry.nextPlace start maxDepth = some place ∧
    registry.mappingAt place = some mapping

/-- The laws of resolving a position. -/
structure ChainLaws (registry : SourceRegistry) (maxDepth : Nat)
    (start : Place) : Prop where
  total : registry.resolveOriginalWithLimit start.1 start.2 maxDepth ≠
    .error .panicked
  hops_le : ∀ location,
    registry.resolveOriginalWithLimit start.1 start.2 maxDepth =
      .ok location → location.hops ≤ maxDepth
  resolved : ∀ location,
    registry.resolveOriginalWithLimit start.1 start.2 maxDepth =
      .ok location →
    (∃ place, registry.Arrives start location.hops place ∧
      location.original.sourceId = some place.1 ∧
      location.original.position = place.2) ∨
    ∃ hops mapping, registry.Leaves start hops mapping ∧
      location.hops = hops + 1 ∧
      location.original = ⟨mapping.sourceName, none, mapping.original,
        mapping.sourceContent⟩
  succeeds : (∃ location,
    registry.resolveOriginalWithLimit start.1 start.2 maxDepth =
      .ok location) ↔
    (∃ hops ≤ maxDepth, ∃ place, registry.Arrives start hops place) ∨
      ∃ hops < maxDepth, ∃ mapping, registry.Leaves start hops mapping
  fails : ∀ error, error.kind ≠ .chainCycle →
    error.kind ≠ .chainDepthExceeded →
    (registry.resolveOriginalWithLimit start.1 start.2 maxDepth =
      .error (.failed error) ↔
    ∃ hops ≤ maxDepth, ∃ place,
      walk registry.nextPlace start hops = some place ∧
        registry.Fails place error)
  cycle : (∃ error,
    registry.resolveOriginalWithLimit start.1 start.2 maxDepth =
      .error (.failed error) ∧ error.kind = .chainCycle) ↔
    ∃ hops ≤ maxDepth, Revisits registry.nextPlace start hops
  depth : (∃ error,
    registry.resolveOriginalWithLimit start.1 start.2 maxDepth =
      .error (.failed error) ∧ error.kind = .chainDepthExceeded) ↔
    (∀ hops ≤ maxDepth, ¬ Revisits registry.nextPlace start hops) ∧
      NeedsMore registry maxDepth start

theorem SourceMapErrorKind.OfLookup.not_chain {kind : SourceMapErrorKind}
    (lookup : kind = .invalidPosition ∨ kind.OfLookup) :
    kind ≠ .chainCycle ∧ kind ≠ .chainDepthExceeded := by
  rcases lookup with same | same | same | same <;> subst same <;> decide

/-- Following a chain that comes back does not end otherwise. -/
theorem ChainOutcome.of_revisits {start : Place} {hops : Nat}
    {result : CheckedMap (OriginalLocation × Nat)}
    (outcome : ChainOutcome registry maxDepth start result)
    (within : hops ≤ maxDepth)
    (revisits : Revisits registry.nextPlace start hops) :
    ∃ error, result = .error (.failed error) ∧ error.kind = .chainCycle := by
  cases outcome with
  | arrived place original count bounded arrives =>
      exact absurd arrives.stopped (revisits.not_stopped arrives.1)
  | left count mapping bounded leaves =>
      obtain ⟨place, reached, _, stopped⟩ := leaves.stopped
      exact absurd stopped (revisits.not_stopped reached)
  | cycled count error bounded again kind => exact ⟨error, rfl, kind⟩
  | exceeded place mapping error fresh =>
      exact absurd revisits (fresh hops within)
  | failed count place error bounded reached fails =>
      exact absurd (nextPlace_eq_none fails.mappingAt_eq_none)
        (revisits.not_stopped reached)

theorem ChainOutcome.of_needsMore {start : Place}
    {result : CheckedMap (OriginalLocation × Nat)}
    (outcome : ChainOutcome registry maxDepth start result)
    (fresh : ∀ hops ≤ maxDepth, ¬ Revisits registry.nextPlace start hops)
    (more : NeedsMore registry maxDepth start) :
    ∃ error, result = .error (.failed error) ∧
      error.kind = .chainDepthExceeded := by
  obtain ⟨last, beyond, lastReached, lastMapped⟩ := more
  have notMapped : ∀ place hops, hops ≤ maxDepth →
      walk registry.nextPlace start hops = some place →
      registry.mappingAt place ≠ none := by
    intro place hops within reached unmapped
    have same := Nat.le_antisymm within
      (walk_le_of_stopped reached (nextPlace_eq_none unmapped) lastReached)
    subst same
    rw [reached] at lastReached
    cases lastReached
    rw [unmapped] at lastMapped
    cases lastMapped
  cases outcome with
  | arrived place original count bounded arrives =>
      exact absurd arrives.2.mappingAt_eq_none
        (notMapped place count bounded arrives.1)
  | left count mapping bounded leaves =>
      obtain ⟨place, reached, _, stopped⟩ := leaves.stopped
      have order := walk_le_of_stopped reached stopped lastReached
      omega
  | cycled count error bounded again => exact absurd again (fresh count bounded)
  | exceeded place mapping error fresh reached mapped kind =>
      exact ⟨error, rfl, kind⟩
  | failed count place error bounded reached fails =>
      exact absurd fails.mappingAt_eq_none (notMapped place count bounded reached)

/-- A chain that comes to a place that fails has the error of that place. -/
theorem ChainOutcome.of_fails {start place : Place} {hops : Nat}
    {error : SourceMapError} {result : CheckedMap (OriginalLocation × Nat)}
    (outcome : ChainOutcome registry maxDepth start result)
    (within : hops ≤ maxDepth)
    (reached : walk registry.nextPlace start hops = some place)
    (fails : registry.Fails place error) :
    result = .error (.failed error) := by
  have stopped := nextPlace_eq_none fails.mappingAt_eq_none
  cases outcome with
  | arrived other original count bounded arrives =>
      obtain ⟨_, same⟩ :=
        walk_end_unique reached stopped arrives.1 arrives.stopped
      subst same
      exact absurd arrives.2 fails.not_settles
  | left count mapping bounded leaves =>
      obtain ⟨other, otherReached, mapped, otherStopped⟩ := leaves.stopped
      obtain ⟨_, same⟩ :=
        walk_end_unique reached stopped otherReached otherStopped
      subst same
      rw [fails.mappingAt_eq_none] at mapped
      cases mapped
  | cycled count other bounded revisits =>
      exact absurd stopped (revisits.not_stopped reached)
  | exceeded other mapping otherError fresh otherReached mapped =>
      have order := walk_le_of_stopped reached stopped otherReached
      have same := Nat.le_antisymm within order
      subst same
      rw [reached] at otherReached
      cases otherReached
      rw [fails.mappingAt_eq_none] at mapped
      cases mapped
  | failed count other otherError bounded otherReached otherFails =>
      obtain ⟨_, same⟩ := walk_end_unique reached stopped otherReached
        (nextPlace_eq_none otherFails.mappingAt_eq_none)
      subst same
      rw [otherFails.unique fails]

/-- A walk that stops within the limit is followed to its end. -/
theorem resolve_of_stop {start place : Place} {hops : Nat}
    (within : hops ≤ maxDepth)
    (reached : walk registry.nextPlace start hops = some place)
    (stopped : registry.nextPlace place = none)
    (resolvable : registry.Settles place ∨
      hops < maxDepth ∧ registry.mappingAt place ≠ none) :
    ∃ location,
      registry.resolveOriginalWithLimit start.1 start.2 maxDepth =
        .ok location := by
  have outcome := resolveOriginal_outcome registry start.1 start.2 maxDepth
  cases resolution :
      registry.resolveOriginalWithLimit start.1 start.2 maxDepth with
  | ok location => exact ⟨location, rfl⟩
  | error error =>
      exfalso
      rw [resolution] at outcome
      cases outcome with
      | cycled count error bounded revisits =>
          exact revisits.not_stopped reached stopped
      | exceeded other mapping error fresh otherReached mapped =>
          have order := walk_le_of_stopped reached stopped otherReached
          have same := Nat.le_antisymm within order
          subst same
          rw [reached] at otherReached
          cases otherReached
          rcases resolvable with settles | ⟨fewer, _⟩
          · rw [settles.mappingAt_eq_none] at mapped
            cases mapped
          · exact Nat.lt_irrefl _ fewer
      | failed count other error bounded otherReached fails =>
          obtain ⟨_, same⟩ := walk_end_unique reached stopped otherReached
            (nextPlace_eq_none fails.mappingAt_eq_none)
          subst same
          rcases resolvable with settles | ⟨_, mapped⟩
          · exact fails.not_settles settles
          · exact mapped fails.mappingAt_eq_none

theorem chainLaws (registry : SourceRegistry) (maxDepth : Nat)
    (start : Place) : ChainLaws registry maxDepth start := by
  have outcome :=
    resolveOriginal_outcome registry start.1 start.2 maxDepth
  generalize resolution :
    registry.resolveOriginalWithLimit start.1 start.2 maxDepth = result
    at outcome
  have failing : ∀ kind : SourceMapErrorKind,
      (∃ error, result = .error (.failed error) ∧ error.kind = kind) ↔
      ∃ error, (result.map fun location =>
        (location.original, location.hops)) = .error (.failed error) ∧
          error.kind = kind := by
    intro kind
    cases result with
    | ok location => simp [Except.map]
    | error error => simp [Except.map]
  constructor
  · rw [resolution]
    intro panics
    subst panics
    cases outcome
  · rw [resolution]
    intro ⟨_, _, original, _, hops⟩ same
    subst same
    cases outcome with
    | arrived place original hops within => exact within
    | left hops mapping within => exact within
  · rw [resolution]
    intro ⟨_, _, original, _, hops⟩ same
    subst same
    cases outcome with
    | arrived place original hops within arrives source position =>
        exact .inl ⟨place, arrives, source, position⟩
    | left hops mapping within leaves =>
        exact .inr ⟨hops, mapping, leaves, rfl, rfl⟩
  · constructor
    · rw [resolution]
      rintro ⟨⟨_, _, original, _, hops⟩, same⟩
      subst same
      cases outcome with
      | arrived place original hops within arrives =>
          exact .inl ⟨hops, within, place, arrives⟩
      | left hops mapping within leaves =>
          exact .inr ⟨hops, within, mapping, leaves⟩
    · rintro (⟨hops, within, place, arrives⟩ | ⟨hops, within, mapping, leaves⟩)
      · exact resolve_of_stop within arrives.1 arrives.stopped (.inl arrives.2)
      · obtain ⟨place, reached, mapped, stopped⟩ := leaves.stopped
        exact resolve_of_stop (Nat.le_of_lt within) reached stopped
          (.inr ⟨within, by rw [mapped]; exact Option.some_ne_none _⟩)
  · intro error notCycle notDepth
    rw [resolution]
    constructor
    · intro same
      subst same
      cases outcome with
      | cycled hops error within revisits kind => exact absurd kind notCycle
      | exceeded place mapping error fresh reached mapped kind =>
          exact absurd kind notDepth
      | failed hops place error within reached fails =>
          exact ⟨hops, within, place, reached, fails⟩
    · rintro ⟨hops, within, place, reached, fails⟩
      have failed := outcome.of_fails within reached fails
      cases result with
      | ok location => cases failed
      | error other =>
          cases failed
          rfl
  · rw [resolution, failing]
    constructor
    · intro ⟨error, same, kind⟩
      rw [same] at outcome
      cases outcome with
      | cycled hops error within revisits => exact ⟨hops, within, revisits⟩
      | exceeded place mapping error fresh reached mapped other =>
          rw [kind] at other
          cases other
      | failed hops place error within reached fails =>
          exact absurd kind
            (SourceMapErrorKind.OfLookup.not_chain fails.kind).1
    · intro ⟨hops, within, revisits⟩
      exact outcome.of_revisits within revisits
  · rw [resolution, failing]
    constructor
    · intro ⟨error, same, kind⟩
      rw [same] at outcome
      cases outcome with
      | cycled hops error within revisits other =>
          rw [kind] at other
          cases other
      | exceeded place mapping error fresh reached mapped other =>
          exact ⟨fresh, place, mapping, reached, mapped⟩
      | failed hops place error within reached fails =>
          exact absurd kind
            (SourceMapErrorKind.OfLookup.not_chain fails.kind).2
    · intro ⟨fresh, more⟩
      exact outcome.of_needsMore fresh more

end Position

/-- An offset, followed through the maps, ends at an offset of a registered
source. -/
def EndsAt (registry : SourceRegistry) (maxDepth : Nat) (sourceId : SourceId)
    (offset hops : Nat) (target : SourceId) (targetOffset : Nat) : Prop :=
  ∃ position targetPosition,
    registry.sourceMapPosition sourceId offset = .ok position ∧
    hops ≤ maxDepth ∧
    registry.Arrives (sourceId, position) hops (target, targetPosition) ∧
    registry.byteOffsetForSourceMapPosition target targetPosition =
      .ok targetOffset

/-- An offset, followed through the maps, ends outside of the registered
sources. -/
def EndsOutside (registry : SourceRegistry) (maxDepth : Nat)
    (sourceId : SourceId) (offset : Nat) : Prop :=
  ∃ position hops mapping,
    registry.sourceMapPosition sourceId offset = .ok position ∧
    hops < maxDepth ∧ registry.Leaves (sourceId, position) hops mapping

/-- An offset whose chain starts at a valid position fails at a map, behind
one, or by its length. -/
def ChainFails (registry : SourceRegistry) (maxDepth : Nat)
    (sourceId : SourceId) (offset : Nat) (error : Abort SourceMapError) : Prop :=
  ∃ position, registry.sourceMapPosition sourceId offset = .ok position ∧
    (∃ accepted, registry.byteOffsetForSourceMapPosition sourceId position =
      .ok accepted) ∧
    registry.resolveOriginalWithLimit sourceId position maxDepth = .error error

/-- The resolution of an offset. -/
def resolutionOf (registry : SourceRegistry) (maxDepth : Nat)
    (sourceId : SourceId) (offset : Nat) : CheckedMap ResolvedLocation := do
  let position ← fromSource (registry.sourceMapPosition sourceId offset)
  registry.resolveOriginalWithLimit sourceId position maxDepth

section Ends

variable {registry : SourceRegistry} {maxDepth : Nat} {sourceId : SourceId}
  {offset : Nat}

theorem resolutionOf_eq {position : SourceMapPosition}
    (located : registry.sourceMapPosition sourceId offset = .ok position) :
    resolutionOf registry maxDepth sourceId offset =
      registry.resolveOriginalWithLimit sourceId position maxDepth := by
  rw [resolutionOf, located, fromSource_ok, ok_bind]

/-- The position of an offset is accepted unless the offset is between the two
characters of a terminator. -/
theorem accepted_iff {position : SourceMapPosition} {file : SourceFile}
    (found : registry.source sourceId = .ok file)
    (located : registry.sourceMapPosition sourceId offset = .ok position) :
    (∃ accepted, registry.byteOffsetForSourceMapPosition sourceId position =
      .ok accepted) ↔ ¬ SplitsTerminator file.text offset := by
  have laws := registered_positionLaws found
  obtain ⟨other, otherLocated, whole⟩ :=
    laws.forward offset (boundary_of_sourceMapPosition found located)
  rw [located] at otherLocated
  cases otherLocated
  rw [← whole]
  constructor
  · rintro ⟨accepted, back⟩
    have same : accepted = offset := by
      have again := laws.backward position accepted back
      by_contra different
      rcases Nat.lt_or_gt_of_ne different with before | behind
      · have moved := laws.increasing accepted offset position position before
          again located
        unfold SourceMapPosition.Before at moved
        omega
      · have moved := laws.increasing offset accepted position position behind
          located again
        unfold SourceMapPosition.Before at moved
        omega
    rw [← same]
    exact back
  · intro back
    exact ⟨offset, back⟩

/-- The resolution of an offset between the two characters of a terminator
fails at once. -/
theorem resolution_of_splits {position : SourceMapPosition} {file : SourceFile}
    (found : registry.source sourceId = .ok file)
    (located : registry.sourceMapPosition sourceId offset = .ok position)
    (splits : SplitsTerminator file.text offset) :
    ∃ error, resolutionOf registry maxDepth sourceId offset =
      .error (.failed (.fromSource error)) := by
  rcases file.validateSourceMapPosition_cases position.line position.column
    with valid | ⟨error, invalid⟩
  · obtain ⟨accepted, back, _⟩ := bind_eq_ok_iff.mp valid
    refine absurd ⟨accepted, ?_⟩
      (fun known => (accepted_iff found located).mp known splits)
    rw [SourceRegistry.byteOffsetForSourceMapPosition, found, ok_bind]
    exact back
  · have outcome := resolveOriginal_outcome registry sourceId position maxDepth
    have failed := outcome.of_fails (Nat.zero_le maxDepth) rfl
      (.invalid file error found invalid)
    refine ⟨error, (resolutionOf_eq located).trans ?_⟩
    cases resolution :
        registry.resolveOriginalWithLimit sourceId position maxDepth with
    | ok location =>
        rw [resolution] at failed
        cases failed
    | error other =>
        rw [resolution] at failed
        cases failed
        rfl

/-- Other offsets fail by their chains only. -/
theorem chainFails_iff {position : SourceMapPosition} {file : SourceFile}
    {error : Abort SourceMapError}
    (found : registry.source sourceId = .ok file)
    (located : registry.sourceMapPosition sourceId offset = .ok position) :
    ChainFails registry maxDepth sourceId offset error ↔
      resolutionOf registry maxDepth sourceId offset = .error error ∧
        ¬ SplitsTerminator file.text offset := by
  rw [resolutionOf_eq located, ← accepted_iff found located]
  constructor
  · rintro ⟨other, otherLocated, accepted, failed⟩
    rw [located] at otherLocated
    cases otherLocated
    exact ⟨failed, accepted⟩
  · rintro ⟨failed, accepted⟩
    exact ⟨position, located, accepted, failed⟩

theorem SourceRegistry.Settles.exists_offset {place : Place}
    (settles : registry.Settles place) :
    ∃ target, registry.byteOffsetForSourceMapPosition place.1 place.2 =
      .ok target := by
  obtain ⟨file, found, valid, _⟩ := settles
  obtain ⟨target, accepted, _⟩ := bind_eq_ok_iff.mp valid
  refine ⟨target, ?_⟩
  rw [SourceRegistry.byteOffsetForSourceMapPosition, found, ok_bind]
  exact accepted

theorem EndsAt.resolved {hops targetOffset : Nat} {target : SourceId}
    (ends : EndsAt registry maxDepth sourceId offset hops target
      targetOffset) :
    ∃ location, resolutionOf registry maxDepth sourceId offset = .ok location ∧
      location.hops = hops ∧ location.original.sourceId = some target ∧
      registry.byteOffsetForSourceMapPosition target
        location.original.position = .ok targetOffset := by
  obtain ⟨position, targetPosition, located, within, arrives, accepted⟩ := ends
  obtain ⟨location, resolution⟩ :=
    resolve_of_stop within arrives.1 arrives.stopped (.inl arrives.2)
  have laws := chainLaws registry maxDepth (sourceId, position)
  refine ⟨location, (resolutionOf_eq located).trans resolution, ?_⟩
  rcases laws.resolved location resolution with
    ⟨place, otherArrives, source, same⟩ | ⟨other, mapping, leaves, _, _⟩
  · obtain ⟨sameHops, samePlace⟩ := walk_end_unique otherArrives.1
      otherArrives.stopped arrives.1 arrives.stopped
    subst samePlace
    exact ⟨sameHops, source, same ▸ accepted⟩
  · obtain ⟨place, reached, mapped, stopped⟩ := leaves.stopped
    obtain ⟨_, samePlace⟩ :=
      walk_end_unique arrives.1 arrives.stopped reached stopped
    subst samePlace
    rw [arrives.2.mappingAt_eq_none] at mapped
    cases mapped

theorem EndsOutside.resolved
    (ends : EndsOutside registry maxDepth sourceId offset) :
    ∃ location, resolutionOf registry maxDepth sourceId offset = .ok location ∧
      location.original.sourceId = none := by
  obtain ⟨position, hops, mapping, located, within, leaves⟩ := ends
  obtain ⟨place, reached, mapped, stopped⟩ := leaves.stopped
  obtain ⟨location, resolution⟩ :=
    resolve_of_stop (Nat.le_of_lt within) reached stopped
      (.inr ⟨within, by rw [mapped]; exact Option.some_ne_none _⟩)
  have laws := chainLaws registry maxDepth (sourceId, position)
  refine ⟨location, (resolutionOf_eq located).trans resolution, ?_⟩
  rcases laws.resolved location resolution with
    ⟨other, arrives, _, _⟩ | ⟨other, otherMapping, _, _, original⟩
  · obtain ⟨_, samePlace⟩ :=
      walk_end_unique arrives.1 arrives.stopped reached stopped
    subst samePlace
    rw [arrives.2.mappingAt_eq_none] at mapped
    cases mapped
  · rw [original]

/-- A resolved offset ends in one of the two ways. -/
theorem ends_of_resolved {position : SourceMapPosition}
    {location : ResolvedLocation}
    (located : registry.sourceMapPosition sourceId offset = .ok position)
    (resolution : resolutionOf registry maxDepth sourceId offset =
      .ok location) :
    (∃ target targetOffset, location.original.sourceId = some target ∧
      registry.byteOffsetForSourceMapPosition target
        location.original.position = .ok targetOffset ∧
      EndsAt registry maxDepth sourceId offset location.hops target
        targetOffset) ∨
    location.original.sourceId = none ∧
      EndsOutside registry maxDepth sourceId offset := by
  rw [resolutionOf_eq located] at resolution
  have laws := chainLaws registry maxDepth (sourceId, position)
  have within := laws.hops_le location resolution
  rcases laws.resolved location resolution with
    ⟨place, arrives, source, same⟩ | ⟨hops, mapping, leaves, counted, original⟩
  · obtain ⟨targetOffset, accepted⟩ := arrives.2.exists_offset
    exact .inl ⟨place.1, targetOffset, source, same ▸ accepted, position,
      place.2, located, within, arrives, accepted⟩
  · exact .inr ⟨by rw [original], position, hops, mapping, located, by omega,
      leaves⟩

end Ends

end Fusor.Diagnostics
