import Fusor.Diagnostics.SpanResolution

/-!
# Mapped ranges of spans

A mapped range is documented for a span whose ends reach one registered
source in order.  Whenever the start is mapped into a registered source, the
code gives a range there, and clamps it to the start where the end is in
another source or earlier.
-/

namespace Fusor.Diagnostics

open Fusor.Support Fusor.Graph

/-- The range that the ends of a span are mapped to. -/
def MappedRange (registry : SourceRegistry) (maxDepth : Nat)
    (span range : SourceSpan) : Prop :=
  ∃ hops finishHops target start finish, 0 < hops ∧
    EndsAt registry maxDepth span.sourceId span.bytes.start hops target start ∧
    EndsAt registry maxDepth span.sourceId span.bytes.finish finishHops target
      finish ∧
    start ≤ finish ∧ range = ⟨target, ⟨start, finish⟩⟩

/-- The start is mapped into a registered source, and the end leads out of
that source or to an earlier offset of it. -/
def Displaced (registry : SourceRegistry) (maxDepth : Nat)
    (span : SourceSpan) : Prop :=
  ∃ hops target start, 0 < hops ∧
    EndsAt registry maxDepth span.sourceId span.bytes.start hops target start ∧
    (EndsOutside registry maxDepth span.sourceId span.bytes.finish ∨
      ∃ finishHops other finish,
        EndsAt registry maxDepth span.sourceId span.bytes.finish finishHops
          other finish ∧
        (other ≠ target ∨ finish < start))

/-- An end of the span whose position is needed stands between the two
characters of a terminator. -/
def Splits (registry : SourceRegistry) (maxDepth : Nat) (span : SourceSpan) :
    Prop :=
  ∃ file, registry.source span.sourceId = .ok file ∧
    (SplitsTerminator file.text span.bytes.start ∨
      SplitsTerminator file.text span.bytes.finish ∧
        ∃ hops target start, 0 < hops ∧
          EndsAt registry maxDepth span.sourceId span.bytes.start hops target
            start)

/-- The documented laws of resolving a span.  It fails only where the chain of
its start does, or that of its end when the start is mapped. -/
structure SpanLaws (registry : SourceRegistry) (maxDepth : Nat)
    (span : SourceSpan) : Prop where
  location : ∀ result,
    registry.resolveSpanWithLimit span maxDepth = .ok result →
      result.generatedSpan = span ∧
      resolutionOf registry maxDepth span.sourceId span.bytes.start =
        .ok result.location
  mapped : ∀ result,
    registry.resolveSpanWithLimit span maxDepth = .ok result →
      ∀ range, result.mappedSpan = some range ↔
        MappedRange registry maxDepth span range
  fails : ∀ error,
    registry.resolveSpanWithLimit span maxDepth = .error error ↔
      ChainFails registry maxDepth span.sourceId span.bytes.start error ∨
      (∃ hops target start, 0 < hops ∧
        EndsAt registry maxDepth span.sourceId span.bytes.start hops target
          start) ∧
      ChainFails registry maxDepth span.sourceId span.bytes.finish error

/-- What the code gives for a span, by its ends. -/
inductive SpanOutcome (registry : SourceRegistry) (maxDepth : Nat)
    (span : SourceSpan) : CheckedMap ResolvedSpan → Prop where
  | startFails (error : Abort SourceMapError)
      (fails : resolutionOf registry maxDepth span.sourceId span.bytes.start =
        .error error) :
      SpanOutcome registry maxDepth span (.error error)
  | unmapped (location : ResolvedLocation)
      (resolved : resolutionOf registry maxDepth span.sourceId
        span.bytes.start = .ok location)
      (generated : location.hops = 0 ∨ location.original.sourceId = none) :
      SpanOutcome registry maxDepth span (.ok ⟨span, none, location⟩)
  | finishFails (location : ResolvedLocation) (target : SourceId) (start : Nat)
      (error : Abort SourceMapError) (mapped : 0 < location.hops)
      (ends : EndsAt registry maxDepth span.sourceId span.bytes.start
        location.hops target start)
      (fails : resolutionOf registry maxDepth span.sourceId span.bytes.finish =
        .error error) :
      SpanOutcome registry maxDepth span (.error error)
  | ranged (location : ResolvedLocation) (target : SourceId)
      (start finishHops finish : Nat)
      (resolved : resolutionOf registry maxDepth span.sourceId
        span.bytes.start = .ok location)
      (mapped : 0 < location.hops)
      (ends : EndsAt registry maxDepth span.sourceId span.bytes.start
        location.hops target start)
      (finishEnds : EndsAt registry maxDepth span.sourceId span.bytes.finish
        finishHops target finish) :
      SpanOutcome registry maxDepth span
        (.ok ⟨span, some ⟨target, ⟨start, max finish start⟩⟩, location⟩)
  | clamped (location : ResolvedLocation) (target : SourceId) (start : Nat)
      (resolved : resolutionOf registry maxDepth span.sourceId
        span.bytes.start = .ok location)
      (mapped : 0 < location.hops)
      (ends : EndsAt registry maxDepth span.sourceId span.bytes.start
        location.hops target start)
      (elsewhere : EndsOutside registry maxDepth span.sourceId
          span.bytes.finish ∨
        ∃ finishHops other finish,
          EndsAt registry maxDepth span.sourceId span.bytes.finish finishHops
            other finish ∧ other ≠ target) :
      SpanOutcome registry maxDepth span
        (.ok ⟨span, some ⟨target, ⟨start, start⟩⟩, location⟩)

section Ends

variable {registry : SourceRegistry} {maxDepth : Nat} {sourceId : SourceId}
  {offset : Nat}

theorem EndsAt.unique {hops otherHops targetOffset otherOffset : Nat}
    {target other : SourceId}
    (ends : EndsAt registry maxDepth sourceId offset hops target targetOffset)
    (otherEnds : EndsAt registry maxDepth sourceId offset otherHops other
      otherOffset) :
    hops = otherHops ∧ target = other ∧ targetOffset = otherOffset := by
  obtain ⟨location, resolved, counted, source, accepted⟩ := ends.resolved
  obtain ⟨same, otherResolved, otherCounted, otherSource, otherAccepted⟩ :=
    otherEnds.resolved
  rw [resolved] at otherResolved
  cases otherResolved
  rw [source] at otherSource
  cases otherSource
  rw [accepted] at otherAccepted
  cases otherAccepted
  exact ⟨counted.symm.trans otherCounted, rfl, rfl⟩

theorem EndsAt.not_outside {hops targetOffset : Nat} {target : SourceId}
    (ends : EndsAt registry maxDepth sourceId offset hops target targetOffset) :
    ¬ EndsOutside registry maxDepth sourceId offset := by
  intro outside
  obtain ⟨location, resolved, _, source, _⟩ := ends.resolved
  obtain ⟨same, otherResolved, unregistered⟩ := outside.resolved
  rw [resolved] at otherResolved
  cases otherResolved
  rw [source] at unregistered
  cases unregistered

theorem EndsAt.not_generated {hops targetOffset : Nat} {target : SourceId}
    {location : ResolvedLocation}
    (ends : EndsAt registry maxDepth sourceId offset hops target targetOffset)
    (mapped : 0 < hops)
    (resolved : resolutionOf registry maxDepth sourceId offset =
      .ok location) :
    ¬ (location.hops = 0 ∨ location.original.sourceId = none) := by
  obtain ⟨other, otherResolved, counted, source, _⟩ := ends.resolved
  rw [resolved] at otherResolved
  cases otherResolved
  intro generated
  rcases generated with unmapped | unregistered
  · omega
  · rw [source] at unregistered
    cases unregistered

theorem span_of_offsets {target : SourceId} {first last : SourceMapPosition}
    {start finish : Nat}
    (accepted : registry.byteOffsetForSourceMapPosition target first =
      .ok start)
    (lastAccepted : registry.byteOffsetForSourceMapPosition target last =
      .ok finish) (ordered : start ≤ finish) :
    registry.span target start finish = .ok ⟨target, ⟨start, finish⟩⟩ := by
  obtain ⟨file, found, _⟩ := bind_eq_ok_iff.mp accepted
  apply (span_eq_ok_iff found).mpr
  refine ⟨rfl, exists_slice ?_ ?_ ordered⟩
  · exact boundary_of_sourceMapPosition found
      (sourceMapPosition_of_accepted found accepted)
  · exact boundary_of_sourceMapPosition found
      (sourceMapPosition_of_accepted found lastAccepted)

theorem span_of_max {target : SourceId} {first last : SourceMapPosition}
    {start finish : Nat}
    (accepted : registry.byteOffsetForSourceMapPosition target first =
      .ok start)
    (lastAccepted : registry.byteOffsetForSourceMapPosition target last =
      .ok finish) :
    registry.span target start (max finish start) =
      .ok ⟨target, ⟨start, max finish start⟩⟩ := by
  by_cases ordered : start ≤ finish
  · rw [Nat.max_eq_left ordered]
    exact span_of_offsets accepted lastAccepted ordered
  · rw [Nat.max_eq_right (Nat.le_of_not_le ordered)]
    exact span_of_offsets accepted accepted le_rfl

end Ends

/-- Both ends of a valid span have positions. -/
theorem positions_of_span {registry : SourceRegistry} {sourceId : SourceId}
    {start finish : Nat} {span : SourceSpan}
    (valid : registry.span sourceId start finish = .ok span) :
    (∃ position, registry.sourceMapPosition sourceId start = .ok position) ∧
      ∃ position, registry.sourceMapPosition sourceId finish =
        .ok position := by
  obtain ⟨file, found, _⟩ := bind_eq_ok_iff.mp valid
  obtain ⟨_, text, sliced⟩ := (span_eq_ok_iff found).mp valid
  obtain ⟨before, after, split, startMeasured, finishMeasured⟩ :=
    slice_eq_ok_iff.mp sliced
  have laws := registered_positionLaws found
  constructor
  · obtain ⟨position, located, _⟩ :=
      laws.forward start ⟨before, text ++ after, split, startMeasured⟩
    exact ⟨position, located⟩
  · obtain ⟨position, located, _⟩ := laws.forward finish
      ⟨before ++ text, after, by rw [split, List.append_assoc], by
        rw [← finishMeasured, ← startMeasured]
        exact extent_append _ _ _⟩
    exact ⟨position, located⟩

theorem resolveSpan_outcome {registry : SourceRegistry} {span : SourceSpan}
    (valid : registry.span span.sourceId span.bytes.start span.bytes.finish =
      .ok span) (maxDepth : Nat) :
    SpanOutcome registry maxDepth span
      (registry.resolveSpanWithLimit span maxDepth) := by
  obtain ⟨⟨startPosition, startLocated⟩, finishPosition, finishLocated⟩ :=
    positions_of_span valid
  rw [SourceRegistry.resolveSpanWithLimit, valid, fromSource_ok, ok_bind,
    startLocated, fromSource_ok, ok_bind,
    ← resolutionOf_eq startLocated]
  cases resolved : resolutionOf registry maxDepth span.sourceId
      span.bytes.start with
  | error error => exact .startFails error resolved
  | ok location =>
      rw [ok_bind]
      by_cases mapped : location.hops = 0
      · have unmapped : location.isMapped = false := by
          simp [ResolvedLocation.isMapped, mapped]
        simp only [unmapped]
        exact .unmapped location resolved (.inl mapped)
      · have isMapped : location.isMapped = true := by
          simp [ResolvedLocation.isMapped, mapped]
        simp only [isMapped, if_true]
        rcases ends_of_resolved startLocated resolved with
          ⟨target, start, source, accepted, ends⟩ | ⟨unregistered, _⟩
        · simp only [source]
          rw [accepted, fromSource_ok, ok_bind, finishLocated, fromSource_ok,
            ok_bind, ← resolutionOf_eq finishLocated]
          cases finishResolved : resolutionOf registry maxDepth span.sourceId
              span.bytes.finish with
          | error error =>
              exact .finishFails location target start error
                (Nat.pos_of_ne_zero mapped) ends finishResolved
          | ok finishLocation =>
              rw [ok_bind]
              rcases ends_of_resolved finishLocated finishResolved with
                ⟨other, finish, finishSource, finishAccepted, finishEnds⟩ |
                ⟨finishUnregistered, outside⟩
              · by_cases same : other = target
                · subst same
                  have ranged := span_of_max accepted finishAccepted
                  simp only [finishSource, if_true, finishAccepted,
                    fromSource_ok, ok_bind, pure_bind, ranged]
                  exact .ranged location other start finishLocation.hops finish
                    resolved (Nat.pos_of_ne_zero mapped) ends finishEnds
                · have different :
                      ¬ finishLocation.original.sourceId = some target := by
                    rw [finishSource]
                    simpa using same
                  have clamped := span_of_offsets accepted accepted le_rfl
                  simp only [if_neg different, fromSource_ok, ok_bind,
                    pure_bind, clamped]
                  exact .clamped location target start resolved
                    (Nat.pos_of_ne_zero mapped) ends
                    (.inr ⟨finishLocation.hops, other, finish, finishEnds,
                      same⟩)
              · have different :
                    ¬ finishLocation.original.sourceId = some target := by
                  rw [finishUnregistered]
                  exact Option.some_ne_none target |>.symm
                have clamped := span_of_offsets accepted accepted le_rfl
                simp only [if_neg different, fromSource_ok, ok_bind, pure_bind,
                  clamped]
                exact .clamped location target start resolved
                  (Nat.pos_of_ne_zero mapped) ends (.inl outside)
        · simp only [unregistered]
          exact .unmapped location resolved (.inr unregistered)

section Laws

variable {registry : SourceRegistry} {span : SourceSpan} {maxDepth : Nat}
  (valid : registry.span span.sourceId span.bytes.start span.bytes.finish =
    .ok span)

include valid

theorem not_displaced_of_laws (laws : SpanLaws registry maxDepth span) :
    ¬ Displaced registry maxDepth span := by
  intro ⟨hops, target, start, mapped, ends, displaced⟩
  have outcome := resolveSpan_outcome valid maxDepth
  -- the end is in order, against the displacement
  have inOrder : ∀ range, ¬ MappedRange registry maxDepth span range := by
    intro range ⟨_, finishHops, other, first, last, _, otherEnds, finishEnds,
      ordered, _⟩
    obtain ⟨_, sameTarget, sameStart⟩ := ends.unique otherEnds
    rcases displaced with outside | ⟨_, elsewhere, finish, displacedEnds, out⟩
    · exact finishEnds.not_outside outside
    · obtain ⟨_, sameOther, sameFinish⟩ := finishEnds.unique displacedEnds
      subst sameTarget
      subst sameStart
      subst sameOther
      subst sameFinish
      rcases out with different | reversed
      · exact different rfl
      · omega
  have finishResolved : ∃ location,
      resolutionOf registry maxDepth span.sourceId span.bytes.finish =
        .ok location := by
    rcases displaced with outside | ⟨_, _, _, displacedEnds, _⟩
    · obtain ⟨location, found, _⟩ := outside.resolved
      exact ⟨location, found⟩
    · obtain ⟨location, found, _⟩ := displacedEnds.resolved
      exact ⟨location, found⟩
  obtain ⟨location, resolved, _⟩ := ends.resolved
  have mappedLaw := laws.mapped
  generalize registry.resolveSpanWithLimit span maxDepth = result
    at outcome mappedLaw
  cases outcome with
  | startFails error fails =>
      rw [resolved] at fails
      cases fails
  | unmapped other otherResolved generated =>
      exact ends.not_generated mapped otherResolved generated
  | finishFails other otherTarget otherStart error _ _ fails =>
      obtain ⟨finishLocation, found⟩ := finishResolved
      rw [found] at fails
      cases fails
  | ranged other otherTarget otherStart finishHops finish =>
      exact inOrder _ ((mappedLaw _ rfl _).mp rfl)
  | clamped other otherTarget otherStart =>
      exact inOrder _ ((mappedLaw _ rfl _).mp rfl)

/-- Resolving a span fails as the resolution of its start does, or as that of
its end when the start is mapped. -/
theorem resolveSpan_error_iff (error : Abort SourceMapError) :
    registry.resolveSpanWithLimit span maxDepth = .error error ↔
      resolutionOf registry maxDepth span.sourceId span.bytes.start =
        .error error ∨
      (∃ hops target start, 0 < hops ∧
        EndsAt registry maxDepth span.sourceId span.bytes.start hops target
          start) ∧
      resolutionOf registry maxDepth span.sourceId span.bytes.finish =
        .error error := by
  have outcome := resolveSpan_outcome valid maxDepth
  constructor
  · intro failed
    rw [failed] at outcome
    cases outcome with
    | startFails _ fails => exact .inl fails
    | finishFails location target start _ mapped ends fails =>
        exact .inr ⟨⟨location.hops, target, start, mapped, ends⟩, fails⟩
  · intro fails
    generalize registry.resolveSpanWithLimit span maxDepth = result
      at outcome
    rcases fails with startFails | ⟨⟨_, _, _, mapped, ends⟩, finishFails⟩
    · have unresolved : ∀ location,
          resolutionOf registry maxDepth span.sourceId span.bytes.start ≠
            .ok location := by
        intro location resolved
        rw [startFails] at resolved
        cases resolved
      cases outcome with
      | startFails other otherFails =>
          rw [startFails] at otherFails
          cases otherFails
          rfl
      | unmapped location resolved => exact absurd resolved (unresolved _)
      | finishFails location target start other _ otherEnds =>
          obtain ⟨_, resolved, _⟩ := otherEnds.resolved
          exact absurd resolved (unresolved _)
      | ranged location target start finishHops finish resolved =>
          exact absurd resolved (unresolved _)
      | clamped location target start resolved =>
          exact absurd resolved (unresolved _)
    · have unresolved : ∀ location,
          resolutionOf registry maxDepth span.sourceId span.bytes.finish ≠
            .ok location := by
        intro location resolved
        rw [finishFails] at resolved
        cases resolved
      cases outcome with
      | startFails other otherFails =>
          obtain ⟨_, resolved, _⟩ := ends.resolved
          rw [otherFails] at resolved
          cases resolved
      | unmapped location resolved generated =>
          exact absurd generated (ends.not_generated mapped resolved)
      | finishFails location target start other _ _ otherFails =>
          rw [finishFails] at otherFails
          cases otherFails
          rfl
      | ranged location target start finishHops finish _ _ _ finishEnds =>
          obtain ⟨_, resolved, _⟩ := finishEnds.resolved
          exact absurd resolved (unresolved _)
      | clamped location target start _ _ _ elsewhere =>
          rcases elsewhere with outside | ⟨_, _, _, finishEnds, _⟩
          · obtain ⟨_, resolved, _⟩ := outside.resolved
            exact absurd resolved (unresolved _)
          · obtain ⟨_, resolved, _⟩ := finishEnds.resolved
            exact absurd resolved (unresolved _)

/-- At an end that splits a terminator resolution fails, but no chain does. -/
theorem not_splits_of_laws (laws : SpanLaws registry maxDepth span) :
    ¬ Splits registry maxDepth span := by
  rintro ⟨file, found, splits⟩
  obtain ⟨⟨startPosition, startLocated⟩, finishPosition, finishLocated⟩ :=
    positions_of_span valid
  rcases splits with startSplits | ⟨finishSplits, hops, target, start, mapped,
    ends⟩
  · obtain ⟨error, failed⟩ :=
      resolution_of_splits found startLocated startSplits
    rcases (laws.fails _).mp
      ((resolveSpan_error_iff valid _).mpr (.inl failed)) with
      startFails | ⟨⟨_, _, _, _, ends⟩, _⟩
    · exact ((chainFails_iff found startLocated).mp startFails).2 startSplits
    · obtain ⟨_, resolved, _⟩ := ends.resolved
      rw [failed] at resolved
      cases resolved
  · obtain ⟨error, failed⟩ :=
      resolution_of_splits found finishLocated finishSplits
    rcases (laws.fails _).mp ((resolveSpan_error_iff valid _).mpr
      (.inr ⟨⟨hops, target, start, mapped, ends⟩, failed⟩)) with
      startFails | ⟨_, finishFails⟩
    · have startFailed := ((chainFails_iff found startLocated).mp startFails).1
      obtain ⟨_, resolved, _⟩ := ends.resolved
      rw [startFailed] at resolved
      cases resolved
    · exact ((chainFails_iff found finishLocated).mp finishFails).2 finishSplits

theorem laws_of_not_displaced (inOrder : ¬ Displaced registry maxDepth span)
    (whole : ¬ Splits registry maxDepth span) :
    SpanLaws registry maxDepth span := by
  have outcome := resolveSpan_outcome valid maxDepth
  constructor
  · intro result same
    rw [same] at outcome
    cases outcome with
    | unmapped location resolved => exact ⟨rfl, resolved⟩
    | ranged location target start finishHops finish resolved =>
        exact ⟨rfl, resolved⟩
    | clamped location target start resolved => exact ⟨rfl, resolved⟩
  · intro result same range
    rw [same] at outcome
    cases outcome with
    | unmapped location resolved generated =>
        constructor
        · intro some
          cases some
        · intro ⟨_, _, _, _, _, mapped, ends, _⟩
          exact absurd generated (ends.not_generated mapped resolved)
    | ranged location target start finishHops finish resolved mapped ends
        finishEnds =>
        have ordered : start ≤ finish := by
          by_contra reversed
          exact inOrder ⟨location.hops, target, start, mapped, ends,
            .inr ⟨finishHops, target, finish, finishEnds,
              .inr (Nat.lt_of_not_le reversed)⟩⟩
        rw [Nat.max_eq_left ordered, Option.some.injEq]
        constructor
        · intro same
          exact ⟨location.hops, finishHops, target, start, finish, mapped, ends,
            finishEnds, ordered, same.symm⟩
        · intro ⟨_, _, _, _, _, _, otherEnds, otherFinishEnds, _, same⟩
          obtain ⟨_, sameTarget, sameStart⟩ := ends.unique otherEnds
          obtain ⟨_, _, sameFinish⟩ := finishEnds.unique otherFinishEnds
          rw [same, sameTarget, sameStart, sameFinish]
    | clamped location target start resolved mapped ends elsewhere =>
        exfalso
        apply inOrder
        refine ⟨location.hops, target, start, mapped, ends, ?_⟩
        rcases elsewhere with outside | ⟨hops, other, finish, finishEnds, out⟩
        · exact .inl outside
        · exact .inr ⟨hops, other, finish, finishEnds, .inl out⟩
  · intro error
    obtain ⟨file, found, _⟩ := bind_eq_ok_iff.mp valid
    obtain ⟨⟨startPosition, startLocated⟩, finishPosition, finishLocated⟩ :=
      positions_of_span valid
    have startWhole : ¬ SplitsTerminator file.text span.bytes.start :=
      fun splits => whole ⟨file, found, .inl splits⟩
    rw [resolveSpan_error_iff valid, chainFails_iff found startLocated,
      chainFails_iff found finishLocated]
    constructor
    · rintro (failed | ⟨mapped, failed⟩)
      · exact .inl ⟨failed, startWhole⟩
      · exact .inr ⟨mapped, failed,
          fun splits => whole ⟨file, found, .inr ⟨splits, mapped⟩⟩⟩
    · rintro (⟨failed, _⟩ | ⟨mapped, failed, _⟩)
      · exact .inl failed
      · exact .inr ⟨mapped, failed⟩

/-- Positions and spans resolve as documented exactly when the end of the
span is not displaced and no end that is resolved splits a terminator. -/
theorem resolution_documented_iff :
    ((∀ start, ChainLaws registry maxDepth start) ∧
      SpanLaws registry maxDepth span) ↔
    ¬ Displaced registry maxDepth span ∧ ¬ Splits registry maxDepth span := by
  constructor
  · rintro ⟨_, laws⟩
    exact ⟨not_displaced_of_laws valid laws, not_splits_of_laws valid laws⟩
  · rintro ⟨inOrder, whole⟩
    exact ⟨chainLaws registry maxDepth,
      laws_of_not_displaced valid inOrder whole⟩

end Laws

/-- A map that exchanges the first two columns. -/
def crossedMap : SourceMap where
  lookup position := .ok (
    if position = ⟨0, 0⟩ then
      some ⟨"original.js", ⟨0, 1⟩, none, none⟩
    else if position = ⟨0, 1⟩ then
      some ⟨"original.js", ⟨0, 0⟩, none, none⟩
    else
      none)
  kinds := by
    intro position error failed
    cases failed

def originalFile : SourceFile :=
  ⟨"original.js", ['a', 'b'], ⟨[0]⟩, none, rfl⟩

def generatedFile (sourceMap : SourceMap) : SourceFile :=
  ⟨"generated.js", ['b', 'a'], ⟨[0]⟩, some sourceMap, rfl⟩

/-- Two sources, the second with a map into the first. -/
def mappedRegistry (sourceMap : SourceMap) : SourceRegistry where
  identity := 0
  files := [originalFile, generatedFile sourceMap]
  names := [("generated.js", 1), ("original.js", 0)]
  named := SourceRegistry.named_register
    (SourceRegistry.named_register (SourceRegistry.new 0).named originalFile
      rfl) (generatedFile sourceMap) rfl

def crossedRegistry : SourceRegistry :=
  mappedRegistry crossedMap

def crossedSpan : SourceSpan :=
  ⟨⟨0, 1⟩, ⟨0, 1⟩⟩

theorem mappedRegistry_settles (sourceMap : SourceMap) {column : Nat}
    (inside : column < 2) :
    (mappedRegistry sourceMap).Settles (⟨0, 0⟩, ⟨0, column⟩) := by
  refine ⟨originalFile, rfl, ?_, ?_⟩
  · interval_cases column <;> rfl
  · intro sourceMap present
    cases present

theorem crossedSpan_displaced : Displaced crossedRegistry 32 crossedSpan := by
  refine ⟨1, ⟨0, 0⟩, 1, Nat.one_pos, ?_, .inr ⟨1, ⟨0, 0⟩, 0, ?_,
    .inr Nat.one_pos⟩⟩
  · exact ⟨⟨0, 0⟩, ⟨0, 1⟩, rfl, by decide,
      ⟨rfl, mappedRegistry_settles crossedMap (by decide)⟩, rfl⟩
  · exact ⟨⟨0, 1⟩, ⟨0, 0⟩, rfl, by decide,
      ⟨rfl, mappedRegistry_settles crossedMap (by decide)⟩, rfl⟩

/-- The end of the span is mapped before its start, and the code still gives
a mapped range. -/
theorem crossedSpan_range :
    crossedRegistry.span ⟨0, 1⟩ 0 1 = .ok crossedSpan ∧
      (∃ location, crossedRegistry.resolveSpanWithLimit crossedSpan 32 =
        .ok ⟨crossedSpan, some ⟨⟨0, 0⟩, ⟨1, 1⟩⟩, location⟩) ∧
      ¬ SpanLaws crossedRegistry 32 crossedSpan := by
  refine ⟨rfl, ⟨⟨⟨0, 1⟩, ⟨0, 0⟩,
    ⟨"original.js", some ⟨0, 0⟩, ⟨0, 1⟩, none⟩, none, 1⟩, ?_⟩, ?_⟩
  · decide +kernel
  · intro laws
    exact not_displaced_of_laws rfl laws crossedSpan_displaced

/-- A map that keeps the first two columns. -/
def straightMap : SourceMap where
  lookup position := .ok (
    if position.line = 0 ∧ position.column < 2 then
      some ⟨"original.js", position, none, none⟩
    else
      none)
  kinds := by
    intro position error failed
    cases failed

/-- The ends of the span are mapped to two offsets in order. -/
theorem resolution_documented_iff_straight :
    (mappedRegistry straightMap).span ⟨0, 1⟩ 0 1 = .ok crossedSpan ∧
      SpanLaws (mappedRegistry straightMap) 32 crossedSpan ∧
      MappedRange (mappedRegistry straightMap) 32 crossedSpan
        ⟨⟨0, 0⟩, ⟨0, 1⟩⟩ := by
  have first : EndsAt (mappedRegistry straightMap) 32 ⟨0, 1⟩ 0 1 ⟨0, 0⟩ 0 :=
    ⟨⟨0, 0⟩, ⟨0, 0⟩, rfl, by decide,
      ⟨rfl, mappedRegistry_settles straightMap (by decide)⟩, rfl⟩
  have last : EndsAt (mappedRegistry straightMap) 32 ⟨0, 1⟩ 1 1 ⟨0, 0⟩ 1 :=
    ⟨⟨0, 1⟩, ⟨0, 1⟩, rfl, by decide,
      ⟨rfl, mappedRegistry_settles straightMap (by decide)⟩, rfl⟩
  have inOrder : ¬ Displaced (mappedRegistry straightMap) 32 crossedSpan := by
    rintro ⟨hops, target, start, _, ends, outside | ⟨_, other, finish,
      finishEnds, out⟩⟩
    · exact last.not_outside outside
    · obtain ⟨_, sameTarget, sameStart⟩ := first.unique ends
      obtain ⟨_, sameOther, sameFinish⟩ := last.unique finishEnds
      subst sameTarget sameStart sameOther sameFinish
      simp at out
  have whole : ¬ Splits (mappedRegistry straightMap) 32 crossedSpan := by
    rintro ⟨file, found, splits⟩
    cases found
    have noReturn : ∀ offset,
        ¬ SplitsTerminator ['b', 'a'] offset := by
      rintro offset ⟨before, after, split, _⟩
      have member : '\r' ∈ ['b', 'a'] := by
        rw [split]
        simp
      simp at member
    rcases splits with startSplits | ⟨finishSplits, _⟩
    · exact noReturn _ startSplits
    · exact noReturn _ finishSplits
  exact ⟨rfl, ((resolution_documented_iff rfl).mpr ⟨inOrder, whole⟩).2,
    1, 1, ⟨0, 0⟩, 0, 1, Nat.one_pos, first, last, by decide, rfl⟩

end Fusor.Diagnostics
