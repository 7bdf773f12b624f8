import Fusor.Diagnostics.SourceMapChains
import Fusor.Diagnostics.SourcePositions
import Fusor.Graph.Walk

/-!
# The outcome of following a chain of source maps

The maps of a registry give a partial function on places, a source with a
position in it.  A chain is the walk of that function, and each result of
following it is told by where the walk goes.
-/

namespace Fusor.Diagnostics

open Fusor.Support Fusor.Graph

abbrev Place := SourceId × SourceMapPosition

namespace SourceRegistry

def mappingAt (registry : SourceRegistry) (place : Place) :
    Option SourceMapMapping :=
  match registry.source place.1 with
  | .error _ => none
  | .ok file =>
      match file.validateSourceMapPosition place.2.line place.2.column with
      | .error _ => none
      | .ok _ =>
          match file.incomingSourceMap with
          | none => none
          | some sourceMap =>
              match sourceMap.lookup place.2 with
              | .error _ => none
              | .ok mapping => mapping

/-- One hop from a place to a place of a registered source. -/
def nextPlace (registry : SourceRegistry) (place : Place) : Option Place :=
  (registry.mappingAt place).bind fun mapping =>
    (registry.sourceIdByName mapping.sourceName).map fun nextId =>
      (nextId, mapping.original)

/-- A valid place without a mapping. -/
def Settles (registry : SourceRegistry) (place : Place) : Prop :=
  ∃ file, registry.source place.1 = .ok file ∧
    file.validateSourceMapPosition place.2.line place.2.column = .ok () ∧
    ∀ sourceMap, file.incomingSourceMap = some sourceMap →
      sourceMap.lookup place.2 = .ok none

/-- The chain ends at a place of a registered source. -/
def Arrives (registry : SourceRegistry) (start : Place) (hops : Nat)
    (place : Place) : Prop :=
  walk registry.nextPlace start hops = some place ∧ registry.Settles place

/-- The hop after the given ones leaves the registered sources. -/
def Leaves (registry : SourceRegistry) (start : Place) (hops : Nat)
    (mapping : SourceMapMapping) : Prop :=
  ∃ place, walk registry.nextPlace start hops = some place ∧
    registry.mappingAt place = some mapping ∧
    registry.sourceIdByName mapping.sourceName = none

/-- The error at a place that cannot be resolved: its source is not registered,
the position is not one of the source, or the map of the source refuses it. -/
inductive Fails (registry : SourceRegistry) (place : Place) :
    SourceMapError → Prop where
  | missing (error : SourceError)
      (missing : registry.source place.1 = .error (.failed error)) :
      Fails registry place (.fromSource error)
  | invalid (file : SourceFile) (error : SourceError)
      (found : registry.source place.1 = .ok file)
      (invalid : file.validateSourceMapPosition place.2.line place.2.column =
        .error (.failed error)) :
      Fails registry place (.fromSource error)
  | refused (file : SourceFile) (sourceMap : SourceMap) (error : SourceMapError)
      (found : registry.source place.1 = .ok file)
      (valid : file.validateSourceMapPosition place.2.line place.2.column =
        .ok ())
      (mapped : file.incomingSourceMap = some sourceMap)
      (refused : sourceMap.lookup place.2 = .error error) :
      Fails registry place error

end SourceRegistry

/-- What following a chain from a place results in: the location reached
and the number of hops, or an error. -/
inductive ChainOutcome (registry : SourceRegistry) (maxDepth : Nat)
    (start : Place) : CheckedMap (OriginalLocation × Nat) → Prop where
  | arrived (place : Place) (original : OriginalLocation) (hops : Nat)
      (within : hops ≤ maxDepth) (arrives : registry.Arrives start hops place)
      (source : original.sourceId = some place.1)
      (position : original.position = place.2) :
      ChainOutcome registry maxDepth start (.ok (original, hops))
  | left (hops : Nat) (mapping : SourceMapMapping) (within : hops < maxDepth)
      (leaves : registry.Leaves start hops mapping) :
      ChainOutcome registry maxDepth start (.ok
        (⟨mapping.sourceName, none, mapping.original, mapping.sourceContent⟩,
          hops + 1))
  | cycled (hops : Nat) (error : SourceMapError) (within : hops ≤ maxDepth)
      (revisits : Revisits registry.nextPlace start hops)
      (kind : error.kind = .chainCycle) :
      ChainOutcome registry maxDepth start (.error (.failed error))
  | exceeded (place : Place) (mapping : SourceMapMapping)
      (error : SourceMapError)
      (fresh : ∀ hops ≤ maxDepth, ¬ Revisits registry.nextPlace start hops)
      (reached : walk registry.nextPlace start maxDepth = some place)
      (mapped : registry.mappingAt place = some mapping)
      (kind : error.kind = .chainDepthExceeded) :
      ChainOutcome registry maxDepth start (.error (.failed error))
  | failed (hops : Nat) (place : Place) (error : SourceMapError)
      (within : hops ≤ maxDepth)
      (reached : walk registry.nextPlace start hops = some place)
      (fails : registry.Fails place error) :
      ChainOutcome registry maxDepth start (.error (.failed error))

/-- The state of the loop after some hops from a place. -/
structure Follows (registry : SourceRegistry) (start : Place)
    (state : ChainState) : Prop where
  here : walk registry.nextPlace start state.hops =
    some (state.currentId, state.currentPosition)
  visited : ∀ place, place ∈ state.visited ↔
    ∃ earlier < state.hops, walk registry.nextPlace start earlier = some place
  fresh : ∀ hops < state.hops, ¬ Revisits registry.nextPlace start hops
  source : state.original.sourceId = some state.currentId
  position : state.original.position = state.currentPosition

theorem SourceFile.validateSourceMapPosition_cases (file : SourceFile)
    (line column : Nat) :
    file.validateSourceMapPosition line column = .ok () ∨
      ∃ error, file.validateSourceMapPosition line column =
        .error (.failed error) := by
  rw [SourceFile.validateSourceMapPosition, file.lineIndex_eq]
  by_cases beyond : (lines file.text).length ≤ line
  · right
    rw [LineIndex.byteOffsetForSourceMapPosition_of_le beyond]
    exact ⟨_, rfl⟩
  · have inside := Nat.lt_of_not_le beyond
    have located := LineIndex.byteOffsetForSourceMapPosition_eq
      (lines_split inside) file.small column
    rw [List.length_take_of_le (Nat.le_of_lt inside)] at located
    rw [located]
    split
    · exact .inl rfl
    · exact .inr ⟨_, rfl⟩

theorem SourceRegistry.source_cases (registry : SourceRegistry)
    (sourceId : SourceId) :
    (∃ file, registry.source sourceId = .ok file) ∨
      ∃ error, registry.source sourceId = .error (.failed error) := by
  unfold SourceRegistry.source
  split
  · exact .inr ⟨_, rfl⟩
  · split
    · exact .inl ⟨_, rfl⟩
    · exact .inr ⟨_, rfl⟩

theorem nextPlace_eq {registry : SourceRegistry} {place : Place}
    {mapping : SourceMapMapping} {nextId : SourceId}
    (mapped : registry.mappingAt place = some mapping)
    (named : registry.sourceIdByName mapping.sourceName = some nextId) :
    registry.nextPlace place = some (nextId, mapping.original) := by
  rw [SourceRegistry.nextPlace, mapped, Option.bind_some, named]
  rfl

theorem Follows.fresh_here {registry : SourceRegistry} {start : Place}
    {state : ChainState} (follows : Follows registry start state)
    (unvisited : (state.currentId, state.currentPosition) ∉ state.visited) :
    ∀ hops ≤ state.hops, ¬ Revisits registry.nextPlace start hops := by
  intro hops within
  by_cases last : hops = state.hops
  · subst last
    intro ⟨vertex, reached, earlier, order, there⟩
    rw [follows.here] at reached
    cases reached
    exact unvisited ((follows.visited _).mpr ⟨earlier, order, there⟩)
  · exact follows.fresh hops (Nat.lt_of_le_of_ne within last)

/-- The next iteration is one hop further. -/
theorem Follows.advance {registry : SourceRegistry} {start : Place}
    {state : ChainState} {mapping : SourceMapMapping} {nextId : SourceId}
    (follows : Follows registry start state)
    (unvisited : (state.currentId, state.currentPosition) ∉ state.visited)
    (mapped : registry.mappingAt (state.currentId, state.currentPosition) =
      some mapping)
    (named : registry.sourceIdByName mapping.sourceName = some nextId) :
    Follows registry start
      ((state.visit.advance mapping (some nextId)).moveTo nextId) where
  here := by
    have hop := nextPlace_eq mapped named
    change (walk registry.nextPlace start state.hops).bind registry.nextPlace =
      some (nextId, mapping.original)
    rw [follows.here]
    exact hop
  visited := by
    intro place
    change place ∈ (state.currentId, state.currentPosition) :: state.visited ↔
      ∃ earlier < state.hops + 1,
        walk registry.nextPlace start earlier = some place
    rw [List.mem_cons, follows.visited]
    constructor
    · intro member
      rcases member with same | ⟨earlier, before, there⟩
      · exact ⟨state.hops, Nat.lt_succ_self _, same ▸ follows.here⟩
      · exact ⟨earlier, Nat.lt_succ_of_lt before, there⟩
    · intro ⟨earlier, before, there⟩
      by_cases last : earlier = state.hops
      · subst last
        rw [follows.here] at there
        exact .inl (Option.some.inj there).symm
      · exact .inr ⟨earlier, by omega, there⟩
  fresh := fun hops before =>
    follows.fresh_here unvisited hops (Nat.le_of_lt_succ before)
  source := rfl
  position := rfl

theorem fromSource_ok {α : Type} (value : α) :
    fromSource (.ok value) = .ok value :=
  rfl

section Step

variable {registry : SourceRegistry} {state : ChainState} {file : SourceFile}

theorem mappingAt_of_lookup {place : Place}
    {sourceMap : SourceMap} {mapping : Option SourceMapMapping}
    (found : registry.source place.1 = .ok file)
    (valid : file.validateSourceMapPosition place.2.line place.2.column =
      .ok ())
    (mapped : file.incomingSourceMap = some sourceMap)
    (lookup : sourceMap.lookup place.2 = .ok mapping) :
    registry.mappingAt place = mapping := by
  simp only [SourceRegistry.mappingAt, found, valid, mapped, lookup]

theorem settles_of_lookup {place : Place}
    (found : registry.source place.1 = .ok file)
    (valid : file.validateSourceMapPosition place.2.line place.2.column =
      .ok ())
    (unmapped : ∀ sourceMap, file.incomingSourceMap = some sourceMap →
      sourceMap.lookup place.2 = .ok none) : registry.Settles place :=
  ⟨file, found, valid, unmapped⟩

theorem SourceRegistry.Settles.mappingAt_eq_none {place : Place}
    (settles : registry.Settles place) : registry.mappingAt place = none := by
  obtain ⟨file, found, valid, unmapped⟩ := settles
  simp only [SourceRegistry.mappingAt, found, valid]
  split
  · rfl
  · rename_i sourceMap mapped
    rw [unmapped sourceMap mapped]

theorem SourceRegistry.Fails.mappingAt_eq_none {place : Place}
    {error : SourceMapError} (fails : registry.Fails place error) :
    registry.mappingAt place = none := by
  cases fails with
  | missing error missing => simp only [SourceRegistry.mappingAt, missing]
  | invalid file error found invalid =>
      simp only [SourceRegistry.mappingAt, found, invalid]
  | refused file sourceMap error found valid mapped refused =>
      simp only [SourceRegistry.mappingAt, found, valid, mapped, refused]

theorem SourceRegistry.Fails.not_settles {place : Place}
    {error : SourceMapError} (fails : registry.Fails place error) :
    ¬ registry.Settles place := by
  intro ⟨other, otherFound, otherValid, unmapped⟩
  cases fails with
  | missing error missing =>
      rw [missing] at otherFound
      cases otherFound
  | invalid file error found invalid =>
      rw [found] at otherFound
      cases otherFound
      rw [invalid] at otherValid
      cases otherValid
  | refused file sourceMap error found valid mapped refused =>
      rw [found] at otherFound
      cases otherFound
      rw [unmapped sourceMap mapped] at refused
      cases refused

theorem SourceRegistry.Fails.kind {place : Place} {error : SourceMapError}
    (fails : registry.Fails place error) :
    error.kind = .invalidPosition ∨ error.kind.OfLookup := by
  cases fails with
  | missing error missing => exact .inl rfl
  | invalid file error found invalid => exact .inl rfl
  | refused file sourceMap error found valid mapped refused =>
      exact .inr (sourceMap.kinds _ _ refused)

theorem SourceRegistry.Fails.unique {place : Place}
    {error other : SourceMapError} (fails : registry.Fails place error)
    (otherFails : registry.Fails place other) : error = other := by
  cases fails with
  | missing error missing =>
      cases otherFails with
      | missing other otherMissing =>
          rw [missing] at otherMissing
          cases otherMissing
          rfl
      | invalid file other found => rw [missing] at found; cases found
      | refused file sourceMap other found => rw [missing] at found; cases found
  | invalid file error found invalid =>
      cases otherFails with
      | missing other missing => rw [found] at missing; cases missing
      | invalid otherFile other otherFound otherInvalid =>
          rw [found] at otherFound
          cases otherFound
          rw [invalid] at otherInvalid
          cases otherInvalid
          rfl
      | refused otherFile sourceMap other otherFound valid =>
          rw [found] at otherFound
          cases otherFound
          rw [invalid] at valid
          cases valid
  | refused file sourceMap error found valid mapped refused =>
      cases otherFails with
      | missing other missing => rw [found] at missing; cases missing
      | invalid otherFile other otherFound invalid =>
          rw [found] at otherFound
          cases otherFound
          rw [invalid] at valid
          cases valid
      | refused otherFile otherMap other otherFound _ otherMapped otherRefused =>
          rw [found] at otherFound
          cases otherFound
          rw [mapped] at otherMapped
          cases otherMapped
          rw [refused] at otherRefused
          cases otherRefused
          rfl

end Step

theorem followChain_outcome {registry : SourceRegistry} {maxDepth : Nat}
    {start : Place} {state : ChainState} (bounded : state.hops ≤ maxDepth)
    (follows : Follows registry start state) :
    ChainOutcome registry maxDepth start
      ((registry.followChain maxDepth state bounded).map fun final =>
        (final.original, final.hops)) := by
  induction remaining : maxDepth - state.hops using Nat.strong_induction_on
    generalizing state with
  | _ count induction =>
      rw [SourceRegistry.followChain]
      rcases registry.source_cases state.currentId with
        ⟨file, found⟩ | ⟨error, missing⟩
      · rw [found, fromSource_ok, ok_bind]
        rcases file.validateSourceMapPosition_cases state.currentPosition.line
          state.currentPosition.column with valid | ⟨error, invalid⟩
        · rw [valid, fromSource_ok, ok_bind]
          cases mapped : file.incomingSourceMap with
          | none =>
              refine .arrived (state.currentId, state.currentPosition) _
                state.hops bounded ⟨follows.here, settles_of_lookup found valid ?_⟩
                follows.source follows.position
              intro sourceMap present
              rw [mapped] at present
              cases present
          | some sourceMap =>
              simp only
              by_cases visited :
                  (state.currentId, state.currentPosition) ∈ state.visited
              · rw [if_pos visited]
                obtain ⟨earlier, before, there⟩ :=
                  (follows.visited _).mp visited
                exact .cycled state.hops _ bounded
                  ⟨_, follows.here, earlier, before, there⟩ rfl
              · rw [if_neg visited]
                cases lookup : sourceMap.lookup state.currentPosition with
                | error error =>
                    exact .failed state.hops _ error bounded follows.here
                      (.refused file sourceMap error found valid mapped lookup)
                | ok mapping =>
                    have here : registry.mappingAt
                        (state.currentId, state.currentPosition) = mapping :=
                      mappingAt_of_lookup found valid mapped lookup
                    cases mapping with
                    | none =>
                        refine .arrived _ _ state.hops bounded
                          ⟨follows.here, settles_of_lookup found valid ?_⟩
                          follows.source follows.position
                        intro other present
                        rw [mapped] at present
                        cases present
                        exact lookup
                    | some mapping =>
                        simp only
                        by_cases reached : state.hops = maxDepth
                        · rw [dif_pos reached]
                          refine .exceeded _ mapping _ ?_
                            (reached ▸ follows.here) here rfl
                          rw [← reached]
                          exact follows.fresh_here visited
                        · rw [dif_neg reached]
                          cases named :
                              registry.sourceIdByName mapping.sourceName with
                          | none =>
                              exact .left state.hops mapping (by omega)
                                ⟨_, follows.here, here, named⟩
                          | some nextId =>
                              apply induction (maxDepth - (state.hops + 1))
                                (by omega)
                              · exact follows.advance visited here named
                              · rfl
        · rw [invalid]
          exact .failed state.hops _ (.fromSource error) bounded follows.here
            (.invalid file error found invalid)
      · rw [missing]
        exact .failed state.hops _ (.fromSource error) bounded follows.here
          (.missing error missing)

section Exclusion

variable {registry : SourceRegistry} {start : Place} {maxDepth : Nat}

theorem nextPlace_eq_none {place : Place}
    (unmapped : registry.mappingAt place = none) :
    registry.nextPlace place = none := by
  rw [SourceRegistry.nextPlace, unmapped]
  rfl

theorem SourceRegistry.Leaves.stopped {hops : Nat} {mapping : SourceMapMapping}
    (leaves : registry.Leaves start hops mapping) :
    ∃ place, walk registry.nextPlace start hops = some place ∧
      registry.mappingAt place = some mapping ∧
      registry.nextPlace place = none := by
  obtain ⟨place, reached, mapped, unnamed⟩ := leaves
  refine ⟨place, reached, mapped, ?_⟩
  rw [SourceRegistry.nextPlace, mapped, Option.bind_some, unnamed]
  rfl

theorem SourceRegistry.Arrives.stopped {hops : Nat} {place : Place}
    (arrives : registry.Arrives start hops place) :
    registry.nextPlace place = none :=
  nextPlace_eq_none arrives.2.mappingAt_eq_none

/-- The walk goes to one end at most. -/
theorem walk_end_unique {hops other : Nat} {place otherPlace : Place}
    (reached : walk registry.nextPlace start hops = some place)
    (stopped : registry.nextPlace place = none)
    (otherReached : walk registry.nextPlace start other = some otherPlace)
    (otherStopped : registry.nextPlace otherPlace = none) :
    hops = other ∧ place = otherPlace := by
  have same : hops = other :=
    Nat.le_antisymm (walk_le_of_stopped otherReached otherStopped reached)
      (walk_le_of_stopped reached stopped otherReached)
  subst same
  rw [reached] at otherReached
  exact ⟨rfl, Option.some.inj otherReached⟩

end Exclusion

end Fusor.Diagnostics
