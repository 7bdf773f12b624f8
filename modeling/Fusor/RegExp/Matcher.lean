import Fusor.RegExp.Executor
import Fusor.RegExp.Progress

/-!
# Ordered matchers

A matcher lists, in the order of preference, the states in which a piece of a
pattern can be left.  Every matcher carries the proof that it only moves in
its direction, which is what makes repetition well founded.
-/

namespace Fusor.RegExp

/-- What the executor hands from one piece of a pattern to the next. -/
structure MatchState where
  position : Nat
  captures : List CaptureSlot
  deriving DecidableEq

structure Matcher (input : Input) (direction : Direction) where
  run : MatchState → List MatchState
  advances : ∀ start outcome, outcome ∈ run start →
    Advances input direction start.position outcome.position
  length_eq : ∀ start outcome, outcome ∈ run start →
    outcome.captures.length = start.captures.length

namespace Matcher

variable {input : Input} {direction : Direction}

def empty : Matcher input direction where
  run start := [start]
  advances start outcome found := by
    cases List.mem_singleton.mp found
    exact .refl _
  length_eq start outcome found := by
    cases List.mem_singleton.mp found
    rfl

def seq (first second : Matcher input direction) : Matcher input direction where
  run start := (first.run start).flatMap second.run
  advances start outcome found := by
    obtain ⟨middle, foundFirst, foundSecond⟩ := List.mem_flatMap.mp found
    exact (first.advances _ _ foundFirst).trans
      (second.advances _ _ foundSecond)
  length_eq start outcome found := by
    obtain ⟨middle, foundFirst, foundSecond⟩ := List.mem_flatMap.mp found
    exact (second.length_eq _ _ foundSecond).trans
      (first.length_eq _ _ foundFirst)

def alt (first second : Matcher input direction) : Matcher input direction where
  run start := first.run start ++ second.run start
  advances start outcome found := by
    rcases List.mem_append.mp found with left | right
    · exact first.advances _ _ left
    · exact second.advances _ _ right
  length_eq start outcome found := by
    rcases List.mem_append.mp found with left | right
    · exact first.length_eq _ _ left
    · exact second.length_eq _ _ right

/-- A matcher that moves to one of the listed positions. -/
def reading (positions : MatchState → List Nat)
    (onward : ∀ start, ∀ next ∈ positions start,
      Advances input direction start.position next) :
    Matcher input direction where
  run start := (positions start).map fun next => { start with position := next }
  advances start outcome found := by
    obtain ⟨next, foundNext, rfl⟩ := List.mem_map.mp found
    exact onward start next foundNext
  length_eq start outcome found := by
    obtain ⟨next, foundNext, rfl⟩ := List.mem_map.mp found
    rfl

/-- A matcher that consumes nothing and changes captures only before and
after the inner one. -/
def bracket (enter leave : MatchState → List CaptureSlot)
    (enter_length : ∀ state, (enter state).length = state.captures.length)
    (leave_length : ∀ state, (leave state).length = state.captures.length)
    (inner : Matcher input direction) : Matcher input direction where
  run start := (inner.run { start with captures := enter start }).map
    fun outcome => { outcome with captures := leave outcome }
  advances start outcome found := by
    obtain ⟨middle, foundMiddle, rfl⟩ := List.mem_map.mp found
    exact inner.advances { start with captures := enter start } middle
      foundMiddle
  length_eq start outcome found := by
    obtain ⟨middle, foundMiddle, rfl⟩ := List.mem_map.mp found
    exact (leave_length middle).trans
      ((inner.length_eq { start with captures := enter start } _
        foundMiddle).trans (enter_length start))

/-- A lookaround keeps the position; a positive one keeps the captures of the
first inner outcome, a negative one succeeds when there is no inner outcome. -/
def look {inner : Direction} (negative : Bool) (body : Matcher input inner) :
    Matcher input direction where
  run start :=
    if negative then
      if (body.run start).isEmpty then [start] else []
    else
      (body.run start).head?.toList.map fun outcome =>
        { start with captures := outcome.captures }
  advances start outcome found := by
    split at found
    · split at found
      · cases List.mem_singleton.mp found
        exact .refl _
      · simp at found
    · obtain ⟨middle, foundMiddle, rfl⟩ := List.mem_map.mp found
      exact .refl _
  length_eq start outcome found := by
    split at found
    · split at found
      · cases List.mem_singleton.mp found
        rfl
      · simp at found
    · obtain ⟨middle, foundMiddle, rfl⟩ := List.mem_map.mp found
      have inside := List.mem_of_mem_head? (Option.mem_toList.mp foundMiddle)
      exact body.length_eq start middle inside

end Matcher

/-- The captures with the slots from `start` up to `stop` made empty. -/
def resetCaptures (start stop : Nat) (captures : List CaptureSlot) :
    List CaptureSlot :=
  captures.mapIdx fun index capture =>
    if start ≤ index ∧ index < stop then {} else capture

namespace MatchState

def reset (start stop : Nat) (state : MatchState) : MatchState :=
  { state with captures := resetCaptures start stop state.captures }

end MatchState

/-- `List.flatMap` whose body knows where its argument was found. -/
def flatMapFound {α β : Type*} (list : List α)
    (further : (element : α) → element ∈ list → List β) : List β :=
  list.attach.flatMap fun found => further found.1 found.2

theorem flatMapFound_eq {α β : Type*} (list : List α) (further : α → List β) :
    (flatMapFound list fun element _ => further element) =
      list.flatMap further := by
  rw [flatMapFound, List.flatMap_subtype (fun _ _ => rfl),
    List.unattach_attach]

section Repetition

variable {input : Input} {direction : Direction}
  (body : Matcher input direction) (captureStart captureEnd : Nat)

private theorem body_measure {start outcome : MatchState}
    (found : outcome ∈ body.run (start.reset captureStart captureEnd)) :
    Advances input direction start.position outcome.position :=
  body.advances (start.reset captureStart captureEnd) outcome found

/-- The outcomes of the emitted repetition code.  After the last mandatory
iteration the code leaves at once when that iteration consumed nothing, and a
terminal repeat leaves only where its body fails. -/
def repeatOutcomes (terminal greedy : Bool) (min : Nat) (max : Option Nat)
    (start : MatchState) : List MatchState :=
  if max = some 0 then [start]
  else
    let entered := body.run (start.reset captureStart captureEnd)
    if 0 < min then
      flatMapFound entered fun outcome _found =>
        if min = 1 ∧ outcome.position = start.position then [outcome]
        else repeatOutcomes terminal greedy (min - 1) (max.map (· - 1)) outcome
    else
      let iterations := flatMapFound entered fun outcome _found =>
        if outcome.position = start.position then []
        else repeatOutcomes terminal greedy 0 (max.map (· - 1)) outcome
      if !greedy then start :: iterations
      else if terminal then
        if entered.isEmpty then [start] else iterations
      else iterations ++ [start]
termination_by min + remaining input direction start.position
decreasing_by
  · have move := (body_measure body captureStart captureEnd _found).remaining_le
    omega
  · have move := (body_measure body captureStart captureEnd
      _found).remaining_lt (by assumption)
    omega

/-- The outcomes of RepeatMatcher: `min` mandatory iterations that may be
empty, then optional iterations of which an empty one fails. -/
def repeatMatcher (greedy : Bool) (min : Nat) (max : Option Nat)
    (start : MatchState) : List MatchState :=
  if max = some 0 then [start]
  else
    let entered := body.run (start.reset captureStart captureEnd)
    let iterations := flatMapFound entered fun outcome _found =>
      if min = 0 ∧ outcome.position = start.position then []
      else repeatMatcher greedy (min - 1) (max.map (· - 1)) outcome
    if 0 < min then iterations
    else if greedy then iterations ++ [start]
    else start :: iterations
termination_by min + remaining input direction start.position
decreasing_by
  have move := body_measure body captureStart captureEnd _found
  have shorter := move.remaining_le
  by_cases mandatory : min = 0
  · have moved := move.remaining_lt (by tauto)
    omega
  · omega

theorem repeatOutcomes_eq (terminal greedy : Bool) (min : Nat)
    (max : Option Nat) (start : MatchState) :
    repeatOutcomes body captureStart captureEnd terminal greedy min max start =
      if max = some 0 then [start]
      else if 0 < min then
        (body.run (start.reset captureStart captureEnd)).flatMap fun outcome =>
          if min = 1 ∧ outcome.position = start.position then [outcome]
          else repeatOutcomes body captureStart captureEnd terminal greedy
            (min - 1) (max.map (· - 1)) outcome
      else
        let iterations :=
          (body.run (start.reset captureStart captureEnd)).flatMap
            fun outcome =>
              if outcome.position = start.position then []
              else repeatOutcomes body captureStart captureEnd terminal greedy 0
                (max.map (· - 1)) outcome
        if !greedy then start :: iterations
        else if terminal then
          if (body.run (start.reset captureStart captureEnd)).isEmpty then
            [start]
          else iterations
        else iterations ++ [start] := by
  conv => lhs; rw [repeatOutcomes]
  simp only [flatMapFound_eq]

theorem repeatMatcher_eq (greedy : Bool) (min : Nat) (max : Option Nat)
    (start : MatchState) :
    repeatMatcher body captureStart captureEnd greedy min max start =
      if max = some 0 then [start]
      else
        let iterations :=
          (body.run (start.reset captureStart captureEnd)).flatMap
            fun outcome =>
              if min = 0 ∧ outcome.position = start.position then []
              else repeatMatcher body captureStart captureEnd greedy (min - 1)
                (max.map (· - 1)) outcome
        if 0 < min then iterations
        else if greedy then iterations ++ [start]
        else start :: iterations := by
  conv => lhs; rw [repeatMatcher]
  simp only [flatMapFound_eq]

theorem length_reset (start : MatchState) :
    (start.reset captureStart captureEnd).captures.length =
      start.captures.length := by
  simp [MatchState.reset, resetCaptures]

/-- A property that the start has and every iteration preserves holds of every
outcome of the emitted repetition. -/
theorem repeatOutcomes_invariant (invariant : MatchState → Prop)
    (step : ∀ start, invariant start →
      ∀ outcome ∈ body.run (start.reset captureStart captureEnd),
        invariant outcome)
    (terminal greedy : Bool) (min : Nat) (max : Option Nat)
    (start : MatchState) (holds : invariant start) :
    ∀ outcome ∈ repeatOutcomes body captureStart captureEnd terminal greedy
      min max start, invariant outcome := by
  induction distance : min + remaining input direction start.position using
    Nat.strong_induction_on generalizing min max start with
  | _ distance induction =>
      intro final found
      rw [repeatOutcomes_eq] at found
      have optional : ∀ final ∈
          (body.run (start.reset captureStart captureEnd)).flatMap
            (fun outcome =>
              if outcome.position = start.position then []
              else repeatOutcomes body captureStart captureEnd terminal greedy 0
                (max.map (· - 1)) outcome), invariant final := by
        intro final found
        obtain ⟨outcome, inBody, found⟩ := List.mem_flatMap.mp found
        split at found
        · simp at found
        · have shorter := (body_measure body captureStart captureEnd
            inBody).remaining_lt (by assumption)
          exact induction _ (by omega) _ _ _ (step _ holds _ inBody) rfl final
            found
      split at found
      · cases List.mem_singleton.mp found
        exact holds
      · split at found
        · obtain ⟨outcome, inBody, found⟩ := List.mem_flatMap.mp found
          have preserved := step _ holds _ inBody
          split at found
          · cases List.mem_singleton.mp found
            exact preserved
          · have shorter := (body_measure body captureStart captureEnd
              inBody).remaining_le
            exact induction _ (by omega) _ _ _ preserved rfl final found
        · simp only at found
          split at found
          · rcases List.mem_cons.mp found with rfl | later
            · exact holds
            · exact optional final later
          · split at found
            · split at found
              · cases List.mem_singleton.mp found
                exact holds
              · exact optional final found
            · rcases List.mem_append.mp found with earlier | last
              · exact optional final earlier
              · cases List.mem_singleton.mp last
                exact holds

def Matcher.repetition (terminal greedy : Bool) (min : Nat)
    (max : Option Nat) : Matcher input direction where
  run := repeatOutcomes body captureStart captureEnd terminal greedy min max
  advances start := by
    refine repeatOutcomes_invariant body captureStart captureEnd
      (fun outcome => Advances input direction start.position outcome.position)
      ?_ terminal greedy min max start (.refl _)
    intro middle reached outcome found
    exact reached.trans (body_measure body captureStart captureEnd found)
  length_eq start := by
    refine repeatOutcomes_invariant body captureStart captureEnd
      (fun outcome => outcome.captures.length = start.captures.length)
      ?_ terminal greedy min max start rfl
    intro middle same outcome found
    exact (body.length_eq _ _ found).trans
      ((length_reset captureStart captureEnd middle).trans same)

end Repetition

end Fusor.RegExp
