import Fusor.RegExp.Execution
import Fusor.RegExp.Subpattern

/-!
# Quantifiers

The emitted repetition against RepeatMatcher.  They differ in two places: the
code leaves at once after an empty last mandatory iteration, and a terminal
repeat keeps only the exits at which its body fails.
-/

namespace Fusor.RegExp

open Ast

section Lists

variable {input : Input} {direction : Direction}
  (body : Matcher input direction) (captureStart captureEnd : Nat)

/-- Wherever the last mandatory iteration consumes nothing, no further
iteration is allowed or the body cannot consume anything. -/
def EmptyMandatoryIsLast : Nat → Option Nat → MatchState → Prop
  | 0, _, _ => True
  | min + 1, max, start => max = some 0 ∨
      ∀ outcome ∈ body.run (start.reset captureStart captureEnd),
        if min = 0 ∧ outcome.position = start.position then
          max = some 1 ∨
            ∀ next ∈ body.run (outcome.reset captureStart captureEnd),
              next.position = outcome.position
        else EmptyMandatoryIsLast min (max.map (· - 1)) outcome

variable {body captureStart captureEnd}

theorem repeatOutcomes_optional (greedy : Bool) (max : Option Nat)
    (start : MatchState) :
    repeatOutcomes body captureStart captureEnd false greedy 0 max start =
      repeatMatcher body captureStart captureEnd greedy 0 max start := by
  induction distance : remaining input direction start.position using
    Nat.strong_induction_on generalizing max start with
  | _ distance induction =>
      subst distance
      have same : ∀ outcome ∈
          body.run (start.reset captureStart captureEnd),
          (if outcome.position = start.position then []
          else repeatOutcomes body captureStart captureEnd false greedy 0
            (max.map (· - 1)) outcome) =
          (if outcome.position = start.position then []
          else repeatMatcher body captureStart captureEnd greedy 0
            (max.map (· - 1)) outcome) := by
        intro outcome found
        by_cases stays : outcome.position = start.position
        · rw [if_pos stays, if_pos stays]
        · rw [if_neg stays, if_neg stays]
          have shorter := (body.advances
            (start.reset captureStart captureEnd) outcome found).remaining_lt
              stays
          exact induction _ shorter _ _ rfl
      rw [repeatOutcomes_eq, repeatMatcher_eq]
      simp only [lt_self_iff_false, if_false, true_and, Bool.false_eq_true,
        Nat.zero_sub, List.flatMap_congr same]
      cases greedy <;> rfl

theorem repeatMatcher_optional_mem (greedy : Bool) (max : Option Nat)
    (start : MatchState) :
    start ∈ repeatMatcher body captureStart captureEnd greedy 0 max start := by
  rw [repeatMatcher_eq]
  split
  · exact List.mem_singleton_self _
  · cases greedy <;> simp

/-- An optional part that has nothing to offer but its start. -/
theorem repeatMatcher_optional_eq_singleton (greedy : Bool) (max : Option Nat)
    (start : MatchState) :
    repeatMatcher body captureStart captureEnd greedy 0 max start = [start] ↔
      max = some 0 ∨
        ∀ next ∈ body.run (start.reset captureStart captureEnd),
          next.position = start.position := by
  rw [repeatMatcher_eq]
  by_cases full : max = some 0
  · simp [full]
  · rw [if_neg full]
    have nothing : ((body.run (start.reset captureStart captureEnd)).flatMap
        fun outcome =>
          if outcome.position = start.position then []
          else repeatMatcher body captureStart captureEnd greedy (0 - 1)
            (max.map (· - 1)) outcome) = [] ↔
        ∀ next ∈ body.run (start.reset captureStart captureEnd),
          next.position = start.position := by
      rw [List.flatMap_eq_nil_iff]
      refine forall₂_congr fun outcome found => ?_
      by_cases stays : outcome.position = start.position
      · simp [stays]
      · have member := @repeatMatcher_optional_mem input direction body
          captureStart captureEnd greedy (max.map (· - 1)) outcome
        rw [if_neg stays, Nat.zero_sub]
        constructor
        · intro empty
          rw [empty] at member
          cases member
        · exact fun same => absurd same stays
    simp only [full, false_or, ← nothing, lt_self_iff_false, if_false,
      true_and]
    cases greedy <;> simp

theorem flatMap_eq_of_length_le {α β : Type*} {list : List α}
    {first second : α → List β}
    (shorter : ∀ element ∈ list,
      (first element).length ≤ (second element).length)
    (same : list.flatMap first = list.flatMap second) :
    ∀ element ∈ list, first element = second element := by
  induction list with
  | nil => simp
  | cons head tail induction =>
      have later : ∀ element ∈ tail,
          (first element).length ≤ (second element).length :=
        fun element found => shorter element (by simp [found])
      have total : (tail.flatMap first).length ≤
          (tail.flatMap second).length := by
        rw [List.length_flatMap, List.length_flatMap]
        exact List.sum_le_sum later
      have lengths := congrArg List.length same
      rw [List.flatMap_cons, List.flatMap_cons, List.length_append,
        List.length_append] at lengths
      have front := shorter head (by simp)
      rw [List.flatMap_cons, List.flatMap_cons] at same
      obtain ⟨sameHead, sameTail⟩ := List.append_inj same (by omega)
      intro element found
      rcases List.mem_cons.mp found with rfl | inTail
      · exact sameHead
      · exact induction later sameTail element inTail

theorem repeatOutcomes_length_le (greedy : Bool) (min : Nat)
    (max : Option Nat) (start : MatchState) :
    (repeatOutcomes body captureStart captureEnd false greedy min max
        start).length ≤
      (repeatMatcher body captureStart captureEnd greedy min max
        start).length := by
  induction min generalizing max start with
  | zero => rw [repeatOutcomes_optional]
  | succ min induction =>
      rw [repeatOutcomes_eq, repeatMatcher_eq]
      by_cases full : max = some 0
      · rw [if_pos full, if_pos full]
      · simp only [full, if_false, Nat.succ_pos, if_true, Nat.add_eq_zero_iff,
          one_ne_zero, and_false, false_and, Nat.add_sub_cancel]
        rw [List.length_flatMap, List.length_flatMap]
        refine List.sum_le_sum fun outcome _ => ?_
        split
        · rename_i empty
          have none : min = 0 := by omega
          subst none
          exact List.length_pos_of_mem (repeatMatcher_optional_mem greedy _ _)
        · exact induction _ _

/-- Without the fast path the code follows RepeatMatcher exactly when an empty
last mandatory iteration has nothing to add. -/
theorem repeatOutcomes_eq_repeatMatcher_iff (greedy : Bool) (min : Nat)
    (max : Option Nat) (start : MatchState) :
    repeatOutcomes body captureStart captureEnd false greedy min max start =
        repeatMatcher body captureStart captureEnd greedy min max start ↔
      EmptyMandatoryIsLast body captureStart captureEnd min max start := by
  induction min generalizing max start with
  | zero =>
      rw [EmptyMandatoryIsLast]
      exact iff_true_intro (repeatOutcomes_optional greedy max start)
  | succ min induction =>
      rw [EmptyMandatoryIsLast, repeatOutcomes_eq, repeatMatcher_eq]
      by_cases full : max = some 0
      · simp [full]
      · simp only [full, if_false, Nat.succ_pos, if_true, false_or,
          Nat.add_eq_zero_iff, one_ne_zero, and_false, false_and,
          Nat.add_sub_cancel]
        have piece : ∀ outcome,
            ((if min + 1 = 1 ∧ outcome.position = start.position then [outcome]
              else repeatOutcomes body captureStart captureEnd false greedy min
                (max.map (· - 1)) outcome) =
              repeatMatcher body captureStart captureEnd greedy min
                (max.map (· - 1)) outcome) ↔
            (if min = 0 ∧ outcome.position = start.position then
              max = some 1 ∨
                ∀ next ∈ body.run (outcome.reset captureStart captureEnd),
                  next.position = outcome.position
            else EmptyMandatoryIsLast body captureStart captureEnd min
              (max.map (· - 1)) outcome) := by
          intro outcome
          by_cases last : min = 0 ∧ outcome.position = start.position
          · obtain ⟨rfl, stays⟩ := last
            rw [if_pos ⟨rfl, stays⟩, if_pos ⟨rfl, stays⟩, eq_comm,
              repeatMatcher_optional_eq_singleton]
            refine or_congr_left ?_
            cases max with
            | none => simp
            | some bound =>
                simp only [Option.map_some, Option.some.injEq] at full ⊢
                omega
          · rw [if_neg (fun empty => last ⟨by omega, empty.2⟩), if_neg last]
            exact induction _ _
        constructor
        · intro same outcome found
          refine (piece outcome).mp (flatMap_eq_of_length_le ?_ same outcome
            found)
          intro other _
          split
          · rename_i empty
            have none : min = 0 := by omega
            subst none
            exact List.length_pos_of_mem
              (repeatMatcher_optional_mem greedy _ _)
          · exact repeatOutcomes_length_le greedy _ _ _
        · intro conditions
          exact List.flatMap_congr fun outcome found =>
            (piece outcome).mpr (conditions outcome found)

section Clearing

variable {otherStart otherEnd : Nat}
  (same : ∀ state : MatchState, state.reset captureStart captureEnd =
    state.reset otherStart otherEnd)

include same

theorem repeatMatcher_congr_reset (greedy : Bool) (min : Nat)
    (max : Option Nat) (start : MatchState) :
    repeatMatcher body captureStart captureEnd greedy min max start =
      repeatMatcher body otherStart otherEnd greedy min max start := by
  induction distance : min + remaining input direction start.position using
    Nat.strong_induction_on generalizing min max start with
  | _ distance induction =>
      subst distance
      rw [repeatMatcher_eq, repeatMatcher_eq body otherStart]
      have pieces : ∀ outcome ∈ body.run (start.reset otherStart otherEnd),
          (if min = 0 ∧ outcome.position = start.position then []
          else repeatMatcher body captureStart captureEnd greedy (min - 1)
            (max.map (· - 1)) outcome) =
          (if min = 0 ∧ outcome.position = start.position then []
          else repeatMatcher body otherStart otherEnd greedy (min - 1)
            (max.map (· - 1)) outcome) := by
        intro outcome found
        by_cases stays : min = 0 ∧ outcome.position = start.position
        · rw [if_pos stays, if_pos stays]
        · rw [if_neg stays, if_neg stays]
          have move : Advances input direction start.position
              outcome.position :=
            body.advances (start.reset otherStart otherEnd) outcome found
          refine induction _ ?_ _ _ _ rfl
          have shorter := move.remaining_le
          by_cases mandatory : min = 0
          · have moved := move.remaining_lt fun here => stays ⟨mandatory, here⟩
            omega
          · omega
      simp only [same, List.flatMap_congr pieces]

theorem emptyMandatoryIsLast_congr_reset (min : Nat) (max : Option Nat)
    (start : MatchState) :
    EmptyMandatoryIsLast body captureStart captureEnd min max start ↔
      EmptyMandatoryIsLast body otherStart otherEnd min max start := by
  induction min generalizing max start with
  | zero => rfl
  | succ min induction =>
      rw [EmptyMandatoryIsLast, EmptyMandatoryIsLast, same]
      simp only [same, induction]

end Clearing

/-- The fast path does not concern lazy repetitions. -/
theorem repeatOutcomes_lazy (terminal other : Bool) (min : Nat)
    (max : Option Nat) (start : MatchState) :
    repeatOutcomes body captureStart captureEnd terminal false min max start =
      repeatOutcomes body captureStart captureEnd other false min max
        start := by
  induction distance : min + remaining input direction start.position using
    Nat.strong_induction_on generalizing min max start with
  | _ distance induction =>
      subst distance
      rw [repeatOutcomes_eq, repeatOutcomes_eq body captureStart captureEnd
        other]
      by_cases full : max = some 0
      · rw [if_pos full, if_pos full]
      rw [if_neg full, if_neg full]
      have moves : ∀ outcome ∈
          body.run (start.reset captureStart captureEnd),
          Advances input direction start.position outcome.position :=
        fun outcome found =>
          body.advances (start.reset captureStart captureEnd) outcome found
      by_cases mandatory : 0 < min
      · rw [if_pos mandatory, if_pos mandatory]
        refine List.flatMap_congr fun outcome found => ?_
        split
        · rfl
        · have shorter := (moves outcome found).remaining_le
          exact induction _ (by omega) _ _ _ rfl
      · rw [if_neg mandatory, if_neg mandatory]
        simp only [Bool.not_false, if_true, List.cons.injEq, true_and]
        refine List.flatMap_congr fun outcome found => ?_
        split
        · rfl
        · have shorter := (moves outcome found).remaining_lt (by assumption)
          exact induction _ (by omega) _ _ _ rfl

def atEnd (input : Input) (outcome : MatchState) : Bool :=
  outcome.position = input.length

/-- The exits that the fast path drops are not at the end of the input, as
long as the body has no outcome there. -/
theorem filter_terminal_eq
    (stops : ∀ state : MatchState, state.position = input.length →
      body.run state = [])
    (min : Nat) (max : Option Nat) (start : MatchState) :
    (repeatOutcomes body captureStart captureEnd true true min max
        start).filter (atEnd input) =
      (repeatOutcomes body captureStart captureEnd false true min max
        start).filter (atEnd input) := by
  induction distance : min + remaining input direction start.position using
    Nat.strong_induction_on generalizing min max start with
  | _ distance induction =>
      subst distance
      rw [repeatOutcomes_eq, repeatOutcomes_eq body captureStart captureEnd
        false]
      by_cases full : max = some 0
      · rw [if_pos full, if_pos full]
      rw [if_neg full, if_neg full]
      have moves : ∀ outcome ∈
          body.run (start.reset captureStart captureEnd),
          Advances input direction start.position outcome.position :=
        fun outcome found =>
          body.advances (start.reset captureStart captureEnd) outcome found
      by_cases mandatory : 0 < min
      · rw [if_pos mandatory, if_pos mandatory, List.filter_flatMap,
          List.filter_flatMap]
        refine List.flatMap_congr fun outcome found => ?_
        split
        · rfl
        · have shorter := (moves outcome found).remaining_le
          exact induction _ (by omega) _ _ _ rfl
      · rw [if_neg mandatory, if_neg mandatory]
        have iterations : ((body.run
            (start.reset captureStart captureEnd)).flatMap fun outcome =>
              if outcome.position = start.position then []
              else repeatOutcomes body captureStart captureEnd true true 0
                (max.map (· - 1)) outcome).filter (atEnd input) =
            ((body.run (start.reset captureStart captureEnd)).flatMap
              fun outcome =>
                if outcome.position = start.position then []
                else repeatOutcomes body captureStart captureEnd false true 0
                  (max.map (· - 1)) outcome).filter (atEnd input) := by
          rw [List.filter_flatMap, List.filter_flatMap]
          refine List.flatMap_congr fun outcome found => ?_
          split
          · rfl
          · have shorter := (moves outcome found).remaining_lt (by assumption)
            exact induction _ (by omega) _ _ _ rfl
        simp only [Bool.not_true, Bool.false_eq_true, if_false, if_true,
          List.filter_append, ← iterations]
        by_cases final : start.position = input.length
        · have nothing := stops (start.reset captureStart captureEnd) final
          simp [nothing]
        · cases entered : body.run (start.reset captureStart captureEnd) with
          | nil => simp [atEnd, final]
          | cons first rest => simp [atEnd, final]

end Lists

section Code

variable {program : Program} {data : UnicodeData} {input : Input}
  {direction : Direction} {address slot : Nat} {min : UInt64}
  {max : Option UInt64} {greedy : Bool} {captureStart captureEnd : Nat}
  {body : Node}

/-- The code of a quantifier explores the outcomes of RepeatMatcher when an
empty last mandatory iteration has nothing to add.  On the fast path it
explores fewer, and those at the end of the input are the same. -/
theorem repetition_explores
    (code : CodeAt program.instructions address
      ((Node.repetition min max greedy captureStart captureEnd body).emit
        direction address slot))
    (bounded : (Node.repetition min max greedy captureStart captureEnd
      body).Bounded program.captureCount) {state : State}
    (ready : Ready program input address slot (body.slots + 1) direction
      state) :
    let matcher := body.matcher data (terminalRepeat program) input direction
      (address + 1) (slot + 1)
    let fastPath := greedy && isTerminal (terminalRepeat program) slot address
      body.size captureStart captureEnd
    ∃ outcomes,
      (∀ backtrack,
        (machine data (terminalRepeat program) program input).Explores
          (Delivered (address + body.size + 2) slot (body.slots + 1) state)
          (.running state backtrack) outcomes backtrack) ∧
      (EmptyMandatoryIsLast matcher captureStart captureEnd min.toNat
          (max.map UInt64.toNat) state.view →
        (fastPath = false →
          outcomes = repeatMatcher matcher captureStart captureEnd greedy
            min.toNat (max.map UInt64.toNat) state.view) ∧
        (fastPath = true →
          (∀ later : MatchState, later.position = input.length →
            matcher.run later = []) →
          outcomes.filter (atEnd input) =
            (repeatMatcher matcher captureStart captureEnd greedy min.toNat
              (max.map UInt64.toNat) state.view).filter (atEnd input))) := by
  intro matcher fastPath
  have searches : Node.Searches data (terminalRepeat program) program input
      (.repetition min max greedy captureStart captureEnd body) direction
      address slot :=
    Node.searches (terminalRepeat_sound program) _ code bounded
  refine ⟨_, searches state ready, fun conditions => ⟨?_, ?_⟩⟩
  · intro slow
    have plain : repeatOutcomes matcher captureStart captureEnd
        (isTerminal (terminalRepeat program) slot address body.size
          captureStart captureEnd) greedy min.toNat (max.map UInt64.toNat)
          state.view =
        repeatOutcomes matcher captureStart captureEnd false greedy min.toNat
          (max.map UInt64.toNat) state.view := by
      cases greedy with
      | true =>
          have unrecognized : isTerminal (terminalRepeat program) slot address
              body.size captureStart captureEnd = false := slow
          rw [unrecognized]
      | false => exact repeatOutcomes_lazy _ _ _ _ _
    rw [← (repeatOutcomes_eq_repeatMatcher_iff greedy min.toNat
      (max.map UInt64.toNat) state.view).mpr conditions, ← plain]
    rfl
  · intro fast stops
    have both := Bool.and_eq_true_iff.mp fast
    have agree := (repeatOutcomes_eq_repeatMatcher_iff greedy min.toNat
      (max.map UInt64.toNat) state.view).mpr conditions
    have eager : greedy = true := both.1
    subst eager
    rw [← agree, ← filter_terminal_eq stops, ← both.2]
    rfl

/-- The state in which the body of a program is entered. -/
def enteredState (program : Program) (candidate : Nat) : State :=
  { initialState program candidate with pc := 1 }

theorem enteredState_ready (flags : RegExpFlags) (groups : List Group)
    (node : Node) {candidate : Nat} (inside : candidate ≤ input.length) :
    Ready (programOf flags groups node) input 1 0 node.slots .forward
      (enteredState (programOf flags groups node) candidate) := by
  have ready := @initialState_ready input flags groups node candidate inside
  exact { ready with pc := rfl }

theorem codeAt_programOf (flags : RegExpFlags) (groups : List Group)
    (node : Node) :
    CodeAt (programOf flags groups node).instructions 1
      (node.emit .forward 1 0) := by
  intro index instruction found
  have inside := (List.getElem?_eq_some_iff.mp found).1
  simp only [programOf, Nat.add_comm 1 index, List.getElem?_cons_succ]
  rw [List.getElem?_append_left inside]
  exact found

theorem isTerminal_congr (program : Program) (slot address size : Nat)
    {captureStart captureEnd otherStart otherEnd : Nat}
    (same : captureStart = captureEnd ↔ otherStart = otherEnd) :
    isTerminal (terminalRepeat program) slot address size captureStart
        captureEnd =
      isTerminal (terminalRepeat program) slot address size otherStart
        otherEnd := by
  simp only [isTerminal, terminalRepeat, ne_eq, same]

theorem reset_of_le {start stop : Nat} (nothing : stop ≤ start)
    (state : MatchState) : state.reset start stop = state := by
  have unchanged : resetCaptures start stop state.captures =
      state.captures := by
    refine List.ext_getElem (by simp [resetCaptures]) ?_
    intro index before after
    simp only [resetCaptures, List.getElem_mapIdx]
    rw [if_neg (by omega)]
  rw [MatchState.reset, unchanged]

/-- The code of every quantifier in a compiled pattern stands in the program,
and it explores the outcomes of RepeatMatcher, which clears the groups of the
body from the first to the last one, when an empty last mandatory iteration
has nothing to add.  On the fast path it explores fewer, and those at the end
of the input are the same. -/
theorem quantifier_explores_repeatMatcher {flags : RegExpFlags}
    {limits : CompileLimits} {pattern : Pattern} {program : Program}
    (compiled : compilePattern flags limits pattern = .ok program)
    (spanned : pattern.Spanned) {span : Span} {min : UInt64}
    {max : Option UInt64} {greedy : Bool} {body : Term} {mode : MatchMode}
    {direction : Direction} {parens : Nat}
    (contains : pattern.Contains flags
      ⟨.term (.quantifier span min max greedy body), mode, direction, parens⟩)
    (data : UnicodeData) (input : Input) :
    let groups := groupMetadata (disjunctionGroups pattern.body)
    ∃ inner,
      lowerTerm groups limits.maxNesting mode direction
        (.quantifier span min max greedy body) = .ok
          (.repetition min max greedy
            (groups.within body.span.start body.span.stop).1
            (groups.within body.span.start body.span.stop).2 inner) ∧
      (∃ address slot, CodeAt program.instructions address
        ((Node.repetition min max greedy
          (groups.within body.span.start body.span.stop).1
          (groups.within body.span.start body.span.stop).2 inner).emit
            direction address slot)) ∧
      ∀ address slot, CodeAt program.instructions address
        ((Node.repetition min max greedy
          (groups.within body.span.start body.span.stop).1
          (groups.within body.span.start body.span.stop).2 inner).emit
            direction address slot) →
      ∀ state, Ready program input address slot (inner.slots + 1) direction
        state →
      let matcher := inner.matcher data (terminalRepeat program) input
        direction (address + 1) (slot + 1)
      let captureStart := parens + 1
      let captureEnd := parens + body.groups.length + 1
      let fastPath := greedy && isTerminal (terminalRepeat program) slot
        address inner.size captureStart captureEnd
      ∃ outcomes,
        (∀ backtrack,
          (machine data (terminalRepeat program) program input).Explores
            (Delivered (address + inner.size + 2) slot (inner.slots + 1) state)
            (.running state backtrack) outcomes backtrack) ∧
        (EmptyMandatoryIsLast matcher captureStart captureEnd min.toNat
            (max.map UInt64.toNat) state.view →
          (fastPath = false →
            outcomes = repeatMatcher matcher captureStart captureEnd greedy
              min.toNat (max.map UInt64.toNat) state.view) ∧
          (fastPath = true →
            (∀ later : MatchState, later.position = input.length →
              matcher.run later = []) →
            outcomes.filter (atEnd input) =
              (repeatMatcher matcher captureStart captureEnd greedy min.toNat
                (max.map UInt64.toNat) state.view).filter (atEnd input))) := by
  intro groups
  obtain ⟨node, lowered, rfl⟩ := compilePattern_eq_ok compiled
  have whole : Emitted (programOf flags (disjunctionGroups pattern.body) node)
      groups limits.maxNesting
      ⟨.disjunction pattern.body, flags.initialMode, .forward, 0⟩ :=
    ⟨node, 1, 0, lowered, codeAt_programOf flags _ node⟩
  obtain ⟨outer, address, slot, loweredOuter, code⟩ := contains.emitted whole
  have repeated := loweredOuter
  rw [Part.lower, lowerTerm, Support.bind_eq_ok_iff] at repeated
  obtain ⟨inner, _, repeated⟩ := repeated
  cases repeated
  refine ⟨inner, loweredOuter, ⟨address, slot, code⟩, ?_⟩
  intro address slot code state ready matcher captureStart captureEnd fastPath
  have bounded := (numbers_term _ limits.maxNesting _ loweredOuter).bounded
  obtain ⟨outcomes, explores, agree⟩ := @repetition_explores _ data input _ _
    _ _ _ _ _ _ _ code (bounded : Node.Bounded
      (programOf flags (disjunctionGroups pattern.body) node).captureCount _)
    state ready
  have range := within_of_contains (contains.tail .quantified) spanned
  -- without groups the code clears nothing, and so does the empty range
  have sameReset : ∀ state : MatchState,
      state.reset (groups.within body.span.start body.span.stop).1
          (groups.within body.span.start body.span.stop).2 =
        state.reset captureStart captureEnd := by
    intro state
    rw [range]
    by_cases nothing : body.groups = []
    · rw [if_pos nothing, reset_of_le le_rfl, reset_of_le]
      simp [captureStart, captureEnd, nothing]
    · rw [if_neg nothing]
  have sameEnds : ((groups.within body.span.start body.span.stop).1 =
      (groups.within body.span.start body.span.stop).2 ↔
        captureStart = captureEnd) := by
    rw [range]
    by_cases nothing : body.groups = []
    · simp [captureStart, captureEnd, nothing]
    · rw [if_neg nothing]
  refine ⟨outcomes, explores, ?_⟩
  rw [emptyMandatoryIsLast_congr_reset sameReset,
    repeatMatcher_congr_reset sameReset,
    isTerminal_congr _ _ _ _ sameEnds] at agree
  exact agree

/-- The pattern `(?:(a)|b)+`. -/
def letterOrOther : Pattern where
  body := [[.quantifier ⟨0, 10⟩ 1 none true (.ignoreGroup ⟨0, 9⟩ none
    [[.capturingGroup ⟨3, 6⟩ none [[.character ⟨4, 5⟩ 97]]],
      [.character ⟨7, 8⟩ 98]])]]

/-- On `ab` the second iteration of `(?:(a)|b)+` has cleared the group, and
after the first one it is set. -/
theorem quantifier_explores_repeatMatcher_letterOrOther :
    ∃ program, compilePattern {} {} letterOrOther = .ok program ∧
      ∀ backtrack,
        (machine ⟨id, id, fun _ _ _ => false⟩ (terminalRepeat program)
            program [97, 98]).Explores
          (Delivered 9 0 1 (enteredState program 0))
          (.running (enteredState program 0) backtrack)
          [⟨2, [{}, {}]⟩, ⟨1, [{}, ⟨some 0, some 1⟩]⟩] backtrack := by
  have succeeds : (compilePattern {} {} letterOrOther).isOk = true := by
    decide +kernel
  cases compiled : compilePattern {} {} letterOrOther with
  | error error =>
      rw [compiled] at succeeds
      cases succeeds
  | ok program =>
      refine ⟨program, rfl, ?_⟩
      have spanned : letterOrOther.Spanned :=
        ⟨10, 10, ⟨Nat.zero_le _, ⟨le_rfl,
          ⟨6, ⟨by decide, ⟨5, ⟨le_rfl, (by decide : 4 ≤ 5), le_rfl⟩,
            (by decide : 5 ≤ 6)⟩, le_rfl⟩,
          8, ⟨by decide, (by decide : 7 ≤ 8), le_rfl⟩, (by decide : 8 ≤ 9)⟩,
          by decide⟩, le_rfl⟩, le_rfl⟩
      have contains : letterOrOther.Contains {} ⟨.term (.quantifier ⟨0, 10⟩ 1
          none true (.ignoreGroup ⟨0, 9⟩ none
            [[.capturingGroup ⟨3, 6⟩ none [[.character ⟨4, 5⟩ 97]]],
              [.character ⟨7, 8⟩ 98]])), RegExpFlags.initialMode {},
          .forward, 0⟩ :=
        (Relation.ReflTransGen.single .alternative).tail .first
      obtain ⟨inner, lowered, -, explores⟩ :=
        quantifier_explores_repeatMatcher compiled spanned contains
          ⟨id, id, fun _ _ _ => false⟩ [97, 98]
      obtain ⟨node, loweredWhole, rfl⟩ := compilePattern_eq_ok compiled
      cases lowered
      cases loweredWhole
      have code := codeAt_programOf {} (disjunctionGroups letterOrOther.body)
        (.seq (.repetition 1 none true 1 2 (.alt
          (.seq (.capture 1 (.seq (.token (.character 97
            (RegExpFlags.initialMode {}))) .empty)) .empty)
          (.seq (.token (.character 98 (RegExpFlags.initialMode {})))
            .empty))) .empty)
      rw [Node.emit, CodeAt.append_iff] at code
      obtain ⟨outcomes, found, agree⟩ := explores 1 0 code.1 _
        (enteredState_ready {} _ _ (Nat.zero_le 2))
      have conditions := (agree ((repeatOutcomes_eq_repeatMatcher_iff true _ _
        _).mp (by decide +kernel))).1 (by decide +kernel)
      have listed : outcomes =
          [⟨2, [{}, {}]⟩, ⟨1, [{}, ⟨some 0, some 1⟩]⟩] :=
        conditions.trans (by decide +kernel)
      rw [← listed]
      exact found

/-- The pattern `(?:|a)+`. -/
def emptyOrLetter : Pattern where
  body := [[.quantifier ⟨0, 7⟩ 1 none true
    (.ignoreGroup ⟨0, 6⟩ none [[], [.character ⟨4, 5⟩ 97]])]]

/-- The pattern `a*$`. -/
def lettersToEnd : Pattern where
  body := [[.quantifier ⟨0, 2⟩ 0 none true (.character ⟨0, 1⟩ 97),
    .boundaryAssertion ⟨2, 3⟩ .stop]]

def letterRun : Node :=
  .repetition 0 none true 0 0
    (.token (.character 97 (RegExpFlags.initialMode {})))

def lettersToEndNode : Node :=
  .seq letterRun (.seq (.boundary .stop (RegExpFlags.initialMode {})) .empty)

/-- On `a` the code of `(?:|a)+` finds the empty match although RepeatMatcher
prefers the longer one, and on `ab` the code of `a*` in `a*$` explores one
exit of two. -/
theorem repetition_differs_from_repeatMatcher :
    (∃ program, compilePattern {} {} emptyOrLetter = .ok program ∧
      (runCandidate ⟨id, id, fun _ _ _ => false⟩ program [97] {} 0 0).1 =
        .ok (some ⟨[some (0, 0)]⟩)) ∧
      (repeatMatcher (Node.matcher ⟨id, id, fun _ _ _ => false⟩
        (fun _ _ _ _ _ => none) [97]
        (.alt .empty (.seq (.token (.character 97
          (RegExpFlags.initialMode {}))) .empty)) .forward 2 1) 0 0 true 1
        none ⟨0, [{ start := some 0 }]⟩).head?.map MatchState.position =
          some 1 ∧
      ∃ program, compilePattern {} {} lettersToEnd = .ok program ∧
        (∀ backtrack,
          (machine ⟨id, id, fun _ _ _ => false⟩ (terminalRepeat program)
              program [97, 98]).Explores
            (Delivered 4 0 1 (enteredState program 0))
            (.running (enteredState program 0) backtrack)
            [⟨1, [{}]⟩] backtrack) ∧
        repeatMatcher (Node.matcher ⟨id, id, fun _ _ _ => false⟩
          (terminalRepeat program) [97, 98]
          (.token (.character 97 (RegExpFlags.initialMode {}))) .forward 2 1)
          0 0 true 0 none ⟨0, [{}]⟩ = [⟨1, [{}]⟩, ⟨0, [{}]⟩] := by
  refine ⟨?_, by decide +kernel, ?_⟩
  · have matched : ((compilePattern {} {} emptyOrLetter).toOption.map
        fun program => (runCandidate ⟨id, id, fun _ _ _ => false⟩ program
          [97] {} 0 0).1) = some (.ok (some ⟨[some (0, 0)]⟩)) := by
      decide +kernel
    obtain ⟨program, compiled, answered⟩ := Option.map_eq_some_iff.mp matched
    refine ⟨program, ?_, answered⟩
    cases result : compilePattern {} {} emptyOrLetter with
    | error error =>
        rw [result] at compiled
        cases compiled
    | ok other =>
        rw [result] at compiled
        cases compiled
        rfl
  · have succeeds : (compilePattern {} {} lettersToEnd).isOk = true := by
      decide +kernel
    cases compiled : compilePattern {} {} lettersToEnd with
    | error error =>
        rw [compiled] at succeeds
        cases succeeds
    | ok program =>
        refine ⟨program, rfl, ?_⟩
        obtain ⟨node, lowered, rfl⟩ := compilePattern_eq_ok compiled
        cases lowered
        refine ⟨?_, by decide +kernel⟩
        have code := codeAt_programOf {} [] lettersToEndNode
        rw [lettersToEndNode, Node.emit, CodeAt.append_iff] at code
        have searches : letterRun.Searches ⟨id, id, fun _ _ _ => false⟩
            (terminalRepeat (programOf {} [] lettersToEndNode))
            (programOf {} [] lettersToEndNode) [97, 98] .forward 1 0 :=
          Node.searches (terminalRepeat_sound _) letterRun code.1
            ⟨Nat.zero_le _, trivial⟩
        have ready : Ready (programOf {} [] lettersToEndNode) [97, 98] 1 0
            letterRun.slots .forward
            (enteredState (programOf {} [] lettersToEndNode) 0) :=
          enteredState_ready {} [] lettersToEndNode (Nat.zero_le 2)
        have listed : (letterRun.matcher ⟨id, id, fun _ _ _ => false⟩
            (terminalRepeat (programOf {} [] lettersToEndNode)) [97, 98]
            .forward 1 0).run ⟨0, [{}]⟩ = [⟨1, [{}]⟩] := by
          decide +kernel
        rw [← listed]
        exact searches _ ready

end Code

end Fusor.RegExp
