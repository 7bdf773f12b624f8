import Mathlib.Logic.Relation

/-!
# Ordered backtracking search

A backtracking machine runs one state over a stack of frames and, when the
state fails, resumes the top of the stack.  `Explores accepts c outcomes base`
says that from configuration `c` the machine delivers the listed outcomes in
order, each as a state that `accepts` relates to it, and then resumes `base`.
Frames pushed on the way are `plain`, that is, they may be dropped when the
search below them is cut.
-/

namespace Fusor.Search

open Relation

/-- The parts of a backtracking machine that an ordered search mentions. -/
structure Backtracker (State Frame Config : Type*) where
  next : Config → Config → Prop
  running : State → List Frame → Config
  resume : List Frame → Config
  plain : Frame → Prop

variable {State Frame Config Outcome Result : Type*}

namespace Backtracker

def Reaches (machine : Backtracker State Frame Config) :
    Config → Config → Prop :=
  ReflTransGen machine.next

inductive Explores (machine : Backtracker State Frame Config)
    (accepts : Outcome → State → Prop) :
    Config → List Outcome → List Frame → Prop where
  | exhausted {config : Config} {base : List Frame} :
      machine.Reaches config (machine.resume base) →
      Explores machine accepts config [] base
  | delivered {config : Config} {base pushed : List Frame} {state : State}
      {outcome : Outcome} {rest : List Outcome} :
      machine.Reaches config (machine.running state (pushed ++ base)) →
      accepts outcome state →
      (∀ frame ∈ pushed, machine.plain frame) →
      Explores machine accepts (machine.resume (pushed ++ base)) rest base →
      Explores machine accepts config (outcome :: rest) base

namespace Explores

variable {machine : Backtracker State Frame Config}
  {accepts : Outcome → State → Prop}

theorem of_reaches {config later : Config} {outcomes : List Outcome}
    {base : List Frame} (first : machine.Reaches config later)
    (search : machine.Explores accepts later outcomes base) :
    machine.Explores accepts config outcomes base := by
  cases search with
  | exhausted resumed => exact .exhausted (first.trans resumed)
  | delivered reached accepted plain rest =>
      exact .delivered (first.trans reached) accepted plain rest

theorem of_next {config later : Config} {outcomes : List Outcome}
    {base : List Frame} (first : machine.next config later)
    (search : machine.Explores accepts later outcomes base) :
    machine.Explores accepts config outcomes base :=
  search.of_reaches (.single first)

theorem nothing {base : List Frame} :
    machine.Explores accepts (machine.resume base) [] base :=
  .exhausted .refl

theorem single {state : State} {outcome : Outcome} {base : List Frame}
    (accepted : accepts outcome state) :
    machine.Explores accepts (machine.running state base) [outcome] base := by
  have reached : machine.Reaches (machine.running state base)
      (machine.running state ([] ++ base)) := .refl
  exact .delivered reached accepted (by simp) nothing

theorem mono {accepts' : Outcome → State → Prop} {config : Config}
    {outcomes : List Outcome} {base : List Frame}
    (search : machine.Explores accepts config outcomes base)
    (weaken : ∀ outcome ∈ outcomes, ∀ state,
      accepts outcome state → accepts' outcome state) :
    machine.Explores accepts' config outcomes base := by
  induction search with
  | exhausted resumed => exact .exhausted resumed
  | delivered reached accepted plain _ induction =>
      refine .delivered reached
        (weaken _ List.mem_cons_self _ accepted) plain ?_
      exact induction fun outcome found =>
        weaken outcome (List.mem_cons_of_mem _ found)

/-- Two searches in a row: the second starts where the frames left above the
common base resume. -/
theorem append {config : Config} {first second : List Outcome}
    {pushed base : List Frame}
    (search : machine.Explores accepts config first (pushed ++ base))
    (plain : ∀ frame ∈ pushed, machine.plain frame)
    (continued : machine.Explores accepts (machine.resume (pushed ++ base))
      second base) :
    machine.Explores accepts config (first ++ second) base := by
  generalize whole : pushed ++ base = stack at search
  induction search with
  | exhausted resumed =>
      subst whole
      exact continued.of_reaches resumed
  | @delivered config stack above state outcome rest reached accepted
      abovePlain _ induction =>
      subst whole
      have regrouped : above ++ (pushed ++ base) = (above ++ pushed) ++ base :=
        (List.append_assoc _ _ _).symm
      rw [regrouped] at reached
      rw [List.cons_append]
      refine .delivered reached accepted ?_ ?_
      · intro frame found
        rcases List.mem_append.mp found with inner | outer
        · exact abovePlain frame inner
        · exact plain frame outer
      · rw [← regrouped]
        exact induction rfl

/-- Every outcome of a search is searched further before the next outcome is
produced. -/
theorem flatMap {accepts' : Result → State → Prop} {config : Config}
    {outcomes : List Outcome} {base : List Frame}
    {further : Outcome → List Result}
    (search : machine.Explores accepts config outcomes base)
    (onward : ∀ outcome ∈ outcomes, ∀ state, accepts outcome state →
      ∀ stack, machine.Explores accepts' (machine.running state stack)
        (further outcome) stack) :
    machine.Explores accepts' config (outcomes.flatMap further) base := by
  induction search with
  | exhausted resumed => exact .exhausted resumed
  | delivered reached accepted plain _ induction =>
      rw [List.flatMap_cons]
      refine of_reaches reached (append
        (onward _ List.mem_cons_self _ accepted _) plain ?_)
      exact induction fun outcome found =>
        onward outcome (List.mem_cons_of_mem _ found)

/-- A search whose outcomes are only relabelled. -/
theorem map {accepts' : Result → State → Prop} {config : Config}
    {outcomes : List Outcome} {base : List Frame}
    {further : Outcome → Result}
    (search : machine.Explores accepts config outcomes base)
    (onward : ∀ outcome ∈ outcomes, ∀ state, accepts outcome state →
      ∀ stack, ∃ later,
        machine.Reaches (machine.running state stack)
          (machine.running later stack) ∧ accepts' (further outcome) later) :
    machine.Explores accepts' config (outcomes.map further) base := by
  rw [List.map_eq_flatMap]
  refine search.flatMap fun outcome found state accepted stack => ?_
  obtain ⟨later, reached, accepted'⟩ :=
    onward outcome found state accepted stack
  exact (single accepted').of_reaches reached

/-- A search whose outcomes are delivered a few steps later. -/
theorem redirect {accepts' : Outcome → State → Prop} {config : Config}
    {outcomes : List Outcome} {base : List Frame}
    (search : machine.Explores accepts config outcomes base)
    (onward : ∀ outcome ∈ outcomes, ∀ state, accepts outcome state →
      ∀ stack, ∃ later,
        machine.Reaches (machine.running state stack)
          (machine.running later stack) ∧ accepts' outcome later) :
    machine.Explores accepts' config outcomes base := by
  have mapped := search.map onward
  rwa [List.map_id'] at mapped

/-- A choice point: one frame is pushed, the first branch is searched above it
and the second one starts when the frame is resumed. -/
theorem choice {config : Config} {first second : List Outcome} {frame : Frame}
    {base : List Frame}
    (search : machine.Explores accepts config first (frame :: base))
    (continued : machine.Explores accepts (machine.resume (frame :: base))
      second base) (plain : machine.plain frame) :
    machine.Explores accepts config (first ++ second) base := by
  have whole : frame :: base = [frame] ++ base := rfl
  rw [whole] at search continued
  exact search.append (by simpa using plain) continued

/-- What the first outcome of a search says about the run. -/
theorem head_cases {config : Config} {outcomes : List Outcome}
    {base : List Frame}
    (search : machine.Explores accepts config outcomes base) :
    (outcomes = [] ∧ machine.Reaches config (machine.resume base)) ∨
      ∃ outcome rest state pushed, outcomes = outcome :: rest ∧
        accepts outcome state ∧ (∀ frame ∈ pushed, machine.plain frame) ∧
        machine.Reaches config (machine.running state (pushed ++ base)) := by
  cases search with
  | exhausted resumed => exact .inl ⟨rfl, resumed⟩
  | delivered reached accepted plain _ =>
      exact .inr ⟨_, _, _, _, rfl, accepted, plain, reached⟩

end Explores

/-- From the configuration the machine runs into a trap or gives the answer:
it delivers the outcome, or resumes the base when there is none. -/
def Answers (machine : Backtracker State Frame Config)
    (accepts : Outcome → State → Prop) (trap : Config → Prop)
    (config : Config) (base : List Frame) (answer : Option Outcome) : Prop :=
  (∃ trapped, machine.Reaches config trapped ∧ trap trapped) ∨
    match answer with
    | none => machine.Reaches config (machine.resume base)
    | some outcome => ∃ state stack, accepts outcome state ∧
        machine.Reaches config (machine.running state stack)

namespace Answers

variable {machine : Backtracker State Frame Config}
  {accepts : Outcome → State → Prop} {trap : Config → Prop}

theorem of_reaches {config later : Config} {base : List Frame}
    {answer : Option Outcome} (first : machine.Reaches config later)
    (answers : machine.Answers accepts trap later base answer) :
    machine.Answers accepts trap config base answer := by
  rcases answers with ⟨trapped, reached, caught⟩ | answered
  · exact .inl ⟨trapped, first.trans reached, caught⟩
  · cases answer with
    | none => exact .inr (first.trans answered)
    | some outcome =>
        obtain ⟨state, stack, accepted, reached⟩ := answered
        exact .inr ⟨state, stack, accepted, first.trans reached⟩

theorem of_next {config later : Config} {base : List Frame}
    {answer : Option Outcome} (first : machine.next config later)
    (answers : machine.Answers accepts trap later base answer) :
    machine.Answers accepts trap config base answer :=
  answers.of_reaches (.single first)

/-- A second search is asked only where the first one has no answer. -/
theorem or {config : Config} {stack base : List Frame}
    {first second : Option Outcome}
    (answers : machine.Answers accepts trap config stack first)
    (otherwise : machine.Answers accepts trap (machine.resume stack) base
      second) :
    machine.Answers accepts trap config base (first.or second) := by
  rcases answers with caught | answered
  · exact .inl caught
  · cases first with
    | none => exact otherwise.of_reaches answered
    | some outcome => exact .inr answered

end Answers

/-- The outcomes of a search are asked in order until one has an answer. -/
theorem Explores.answers {machine : Backtracker State Frame Config}
    {accepts : Outcome → State → Prop} {accepts' : Result → State → Prop}
    {trap : Config → Prop} {config : Config} {outcomes : List Outcome}
    {base : List Frame} {further : Outcome → Option Result}
    (search : machine.Explores accepts config outcomes base)
    (onward : ∀ outcome ∈ outcomes, ∀ state, accepts outcome state →
      ∀ stack, machine.Answers accepts' trap (machine.running state stack)
        stack (further outcome)) :
    machine.Answers accepts' trap config base
      (outcomes.findSome? further) := by
  induction search with
  | exhausted resumed => exact .inr resumed
  | @delivered config base pushed state outcome rest reached accepted _ _
      induction =>
      have first := onward outcome List.mem_cons_self state accepted
        (pushed ++ base)
      have others := induction fun later found =>
        onward later (List.mem_cons_of_mem _ found)
      have both := (first.or others).of_reaches reached
      rw [List.findSome?_cons]
      cases answer : further outcome with
      | none =>
          rw [answer] at both
          exact both
      | some result =>
          rw [answer] at both
          exact both

end Backtracker

end Fusor.Search
