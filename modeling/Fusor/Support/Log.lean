import Mathlib.Data.List.Basic

/-!
# Logs

A log lists the events of a run, newest first.  A condition on an event and
the events before it holds throughout the log when it holds at each of its
events.
-/

namespace Fusor.Support

/-- The condition holds at every event of the log. -/
def Throughout {α : Type*} (condition : α → List α → Prop) (log : List α) :
    Prop :=
  ∀ newer event older, log = newer ++ event :: older → condition event older

section

variable {α : Type*} {condition : α → List α → Prop}

@[simp] theorem throughout_nil : Throughout condition [] := by
  intro newer event older split
  simp at split

@[simp] theorem throughout_cons {event : α} {log : List α} :
    Throughout condition (event :: log) ↔
      condition event log ∧ Throughout condition log := by
  constructor
  · intro all
    constructor
    · exact all [] event log rfl
    · intro newer later older split
      exact all (event :: newer) later older (by rw [split]; rfl)
  · rintro ⟨first, rest⟩ newer later older split
    cases newer with
    | nil =>
        cases split
        exact first
    | cons head newer =>
        cases split
        exact rest newer later older rfl

end

end Fusor.Support
