import Mathlib.Tactic

/-!
# Walks of a partial function

The vertex reached after a number of steps of a partial successor function.
A walk that comes back to an earlier vertex goes on for ever.
-/

namespace Fusor.Graph

variable {α : Type}

def walk (next : α → Option α) (start : α) : Nat → Option α
  | 0 => some start
  | steps + 1 => (walk next start steps).bind next

/-- The vertex after the steps was there before. -/
def Revisits (next : α → Option α) (start : α) (steps : Nat) : Prop :=
  ∃ vertex, walk next start steps = some vertex ∧
    ∃ earlier < steps, walk next start earlier = some vertex

variable {next : α → Option α} {start : α}

theorem walk_add (steps more : Nat) :
    walk next start (steps + more) =
      (walk next start steps).bind fun vertex => walk next vertex more := by
  induction more with
  | zero => simp [walk]
  | succ more induction =>
      rw [← Nat.add_assoc, walk, induction, Option.bind_assoc]
      rfl

theorem walk_defined_of_le {steps fewer : Nat} {vertex : α}
    (reached : walk next start steps = some vertex) (order : fewer ≤ steps) :
    ∃ earlier, walk next start fewer = some earlier := by
  obtain ⟨more, rfl⟩ := Nat.exists_eq_add_of_le order
  rw [walk_add] at reached
  obtain ⟨earlier, found, _⟩ := Option.bind_eq_some_iff.mp reached
  exact ⟨earlier, found⟩

theorem Revisits.defined {steps : Nat} (revisits : Revisits next start steps)
    (count : Nat) : ∃ vertex, walk next start count = some vertex := by
  obtain ⟨vertex, reached, earlier, before, there⟩ := revisits
  induction count using Nat.strong_induction_on with
  | _ count induction =>
      by_cases inside : count ≤ steps
      · exact walk_defined_of_le reached inside
      · obtain ⟨more, rfl⟩ := Nat.exists_eq_add_of_le (Nat.le_of_not_le inside)
        obtain ⟨other, found⟩ := induction (earlier + more) (by omega)
        rw [walk_add, there] at found
        refine ⟨other, ?_⟩
        rw [walk_add, reached]
        exact found

theorem Revisits.not_stopped {steps count : Nat} {vertex : α}
    (revisits : Revisits next start steps)
    (reached : walk next start count = some vertex) :
    next vertex ≠ none := by
  intro stopped
  obtain ⟨other, found⟩ := revisits.defined (count + 1)
  rw [walk, reached] at found
  rw [Option.bind_some, stopped] at found
  cases found

/-- Before a stop there is at most the vertex that stops. -/
theorem walk_le_of_stopped {steps count : Nat} {vertex other : α}
    (reached : walk next start steps = some vertex)
    (stopped : next vertex = none)
    (later : walk next start count = some other) : count ≤ steps := by
  by_contra beyond
  obtain ⟨after, found⟩ := walk_defined_of_le later (Nat.lt_of_not_le beyond)
  rw [Nat.succ_eq_add_one, walk, reached, Option.bind_some, stopped] at found
  cases found

end Fusor.Graph
