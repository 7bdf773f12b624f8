import Mathlib.Tactic

/-!
# Inversion of fallible computations

A monadic computation over `Except` succeeds exactly when each of its parts
does.  These rules take such a success apart without unfolding the monad.
-/

namespace Fusor.Support

variable {ε α β σ : Type}

theorem bind_eq_ok_iff {computation : Except ε α} {rest : α → Except ε β}
    {result : β} :
    (computation >>= rest) = .ok result ↔
      ∃ value, computation = .ok value ∧ rest value = .ok result := by
  cases computation <;> simp [bind, Except.bind]

theorem bind_eq_error_iff {computation : Except ε α} {rest : α → Except ε β}
    {error : ε} :
    (computation >>= rest) = .error error ↔
      computation = .error error ∨
        ∃ value, computation = .ok value ∧ rest value = .error error := by
  cases computation <;> simp [bind, Except.bind]

theorem ok_bind (value : α) (rest : α → Except ε β) :
    (Except.ok value >>= rest) = rest value :=
  rfl

theorem error_bind (error : ε) (rest : α → Except ε β) :
    (Except.error error >>= rest) = .error error :=
  rfl

theorem pure_eq_ok_iff {value result : α} :
    (pure value : Except ε α) = .ok result ↔ value = result := by
  simp [pure, Except.pure]

theorem forM_eq_ok_iff {list : List α} {check : α → Except ε Unit} :
    list.forM check = .ok () ↔ ∀ element ∈ list, check element = .ok () := by
  induction list with
  | nil => simp [List.forM, pure, Except.pure]
  | cons head tail induction =>
      rw [List.forM, bind_eq_ok_iff, List.forall_mem_cons]
      constructor
      · rintro ⟨_, first, others⟩
        exact ⟨first, induction.mp others⟩
      · rintro ⟨first, others⟩
        exact ⟨(), first, induction.mpr others⟩

theorem forM_eq_error {list : List α} {check : α → Except ε Unit} {error : ε}
    (failed : list.forM check = .error error) :
    ∃ element ∈ list, check element = .error error := by
  induction list with
  | nil => cases failed
  | cons head tail induction =>
      rw [List.forM, bind_eq_error_iff] at failed
      rcases failed with first | ⟨_, _, later⟩
      · exact ⟨head, List.mem_cons_self, first⟩
      · obtain ⟨element, member, refused⟩ := induction later
        exact ⟨element, List.mem_cons_of_mem _ member, refused⟩

theorem foldlM_eq_error {list : List α} {body : σ → α → Except ε σ}
    {initial : σ} {error : ε}
    (failed : list.foldlM body initial = .error error) :
    ∃ state element, body state element = .error error := by
  induction list generalizing initial with
  | nil => cases failed
  | cons head tail induction =>
      rw [List.foldlM_cons, bind_eq_error_iff] at failed
      rcases failed with first | ⟨state, _, later⟩
      · exact ⟨initial, head, first⟩
      · exact induction later

theorem mapM_eq_ok_iff {list : List α} {transform : α → Except ε β}
    {results : List β} :
    list.mapM transform = .ok results ↔
      List.Forall₂ (fun element result => transform element = .ok result)
        list results := by
  induction list generalizing results with
  | nil =>
      rw [List.mapM_nil, pure_eq_ok_iff, List.forall₂_nil_left_iff]
      exact eq_comm
  | cons head tail induction =>
      rw [List.mapM_cons, bind_eq_ok_iff]
      constructor
      · rintro ⟨first, transformed, rest⟩
        rw [bind_eq_ok_iff] at rest
        obtain ⟨others, transformedRest, finished⟩ := rest
        cases finished
        exact .cons transformed (induction.mp transformedRest)
      · intro related
        cases related with
        | cons transformed others =>
            refine ⟨_, transformed, ?_⟩
            rw [bind_eq_ok_iff]
            exact ⟨_, induction.mpr others, rfl⟩

theorem mapM_eq_some_iff {list : List α} {transform : α → Option β}
    {results : List β} :
    list.mapM transform = some results ↔
      List.Forall₂ (fun element result => transform element = some result)
        list results := by
  induction list generalizing results with
  | nil =>
      rw [List.mapM_nil, List.forall₂_nil_left_iff]
      simp [eq_comm]
  | cons head tail induction =>
      rw [List.mapM_cons, Option.bind_eq_bind, Option.bind_eq_some_iff]
      constructor
      · rintro ⟨first, transformed, rest⟩
        rw [Option.bind_eq_bind, Option.bind_eq_some_iff] at rest
        obtain ⟨others, transformedRest, finished⟩ := rest
        cases finished
        exact .cons transformed (induction.mp transformedRest)
      · intro related
        cases related with
        | cons transformed others =>
            refine ⟨_, transformed, ?_⟩
            rw [Option.bind_eq_bind, Option.bind_eq_some_iff]
            exact ⟨_, induction.mpr others, rfl⟩

/-- The invariant rule of a fallible fold over a counted range. -/
theorem foldlM_range_invariant (invariant : Nat → σ → Prop)
    {body : σ → Nat → Except ε σ} {count : Nat} {initial final : σ}
    (start : invariant 0 initial)
    (step : ∀ index state next, index < count → invariant index state →
      body state index = .ok next → invariant (index + 1) next)
    (success : (List.range count).foldlM body initial = .ok final) :
    invariant count final := by
  induction count generalizing final with
  | zero =>
      cases success
      exact start
  | succ count induction =>
      rw [List.range_succ, List.foldlM_append, bind_eq_ok_iff] at success
      obtain ⟨middle, earlier, last⟩ := success
      have reached := induction
        (fun index state next bound =>
          step index state next (Nat.lt_succ_of_lt bound)) earlier
      rw [List.foldlM_cons, bind_eq_ok_iff] at last
      obtain ⟨result, ran, finished⟩ := last
      cases finished
      exact step count middle final (Nat.lt_succ_self count) reached ran

end Fusor.Support
