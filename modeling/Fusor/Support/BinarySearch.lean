import Mathlib.Tactic

/-!
# Binary search by key

Search for a key in a list sorted by it.  A reported position always holds an
element with the requested key.
-/

namespace Fusor.Support

variable {α κ : Type} [LinearOrder κ]

/-- Searches positions `low ≤ position < high`. -/
def binarySearchBetween (list : List α) (key : α → κ) (target : κ)
    (low high : Nat) : Option Nat :=
  if low < high then
    let middle := low + (high - low) / 2
    match list[middle]? with
    | none => none
    | some element =>
        if key element = target then
          some middle
        else if key element < target then
          binarySearchBetween list key target (middle + 1) high
        else
          binarySearchBetween list key target low middle
  else
    none
termination_by high - low

/-- The position of an element with the requested key. -/
def binarySearchByKey (list : List α) (target : κ) (key : α → κ) : Option Nat :=
  binarySearchBetween list key target 0 list.length

theorem binarySearchBetween_sound {list : List α} {key : α → κ} {target : κ}
    {low high position : Nat}
    (found : binarySearchBetween list key target low high = some position) :
    ∃ element, list[position]? = some element ∧ key element = target := by
  induction low, high using binarySearchBetween.induct list key target with
  | case1 low high nonempty middle absent =>
      rw [binarySearchBetween, if_pos nonempty] at found
      simp [middle, absent] at found
  | case2 low high nonempty middle element present same =>
      rw [binarySearchBetween, if_pos nonempty] at found
      simp only [middle, present, same, if_true, Option.some.injEq] at found
      exact ⟨element, found ▸ present, same⟩
  | case3 low high nonempty middle element present different smaller induction =>
      rw [binarySearchBetween, if_pos nonempty] at found
      simp only [middle, present, different, smaller, if_true, if_false]
        at found
      exact induction found
  | case4 low high nonempty middle element present different larger induction =>
      rw [binarySearchBetween, if_pos nonempty] at found
      simp only [middle, present, different, larger, if_false] at found
      exact induction found
  | case5 low high empty =>
      rw [binarySearchBetween, if_neg empty] at found
      cases found

theorem binarySearchByKey_sound {list : List α} {key : α → κ} {target : κ}
    {position : Nat} (found : binarySearchByKey list target key = some position) :
    ∃ element, list[position]? = some element ∧ key element = target :=
  binarySearchBetween_sound found

end Fusor.Support
