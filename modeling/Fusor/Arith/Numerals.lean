import Mathlib.Data.Nat.Digits.Lemmas
import Mathlib.Tactic

/-!
# Positional numerals

A natural number is written in a base with its most significant digit first
and no zero in front, except that zero is the single digit zero.  Reading
digits from left to right is the inverse.
-/

namespace Fusor.Arith

/-- The digits of a number, most significant first. -/
def numeral (base number : Nat) : List Nat :=
  if number = 0 then [0] else (Nat.digits base number).reverse

/-- The value of digits that follow a number already read. -/
def readDigits (base start : Nat) (digits : List Nat) : Nat :=
  digits.foldl (fun value digit => value * base + digit) start

structure Canonical (base : Nat) (digits : List Nat) : Prop where
  filled : digits ≠ []
  digit : ∀ digit ∈ digits, digit < base
  leading : digits = [0] ∨ digits.head? ≠ some 0

theorem readDigits_cons (base start digit : Nat) (digits : List Nat) :
    readDigits base start (digit :: digits) =
      readDigits base (start * base + digit) digits :=
  rfl

theorem readDigits_append (base start : Nat) (left right : List Nat) :
    readDigits base start (left ++ right) =
      readDigits base (readDigits base start left) right :=
  List.foldl_append

theorem readDigits_eq_ofDigits (base : Nat) (digits : List Nat) :
    readDigits base 0 digits = Nat.ofDigits base digits.reverse := by
  induction digits using List.reverseRecOn with
  | nil => rfl
  | append_singleton digits digit induction =>
      rw [readDigits_append, induction, List.reverse_append,
        List.reverse_singleton, List.singleton_append, Nat.ofDigits_cons,
        Nat.mul_comm, Nat.add_comm]
      rfl

theorem le_readDigits {base : Nat} (positive : 0 < base) (start : Nat)
    (digits : List Nat) :
    start ≤ readDigits base start digits := by
  induction digits generalizing start with
  | nil => exact Nat.le_refl start
  | cons digit digits induction =>
      have grown : start ≤ start * base + digit :=
        Nat.le_add_right_of_le (Nat.le_mul_of_pos_right start positive)
      exact Nat.le_trans grown (induction _)

section

variable {base : Nat} (proper : 1 < base)

include proper

theorem numeral_canonical (number : Nat) :
    Canonical base (numeral base number) := by
  unfold numeral
  by_cases zero : number = 0
  · rw [if_pos zero]
    constructor
    · exact List.cons_ne_nil 0 []
    · intro digit member
      rw [List.mem_singleton.mp member]
      omega
    · exact .inl rfl
  · rw [if_neg zero]
    have filled : Nat.digits base number ≠ [] :=
      Nat.digits_ne_nil_iff_ne_zero.mpr zero
    constructor
    · simpa using filled
    · intro digit member
      exact Nat.digits_lt_base proper (List.mem_reverse.mp member)
    · right
      rw [List.head?_reverse, List.getLast?_eq_some_getLast filled]
      intro leading
      exact Nat.getLast_digit_ne_zero base zero (Option.some.inj leading)

omit proper in
theorem readDigits_numeral (number : Nat) :
    readDigits base 0 (numeral base number) = number := by
  unfold numeral
  by_cases zero : number = 0
  · rw [if_pos zero, zero]
    simp [readDigits]
  · rw [if_neg zero, readDigits_eq_ofDigits, List.reverse_reverse,
      Nat.ofDigits_digits]

/-- Only one canonical list of digits has a given value. -/
theorem Canonical.eq_numeral {digits : List Nat}
    (canonical : Canonical base digits) :
    digits = numeral base (readDigits base 0 digits) := by
  rcases canonical.leading with zero | nonzero
  · rw [zero]
    simp [readDigits, numeral]
  · have last : ∀ filled : digits.reverse ≠ [],
        digits.reverse.getLast filled ≠ 0 := by
      intro filled same
      apply nonzero
      rw [← List.getLast?_reverse, List.getLast?_eq_some_getLast filled, same]
    have read := Nat.digits_ofDigits base proper digits.reverse
      (fun digit member => canonical.digit digit (List.mem_reverse.mp member))
      last
    rw [← readDigits_eq_ofDigits] at read
    have positive : readDigits base 0 digits ≠ 0 := by
      intro zero
      rw [zero, Nat.digits_zero] at read
      exact canonical.filled (List.reverse_eq_nil_iff.mp read.symm)
    rw [numeral, if_neg positive, read, List.reverse_reverse]

omit proper in
theorem numeral_of_lt {number : Nat} (small : number < base) :
    numeral base number = [number] := by
  unfold numeral
  by_cases zero : number = 0
  · rw [if_pos zero, zero]
  · rw [if_neg zero, Nat.digits_of_lt base number zero small,
      List.reverse_singleton]

theorem numeral_step {number : Nat} (large : base ≤ number) :
    numeral base number =
      numeral base (number / base) ++ [number % base] := by
  have positive : 0 < number := by omega
  have quotient : 0 < number / base := Nat.div_pos large (by omega)
  rw [numeral, numeral, if_neg positive.ne', if_neg quotient.ne',
    Nat.digits_def' proper positive, List.reverse_cons]

theorem length_numeral_le {number count : Nat} (bounded : number < base ^ count)
    (some : 0 < count) :
    (numeral base number).length ≤ count := by
  unfold numeral
  by_cases zero : number = 0
  · rw [if_pos zero]
    exact some
  · rw [if_neg zero, List.length_reverse]
    exact (Nat.digits_length_le_iff proper number).mpr bounded

theorem length_numeral {number count : Nat} (some : 0 < count)
    (full : base ^ (count - 1) ≤ number) (short : number < base ^ count) :
    (numeral base number).length = count := by
  apply Nat.le_antisymm (length_numeral_le proper short some)
  have nonzero : number ≠ 0 := by
    have positive : 0 < base ^ (count - 1) := Nat.pow_pos (by omega)
    omega
  rw [numeral, if_neg nonzero, List.length_reverse]
  have longer : count - 1 < (Nat.digits base number).length :=
    (Nat.lt_digits_length_iff proper number).mpr full
  omega

/-- The last digits of a number, as many as asked for. -/
def lastDigits (base : Nat) : Nat → Nat → List Nat
  | 0, _ => []
  | count + 1, number =>
      lastDigits base count (number / base) ++ [number % base]

omit proper in
theorem length_lastDigits (count number : Nat) :
    (lastDigits base count number).length = count := by
  induction count generalizing number with
  | zero => rfl
  | succ count induction =>
      rw [lastDigits, List.length_append, induction, List.length_singleton]

/-- Padding a numeral with zeros makes its last digits part of it. -/
theorem padded_numeral (count number : Nat) :
    List.replicate (count + 1 - (numeral base number).length) 0 ++
        numeral base number =
      numeral base (number / base ^ count) ++ lastDigits base count number := by
  induction count generalizing number with
  | zero =>
      have filled := List.length_pos_iff.mpr
        (numeral_canonical proper number).filled
      rw [Nat.sub_eq_zero_of_le (by omega), pow_zero, Nat.div_one, lastDigits,
        List.append_nil]
      rfl
  | succ count induction =>
      rw [lastDigits, ← List.append_assoc, Nat.pow_succ', ← Nat.div_div_eq_div_mul,
        ← induction (number / base)]
      by_cases small : number < base
      · rw [Nat.div_eq_of_lt small, Nat.mod_eq_of_lt small,
          numeral_of_lt small, numeral_of_lt (by omega : 0 < base)]
        simp only [List.length_singleton, Nat.add_sub_cancel]
        rw [List.replicate_succ', List.append_assoc]
      · rw [numeral_step proper (Nat.le_of_not_lt small),
          List.length_append, List.length_singleton, Nat.add_sub_add_right,
          List.append_assoc]

end

end Fusor.Arith
