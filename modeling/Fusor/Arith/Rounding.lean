import Mathlib.Algebra.Order.Group.Abs
import Mathlib.Algebra.Order.Ring.Cast
import Mathlib.Tactic

/-!
# Rounding to the nearest point

Points on a line are numbered in their order.  A number is rounded to the
nearest point, and to the one with the even index when two are nearest.  The
last point stands for everything above.  The magnitudes of binary floating
point numbers are such points, numbered by their bits: with a last point in
the place of infinity, overflow is no exception.
-/

namespace Fusor.Arith

section Points

variable {R : Type*} [CommRing R] [LinearOrder R] [IsStrictOrderedRing R]

/-- The point with this index is nearest, and of two such points it is the
even one. -/
structure NearestEven (points : Nat → R) (limit : Nat) (number : R)
    (index : Nat) : Prop where
  inside : index ≤ limit
  nearest : ∀ other ≤ limit, other ≠ index →
    |number - points index| < |number - points other| ∨
      |number - points index| = |number - points other| ∧ Even index

variable {points : Nat → R} {limit index : Nat} {number : R}

variable (increasing : StrictMono points)

include increasing

/-- Two neighbours are not both even, and a point between two others is
nearer than one of them. -/
theorem NearestEven.unique {other : Nat}
    (nearest : NearestEven points limit number index)
    (second : NearestEven points limit number other) : index = other := by
  have ordered {first last : Nat} (before : first < last)
      (left : NearestEven points limit number first)
      (right : NearestEven points limit number last) : False := by
    have tie : |number - points first| = |number - points last| ∧
        Even first ∧ Even last := by
      rcases left.nearest last right.inside before.ne' with closer | ⟨same, even⟩
      · rcases right.nearest first left.inside before.ne with less | ⟨equal, _⟩
        · exact absurd closer (not_lt.mpr less.le)
        · exact absurd closer (not_lt.mpr equal.le)
      · rcases right.nearest first left.inside before.ne with less | ⟨_, also⟩
        · exact absurd same less.ne'
        · exact ⟨same, even, also⟩
    obtain ⟨same, even, also⟩ := tie
    have apart : first + 1 < last := by
      rw [Nat.even_iff] at even also
      omega
    have lower := increasing (Nat.lt_succ_self first)
    have upper := increasing apart
    have bound : |number - points first| ≤ |number - points (first + 1)| := by
      rcases left.nearest (first + 1) (by have := right.inside; omega)
        (by omega) with closer | ⟨equal, _⟩
      · exact closer.le
      · exact equal.le
    rcases abs_cases (number - points first) with ⟨one, _⟩ | ⟨one, _⟩ <;>
      rcases abs_cases (number - points last) with ⟨two, _⟩ | ⟨two, _⟩ <;>
        rcases abs_cases (number - points (first + 1)) with ⟨three, _⟩ |
          ⟨three, _⟩ <;>
          linarith
  rcases Nat.lt_trichotomy index other with before | same | behind
  · exact (ordered before nearest second).elim
  · exact same
  · exact (ordered behind second nearest).elim

theorem nearestEven_self (inside : index ≤ limit) :
    NearestEven points limit (points index) index := by
  refine ⟨inside, ?_⟩
  intro other _ different
  left
  rw [sub_self, abs_zero, abs_pos, sub_ne_zero]
  exact fun same => different (increasing.injective same.symm)

/-- A number between two neighbours, in the half of the lower one. -/
theorem nearestEven_lower (below : index < limit)
    (lower : points index ≤ number) (upper : number < points (index + 1))
    (half : number + number < points index + points (index + 1) ∨
      number + number = points index + points (index + 1) ∧ Even index) :
    NearestEven points limit number index := by
  constructor
  · exact below.le
  · intro other _ different
    rw [abs_of_nonneg (sub_nonneg.mpr lower)]
    rcases Nat.lt_or_gt_of_ne different with before | behind
    · have ordered := increasing before
      left
      rw [abs_of_nonneg (by linarith)]
      linarith
    · have ordered := increasing.monotone (show index + 1 ≤ other from behind)
      rw [abs_of_neg (by linarith)]
      rcases half with closer | ⟨tie, even⟩
      · left
        linarith
      · rcases lt_or_eq_of_le ordered with further | same
        · left
          linarith
        · right
          refine ⟨?_, even⟩
          linarith

/-- A number between two neighbours, in the half of the upper one. -/
theorem nearestEven_upper (below : index < limit)
    (lower : points index ≤ number) (upper : number < points (index + 1))
    (half : points index + points (index + 1) < number + number ∨
      number + number = points index + points (index + 1) ∧
        Even (index + 1)) :
    NearestEven points limit number (index + 1) := by
  constructor
  · exact below
  · intro other _ different
    rw [abs_of_neg (sub_neg.mpr upper)]
    rcases Nat.lt_or_gt_of_ne different with before | behind
    · have ordered := increasing.monotone (Nat.le_of_lt_succ before)
      rw [abs_of_nonneg (by linarith)]
      rcases half with closer | ⟨tie, even⟩
      · left
        linarith
      · rcases lt_or_eq_of_le ordered with further | same
        · left
          linarith
        · right
          refine ⟨?_, even⟩
          linarith
    · have ordered := increasing behind
      left
      rw [abs_of_neg (by linarith)]
      linarith

/-- A number from the last point on. -/
theorem nearestEven_last (above : points limit ≤ number) :
    NearestEven points limit number limit := by
  constructor
  · exact Nat.le_refl limit
  · intro other inside different
    have ordered := increasing (Nat.lt_of_le_of_ne inside different)
    left
    rw [abs_of_nonneg (by linarith), abs_of_nonneg (by linarith)]
    linarith

end Points

section Binary64

/-- The magnitude of the bits below the sign, in units of the least positive
number. -/
def units (pattern : Nat) : Nat :=
  if pattern / 2 ^ 52 = 0 then pattern % 2 ^ 52
  else (2 ^ 52 + pattern % 2 ^ 52) * 2 ^ (pattern / 2 ^ 52 - 1)

/-- The bits of infinity. -/
def infinityBits : Nat := 2047 * 2 ^ 52

/-- The bits of a significand and an exponent above the least one. -/
def pack (exponent significand : Nat) : Nat :=
  exponent * 2 ^ 52 + significand

theorem pack_succ (exponent significand : Nat) :
    pack exponent (significand + 1) = pack exponent significand + 1 := by
  rw [pack, pack, Nat.add_assoc]

theorem units_pack {exponent significand : Nat} (fits : significand < 2 ^ 53)
    (normal : exponent = 0 ∨ 2 ^ 52 ≤ significand) :
    units (pack exponent significand) = significand * 2 ^ exponent := by
  unfold units pack
  by_cases small : significand < 2 ^ 52
  · have zero : exponent = 0 := by omega
    rw [zero, Nat.zero_mul, Nat.zero_add, Nat.div_eq_of_lt small, if_pos rfl,
      Nat.mod_eq_of_lt small, Nat.pow_zero, Nat.mul_one]
  · have quotient : (exponent * 2 ^ 52 + significand) / 2 ^ 52 =
        exponent + 1 := by omega
    have rest : (exponent * 2 ^ 52 + significand) % 2 ^ 52 =
        significand - 2 ^ 52 := by omega
    rw [quotient, rest, if_neg (Nat.succ_ne_zero exponent),
      Nat.add_sub_cancel' (Nat.le_of_not_lt small), Nat.add_sub_cancel]

theorem exists_pack (pattern : Nat) :
    ∃ exponent significand, pattern = pack exponent significand ∧
      significand < 2 ^ 53 ∧ (exponent = 0 ∨ 2 ^ 52 ≤ significand) := by
  by_cases small : pattern < 2 ^ 52
  · exact ⟨0, pattern, by rw [pack]; omega, by omega, .inl rfl⟩
  · refine ⟨pattern / 2 ^ 52 - 1, pattern % 2 ^ 52 + 2 ^ 52, ?_, ?_, ?_⟩
    · rw [pack]
      omega
    · omega
    · right
      omega

theorem units_pack_succ {exponent significand : Nat}
    (fits : significand < 2 ^ 53)
    (normal : exponent = 0 ∨ 2 ^ 52 ≤ significand) :
    units (pack exponent significand + 1) =
      (significand + 1) * 2 ^ exponent := by
  by_cases full : significand + 1 = 2 ^ 53
  · have carried : pack exponent significand + 1 =
        pack (exponent + 1) (2 ^ 52) := by
      rw [pack, pack]
      omega
    rw [carried, units_pack (by omega) (.inr (Nat.le_refl _)), full,
      Nat.pow_succ]
    ring
  · rw [← pack_succ, units_pack (by omega) (by omega)]

theorem units_strictMono : StrictMono units := by
  apply strictMono_nat_of_lt_succ
  intro pattern
  obtain ⟨exponent, significand, rfl, fits, normal⟩ := exists_pack pattern
  rw [units_pack fits normal, units_pack_succ fits normal]
  exact Nat.mul_lt_mul_of_pos_right (Nat.lt_succ_self _)
    (Nat.two_pow_pos exponent)

theorem units_infinityBits : units infinityBits = 2 ^ 52 * 2 ^ 2046 := by
  have packed : infinityBits = pack 2046 (2 ^ 52) := by
    rw [infinityBits, pack]
    omega
  rw [packed, units_pack (by norm_num) (.inr (Nat.le_refl _))]

variable {R : Type*} [CommRing R] [LinearOrder R] [IsStrictOrderedRing R]

theorem cast_units_strictMono :
    StrictMono fun pattern => (units pattern : R) :=
  fun _ _ before => Nat.cast_lt.mpr (units_strictMono before)

/-- A magnitude is rounded to binary64, where infinity stands for the power of
two that is next. -/
def RoundsTo (number : R) (pattern : Nat) : Prop :=
  NearestEven (fun pattern => (units pattern : R)) infinityBits number pattern

theorem roundsTo_units {pattern : Nat} (finite : pattern ≤ infinityBits) :
    RoundsTo (units pattern : R) pattern :=
  nearestEven_self cast_units_strictMono finite

theorem roundsTo_infinityBits {number : R}
    (large : (2 ^ 1024 * 2 ^ 1074 : R) ≤ number) :
    RoundsTo number infinityBits := by
  apply nearestEven_last cast_units_strictMono
  rw [units_infinityBits, Nat.cast_mul, Nat.cast_pow, Nat.cast_pow,
    Nat.cast_ofNat, ← pow_add]
  rw [← pow_add] at large
  exact large

theorem RoundsTo.unique {number : R} {pattern other : Nat}
    (rounds : RoundsTo number pattern) (second : RoundsTo number other) :
    pattern = other :=
  NearestEven.unique cast_units_strictMono rounds second

theorem even_pack (exponent significand : Nat) :
    Even (pack exponent significand) ↔ Even significand := by
  rw [Nat.even_iff, Nat.even_iff, pack]
  omega

/-- Rounding of a significand and the rest below it. -/
theorem roundsTo_pack {exponent significand : Nat} {number rest : R}
    (fits : significand < 2 ^ 53)
    (normal : exponent = 0 ∨ 2 ^ 52 ≤ significand)
    (finite : pack exponent significand < infinityBits)
    (split : number = significand * 2 ^ exponent + rest) (nonneg : 0 ≤ rest)
    (small : rest < 2 ^ exponent) :
    (rest + rest < 2 ^ exponent ∨
        rest + rest = 2 ^ exponent ∧ Even significand →
      RoundsTo number (pack exponent significand)) ∧
      (2 ^ exponent < rest + rest ∨
        rest + rest = 2 ^ exponent ∧ ¬ Even significand →
      RoundsTo number (pack exponent significand + 1)) := by
  have here : ((units (pack exponent significand) : Nat) : R) =
      significand * 2 ^ exponent := by
    rw [units_pack fits normal]
    push_cast
    rfl
  have next : ((units (pack exponent significand + 1) : Nat) : R) =
      significand * 2 ^ exponent + 2 ^ exponent := by
    rw [units_pack_succ fits normal]
    push_cast
    ring
  constructor
  · intro half
    apply nearestEven_lower cast_units_strictMono finite
    · rw [here, split]
      linarith
    · rw [next, split]
      linarith
    · rw [here, next, split, even_pack]
      rcases half with closer | ⟨tie, even⟩
      · left
        linarith
      · right
        refine ⟨?_, even⟩
        linarith
  · intro half
    apply nearestEven_upper cast_units_strictMono finite
    · rw [here, split]
      linarith
    · rw [next, split]
      linarith
    · rw [here, next, split, Nat.even_add_one, even_pack]
      rcases half with closer | ⟨tie, odd⟩
      · left
        linarith
      · right
        refine ⟨?_, odd⟩
        linarith

end Binary64

end Fusor.Arith
