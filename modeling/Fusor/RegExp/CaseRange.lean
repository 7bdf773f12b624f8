import Mathlib.Algebra.Ring.Nat
import Mathlib.Order.Lattice.Nat
import Mathlib.Order.Interval.Set.UnorderedInterval
import Fusor.RegExp.Text

/-!
# Ranges of a character class when case is ignored

A range is tested by comparing the canonical form of the character with the
canonical forms of the two end points.  ECMA-262 asks instead whether some
character of the range has the same canonical form.  The two agree on a range
exactly when canonicalization maps it onto all canonical forms between those of
its end points; what that says of a range, when nothing is known of the case
maps outside ASCII, is worked out below.
-/

namespace Fusor.RegExp

section Ranges

variable (data : UnicodeData) (mode : MatchMode)

/-- Some character of the range has the canonical form of the given one. -/
def RangeContains (start stop value : Nat) : Prop :=
  ∃ member, start ≤ member ∧ member ≤ stop ∧
    canonicalize data member mode = canonicalize data value mode

/-- The test of a range answers for every code point as the standard says. -/
def RangeAgrees (start stop : Nat) : Prop :=
  ∀ value ≤ 0x10ffff,
    classItemMatches data (.range start stop) [value] mode = true ↔
      RangeContains data mode start stop value

/-- The canonical forms of a set of characters. -/
def canonicalForms (values : Set Nat) : Set Nat :=
  (fun value => canonicalize data value mode) '' values

end Ranges

/-- What is assumed of the case maps: characters go to characters, the ASCII
letters to upper and to lower case, and the rest of ASCII is fixed. -/
structure AsciiCase (data : UnicodeData) : Prop where
  upperScalar : ∀ value, isScalarValue value = true →
    isScalarValue (data.simpleUppercase value) = true
  foldScalar : ∀ value, isScalarValue value = true →
    isScalarValue (data.simpleFold value) = true
  upper : ∀ value < 0x80, data.simpleUppercase value =
    if 0x61 ≤ value ∧ value ≤ 0x7a then value - 0x20 else value
  fold : ∀ value < 0x80, data.simpleFold value =
    if 0x41 ≤ value ∧ value ≤ 0x5a then value + 0x20 else value

/-- The canonical form of an ASCII character. -/
def asciiCanonical (unicode : Bool) (value : Nat) : Nat :=
  if unicode then
    if 0x41 ≤ value ∧ value ≤ 0x5a then value + 0x20 else value
  else
    if 0x61 ≤ value ∧ value ≤ 0x7a then value - 0x20 else value

/-- The ASCII ranges on which the test agrees with the standard whatever the
case maps do outside ASCII. -/
def AsciiSafe (unicode : Bool) (start stop : Nat) : Prop :=
  if unicode then
    stop ≤ 0x40 ∨ (0x41 ≤ start ∧ stop ≤ 0x5a) ∨ 0x5b ≤ start
  else
    stop ≤ 0x60 ∨ (0x61 ≤ start ∧ stop ≤ 0x7a) ∨ 0x7b ≤ start ∨
      (start ≤ 0x41 ∧ 0x7b ≤ stop)

/-- A range around all ASCII letters, when no character is folded to one in
upper case. -/
def AroundLetters (data : UnicodeData) (mode : MatchMode)
    (start stop : Nat) : Prop :=
  mode.unicode = true ∧ start ≤ 0x40 ∧ 0x7a ≤ stop ∧
    ∀ value ≤ 0x10ffff,
      ¬ (0x41 ≤ canonicalize data value mode ∧
        canonicalize data value mode ≤ 0x5a)

/-- The ranges on which the test agrees with the standard whatever the case
maps do outside ASCII. -/
def RangeSafe (unicode : Bool) (start stop : Nat) : Prop :=
  start = stop ∨ (0xd800 ≤ start ∧ stop ≤ 0xdfff) ∨
    (stop < 0x80 ∧ AsciiSafe unicode start stop)

section Agreement

variable {data : UnicodeData} {mode : MatchMode} {start stop : Nat}

theorem classItemMatches_range_iff {value : Nat} :
    classItemMatches data (.range start stop) [value] mode = true ↔
      min (canonicalize data start mode) (canonicalize data stop mode) ≤
        canonicalize data value mode ∧
      canonicalize data value mode ≤
        max (canonicalize data start mode) (canonicalize data stop mode) := by
  simp only [classItemMatches, Bool.and_eq_true, decide_eq_true_eq]

theorem agrees_single (data : UnicodeData) (mode : MatchMode) (start : Nat) :
    RangeAgrees data mode start start := by
  intro value _
  rw [classItemMatches_range_iff]
  constructor
  · intro between
    rw [min_self, max_self] at between
    exact ⟨start, Nat.le_refl _, Nat.le_refl _,
      Nat.le_antisymm between.1 between.2⟩
  · rintro ⟨member, low, high, same⟩
    obtain rfl : member = start := Nat.le_antisymm high low
    rw [min_self, max_self, same]
    exact ⟨Nat.le_refl _, Nat.le_refl _⟩

/-- The test agrees when the range is mapped onto all canonical forms between
those of its end points, and only then. -/
theorem rangeAgrees_iff_onto (inside : stop ≤ 0x10ffff) :
    RangeAgrees data mode start stop ↔
      canonicalForms data mode (Set.Icc start stop) =
        canonicalForms data mode (Set.Iic 0x10ffff) ∩
          Set.uIcc (canonicalize data start mode)
            (canonicalize data stop mode) := by
  constructor
  · intro agrees
    ext form
    constructor
    · rintro ⟨member, ⟨low, high⟩, rfl⟩
      have small : member ≤ 0x10ffff := Nat.le_trans high inside
      have tested := classItemMatches_range_iff.mp
        ((agrees member small).mpr ⟨member, low, high, rfl⟩)
      exact ⟨⟨member, small, rfl⟩, tested⟩
    · rintro ⟨⟨value, small, rfl⟩, between⟩
      have tested := classItemMatches_range_iff.mpr between
      obtain ⟨member, low, high, same⟩ := (agrees value small).mp tested
      exact ⟨member, ⟨low, high⟩, same⟩
  · intro onto value small
    rw [classItemMatches_range_iff]
    constructor
    · intro between
      have form : canonicalize data value mode ∈
          canonicalForms data mode (Set.Icc start stop) := by
        rw [onto]
        exact ⟨⟨value, small, rfl⟩, between⟩
      obtain ⟨member, ⟨low, high⟩, same⟩ := form
      exact ⟨member, low, high, same⟩
    · rintro ⟨member, low, high, same⟩
      have form : canonicalize data member mode ∈
          canonicalForms data mode (Set.Icc start stop) :=
        ⟨member, ⟨low, high⟩, rfl⟩
      rw [onto] at form
      rw [← same]
      exact form.2

/-- A member of the range that the test misses. -/
theorem not_agrees_of_missed (member : Nat) (inside : stop ≤ 0x10ffff)
    (low : start ≤ member) (high : member ≤ stop)
    (missed : ¬ (min (canonicalize data start mode)
        (canonicalize data stop mode) ≤ canonicalize data member mode ∧
      canonicalize data member mode ≤
        max (canonicalize data start mode) (canonicalize data stop mode))) :
    ¬ RangeAgrees data mode start stop := by
  intro agrees
  have tested := (agrees member (Nat.le_trans high inside)).mpr
    ⟨member, low, high, rfl⟩
  exact missed (classItemMatches_range_iff.mp tested)

/-- A character that the test accepts and that belongs to no member. -/
theorem not_agrees_of_spurious (value : Nat) (small : value ≤ 0x10ffff)
    (accepted : min (canonicalize data start mode)
        (canonicalize data stop mode) ≤ canonicalize data value mode ∧
      canonicalize data value mode ≤
        max (canonicalize data start mode) (canonicalize data stop mode))
    (foreign : ∀ member, start ≤ member → member ≤ stop →
      canonicalize data member mode ≠ canonicalize data value mode) :
    ¬ RangeAgrees data mode start stop := by
  intro agrees
  obtain ⟨member, low, high, same⟩ :=
    (agrees value small).mp (classItemMatches_range_iff.mpr accepted)
  exact foreign member low high same

end Agreement

section Ascii

variable {data : UnicodeData} {mode : MatchMode}
  (ascii : AsciiCase data) (ignoring : mode.ignoreCase = true)

include ascii ignoring in
theorem canonicalize_ascii {value : Nat} (small : value < 0x80) :
    canonicalize data value mode = asciiCanonical mode.unicode value := by
  have scalar : isScalarValue value = true := by
    simp only [isScalarValue, Bool.or_eq_true, decide_eq_true_eq]
    omega
  unfold canonicalize asciiCanonical
  rw [ignoring, scalar, ascii.upper value small, ascii.fold value small]
  simp only [Bool.not_true, Bool.false_eq_true, if_false]
  cases mode.unicode with
  | true => rfl
  | false =>
      simp only [Bool.false_eq_true, if_false]
      rw [if_neg (by omega)]

/-- Outside Unicode mode only ASCII has ASCII canonical forms. -/
theorem small_of_canonicalize (plain : mode.unicode = false) {value : Nat}
    (small : canonicalize data value mode < 0x80) : value < 0x80 := by
  unfold canonicalize at small
  rw [plain] at small
  simp only [Bool.false_eq_true, if_false] at small
  split at small
  · exact small
  split at small
  · exact small
  split at small <;> omega

theorem asciiCanonical_plain (value : Nat) :
    (0x61 ≤ value ∧ value ≤ 0x7a ∧
      asciiCanonical false value + 0x20 = value) ∨
    (¬ (0x61 ≤ value ∧ value ≤ 0x7a) ∧
      asciiCanonical false value = value) := by
  simp only [asciiCanonical, Bool.false_eq_true, if_false]
  split
  · left
    omega
  · right
    constructor
    · assumption
    · rfl

theorem asciiCanonical_unicode (value : Nat) :
    (0x41 ≤ value ∧ value ≤ 0x5a ∧
      asciiCanonical true value = value + 0x20) ∨
    (¬ (0x41 ≤ value ∧ value ≤ 0x5a) ∧
      asciiCanonical true value = value) := by
  simp only [asciiCanonical, if_true]
  split
  · left
    omega
  · right
    constructor
    · assumption
    · rfl

theorem asciiCanonical_plain_other {value : Nat}
    (other : ¬ (0x61 ≤ value ∧ value ≤ 0x7a)) :
    asciiCanonical false value = value := by
  simp only [asciiCanonical, Bool.false_eq_true, if_false, if_neg other]

theorem asciiCanonical_unicode_other {value : Nat}
    (other : ¬ (0x41 ≤ value ∧ value ≤ 0x5a)) :
    asciiCanonical true value = value := by
  simp only [asciiCanonical, if_true, if_neg other]

section Range

variable {start stop : Nat} (ordered : start ≤ stop) (small : stop < 0x80)

include ascii ignoring ordered small

/-- The test in terms of the ASCII canonical forms of the end points. -/
theorem between_ascii {form : Nat} :
    (min (canonicalize data start mode) (canonicalize data stop mode) ≤ form ∧
      form ≤ max (canonicalize data start mode)
        (canonicalize data stop mode)) ↔
    min (asciiCanonical mode.unicode start)
        (asciiCanonical mode.unicode stop) ≤ form ∧
      form ≤ max (asciiCanonical mode.unicode start)
        (asciiCanonical mode.unicode stop) := by
  rw [canonicalize_ascii ascii ignoring (Nat.lt_of_le_of_lt ordered small),
    canonicalize_ascii ascii ignoring small]

omit ordered in
theorem contains_ascii {value : Nat} :
    RangeContains data mode start stop value ↔
      ∃ member, start ≤ member ∧ member ≤ stop ∧
        asciiCanonical mode.unicode member = canonicalize data value mode := by
  constructor
  · rintro ⟨member, low, high, same⟩
    rw [canonicalize_ascii ascii ignoring (by omega)] at same
    exact ⟨member, low, high, same⟩
  · rintro ⟨member, low, high, same⟩
    rw [← canonicalize_ascii ascii ignoring (by omega)] at same
    exact ⟨member, low, high, same⟩

theorem agrees_ascii_iff :
    RangeAgrees data mode start stop ↔
      ∀ value ≤ 0x10ffff,
        (min (asciiCanonical mode.unicode start)
            (asciiCanonical mode.unicode stop) ≤
              canonicalize data value mode ∧
          canonicalize data value mode ≤
            max (asciiCanonical mode.unicode start)
              (asciiCanonical mode.unicode stop)) ↔
        ∃ member, start ≤ member ∧ member ≤ stop ∧
          asciiCanonical mode.unicode member =
            canonicalize data value mode := by
  unfold RangeAgrees
  simp only [classItemMatches_range_iff,
    between_ascii ascii ignoring ordered small,
    contains_ascii ascii ignoring small]

/-- What agreement says of an ASCII character. -/
theorem agrees_ascii_at (agrees : RangeAgrees data mode start stop)
    {value : Nat} (ascii' : value < 0x80) :
    (min (asciiCanonical mode.unicode start)
        (asciiCanonical mode.unicode stop) ≤
          asciiCanonical mode.unicode value ∧
      asciiCanonical mode.unicode value ≤
        max (asciiCanonical mode.unicode start)
          (asciiCanonical mode.unicode stop)) ↔
    ∃ member, start ≤ member ∧ member ≤ stop ∧
      asciiCanonical mode.unicode member =
        asciiCanonical mode.unicode value := by
  have found := (agrees_ascii_iff ascii ignoring ordered small).mp agrees value
    (by omega)
  rw [canonicalize_ascii ascii ignoring ascii'] at found
  exact found

theorem plain_safe (plain : mode.unicode = false)
    (agrees : RangeAgrees data mode start stop) (several : start ≠ stop) :
    AsciiSafe false start stop := by
  have at' := fun {value : Nat} (ascii' : value < 0x80) =>
    agrees_ascii_at ascii ignoring ordered small agrees ascii'
  simp only [plain] at at'
  have first := asciiCanonical_plain start
  have last := asciiCanonical_plain stop
  simp only [AsciiSafe, Bool.false_eq_true, if_false]
  by_contra unsafeRange
  by_cases beyond : 0x7b ≤ stop
  · by_cases before : start ≤ 0x60
    · have letter := (at' (by decide : 0x61 < 0x80)).mpr
        ⟨0x61, by omega, by omega, rfl⟩
      have form : asciiCanonical false 0x61 = 0x41 := rfl
      omega
    · have form : asciiCanonical false 0x5b = 0x5b := rfl
      obtain ⟨member, low, high, same⟩ :=
        (at' (by decide : 0x5b < 0x80)).mp (by omega)
      have other := asciiCanonical_plain member
      omega
  · by_cases last' : start = 0x60
    · have form : asciiCanonical false 0x5b = 0x5b := rfl
      obtain ⟨member, low, high, same⟩ :=
        (at' (by decide : 0x5b < 0x80)).mp (by omega)
      have other := asciiCanonical_plain member
      omega
    · have form : asciiCanonical false 0x60 = 0x60 := rfl
      have accent := (at' (by decide : 0x60 < 0x80)).mpr
        ⟨0x60, by omega, by omega, rfl⟩
      omega

/-- A range whose end points are their own canonical forms is tested by its
members, when the forms between the end points are canonical themselves. -/
theorem agrees_of_fixed_ends
    (first : asciiCanonical mode.unicode start = start)
    (last : asciiCanonical mode.unicode stop = stop)
    (kept : ∀ member, start ≤ member → member ≤ stop →
      start ≤ asciiCanonical mode.unicode member ∧
        asciiCanonical mode.unicode member ≤ stop)
    (canonical : ∀ value ≤ 0x10ffff,
      start ≤ canonicalize data value mode →
      canonicalize data value mode ≤ stop →
      asciiCanonical mode.unicode (canonicalize data value mode) =
        canonicalize data value mode) :
    RangeAgrees data mode start stop := by
  rw [agrees_ascii_iff ascii ignoring ordered small, first, last,
    min_eq_left ordered, max_eq_right ordered]
  intro value valid
  constructor
  · rintro ⟨low, high⟩
    exact ⟨canonicalize data value mode, low, high,
      canonical value valid low high⟩
  · rintro ⟨member, low, high, same⟩
    rw [← same]
    exact kept member low high

theorem safe_plain (plain : mode.unicode = false)
    (safe : AsciiSafe false start stop) :
    RangeAgrees data mode start stop := by
  simp only [AsciiSafe, Bool.false_eq_true, if_false] at safe
  by_cases letters : 0x61 ≤ start ∧ stop ≤ 0x7a
  · rw [agrees_ascii_iff ascii ignoring ordered small, plain]
    have first := asciiCanonical_plain start
    have last := asciiCanonical_plain stop
    have shifted : asciiCanonical false start ≤ asciiCanonical false stop := by
      omega
    rw [min_eq_left shifted, max_eq_right shifted]
    intro value valid
    constructor
    · rintro ⟨low, high⟩
      have member := asciiCanonical_plain (canonicalize data value mode + 0x20)
      exact ⟨canonicalize data value mode + 0x20, by omega, by omega, by omega⟩
    · rintro ⟨member, low, high, same⟩
      have own := asciiCanonical_plain member
      omega
  · have apart : stop ≤ 0x60 ∨ 0x7b ≤ start ∨ (start ≤ 0x41 ∧ 0x7b ≤ stop) := by
      omega
    clear safe
    apply agrees_of_fixed_ends ascii ignoring ordered small <;> rw [plain]
    · exact asciiCanonical_plain_other (by omega)
    · exact asciiCanonical_plain_other (by omega)
    · intro member low high
      have own := asciiCanonical_plain member
      omega
    · intro value valid low high
      have value' := small_of_canonicalize plain (Nat.lt_of_le_of_lt high small)
      rw [canonicalize_ascii ascii ignoring value', plain]
      have own := asciiCanonical_plain value
      exact asciiCanonical_plain_other (by omega)

theorem unicode_safe (unicode : mode.unicode = true)
    (agrees : RangeAgrees data mode start stop) (several : start ≠ stop) :
    AsciiSafe true start stop ∨ AroundLetters data mode start stop := by
  have at' := fun {value : Nat} (ascii' : value < 0x80) =>
    agrees_ascii_at ascii ignoring ordered small agrees ascii'
  simp only [unicode] at at'
  have first := asciiCanonical_unicode start
  have last := asciiCanonical_unicode stop
  simp only [AsciiSafe, if_true]
  by_contra unsafeRange
  rw [not_or] at unsafeRange
  obtain ⟨unsafeRange, notAround⟩ := unsafeRange
  by_cases before : start ≤ 0x40
  · by_cases around : 0x7a ≤ stop
    · refine notAround ⟨unicode, before, around, ?_⟩
      intro value valid upper
      obtain ⟨member, low, high, same⟩ :=
        ((agrees_ascii_iff ascii ignoring ordered small).mp agrees value
          valid).mp (by rw [unicode]; omega)
      rw [unicode] at same
      have other := asciiCanonical_unicode member
      omega
    · by_cases letters : stop ≤ 0x5a
      · have form : asciiCanonical true 0x5b = 0x5b := rfl
        obtain ⟨member, low, high, same⟩ :=
          (at' (by decide : 0x5b < 0x80)).mp (by omega)
        have other := asciiCanonical_unicode member
        omega
      · have form : asciiCanonical true 0x5a = 0x7a := rfl
        have letter := (at' (by decide : 0x5a < 0x80)).mpr
          ⟨0x5a, by omega, by omega, rfl⟩
        omega
  · by_cases beyond : 0x61 ≤ stop
    · have form : asciiCanonical true 0x5b = 0x5b := rfl
      have bracket := (at' (by decide : 0x5b < 0x80)).mpr
        ⟨0x5b, by omega, by omega, rfl⟩
      omega
    · by_cases final : start = 0x5a
      · have form : asciiCanonical true 0x61 = 0x61 := rfl
        obtain ⟨member, low, high, same⟩ :=
          (at' (by decide : 0x61 < 0x80)).mp (by omega)
        have other := asciiCanonical_unicode member
        omega
      · have form : asciiCanonical true 0x5a = 0x7a := rfl
        have letter := (at' (by decide : 0x5a < 0x80)).mpr
          ⟨0x5a, by omega, by omega, rfl⟩
        omega

theorem safe_unicode (unicode : mode.unicode = true)
    (safe : AsciiSafe true start stop ∨ AroundLetters data mode start stop) :
    RangeAgrees data mode start stop := by
  simp only [AsciiSafe, if_true] at safe
  by_cases letters : 0x41 ≤ start ∧ stop ≤ 0x5a
  · rw [agrees_ascii_iff ascii ignoring ordered small, unicode]
    have first := asciiCanonical_unicode start
    have last := asciiCanonical_unicode stop
    have shifted : asciiCanonical true start ≤ asciiCanonical true stop := by
      omega
    rw [min_eq_left shifted, max_eq_right shifted]
    intro value valid
    constructor
    · rintro ⟨low, high⟩
      have member :=
        asciiCanonical_unicode (canonicalize data value mode - 0x20)
      exact ⟨canonicalize data value mode - 0x20, by omega, by omega, by omega⟩
    · rintro ⟨member, low, high, same⟩
      have own := asciiCanonical_unicode member
      omega
  · have apart : stop ≤ 0x40 ∨ 0x5b ≤ start ∨
        AroundLetters data mode start stop := by
      rcases safe with (below | inside | above) | around
      · exact .inl below
      · exact absurd inside letters
      · exact .inr (.inl above)
      · exact .inr (.inr around)
    have bounds : stop ≤ 0x40 ∨ 0x5b ≤ start ∨ (start ≤ 0x40 ∧ 0x7a ≤ stop) :=
      apart.imp_right (Or.imp_right fun around => ⟨around.2.1, around.2.2.1⟩)
    clear safe
    apply agrees_of_fixed_ends ascii ignoring ordered small <;> rw [unicode]
    · exact asciiCanonical_unicode_other (by omega)
    · exact asciiCanonical_unicode_other (by omega)
    · intro member low high
      have own := asciiCanonical_unicode member
      omega
    · intro value valid low high
      apply asciiCanonical_unicode_other
      rcases apart with below | above | around
      · omega
      · omega
      · exact around.2.2.2 value valid

end Range

end Ascii

/-! ## Case maps that are unknown outside ASCII -/

/-- The ASCII case maps with one further character sent elsewhere. -/
def redirect (source target : Nat) : UnicodeData where
  simpleFold value :=
    if value = source then target else asciiCanonical true value
  simpleUppercase value :=
    if value = source then target else asciiCanonical false value
  matchesSequence _ _ _ := false

section Redirect

variable {source target : Nat}

theorem isScalarValue_iff {value : Nat} :
    isScalarValue value = true ↔
      value < 0xd800 ∨ (0xe000 ≤ value ∧ value ≤ 0x10ffff) := by
  simp only [isScalarValue, Bool.or_eq_true, Bool.and_eq_true,
    decide_eq_true_eq]

theorem asciiCase_redirect (wide : 0x80 ≤ source)
    (scalar : isScalarValue target = true) :
    AsciiCase (redirect source target) := by
  refine ⟨?_, ?_, ?_, ?_⟩
  · intro value valid
    simp only [redirect]
    split
    · exact scalar
    · have form := asciiCanonical_plain value
      rw [isScalarValue_iff] at valid ⊢
      omega
  · intro value valid
    simp only [redirect]
    split
    · exact scalar
    · have form := asciiCanonical_unicode value
      rw [isScalarValue_iff] at valid ⊢
      omega
  · intro value small
    simp only [redirect]
    rw [if_neg (by omega)]
    simp only [asciiCanonical, Bool.false_eq_true, if_false]
  · intro value small
    simp only [redirect]
    rw [if_neg (by omega)]
    simp only [asciiCanonical, if_true]

variable {mode : MatchMode} (ignoring : mode.ignoreCase = true)
  (source target : Nat)

include ignoring

theorem canonicalize_redirect_source (valid : isScalarValue source = true)
    (wide : 0x80 ≤ target ∨ mode.unicode = true) :
    canonicalize (redirect source target) source mode = target := by
  unfold canonicalize
  rw [ignoring, valid]
  simp only [redirect, Bool.not_true, Bool.false_eq_true, if_false, if_true]
  cases unicode : mode.unicode with
  | true => rfl
  | false =>
      rw [unicode] at wide
      simp only [Bool.false_eq_true, or_false] at wide
      simp only [Bool.false_eq_true, if_false]
      rw [if_neg (by omega)]

theorem canonicalize_redirect_other {value : Nat} (other : value ≠ source) :
    (value < 0x80 ∧
      canonicalize (redirect source target) value mode < 0x80) ∨
    (0x80 ≤ value ∧
      canonicalize (redirect source target) value mode = value) := by
  have plain := asciiCanonical_plain value
  have unicode := asciiCanonical_unicode value
  unfold canonicalize
  rw [ignoring]
  simp only [redirect, if_neg other, Bool.not_true, Bool.false_eq_true,
    if_false]
  split
  · omega
  split
  · omega
  split <;> omega

end Redirect

section Adversary

variable {mode : MatchMode} (ignoring : mode.ignoreCase = true)
  {start stop : Nat}

include ignoring

/-- With a range that goes beyond ASCII some case maps make the test fail. -/
theorem disagrees_beyond_ascii (several : start < stop)
    (inside : stop ≤ 0x10ffff) (beyond : 0x80 ≤ stop)
    (mixed : ¬ (0xd800 ≤ start ∧ stop ≤ 0xdfff)) :
    ∃ data, AsciiCase data ∧ ¬ RangeAgrees data mode start stop := by
  by_cases surrogate : 0xd800 ≤ stop ∧ stop ≤ 0xdfff
  · refine ⟨redirect 0xd7ff 0x10ffff, asciiCase_redirect (by omega) rfl, ?_⟩
    have moved := canonicalize_redirect_source ignoring 0xd7ff 0x10ffff rfl
      (.inl (by omega))
    have other := fun {value : Nat} =>
      @canonicalize_redirect_other mode ignoring 0xd7ff 0x10ffff value
    have last := @other stop (by omega)
    by_cases endpoint : start = 0xd7ff
    · subst endpoint
      have outside := @other 0xe000 (by omega)
      apply not_agrees_of_spurious 0xe000 (by omega)
      · omega
      · intro member low high
        by_cases first : member = 0xd7ff
        · subst first
          omega
        · have form := @other member first
          omega
    · have first := @other start endpoint
      exact not_agrees_of_missed 0xd7ff inside (by omega) (by omega)
        (by omega)
  · have valid : isScalarValue stop = true := by
      rw [isScalarValue_iff]
      omega
    by_cases room : stop ≤ 0x10fffd
    · refine ⟨redirect stop 0x10ffff, asciiCase_redirect beyond rfl, ?_⟩
      have moved := canonicalize_redirect_source ignoring stop 0x10ffff valid
        (.inl (by omega))
      have other := fun {value : Nat} =>
        @canonicalize_redirect_other mode ignoring stop 0x10ffff value
      have first := @other start (by omega)
      have outside := @other (stop + 1) (by omega)
      apply not_agrees_of_spurious (stop + 1) (by omega)
      · omega
      · intro member low high
        by_cases last : member = stop
        · subst last
          omega
        · have form := @other member last
          omega
    · refine ⟨redirect stop 0x80, asciiCase_redirect beyond rfl, ?_⟩
      have moved := canonicalize_redirect_source ignoring stop 0x80 valid
        (.inl (by omega))
      have other := fun {value : Nat} =>
        @canonicalize_redirect_other mode ignoring stop 0x80 value
      have first := @other start (by omega)
      by_cases before : start ≤ 0x10fffc
      · have missed := @other 0x10fffd (by omega)
        exact not_agrees_of_missed 0x10fffd inside (by omega)
          (by omega) (by omega)
      · have outside := @other 0x100 (by omega)
        apply not_agrees_of_spurious 0x100 (by omega)
        · omega
        · intro member low high
          by_cases last : member = stop
          · subst last
            omega
          · have form := @other member last
            omega

/-- Some case maps fold a character to an upper-case letter. -/
theorem not_aroundLetters :
    ∃ data, AsciiCase data ∧ ¬ AroundLetters data mode start stop := by
  refine ⟨redirect 0x100 0x41, asciiCase_redirect (by omega) rfl, ?_⟩
  intro around
  have folded := canonicalize_redirect_source ignoring 0x100 0x41 rfl
    (.inr around.1)
  have upper := around.2.2.2 0x100 (by omega)
  omega

end Adversary

section Verdict

variable {data : UnicodeData} {mode : MatchMode}
  (ignoring : mode.ignoreCase = true) {start stop : Nat}

/-- Surrogates have no other case. -/
theorem agrees_surrogates (data : UnicodeData) (mode : MatchMode)
    (ordered : start ≤ stop) (low : 0xd800 ≤ start) (high : stop ≤ 0xdfff) :
    RangeAgrees data mode start stop := by
  have fixed : ∀ value, 0xd800 ≤ value → value ≤ 0xdfff →
      canonicalize data value mode = value := by
    intro value above below
    have surrogate : isScalarValue value = false := by
      rw [Bool.eq_false_iff, Ne, isScalarValue_iff]
      omega
    unfold canonicalize
    rw [surrogate]
    split
    · rfl
    · rfl
  have first := fixed start low (by omega)
  have last := fixed stop (by omega) high
  intro value _
  rw [classItemMatches_range_iff, first, last]
  constructor
  · intro between
    exact ⟨canonicalize data value mode, by omega, by omega,
      fixed _ (by omega) (by omega)⟩
  · rintro ⟨member, below, above, same⟩
    have own := fixed member (by omega) (by omega)
    omega

include ignoring in
theorem agrees_ascii_exactly (ascii : AsciiCase data)
    (ordered : start ≤ stop) (small : stop < 0x80) :
    RangeAgrees data mode start stop ↔
      start = stop ∨ AsciiSafe mode.unicode start stop ∨
        AroundLetters data mode start stop := by
  cases unicode : mode.unicode with
  | true =>
      constructor
      · intro agrees
        by_cases single : start = stop
        · exact .inl single
        · exact .inr (unicode_safe ascii ignoring ordered small unicode agrees
            single)
      · rintro (rfl | safe)
        · exact agrees_single data mode start
        · exact safe_unicode ascii ignoring ordered small unicode safe
  | false =>
      constructor
      · intro agrees
        by_cases single : start = stop
        · exact .inl single
        · exact .inr (.inl (plain_safe ascii ignoring ordered small unicode
            agrees single))
      · rintro (rfl | safe | around)
        · exact agrees_single data mode start
        · exact safe_plain ascii ignoring ordered small unicode safe
        · rw [around.1] at unicode
          cases unicode

include ignoring in
theorem agrees_always_iff (ordered : start ≤ stop)
    (inside : stop ≤ 0x10ffff) :
    (∀ data, AsciiCase data → RangeAgrees data mode start stop) ↔
      RangeSafe mode.unicode start stop := by
  constructor
  · intro always
    by_contra unsafeRange
    simp only [RangeSafe, not_or] at unsafeRange
    obtain ⟨several, mixed, unsafeAscii⟩ := unsafeRange
    by_cases beyond : 0x80 ≤ stop
    · obtain ⟨data, ascii, disagrees⟩ := disagrees_beyond_ascii ignoring
        (Nat.lt_of_le_of_ne ordered several) inside beyond mixed
      exact disagrees (always data ascii)
    · obtain ⟨data, ascii, notAround⟩ :=
        @not_aroundLetters mode ignoring start stop
      rcases (agrees_ascii_exactly ignoring ascii ordered
          (Nat.lt_of_not_le beyond)).mp (always data ascii) with
        single | safe | around
      · exact several single
      · exact unsafeAscii ⟨Nat.lt_of_not_le beyond, safe⟩
      · exact notAround around
  · rintro (rfl | ⟨low, high⟩ | ⟨small, safe⟩) data ascii
    · exact agrees_single data mode start
    · exact agrees_surrogates data mode ordered low high
    · exact (agrees_ascii_exactly ignoring ascii ordered small).mpr
        (.inr (.inl safe))

end Verdict

/-- When the test of a range that ignores case answers as the standard says:
for given case maps, for given case maps and an ASCII range, and for all case
maps of which only their behaviour on ASCII is known. -/
theorem rangeAgrees_exactly {mode : MatchMode}
    (ignoring : mode.ignoreCase = true) {start stop : Nat}
    (ordered : start ≤ stop) (inside : stop ≤ 0x10ffff) :
    ((∀ data, AsciiCase data → RangeAgrees data mode start stop) ↔
      RangeSafe mode.unicode start stop) ∧
    (∀ data, AsciiCase data → stop < 0x80 →
      (RangeAgrees data mode start stop ↔
        start = stop ∨ AsciiSafe mode.unicode start stop ∨
          AroundLetters data mode start stop)) ∧
    (∀ data, AsciiCase data →
      (RangeAgrees data mode start stop ↔
        canonicalForms data mode (Set.Icc start stop) =
          canonicalForms data mode (Set.Iic 0x10ffff) ∩
            Set.uIcc (canonicalize data start mode)
              (canonicalize data stop mode))) :=
  ⟨agrees_always_iff ignoring ordered inside,
    fun _ ascii small => agrees_ascii_exactly ignoring ascii ordered small,
    fun _ _ => rangeAgrees_iff_onto inside⟩

/-- Case maps that know only ASCII. -/
private def asciiData : UnicodeData := redirect 0x80 0x80

private theorem asciiCase_asciiData : AsciiCase asciiData :=
  asciiCase_redirect (by decide) rfl

private def ignoringMode : MatchMode := ⟨true, false, false, false, false⟩

/-- The range from `a` to `z` is tested as the standard says. -/
theorem rangeAgrees_exactly_letters :
    RangeAgrees asciiData ignoringMode 0x61 0x7a := by
  have safe : RangeSafe ignoringMode.unicode 0x61 0x7a := by
    refine .inr (.inr ⟨by decide, ?_⟩)
    exact .inr (.inl ⟨by decide, by decide⟩)
  exact (rangeAgrees_exactly rfl (by decide) (by decide)).1.mpr safe asciiData
    asciiCase_asciiData

/-- The range from `A` to `z` misses the underscore, which lies in it; the
range from `Z` to `a` accepts `B`, which does not. -/
theorem rangeAgrees_fails_across_letters :
    AsciiCase asciiData ∧
    (classItemMatches asciiData (.range 0x41 0x7a) [0x5f] ignoringMode = false ∧
      RangeContains asciiData ignoringMode 0x41 0x7a 0x5f) ∧
    (classItemMatches asciiData (.range 0x5a 0x61) [0x42] ignoringMode = true ∧
      ¬ RangeContains asciiData ignoringMode 0x5a 0x61 0x42) := by
  refine ⟨asciiCase_asciiData, ⟨by decide, ?_⟩, by decide, ?_⟩
  · exact ⟨0x5f, by decide, by decide, rfl⟩
  · intro contained
    obtain ⟨member, low, high, same⟩ :=
      (contains_ascii asciiCase_asciiData rfl (by decide)).mp contained
    have form : canonicalize asciiData 0x42 ignoringMode = 0x42 := by decide
    have own : asciiCanonical false member = 0x42 := same.trans form
    have cases := asciiCanonical_plain member
    omega

end Fusor.RegExp
