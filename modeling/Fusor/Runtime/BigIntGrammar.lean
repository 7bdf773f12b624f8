import Fusor.Runtime.BigIntText
import Mathlib.Data.List.TakeWhile

/-!
# The grammar of integer strings

A `StringIntegerLiteral` is a signed decimal or an unsigned literal with a
radix marker, between white space and line terminators of the language, or
such white space alone.  The parser also strips U+0085, which is white space
of Unicode only, and refuses values that no admissible size holds.
-/

namespace Fusor.Runtime

open Arith

namespace JsBigInt

/-- `WhiteSpace` and `LineTerminator` of the language. -/
def isStrWhiteSpaceChar (character : Char) : Bool :=
  let code := character.toNat
  decide (9 ≤ code ∧ code ≤ 13) || code == 0x20 || code == 0xa0 ||
    code == 0x1680 || decide (0x2000 ≤ code ∧ code ≤ 0x200a) ||
    code == 0x2028 || code == 0x2029 || code == 0x202f || code == 0x205f ||
    code == 0x3000 || code == 0xfeff

def radixMarkers : List (Char × Nat) :=
  [('x', 16), ('X', 16), ('o', 8), ('O', 8), ('b', 2), ('B', 2)]

/-- At least one digit, all below the radix. -/
structure Digits (radix : Nat) (digits : List Char) (numbers : List Nat) :
    Prop where
  filled : digits ≠ []
  mapped : digits.mapM (toDigit · radix) = some numbers

inductive StrIntegerLiteral : List Char → Int → Prop where
  | decimal {digits numbers} : Digits 10 digits numbers →
      StrIntegerLiteral digits (readDigits 10 0 numbers)
  | plus {digits numbers} : Digits 10 digits numbers →
      StrIntegerLiteral ('+' :: digits) (readDigits 10 0 numbers)
  | minus {digits numbers} : Digits 10 digits numbers →
      StrIntegerLiteral ('-' :: digits) (-(readDigits 10 0 numbers : Int))
  | marked {marker radix digits numbers} : (marker, radix) ∈ radixMarkers →
      Digits radix digits numbers →
      StrIntegerLiteral ('0' :: marker :: digits) (readDigits radix 0 numbers)

/-- What may stand between the white space: nothing, or a literal. -/
def Body (body : List Char) (integer : Int) : Prop :=
  body = [] ∧ integer = 0 ∨ StrIntegerLiteral body integer

def StringIntegerLiteral (text : List Char) (integer : Int) : Prop :=
  ∃ before body after, text = before ++ body ++ after ∧
    (∀ character ∈ before, isStrWhiteSpaceChar character = true) ∧
    (∀ character ∈ after, isStrWhiteSpaceChar character = true) ∧
    Body body integer

/-- White space of the language, and U+0085. -/
def isStripped (character : Char) : Bool :=
  isStrWhiteSpaceChar character || character.toNat == 0x85

theorem isEcmascriptWhitespace_eq :
    isEcmascriptWhitespace = isStripped := by
  funext character
  rw [Bool.eq_iff_iff]
  simp only [isEcmascriptWhitespace, isWhitespace, isStripped,
    isStrWhiteSpaceChar, List.contains_cons, List.contains_nil,
    Bool.or_eq_true, beq_iff_eq, decide_eq_true_iff, Bool.false_eq_true,
    or_false]
  omega

section Inversion

theorem Digits.head {radix : Nat} {first : Char} {rest : List Char}
    {numbers : List Nat} (digits : Digits radix (first :: rest) numbers) :
    ∃ digit, toDigit first radix = some digit := by
  have mapped := digits.mapped
  rw [List.mapM_cons] at mapped
  obtain ⟨digit, found, _⟩ := Option.bind_eq_some_iff.mp mapped
  exact ⟨digit, found⟩

theorem Digits.all {radix : Nat} {digits : List Char} {numbers : List Nat}
    (mapped : digits.mapM (toDigit · radix) = some numbers) :
    ∀ character ∈ digits, ∃ digit, toDigit character radix = some digit := by
  induction digits generalizing numbers with
  | nil =>
      intro character member
      cases member
  | cons first rest induction =>
      rw [List.mapM_cons] at mapped
      obtain ⟨digit, found, mapped⟩ := Option.bind_eq_some_iff.mp mapped
      obtain ⟨others, tail, _⟩ := Option.bind_eq_some_iff.mp mapped
      rw [List.forall_mem_cons]
      exact ⟨⟨digit, found⟩, induction tail⟩

theorem literal_nil {integer : Int} : ¬ StrIntegerLiteral [] integer := by
  intro literal
  cases literal with
  | decimal digits => exact absurd rfl digits.filled

theorem literal_minus_iff (rest : List Char) (integer : Int) :
    StrIntegerLiteral ('-' :: rest) integer ↔ ∃ numbers,
      Digits 10 rest numbers ∧ integer = -(readDigits 10 0 numbers : Int) := by
  constructor
  · intro literal
    cases literal with
    | decimal digits =>
        obtain ⟨digit, impossible⟩ := digits.head
        cases impossible
    | minus digits => exact ⟨_, digits, rfl⟩
  · rintro ⟨numbers, digits, rfl⟩
    exact .minus digits

theorem literal_plus_iff (rest : List Char) (integer : Int) :
    StrIntegerLiteral ('+' :: rest) integer ↔ ∃ numbers,
      Digits 10 rest numbers ∧ integer = readDigits 10 0 numbers := by
  constructor
  · intro literal
    cases literal with
    | decimal digits =>
        obtain ⟨digit, impossible⟩ := digits.head
        cases impossible
    | plus digits => exact ⟨_, digits, rfl⟩
  · rintro ⟨numbers, digits, rfl⟩
    exact .plus digits

theorem marker_not_decimal {marker : Char} {radix : Nat}
    (marked : (marker, radix) ∈ radixMarkers) : toDigit marker 10 = none := by
  simp only [radixMarkers, List.mem_cons, Prod.mk.injEq, List.not_mem_nil,
    or_false] at marked
  rcases marked with ⟨rfl, _⟩ | ⟨rfl, _⟩ | ⟨rfl, _⟩ | ⟨rfl, _⟩ | ⟨rfl, _⟩ |
    ⟨rfl, _⟩ <;> rfl

theorem marker_radix {marker : Char} {radix other : Nat}
    (marked : (marker, radix) ∈ radixMarkers)
    (again : (marker, other) ∈ radixMarkers) : radix = other := by
  simp only [radixMarkers, List.mem_cons, Prod.mk.injEq, List.not_mem_nil,
    or_false] at marked again
  symm
  rcases marked with ⟨rfl, rfl⟩ | ⟨rfl, rfl⟩ | ⟨rfl, rfl⟩ | ⟨rfl, rfl⟩ |
    ⟨rfl, rfl⟩ | ⟨rfl, rfl⟩ <;> simpa using again

theorem radix_range {marker : Char} {radix : Nat}
    (marked : (marker, radix) ∈ radixMarkers) :
    0 < radix ∧ radix ≤ 36 ∧ radix ≠ 10 := by
  simp only [radixMarkers, List.mem_cons, Prod.mk.injEq, List.not_mem_nil,
    or_false] at marked
  omega

theorem literal_marked_iff {marker : Char} {radix : Nat}
    (marked : (marker, radix) ∈ radixMarkers) (rest : List Char)
    (integer : Int) :
    StrIntegerLiteral ('0' :: marker :: rest) integer ↔ ∃ numbers,
      Digits radix rest numbers ∧ integer = readDigits radix 0 numbers := by
  constructor
  · intro literal
    cases literal with
    | decimal digits =>
        obtain ⟨digit, found⟩ := Digits.all digits.mapped marker (by simp)
        rw [marker_not_decimal marked] at found
        cases found
    | marked again digits =>
        cases marker_radix marked again
        exact ⟨_, digits, rfl⟩
  · rintro ⟨numbers, digits, rfl⟩
    exact .marked marked digits

theorem literal_decimal_iff {text : List Char}
    (unmarked : ∀ marker radix rest, (marker, radix) ∈ radixMarkers →
      text ≠ '0' :: marker :: rest)
    (unsigned : ∀ rest, text ≠ '-' :: rest ∧ text ≠ '+' :: rest)
    (integer : Int) :
    StrIntegerLiteral text integer ↔ ∃ numbers,
      Digits 10 text numbers ∧ integer = readDigits 10 0 numbers := by
  constructor
  · intro literal
    cases literal with
    | decimal digits => exact ⟨_, digits, rfl⟩
    | plus digits => exact absurd rfl (unsigned _).2
    | minus digits => exact absurd rfl (unsigned _).1
    | marked marker digits => exact absurd rfl (unmarked _ _ _ marker)
  · rintro ⟨numbers, digits, rfl⟩
    exact .decimal digits

theorem detectRadixPrefix_cases (text : List Char) :
    (∃ marker radix rest, (marker, radix) ∈ radixMarkers ∧
      text = '0' :: marker :: rest ∧
      detectRadixPrefix text = (radix, rest)) ∨
      (detectRadixPrefix text = (10, text) ∧
        ∀ marker radix rest, (marker, radix) ∈ radixMarkers →
          text ≠ '0' :: marker :: rest) := by
  unfold detectRadixPrefix
  split
  · exact .inl ⟨'x', 16, _, by simp [radixMarkers], rfl, rfl⟩
  · exact .inl ⟨'X', 16, _, by simp [radixMarkers], rfl, rfl⟩
  · exact .inl ⟨'o', 8, _, by simp [radixMarkers], rfl, rfl⟩
  · exact .inl ⟨'O', 8, _, by simp [radixMarkers], rfl, rfl⟩
  · exact .inl ⟨'b', 2, _, by simp [radixMarkers], rfl, rfl⟩
  · exact .inl ⟨'B', 2, _, by simp [radixMarkers], rfl, rfl⟩
  · rename_i first second third fourth fifth sixth
    refine .inr ⟨rfl, ?_⟩
    intro marker radix rest marked same
    simp only [radixMarkers, List.mem_cons, Prod.mk.injEq, List.not_mem_nil,
      or_false] at marked
    rcases marked with ⟨rfl, _⟩ | ⟨rfl, _⟩ | ⟨rfl, _⟩ | ⟨rfl, _⟩ | ⟨rfl, _⟩ |
      ⟨rfl, _⟩
    · exact first _ same
    · exact second _ same
    · exact third _ same
    · exact fourth _ same
    · exact fifth _ same
    · exact sixth _ same

end Inversion

section Parser

/-- The end of the parser, once sign and radix are known. -/
theorem parse_iff {radix : Nat} (proper : 0 < radix) (bounded : radix ≤ 36)
    (digits : List Char) (negative : Bool) (value : JsBigInt) :
    (if digits = [] then .error .invalidLiteral
      else parseDigits radix digits negative) = .ok value ↔
      ∃ numbers, Digits radix digits numbers ∧
        |signedValue radix numbers negative| < -minimum ∧
        value.val = signedValue radix numbers negative := by
  have magnitude : ∀ numbers, |signedValue radix numbers negative| =
      readDigits radix 0 numbers := by
    intro numbers
    rw [signedValue]
    cases negative <;> simp
  by_cases nil : digits = []
  · rw [if_pos nil]
    constructor
    · intro impossible
      cases impossible
    · rintro ⟨numbers, read, _⟩
      exact absurd nil read.filled
  · rw [if_neg nil, parseDigits_eq_ok_iff proper bounded]
    constructor
    · rintro ⟨numbers, mapped, fits, exact⟩
      exact ⟨numbers, ⟨nil, mapped⟩, by rw [magnitude]; exact fits, exact⟩
    · rintro ⟨numbers, read, fits, exact⟩
      rw [magnitude] at fits
      exact ⟨numbers, read.mapped, fits, exact⟩

/-- A literal is parsed when its value has an admissible magnitude. -/
def Parsed (body : List Char) (value : JsBigInt) : Prop :=
  StrIntegerLiteral body value.val ∧ |value.val| < -minimum

theorem parsed_iff {body : List Char} {value : JsBigInt} {radix : Nat}
    {digits : List Char} {negative : Bool}
    (literal : ∀ integer, StrIntegerLiteral body integer ↔ ∃ numbers,
      Digits radix digits numbers ∧
        integer = signedValue radix numbers negative) :
    Parsed body value ↔ ∃ numbers, Digits radix digits numbers ∧
      |signedValue radix numbers negative| < -minimum ∧
      value.val = signedValue radix numbers negative := by
  rw [Parsed, literal]
  constructor
  · rintro ⟨⟨numbers, read, exact⟩, fits⟩
    rw [exact] at fits
    exact ⟨numbers, read, fits, exact⟩
  · rintro ⟨numbers, read, fits, exact⟩
    rw [← exact] at fits
    exact ⟨⟨numbers, read, exact⟩, fits⟩

/-- The rest of the parser after a sign. -/
theorem signed_parse_iff (rest : List Char) (negative : Bool)
    (value : JsBigInt) :
    (if True ∧ (detectRadixPrefix rest).1 ≠ 10 then
        .error .invalidLiteral
      else if (detectRadixPrefix rest).2 = [] then .error .invalidLiteral
      else parseDigits (detectRadixPrefix rest).1 (detectRadixPrefix rest).2
        negative) = .ok value ↔
      ∃ numbers, Digits 10 rest numbers ∧
        |signedValue 10 numbers negative| < -minimum ∧
        value.val = signedValue 10 numbers negative := by
  rcases detectRadixPrefix_cases rest with
    ⟨marker, radix, digits, marked, same, found⟩ | ⟨found, _⟩
  · rw [found, if_pos ⟨trivial, (radix_range marked).2.2⟩]
    constructor
    · intro impossible
      cases impossible
    · rintro ⟨numbers, read, _⟩
      obtain ⟨digit, decimal⟩ := Digits.all read.mapped marker (by simp [same])
      rw [marker_not_decimal marked] at decimal
      cases decimal
  · rw [found, if_neg (by simp)]
    exact parse_iff (show 0 < 10 by decide) (show 10 ≤ 36 by decide) rest
      negative value

theorem unsigned_parse_iff {text : List Char}
    (unsigned : ∀ rest, text ≠ '-' :: rest ∧ text ≠ '+' :: rest)
    (value : JsBigInt) :
    (if (false : Bool) = true ∧ (detectRadixPrefix text).1 ≠ 10 then
        .error .invalidLiteral
      else if (detectRadixPrefix text).2 = [] then .error .invalidLiteral
      else parseDigits (detectRadixPrefix text).1 (detectRadixPrefix text).2
        false) = .ok value ↔ Parsed text value := by
  rw [if_neg (by simp)]
  rcases detectRadixPrefix_cases text with
    ⟨marker, radix, digits, marked, same, found⟩ | ⟨found, unmarked⟩
  · obtain ⟨positive, bounded, _⟩ := radix_range marked
    rw [found, parse_iff positive bounded, parsed_iff]
    intro integer
    rw [same, literal_marked_iff marked]
    rfl
  · rw [found, parse_iff (show 0 < 10 by decide) (show 10 ≤ 36 by decide),
      parsed_iff]
    intro integer
    rw [literal_decimal_iff unmarked unsigned]
    rfl

theorem fromStrRadix_eq_ok_iff (text : List Char) (value : JsBigInt) :
    fromStrRadix text 10 = .ok value ↔
      Body (trimMatches isStripped text) value.val ∧
        |value.val| < -minimum := by
  have least := minimum_neg
  rw [fromStrRadix, if_pos (by decide), isEcmascriptWhitespace_eq]
  generalize trimMatches isStripped text = trimmed
  simp only [if_true]
  by_cases nil : trimmed = []
  · rw [if_pos nil, nil]
    constructor
    · intro same
      cases same
      rw [val_zero]
      exact ⟨.inl ⟨rfl, rfl⟩, by rw [abs_zero]; omega⟩
    · rintro ⟨⟨_, zero⟩ | literal, _⟩
      · rw [eq_of_val_eq (zero.trans val_zero.symm)]
      · exact absurd literal literal_nil
  · rw [if_neg nil]
    have body : Body trimmed value.val ∧ |value.val| < -minimum ↔
        Parsed trimmed value := by
      rw [Body, Parsed]
      simp [nil]
    rw [body]
    by_cases minus : ∃ rest, trimmed = '-' :: rest
    · obtain ⟨rest, rfl⟩ := minus
      simp only [splitSign]
      rw [signed_parse_iff, parsed_iff]
      intro integer
      rw [literal_minus_iff]
      rfl
    · by_cases plus : ∃ rest, trimmed = '+' :: rest
      · obtain ⟨rest, rfl⟩ := plus
        simp only [splitSign]
        rw [signed_parse_iff, parsed_iff]
        intro integer
        rw [literal_plus_iff]
        rfl
      · obtain ⟨first, rest, rfl⟩ := List.exists_cons_of_ne_nil nil
        have noMinus : first ≠ '-' := by
          rintro rfl
          exact minus ⟨rest, rfl⟩
        have noPlus : first ≠ '+' := by
          rintro rfl
          exact plus ⟨rest, rfl⟩
        rw [splitSign_unsigned rest noMinus noPlus]
        apply unsigned_parse_iff
        intro others
        exact ⟨fun same => minus ⟨others, same⟩,
          fun same => plus ⟨others, same⟩⟩

end Parser

section Trimming

variable {pattern : Char → Bool}

theorem exists_trimMatches (pattern : Char → Bool) (text : List Char) :
    ∃ before after, text = before ++ trimMatches pattern text ++ after ∧
      (∀ character ∈ before, pattern character = true) ∧
      ∀ character ∈ after, pattern character = true := by
  have matching : ∀ characters : List Char,
      ∀ character ∈ characters.takeWhile pattern, pattern character = true :=
    fun characters character => List.mem_takeWhile_imp
  refine ⟨text.takeWhile pattern,
    ((text.dropWhile pattern).reverse.takeWhile pattern).reverse, ?_,
    matching text, ?_⟩
  · rw [trimMatches, List.append_assoc, ← List.reverse_append,
      List.takeWhile_append_dropWhile, List.reverse_reverse,
      List.takeWhile_append_dropWhile]
  · intro character member
    exact matching _ character (List.mem_reverse.mp member)

theorem trimMatches_append {before body after : List Char}
    (leading : ∀ character ∈ before, pattern character = true)
    (trailing : ∀ character ∈ after, pattern character = true)
    (clean : ∀ character ∈ body, pattern character = false) :
    trimMatches pattern (before ++ body ++ after) = body := by
  have none : after.dropWhile pattern = [] :=
    List.dropWhile_eq_nil_iff.mpr trailing
  have back : (after.reverse ++ body.reverse).dropWhile pattern =
      body.reverse.dropWhile pattern :=
    List.dropWhile_append_of_pos fun character member =>
      trailing character (List.mem_reverse.mp member)
  have reversed : body.reverse.dropWhile pattern = body.reverse :=
    dropWhile_eq_self fun character member =>
      clean character (List.mem_reverse.mp member)
  rw [trimMatches, List.append_assoc, List.dropWhile_append_of_pos leading]
  cases body with
  | nil =>
      rw [List.nil_append, none]
      rfl
  | cons first rest =>
      rw [List.cons_append, List.dropWhile_cons,
        clean first List.mem_cons_self, if_neg Bool.false_ne_true,
        ← List.cons_append, List.reverse_append, back, reversed,
        List.reverse_reverse]

end Trimming

section Grammar

theorem isStripped_of_digit {character : Char} {radix digit : Nat}
    (read : toDigit character radix = some digit) :
    isStripped character = false := by
  rw [← isEcmascriptWhitespace_eq]
  exact isEcmascriptWhitespace_digitValue (toDigit_eq_some read).1

theorem isStripped_of_marker {marker : Char} {radix : Nat}
    (marked : (marker, radix) ∈ radixMarkers) : isStripped marker = false := by
  simp only [radixMarkers, List.mem_cons, Prod.mk.injEq, List.not_mem_nil,
    or_false] at marked
  rcases marked with ⟨rfl, _⟩ | ⟨rfl, _⟩ | ⟨rfl, _⟩ | ⟨rfl, _⟩ | ⟨rfl, _⟩ |
    ⟨rfl, _⟩ <;> rfl

theorem Digits.clean {radix : Nat} {digits : List Char} {numbers : List Nat}
    (read : Digits radix digits numbers) :
    ∀ character ∈ digits, isStripped character = false := by
  intro character member
  obtain ⟨digit, found⟩ := Digits.all read.mapped character member
  exact isStripped_of_digit found

theorem Body.clean {body : List Char} {integer : Int}
    (between : Body body integer) :
    ∀ character ∈ body, isStripped character = false := by
  rcases between with ⟨rfl, _⟩ | literal
  · intro character member
    cases member
  · cases literal with
    | decimal digits => exact digits.clean
    | plus digits => exact List.forall_mem_cons.mpr ⟨rfl, digits.clean⟩
    | minus digits => exact List.forall_mem_cons.mpr ⟨rfl, digits.clean⟩
    | marked marked digits =>
        rw [List.forall_mem_cons, List.forall_mem_cons]
        exact ⟨rfl, isStripped_of_marker marked, digits.clean⟩

theorem isStripped_of_whiteSpace {character : Char}
    (space : isStrWhiteSpaceChar character = true) :
    isStripped character = true := by
  rw [isStripped, space, Bool.true_or]

theorem stringIntegerLiteral_iff (text : List Char) (integer : Int) :
    StringIntegerLiteral text integer ↔
      Body (trimMatches isStrWhiteSpaceChar text) integer := by
  constructor
  · rintro ⟨before, body, after, rfl, leading, trailing, between⟩
    rw [trimMatches_append leading trailing]
    · exact between
    · intro character member
      have kept := between.clean character member
      rw [isStripped, Bool.or_eq_false_iff] at kept
      exact kept.1
  · intro between
    obtain ⟨before, after, split, leading, trailing⟩ :=
      exists_trimMatches isStrWhiteSpaceChar text
    exact ⟨before, _, after, split, leading, trailing, between⟩

/-- A text of the grammar has no U+0085 at its ends. -/
theorem trimMatches_eq_of_body {text : List Char} {integer : Int}
    (between : Body (trimMatches isStrWhiteSpaceChar text) integer) :
    trimMatches isStripped text = trimMatches isStrWhiteSpaceChar text := by
  obtain ⟨before, after, split, leading, trailing⟩ :=
    exists_trimMatches isStrWhiteSpaceChar text
  have stripped := @trimMatches_append isStripped _ _ _
    (fun character member => isStripped_of_whiteSpace
      (leading character member))
    (fun character member => isStripped_of_whiteSpace
      (trailing character member)) between.clean
  rwa [← split] at stripped

/-- The parser accepts what the grammar does, with the same value. -/
structure AgreesWithGrammar (text : List Char) : Prop where
  sound : ∀ value, fromStrRadix text 10 = .ok value →
    StringIntegerLiteral text value.val
  complete : ∀ integer, StringIntegerLiteral text integer →
    ∃ value, fromStrRadix text 10 = .ok value ∧ value.val = integer

/-- The parser and the grammar agree on a text unless it is a literal of the
grammar with too large a value, or becomes a literal by the removal of U+0085
at its ends. -/
theorem agreesWithGrammar_iff (text : List Char) :
    AgreesWithGrammar text ↔
      ∀ integer, Body (trimMatches isStripped text) integer →
        (|integer| < 2 ^ (32 * maxLimbs - 1) ↔
          trimMatches isStripped text =
            trimMatches isStrWhiteSpaceChar text) := by
  have limit : (2 : Int) ^ (32 * maxLimbs - 1) = -minimum := by
    rw [minimum, neg_neg]
  have accepted : ∀ integer, Body (trimMatches isStripped text) integer →
      |integer| < -minimum →
        ∃ value, fromStrRadix text 10 = .ok value ∧ value.val = integer := by
    intro integer between fits
    have inside := abs_lt.mp fits
    obtain ⟨value, rfl, _⟩ := (represented_iff integer).mpr (by
      rw [not_oversized_iff]
      omega)
    exact ⟨value, (fromStrRadix_eq_ok_iff text value).mpr ⟨between, fits⟩, rfl⟩
  rw [limit]
  constructor
  · intro agrees integer between
    constructor
    · intro fits
      obtain ⟨value, parsed, rfl⟩ := accepted integer between fits
      have literal := agrees.sound value parsed
      exact trimMatches_eq_of_body
        ((stringIntegerLiteral_iff text value.val).mp literal)
    · intro same
      rw [same] at between
      obtain ⟨value, parsed, rfl⟩ := agrees.complete integer
        ((stringIntegerLiteral_iff text integer).mpr between)
      exact ((fromStrRadix_eq_ok_iff text value).mp parsed).2
  · intro condition
    constructor
    · intro value parsed
      obtain ⟨between, fits⟩ := (fromStrRadix_eq_ok_iff text value).mp parsed
      rw [stringIntegerLiteral_iff, ← (condition value.val between).mp fits]
      exact between
    · intro integer literal
      have between := (stringIntegerLiteral_iff text integer).mp literal
      have same := trimMatches_eq_of_body between
      rw [← same] at between
      exact accepted integer between ((condition integer between).mpr same)

theorem agreesWithGrammar_fails_on_nextLine :
    ¬ AgreesWithGrammar [Char.ofNat 0x85, '1'] := by
  intro agrees
  have parsed : (fromStrRadix [Char.ofNat 0x85, '1'] 10).isOk = true := by
    decide +kernel
  cases result : fromStrRadix [Char.ofNat 0x85, '1'] 10 with
  | error error =>
      rw [result] at parsed
      cases parsed
  | ok value =>
      have literal := agrees.sound value result
      rw [stringIntegerLiteral_iff] at literal
      have kept := literal.clean (Char.ofNat 0x85) (by decide)
      cases kept

end Grammar

end JsBigInt

end Fusor.Runtime
