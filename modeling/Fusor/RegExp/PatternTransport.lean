import Fusor.RegExp.PatternReading

/-!
# What the source text of a pattern denotes

In Unicode mode the text for the parser is the pattern with its literal
surrogates as escapes.  Both are read alike unless such an escape comes to
stand beside an escape of the pattern that makes a pair with it.
-/

namespace Fusor.RegExp

section Loop

theorem toNat_expectChar {value : Nat} {character : Char}
    (expected : expectChar value = .ok character) :
    character.toNat = value := by
  unfold expectChar at expected
  by_cases valid : value.isValidChar
  · rw [dif_pos valid, Except.ok.injEq] at expected
    rw [← expected]
    rfl
  · rw [dif_neg valid] at expected
    cases expected

theorem not_surrogate_of_expectChar {value : Nat} {character : Char}
    (expected : expectChar value = .ok character) :
    isSurrogate value = false := by
  have valid := character.valid
  have same : character.val.toNat = value := toNat_expectChar expected
  rw [UInt32.isValidChar, same, Nat.isValidChar] at valid
  by_contra surrogate
  simp only [isSurrogate, Bool.not_eq_false, Bool.and_eq_true,
    decide_eq_true_eq] at surrogate
  omega

theorem map_pushUnicodeEscape (source : List Char) (unit : UInt16) :
    (pushUnicodeEscape source unit).map Char.toNat =
      source.map Char.toNat ++ escapeOf unit.toNat := by
  rw [pushUnicodeEscape, List.map_append, List.map_append, List.append_assoc]
  rfl

/-- Whether the next code point is escaped. -/
def pending (slashRun : Nat) : Bool :=
  decide (slashRun % 2 = 1)

theorem pending_succ (slashRun : Nat) :
    pending (slashRun + 1) = !pending slashRun := by
  rcases Nat.mod_two_eq_zero_or_one slashRun with even | odd
  · have next : (slashRun + 1) % 2 = 1 := by omega
    simp only [pending, even, next]
    decide
  · have next : (slashRun + 1) % 2 = 0 := by omega
    simp only [pending, odd, next]
    decide

/-- A unit alone is transported as its code point. -/
theorem pushUnit_eq_ok {first : UInt16} {slashRun next : Nat}
    {source later : List Char}
    (pushed : pushUnit true first slashRun source = .ok (next, later)) :
    later.map Char.toNat =
        source.map Char.toNat ++ transport first.toNat ∧
      (pending slashRun = true → isSurrogate first.toNat = false) ∧
      pending next =
        (!pending slashRun && decide (first.toNat = backslash)) := by
  unfold pushUnit at pushed
  by_cases surrogate : isSurrogate first.toNat
  · rw [if_pos surrogate] at pushed
    have other : first.toNat ≠ backslash := by
      intro same
      rw [same] at surrogate
      exact absurd surrogate (by decide)
    by_cases odd : slashRun % 2 = 1
    · rw [if_pos odd, if_pos rfl] at pushed
      cases pushed
    · rw [if_neg odd, Except.ok.injEq, Prod.mk.injEq] at pushed
      obtain ⟨sameRun, sameSource⟩ := pushed
      refine ⟨?_, ?_, ?_⟩
      · rw [← sameSource, map_pushUnicodeEscape, transport, if_pos surrogate]
      · intro escape
        exact absurd (of_decide_eq_true escape) odd
      · rw [← sameRun, decide_eq_false other, Bool.and_false]
        rfl
  · rw [if_neg surrogate, Support.bind_eq_ok_iff] at pushed
    obtain ⟨character, expected, pushed⟩ := pushed
    have value := toNat_expectChar expected
    rw [Except.ok.injEq, Prod.mk.injEq] at pushed
    obtain ⟨sameRun, sameSource⟩ := pushed
    refine ⟨?_, ?_, ?_⟩
    · rw [← sameSource, List.map_append, transport, if_neg surrogate,
        List.map_singleton, value]
    · intro _
      exact Bool.eq_false_of_not_eq_true surrogate
    · rw [← sameRun]
      by_cases slash : character = '\\'
      · have same : first.toNat = backslash := by
          rw [← value, slash]
          rfl
        rw [if_pos slash, pending_succ, decide_eq_true same, Bool.and_true]
      · have other : first.toNat ≠ backslash := by
          intro same
          apply slash
          apply Char.toNat_inj.mp
          rw [value, same]
          rfl
        rw [if_neg slash, decide_eq_false other, Bool.and_false]
        rfl

/-- The loop transports every code point, and none of them is an escaped
surrogate. -/
theorem sourceLoop_eq_ok (units : List UInt16) (slashRun : Nat)
    (source text : List Char)
    (accepted : sourceLoop true units slashRun source = .ok text) :
    text.map Char.toNat =
        source.map Char.toNat ++ (codePoints units).flatMap transport ∧
      Unescaped (pending slashRun) (codePoints units) := by
  induction units using codePoints.induct generalizing slashRun source with
  | case1 =>
      rw [sourceLoop, Except.ok.injEq] at accepted
      rw [accepted, codePoints, List.flatMap_nil, List.append_nil]
      exact ⟨rfl, trivial⟩
  | case2 first =>
      rw [sourceLoop, Support.bind_eq_ok_iff] at accepted
      obtain ⟨⟨next, later⟩, pushed, same⟩ := accepted
      rw [Except.ok.injEq] at same
      obtain ⟨moved, plain, _⟩ := pushUnit_eq_ok pushed
      rw [← same, codePoints, List.flatMap_singleton]
      exact ⟨moved, plain, trivial⟩
  | case3 first second rest paired induction =>
      rw [sourceLoop, if_pos paired, Support.bind_eq_ok_iff] at accepted
      obtain ⟨character, expected, accepted⟩ := accepted
      obtain ⟨moved, unescaped⟩ := induction _ _ accepted
      have plain := not_surrogate_of_expectChar expected
      have other : surrogatePair first.toNat second.toNat ≠ backslash := by
        intro same
        unfold surrogatePair backslash at same
        omega
      rw [codePoints, if_pos paired, List.flatMap_cons, moved,
        List.map_append, List.map_singleton, toNat_expectChar expected,
        transport, plain, List.append_assoc]
      refine ⟨rfl, fun _ => plain, ?_⟩
      rw [decide_eq_false other, Bool.and_false]
      exact unescaped
  | case4 first second rest apart induction =>
      rw [sourceLoop, if_neg apart, Support.bind_eq_ok_iff] at accepted
      obtain ⟨⟨next, later⟩, pushed, accepted⟩ := accepted
      obtain ⟨sourceMoved, plain, run⟩ := pushUnit_eq_ok pushed
      obtain ⟨moved, unescaped⟩ := induction _ _ accepted
      rw [codePoints, if_neg apart, List.flatMap_cons, moved, sourceMoved,
        List.append_assoc]
      rw [run] at unescaped
      exact ⟨rfl, plain, unescaped⟩

end Loop

section Pairs

/-- A high and a low surrogate that are both literal. -/
inductive LiteralPair : Spelling → Spelling → Prop where
  | mk {high low : Nat} (isHigh : isHighSurrogate high)
      (isLow : isLowSurrogate low) : LiteralPair (.literal high) (.literal low)

theorem isLow_not_isHigh {unit : Nat} (low : isLowSurrogate unit) :
    isHighSurrogate unit = false := by
  by_contra high
  simp only [isLowSurrogate, isHighSurrogate, Bool.not_eq_false,
    Bool.and_eq_true, decide_eq_true_eq] at low high
  omega

/-- A high surrogate of the code points is not followed by a low one. -/
def NoPair (codePoints : List Nat) : Prop :=
  codePoints.IsChain fun first second =>
    ¬ (isHighSurrogate first ∧ isLowSurrogate second)

theorem not_isHigh_of_large {value : Nat} (large : 0x10000 ≤ value) :
    isHighSurrogate value = false := by
  by_contra high
  simp only [isHighSurrogate, Bool.not_eq_false, Bool.and_eq_true,
    decide_eq_true_eq] at high
  omega

theorem not_isLow_of_large {value : Nat} (large : 0x10000 ≤ value) :
    isLowSurrogate value = false := by
  by_contra low
  simp only [isLowSurrogate, Bool.not_eq_false, Bool.and_eq_true,
    decide_eq_true_eq] at low
  omega

theorem surrogatePair_large (first second : Nat) :
    0x10000 ≤ surrogatePair first second := by
  unfold surrogatePair
  omega

/-- A low surrogate at the start was the first unit. -/
theorem codePoints_head {second : UInt16} {rest : List UInt16} {value : Nat}
    (head : (codePoints (second :: rest)).head? = some value)
    (low : isLowSurrogate value) : value = second.toNat := by
  cases rest with
  | nil =>
      rw [codePoints, List.head?_cons, Option.some.injEq] at head
      exact head.symm
  | cons third rest =>
      rw [codePoints] at head
      by_cases paired : isPair true second third
      · rw [if_pos paired, List.head?_cons, Option.some.injEq] at head
        rw [← head, not_isLow_of_large (surrogatePair_large _ _)] at low
        cases low
      · rw [if_neg paired, List.head?_cons, Option.some.injEq] at head
        exact head.symm

theorem noPair_codePoints (units : List UInt16) :
    NoPair (codePoints units) := by
  induction units using codePoints.induct with
  | case1 =>
      rw [codePoints]
      exact List.isChain_nil
  | case2 first =>
      rw [codePoints]
      exact List.isChain_singleton _
  | case3 first second rest paired induction =>
      rw [codePoints, if_pos paired]
      apply List.isChain_cons.mpr
      refine ⟨?_, induction⟩
      intro value _ both
      rw [not_isHigh_of_large (surrogatePair_large _ _)] at both
      cases both.1
  | case4 first second rest apart induction =>
      rw [codePoints, if_neg apart]
      apply List.isChain_cons.mpr
      refine ⟨?_, induction⟩
      intro value head both
      apply apart
      have same := codePoints_head head both.2
      rw [isPair, Bool.and_eq_true, Bool.and_eq_true, ← same]
      exact ⟨⟨rfl, both.1⟩, both.2⟩

theorem spellings_head {codePoints : List Nat} {value : Nat}
    (head : (spellings codePoints).head? = some (.literal value)) :
    codePoints.head? = some value := by
  induction codePoints using spellings.induct with
  | case1 =>
      rw [spellings] at head
      cases head
  | case2 =>
      rw [spellings_backslash] at head
      cases head
  | case3 second rest unit found =>
      rw [spellings_unicode found] at head
      cases head
  | case4 second rest missing =>
      rw [spellings_escape missing] at head
      cases head
  | case5 first rest other =>
      rw [spellings_literal other, List.head?_cons, Option.some.injEq,
        Spelling.literal.injEq] at head
      rw [List.head?_cons, head]

theorem noLiteralPair_spellings (codePoints : List Nat)
    (noPair : NoPair codePoints) :
    (spellings codePoints).IsChain fun first second =>
      ¬ LiteralPair first second := by
  induction codePoints using spellings.induct with
  | case1 =>
      rw [spellings]
      exact List.isChain_nil
  | case2 =>
      rw [spellings_backslash]
      exact List.isChain_singleton _
  | case3 second rest unit found induction =>
      rw [spellings_unicode found]
      apply List.isChain_cons.mpr
      refine ⟨?_, induction ?_⟩
      · intro next _ pair
        cases pair
      · exact List.IsChain.suffix noPair ((List.drop_suffix 4 rest).trans
          (List.suffix_append [backslash, second] rest))
  | case4 second rest missing induction =>
      rw [spellings_escape missing]
      apply List.isChain_cons.mpr
      refine ⟨?_, induction ?_⟩
      · intro next _ pair
        cases pair
      · exact List.IsChain.suffix noPair
          (List.suffix_append [backslash, second] rest)
  | case5 first rest other induction =>
      have chain := List.isChain_cons.mp noPair
      rw [spellings_literal other]
      apply List.isChain_cons.mpr
      refine ⟨?_, induction chain.2⟩
      intro next head pair
      cases pair with
      | mk high low => exact chain.1 _ (spellings_head head) ⟨high, low⟩

end Pairs

section Reading

namespace Spelling

variable {first second : Spelling} {value : Nat}

theorem denoted_transported (spelling : Spelling) :
    spelling.transported.denoted = spelling.denoted := by
  cases spelling with
  | literal codePoint =>
      by_cases surrogate : isSurrogate codePoint
      · rw [transported, denoted, if_pos surrogate, if_pos surrogate, denoted]
      · rw [transported, if_neg surrogate]
  | unicode unit => rfl
  | escape codePoint => rfl
  | backslash => rfl

theorem isSurrogate_of_isHigh {unit : Nat} (high : isHighSurrogate unit) :
    isSurrogate unit := by
  simp only [isHighSurrogate, isSurrogate, Bool.and_eq_true,
    decide_eq_true_eq] at high ⊢
  omega

theorem isSurrogate_of_isLow {unit : Nat} (low : isLowSurrogate unit) :
    isSurrogate unit := by
  simp only [isLowSurrogate, isSurrogate, Bool.and_eq_true,
    decide_eq_true_eq] at low ⊢
  omega

/-- A surrogate as a literal or as an escape. -/
inductive Surrogate (unit : Nat) : Spelling → Prop where
  | literal : Surrogate unit (.literal unit)
  | unicode : Surrogate unit (.unicode unit)

theorem surrogate_of_transported {spelling : Spelling} {unit : Nat}
    (same : spelling.transported = .unicode unit) :
    Surrogate unit spelling := by
  cases spelling with
  | literal codePoint =>
      rw [transported] at same
      by_cases surrogate : isSurrogate codePoint
      · rw [if_pos surrogate, unicode.injEq] at same
        rw [same]
        exact .literal
      · rw [if_neg surrogate] at same
        cases same
  | unicode other =>
      rw [transported, unicode.injEq] at same
      · rw [same]
        exact .unicode
      · intro _ other
        cases other
  | escape codePoint => cases same
  | backslash => cases same

theorem pair_eq_some (found : first.pair second = some value) :
    ∃ high low, isHighSurrogate high ∧ isLowSurrogate low ∧
      first = .unicode high ∧ second = .unicode low := by
  unfold pair at found
  split at found
  next high low =>
    by_cases both : isHighSurrogate high ∧ isLowSurrogate low
    · exact ⟨high, low, both.1, both.2, rfl, rfl⟩
    · rw [if_neg both] at found
      cases found
  next => cases found

/-- A low surrogate makes no pair with what follows it. -/
theorem pair_of_low {unit : Nat} (low : isLowSurrogate unit)
    (spelled : Surrogate unit first) (second : Spelling) :
    first.pair second = none := by
  cases found : first.pair second with
  | none => rfl
  | some value =>
      obtain ⟨high, _, isHigh, _, same, _⟩ := pair_eq_some found
      cases spelled with
      | literal => cases same
      | unicode =>
          rw [unicode.injEq] at same
          rw [← same, isLow_not_isHigh low] at isHigh
          cases isHigh

theorem pair_transported (calm : ¬ Clash first second)
    (apart : ¬ LiteralPair first second) :
    first.transported.pair second.transported = first.pair second := by
  cases found : first.transported.pair second.transported with
  | none =>
      cases other : first.pair second with
      | none => rfl
      | some value =>
          obtain ⟨_, _, _, _, sameFirst, sameSecond⟩ := pair_eq_some other
          rw [sameFirst, sameSecond] at found other
          exact found.symm.trans other
  | some value =>
      obtain ⟨high, low, isHigh, isLow, sameFirst, sameSecond⟩ :=
        pair_eq_some found
      have firstSpelled := surrogate_of_transported sameFirst
      have secondSpelled := surrogate_of_transported sameSecond
      cases firstSpelled with
      | literal =>
          cases secondSpelled with
          | literal => exact absurd (.mk isHigh isLow) apart
          | unicode => exact absurd (.literalHigh isHigh isLow) calm
      | unicode =>
          cases secondSpelled with
          | literal => exact absurd (.literalLow isHigh isLow) calm
          | unicode => exact found.symm

/-- Two parts that clash are transported to a pair. -/
theorem pair_of_clash (clash : Clash first second) :
    (∃ value, first.transported.pair second.transported = some value) ∧
      first.pair second = none ∧
      ∃ low, isLowSurrogate low ∧ Surrogate low second := by
  cases clash with
  | @literalHigh high low isHigh isLow =>
      refine ⟨⟨surrogatePair high low, ?_⟩, rfl, low, isLow, .unicode⟩
      rw [transported, if_pos (isSurrogate_of_isHigh isHigh)]
      exact if_pos ⟨isHigh, isLow⟩
  | @literalLow high low isHigh isLow =>
      have moved : (literal low).transported = .unicode low := by
        rw [transported, if_pos (isSurrogate_of_isLow isLow)]
      refine ⟨⟨surrogatePair high low, ?_⟩, rfl, low, isLow, .literal⟩
      rw [moved]
      exact if_pos ⟨isHigh, isLow⟩

end Spelling

open Spelling

theorem denote_low {unit : Nat} {first : Spelling} (low : isLowSurrogate unit)
    (spelled : Surrogate unit first) (rest : List Spelling) :
    denote (first :: rest) = first.denoted :: denote rest := by
  cases rest with
  | nil => rfl
  | cons second rest => rw [denote, pair_of_low low spelled]

theorem denote_pair {first second : Spelling} {value : Nat}
    (found : first.pair second = some value) (rest : List Spelling) :
    denote (first :: second :: rest) = .codePoint value :: denote rest := by
  rw [denote, found]

theorem denote_single {first second : Spelling}
    (missing : first.pair second = none) (rest : List Spelling) :
    denote (first :: second :: rest) =
      first.denoted :: denote (second :: rest) := by
  rw [denote, missing]

/-- A clash in front makes the transported reading shorter. -/
theorem length_denote_clash {first second : Spelling} {rest : List Spelling}
    (clash : Clash first second)
    (shorter : (denote (rest.map transported)).length ≤
      (denote rest).length) :
    (denote ((first :: second :: rest).map transported)).length <
      (denote (first :: second :: rest)).length := by
  obtain ⟨⟨value, paired⟩, missing, low, isLow, spelled⟩ := pair_of_clash clash
  rw [List.map_cons, List.map_cons, denote_pair paired, denote_single missing,
    denote_low isLow spelled, List.length_cons, List.length_cons,
    List.length_cons]
  omega

/-- What holds of the parts that a pattern is split into. -/
structure Comparable (parts : List Spelling) : Prop where
  shorter : (denote (parts.map transported)).length ≤ (denote parts).length
  same : denote (parts.map transported) = denote parts ↔
    parts.IsChain fun first second => ¬ Clash first second

theorem comparable_pair {first second : Spelling} {rest : List Spelling}
    {value : Nat} (found : first.pair second = some value)
    (apart : ¬ LiteralPair first second) (comparable : Comparable rest) :
    Comparable (first :: second :: rest) := by
  obtain ⟨high, low, _, isLow, sameFirst, sameSecond⟩ := pair_eq_some found
  have calm : ¬ Clash first second := by
    rw [sameFirst, sameSecond]
    intro clash
    cases clash
  have later : ∀ next, ¬ Clash second next := by
    rw [sameSecond]
    intro next clash
    cases clash with
    | literalLow isHigh _ =>
        rw [isLow_not_isHigh isLow] at isHigh
        cases isHigh
  have moved := pair_transported calm apart
  rw [found] at moved
  constructor
  · rw [List.map_cons, List.map_cons, denote_pair moved, denote_pair found,
      List.length_cons, List.length_cons]
    exact Nat.succ_le_succ comparable.shorter
  · rw [List.map_cons, List.map_cons, denote_pair moved, denote_pair found,
      List.cons.injEq, List.isChain_cons_cons, List.isChain_cons,
      comparable.same]
    constructor
    · intro both
      exact ⟨calm, fun next _ => later next, both.2⟩
    · intro chain
      exact ⟨rfl, chain.2.2⟩

theorem comparable_single {first second : Spelling} {rest : List Spelling}
    (missing : first.pair second = none) (calm : ¬ Clash first second)
    (apart : ¬ LiteralPair first second)
    (comparable : Comparable (second :: rest)) :
    Comparable (first :: second :: rest) := by
  have moved := pair_transported calm apart
  rw [missing] at moved
  have shorter := comparable.shorter
  have same := comparable.same
  rw [List.map_cons] at shorter same
  constructor
  · rw [List.map_cons, List.map_cons, denote_single moved,
      denote_single missing, List.length_cons, List.length_cons]
    exact Nat.succ_le_succ shorter
  · rw [List.map_cons, List.map_cons, denote_single moved,
      denote_single missing, List.cons.injEq, List.isChain_cons_cons, same,
      denoted_transported]
    constructor
    · intro both
      exact ⟨calm, both.2⟩
    · intro chain
      exact ⟨rfl, chain.2⟩

theorem comparable_clash {first second : Spelling} {rest : List Spelling}
    (clash : Clash first second) (comparable : Comparable rest) :
    Comparable (first :: second :: rest) := by
  have less := length_denote_clash clash comparable.shorter
  constructor
  · exact Nat.le_of_lt less
  · constructor
    · intro same
      rw [same] at less
      exact absurd less (Nat.lt_irrefl _)
    · intro chain
      exact absurd clash (List.isChain_cons_cons.mp chain).1

/-- The induction is on the length, as a pair takes two parts. -/
theorem comparable_of_noLiteralPair (parts : List Spelling)
    (noPair : parts.IsChain fun first second => ¬ LiteralPair first second) :
    Comparable parts := by
  induction count : parts.length using Nat.strong_induction_on
    generalizing parts with
  | _ count induction =>
      match parts with
      | [] => exact ⟨le_refl _, ⟨fun _ => List.isChain_nil, fun _ => rfl⟩⟩
      | [first] =>
          have same : denote ([first].map transported) = denote [first] := by
            rw [List.map_singleton, denote, denoted_transported, denote]
          exact ⟨by rw [same], fun _ => List.isChain_singleton _,
            fun _ => same⟩
      | first :: second :: rest =>
          rw [List.length_cons, List.length_cons] at count
          have chain := List.isChain_cons_cons.mp noPair
          have short : Comparable rest :=
            induction rest.length (by omega) rest chain.2.tail rfl
          have long : Comparable (second :: rest) :=
            induction (second :: rest).length
              (by rw [List.length_cons]; omega) _ chain.2 rfl
          by_cases clash : Clash first second
          · exact comparable_clash clash short
          · cases found : first.pair second with
            | some value => exact comparable_pair found chain.1 short
            | none => exact comparable_single found clash chain.1 long

end Reading

/-- The text for the parser is read as the pattern is exactly when no literal
surrogate of the pattern stands beside an escape of its other half. -/
theorem parserPatternSource_reading_iff (pattern : List UInt16)
    (limits : CompileLimits) (text : List Char)
    (accepted : parserPatternSource pattern true limits = .ok text) :
    reading (text.map Char.toNat) = reading (codePoints pattern) ↔
      KeepsApart pattern := by
  rw [parserPatternSource, Support.bind_eq_ok_iff] at accepted
  obtain ⟨outputBytes, _, accepted⟩ := accepted
  by_cases large : outputBytes > limits.maxPatternBytes
  · rw [if_pos large] at accepted
    cases accepted
  · rw [if_neg large] at accepted
    obtain ⟨moved, unescaped⟩ := sourceLoop_eq_ok _ _ _ _ accepted
    rw [List.map_nil, List.nil_append] at moved
    rw [moved, reading, reading, spellings_flatMap _ unescaped]
    exact (comparable_of_noLiteralPair _
      (noLiteralPair_spellings _ (noPair_codePoints pattern))).same

/-- A literal high surrogate, and an escaped low one that is not beside it. -/
theorem parserPatternSource_reading_apart :
    ∃ text, parserPatternSource [0xd83d, 0x2d, 0x5c, 0x75, 0x44, 0x45, 0x30,
        0x30] true { maxPatternBytes := 100 } = .ok text ∧
      KeepsApart [0xd83d, 0x2d, 0x5c, 0x75, 0x44, 0x45, 0x30, 0x30] := by
  have accepted : parserPatternSource [0xd83d, 0x2d, 0x5c, 0x75, 0x44, 0x45,
      0x30, 0x30] true { maxPatternBytes := 100 } =
        .ok "\\uD83D-\\uDE00".toList := by
    decide +kernel
  refine ⟨_, accepted, ?_⟩
  apply (parserPatternSource_reading_iff _ _ _ accepted).mp
  decide +kernel

/-- A literal high surrogate before an escape of a low one. -/
theorem parserPatternSource_joins :
    ∃ text, parserPatternSource [0xd83d, 0x5c, 0x75, 0x44, 0x45, 0x30, 0x30]
        true { maxPatternBytes := 100 } = .ok text ∧
      reading (codePoints [0xd83d, 0x5c, 0x75, 0x44, 0x45, 0x30, 0x30]) =
        [.codePoint 0xd83d, .codePoint 0xde00] ∧
      reading (text.map Char.toNat) = [.codePoint 0x1f600] :=
  ⟨"\\uD83D\\uDE00".toList, by decide +kernel, by decide +kernel,
    by decide +kernel⟩

end Fusor.RegExp
