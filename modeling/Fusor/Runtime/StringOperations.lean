import Fusor.Runtime.Rebalance

/-!
# Built strings

Every string built from leaves by concatenation and slicing has the content
its construction says, whatever its representation.  Its depth stays within
the limit as long as no concatenation rebalances a string that is too long
for its shortest leaf; a longer one can come out deeper than the iterator's
stack.
-/

namespace Fusor.Runtime

open Nat (fib fib_mono fib_add_two)

namespace JsString

theorem copyConcat_spec {left right : JsString} (leftFormed : left.WellFormed)
    (rightFormed : right.WellFormed) (leftLeaf : left.isLeaf = true)
    (rightLeaf : right.isLeaf = true)
    (bounded : left.len + right.len ≤ maxStringCodeUnits) :
    ∃ string, copyConcat left right = .ok string ∧ string.WellFormed ∧
      string.isLeaf = true ∧
      string.content = left.content ++ right.content := by
  have leftUnits := codeUnits_eq leftFormed (by
    rw [pending_of_isLeaf leftLeaf]
    exact Nat.zero_le _)
  have rightUnits := codeUnits_eq rightFormed (by
    rw [pending_of_isLeaf rightLeaf]
    exact Nat.zero_le _)
  have size : (left.content ++ right.content).length =
      left.len + right.len := by
    rw [List.length_append, leftFormed.len_eq, rightFormed.len_eq]
  rw [copyConcat, leftUnits, rightUnits]
  exact fromCodeUnits_eq_ok (Nat.le_of_eq size.symm) (by omega)

theorem depth_of_isLeaf {string : JsString} (leaf : string.isLeaf = true) :
    string.depth = 0 := by
  cases string with
  | latin1 units => rfl
  | utf16 units => rfl
  | rope left right len depth wide => cases leaf

theorem coarse_zero {string : JsString} (solid : string.Solid) :
    string.Coarse 0 := by
  refine ⟨solid, ?_⟩
  obtain ⟨formed, filled⟩ := solid
  induction formed with
  | latin1 bounded =>
      intro len member
      rw [List.mem_singleton.mp member]
      exact Nat.one_le_iff_ne_zero.mpr filled
  | utf16 bounded wide =>
      intro len member
      rw [List.mem_singleton.mp member]
      exact Nat.one_le_iff_ne_zero.mpr filled
  | join _ _ leftFilled rightFilled _ leftInduction rightInduction =>
      intro len member
      rcases List.mem_append.mp member with member | member
      · exact leftInduction leftFilled len member
      · exact rightInduction rightFilled len member

theorem newRope_eq_join {left right : JsString}
    (bounded : left.len + right.len ≤ maxStringCodeUnits)
    (shallow : max left.depth right.depth + 1 ≤ ropeMaxDepth) :
    newRope left right = .ok (left.join right) := by
  have fits : ¬ min 255 (max left.depth right.depth + 1) > ropeMaxDepth := by
    omega
  simp [newRope, checkedSum, Nat.not_lt.mpr bounded, fits, JsString.join,
    bind, Except.bind]

theorem newRope_eq_rebalance {left right : JsString}
    (bounded : left.len + right.len ≤ maxStringCodeUnits)
    (deep : ropeMaxDepth < max left.depth right.depth + 1) :
    newRope left right = rebalance left right := by
  have exceeds : min 255 (max left.depth right.depth + 1) > ropeMaxDepth := by
    simp only [ropeMaxDepth] at *
    omega
  simp [newRope, checkedSum, Nat.not_lt.mpr bounded, exceeds, bind,
    Except.bind]

theorem newRope_spec {left right : JsString} (leftSolid : left.Solid)
    (rightSolid : right.Solid)
    (bounded : left.len + right.len ≤ maxStringCodeUnits) :
    ∃ string, newRope left right = .ok string ∧ string.WellFormed ∧
      string.content = left.content ++ right.content := by
  by_cases shallow : max left.depth right.depth + 1 ≤ ropeMaxDepth
  · exact ⟨_, newRope_eq_join bounded shallow,
      .join leftSolid.1 rightSolid.1 leftSolid.2 rightSolid.2 bounded, rfl⟩
  · obtain ⟨string, balanced, gathered, same⟩ :=
      rebalance_spec (coarse_zero leftSolid) (coarse_zero rightSolid) bounded
    exact ⟨string, (newRope_eq_rebalance bounded (by omega)).trans balanced,
      gathered.formed, same⟩

/-- The five ways of concatenating two strings that are not too long. -/
inductive ConcatCase (left right : JsString) : Prop where
  | leftEmpty (empty : left.len = 0)
      (equation : concat left right = .ok right)
  | rightEmpty (empty : right.len = 0)
      (equation : concat left right = .ok left)
  | copied (leftLeaf : left.isLeaf = true) (rightLeaf : right.isLeaf = true)
      (equation : concat left right = copyConcat left right)
  | mergedRight (first last : JsString) (len depth : Nat) (wide : Bool)
      (shape : left = rope first last len depth wide)
      (lastLeaf : last.isLeaf = true) (rightLeaf : right.isLeaf = true)
      (equation : concat left right = (copyConcat last right).bind
        fun merged => newRope first merged)
  | mergedLeft (first last : JsString) (len depth : Nat) (wide : Bool)
      (shape : right = rope first last len depth wide)
      (leftLeaf : left.isLeaf = true) (firstLeaf : first.isLeaf = true)
      (equation : concat left right = (copyConcat left first).bind
        fun merged => newRope merged last)
  | joined (leftFilled : left.len ≠ 0) (rightFilled : right.len ≠ 0)
      (equation : concat left right = newRope left right)

theorem concat_eq {left right : JsString}
    (bounded : left.len + right.len ≤ maxStringCodeUnits) :
    concat left right =
      if left.isEmpty then .ok right
      else if right.isEmpty then .ok left
      else concatFilled left right := by
  rw [concat, checkedSum, if_neg (Nat.not_lt.mpr bounded)]
  rfl

theorem concatFilled_cases {left right : JsString}
    (leftFilled : left.len ≠ 0) (rightFilled : right.len ≠ 0)
    (equation : concat left right = concatFilled left right) :
    ConcatCase left right := by
  unfold concatFilled at equation
  by_cases rightShort : right.isLeaf ∧ right.len ≤ ropeShortLen
  · by_cases leftShort : left.isLeaf ∧ left.len ≤ ropeShortLeftLen
    · rw [if_pos rightShort, if_pos leftShort] at equation
      exact .copied leftShort.1 rightShort.1 equation
    · rw [if_pos rightShort, if_neg leftShort] at equation
      cases left with
      | latin1 units => exact .joined leftFilled rightFilled equation
      | utf16 units => exact .joined leftFilled rightFilled equation
      | rope first last len depth wide =>
          by_cases lastShort : last.isLeaf ∧ last.len ≤ ropeShortLen
          · exact .mergedRight first last len depth wide rfl lastShort.1
              rightShort.1 (equation.trans (if_pos lastShort))
          · exact .joined leftFilled rightFilled
              (equation.trans (if_neg lastShort))
  · rw [if_neg rightShort] at equation
    by_cases leftLeaf : left.isLeaf
    · rw [if_pos leftLeaf] at equation
      cases right with
      | latin1 units => exact .joined leftFilled rightFilled equation
      | utf16 units => exact .joined leftFilled rightFilled equation
      | rope first last len depth wide =>
          by_cases firstShort : first.isLeaf ∧ first.len ≤ ropeShortLen
          · exact .mergedLeft first last len depth wide rfl leftLeaf
              firstShort.1 (equation.trans (if_pos firstShort))
          · exact .joined leftFilled rightFilled
              (equation.trans (if_neg firstShort))
    · rw [if_neg leftLeaf] at equation
      exact .joined leftFilled rightFilled equation

theorem concat_cases {left right : JsString}
    (bounded : left.len + right.len ≤ maxStringCodeUnits) :
    ConcatCase left right := by
  have equation := concat_eq bounded
  by_cases leftEmpty : left.len = 0
  · exact .leftEmpty leftEmpty (by simp [equation, isEmpty, leftEmpty])
  by_cases rightEmpty : right.len = 0
  · exact .rightEmpty rightEmpty (by
      simp [equation, isEmpty, leftEmpty, rightEmpty])
  exact concatFilled_cases leftEmpty rightEmpty (by
    simp [equation, isEmpty, leftEmpty, rightEmpty])

theorem content_of_empty {string : JsString} (formed : string.WellFormed)
    (empty : string.len = 0) : string.content = [] := by
  rw [formed.len_eq] at empty
  exact List.eq_nil_of_length_eq_zero empty

theorem concat_spec {left right : JsString} (leftFormed : left.WellFormed)
    (rightFormed : right.WellFormed)
    (bounded : left.len + right.len ≤ maxStringCodeUnits) :
    ∃ string, concat left right = .ok string ∧ string.WellFormed ∧
      string.content = left.content ++ right.content := by
  cases concat_cases bounded with
  | leftEmpty empty equation =>
      refine ⟨right, equation, rightFormed, ?_⟩
      rw [content_of_empty leftFormed empty, List.nil_append]
  | rightEmpty empty equation =>
      refine ⟨left, equation, leftFormed, ?_⟩
      rw [content_of_empty rightFormed empty, List.append_nil]
  | copied leftLeaf rightLeaf equation =>
      obtain ⟨string, copied, formed, _, same⟩ :=
        copyConcat_spec leftFormed rightFormed leftLeaf rightLeaf bounded
      exact ⟨string, equation.trans copied, formed, same⟩
  | mergedRight first last len depth wide shape lastLeaf rightLeaf equation =>
      subst shape
      cases leftFormed with
      | join firstFormed lastFormed firstFilled lastFilled leftBounded =>
          rw [show (rope first last _ _ _).len = first.len + last.len from rfl]
            at bounded
          obtain ⟨merged, copied, mergedFormed, _, mergedText⟩ :=
            copyConcat_spec lastFormed rightFormed lastLeaf rightLeaf (by omega)
          have mergedLen : merged.len = last.len + right.len := by
            rw [mergedFormed.len_eq, mergedText, List.length_append,
              lastFormed.len_eq, rightFormed.len_eq]
          obtain ⟨string, joined, formed, same⟩ :=
            newRope_spec ⟨firstFormed, firstFilled⟩
              ⟨mergedFormed, by omega⟩ (by omega)
          refine ⟨string, ?_, formed, ?_⟩
          · rw [equation, copied]
            exact joined
          · rw [same, mergedText, ← List.append_assoc]
            rfl
  | mergedLeft first last len depth wide shape leftLeaf firstLeaf equation =>
      subst shape
      cases rightFormed with
      | join firstFormed lastFormed firstFilled lastFilled rightBounded =>
          rw [show (rope first last _ _ _).len = first.len + last.len from rfl]
            at bounded
          obtain ⟨merged, copied, mergedFormed, _, mergedText⟩ :=
            copyConcat_spec leftFormed firstFormed leftLeaf firstLeaf (by omega)
          have mergedLen : merged.len = left.len + first.len := by
            rw [mergedFormed.len_eq, mergedText, List.length_append,
              leftFormed.len_eq, firstFormed.len_eq]
          obtain ⟨string, joined, formed, same⟩ :=
            newRope_spec ⟨mergedFormed, by omega⟩
              ⟨lastFormed, lastFilled⟩ (by omega)
          refine ⟨string, ?_, formed, ?_⟩
          · rw [equation, copied]
            exact joined
          · rw [same, mergedText, List.append_assoc]
            rfl
  | joined leftFilled rightFilled equation =>
      obtain ⟨string, joined, formed, same⟩ :=
        newRope_spec ⟨leftFormed, leftFilled⟩ ⟨rightFormed, rightFilled⟩ bounded
      exact ⟨string, equation.trans joined, formed, same⟩

theorem concat_too_long {left right : JsString}
    (long : maxStringCodeUnits < left.len + right.len) :
    concat left right =
      .error (.tooLong (left.len + right.len) maxStringCodeUnits) := by
  simp [concat, checkedSum, long, bind, Except.bind]

/-- The strings built by finitely many operations, when every concatenation
is an allowed one. -/
inductive Built (allowed : JsString → JsString → Prop) : JsString → Prop where
  | fromLatin1 {units : List UInt8} {string : JsString}
      (result : fromLatin1 units = .ok string) : Built allowed string
  | fromCodeUnits {lowerBound : Nat} {units : List UInt16} {string : JsString}
      (hint : lowerBound ≤ units.length)
      (result : fromCodeUnits lowerBound units = .ok string) :
      Built allowed string
  | fromUtf8 {lowerBound : Nat} {text : List Char} {string : JsString}
      (hint : lowerBound ≤ (encodeUtf16 text).length)
      (result : fromUtf8 lowerBound text = .ok string) : Built allowed string
  | concat {left right string : JsString} (leftBuilt : Built allowed left)
      (rightBuilt : Built allowed right) (step : allowed left right)
      (result : concat left right = .ok string) : Built allowed string
  | slice {whole part : JsString} {start stop : Nat}
      (built : Built allowed whole)
      (result : whole.slice start stop = .ok part) : Built allowed part

theorem collectCodeUnits_length {units : List UInt16} {narrow : List UInt8}
    {buffer : Option (List UInt16)} {string : JsString}
    (start : buffer.elim narrow.length List.length ≤ maxStringCodeUnits)
    (collected : collectCodeUnits units narrow buffer = .ok string) :
    buffer.elim narrow.length List.length + units.length ≤
      maxStringCodeUnits := by
  induction units generalizing narrow buffer with
  | nil => exact start
  | cons unit units induction =>
      simp only [List.length_cons]
      cases buffer with
      | some wide =>
          rw [Option.elim_some] at *
          by_cases full : wide.length = maxStringCodeUnits
          · simp [collectCodeUnits, full] at collected
          · simp only [collectCodeUnits, Option.elim_some, full,
              ↓reduceIte] at collected
            have rest := induction (by
              simp only [Option.elim_some, List.length_append,
                List.length_singleton]
              omega) collected
            simp only [Option.elim_some, List.length_append,
              List.length_singleton] at rest
            omega
      | none =>
          rw [Option.elim_none] at *
          by_cases full : narrow.length = maxStringCodeUnits
          · simp [collectCodeUnits, full] at collected
          · simp only [collectCodeUnits, Option.elim_none, full,
              ↓reduceIte] at collected
            split at collected
            · have rest := induction (by
                simp only [Option.elim_none, List.length_append,
                  List.length_singleton]
                omega) collected
              simp only [Option.elim_none, List.length_append,
                List.length_singleton] at rest
              omega
            · have rest := induction (by
                simp only [Option.elim_some, List.length_append,
                  List.length_map, List.length_singleton]
                omega) collected
              simp only [Option.elim_some, List.length_append,
                List.length_map, List.length_singleton] at rest
              omega

theorem fromCodeUnits_wellFormed {lowerBound : Nat} {units : List UInt16}
    {string : JsString} (hint : lowerBound ≤ units.length)
    (built : fromCodeUnits lowerBound units = .ok string) :
    string.WellFormed ∧ string.isLeaf = true ∧ string.content = units := by
  have bounded : units.length ≤ maxStringCodeUnits := by
    have collected := built
    rw [fromCodeUnits] at collected
    split at collected
    · cases collected
    · simpa using collectCodeUnits_length (Nat.zero_le _) collected
  obtain ⟨other, builtAgain, formed, leaf, same⟩ :=
    fromCodeUnits_eq_ok hint bounded
  rw [built] at builtAgain
  cases builtAgain
  exact ⟨formed, leaf, same⟩

theorem Built.wellFormed {allowed : JsString → JsString → Prop}
    {string : JsString} (built : Built allowed string) :
    string.WellFormed := by
  induction built with
  | fromLatin1 result => exact (fromLatin1_wellFormed result).1
  | fromCodeUnits hint result => exact (fromCodeUnits_wellFormed hint result).1
  | fromUtf8 hint result => exact (fromCodeUnits_wellFormed hint result).1
  | @concat left right string _ _ _ result leftInduction rightInduction =>
      by_cases bounded : left.len + right.len ≤ maxStringCodeUnits
      · obtain ⟨other, joined, formed, _⟩ :=
          concat_spec leftInduction rightInduction bounded
        rw [result] at joined
        cases joined
        exact formed
      · rw [concat_too_long (Nat.lt_of_not_le bounded)] at result
        cases result
  | slice _ result induction => exact (slice_inversion induction result).1

/-- Whatever the representation, a built string has its content: only slicing
depends on the shape, through the stack of the iterator. -/
theorem built_exact {left right : JsString}
    (leftBuilt : Built (fun _ _ => True) left)
    (rightBuilt : Built (fun _ _ => True) right) :
    (∀ string, concat left right = .ok string →
        string.content = left.content ++ right.content) ∧
      ((∃ failure, concat left right = .error failure) ↔
        maxStringCodeUnits < left.len + right.len) ∧
      left.len = left.content.length ∧
      (left.isLatin1 = true ↔ ∀ unit ∈ left.content, unit < 256) ∧
      (∀ index, left.codeUnitAt index = left.content[index]?) ∧
      (∀ leaves : List JsString,
        (∀ leaf ∈ leaves, leaf.Solid) →
        (leaves.flatMap content).length ≤ maxStringCodeUnits →
        ∃ buckets result,
          fillBuckets leaves (List.replicate ropeBucketLengths.length none) =
            .ok buckets ∧
          joinBuckets buckets none = .ok result) ∧
      ((∀ start stop, start ≤ stop → stop ≤ left.len →
          ∃ part, left.slice start stop = .ok part ∧
            part.content = (left.content.drop start).take (stop - start)) ↔
        left.pending ≤ ropeIterStackCapacity) := by
  have leftFormed := leftBuilt.wellFormed
  have rightFormed := rightBuilt.wellFormed
  refine ⟨?_, ?_, leftFormed.len_eq, leftFormed.isLatin1_iff,
    leftFormed.codeUnitAt_eq, ?_, ?_⟩
  · intro string joined
    by_cases bounded : left.len + right.len ≤ maxStringCodeUnits
    · obtain ⟨other, joinedAgain, _, same⟩ :=
        concat_spec leftFormed rightFormed bounded
      rw [joined] at joinedAgain
      cases joinedAgain
      exact same
    · rw [concat_too_long (Nat.lt_of_not_le bounded)] at joined
      cases joined
  · constructor
    · rintro ⟨failure, failed⟩
      by_contra fits
      obtain ⟨string, joined, _⟩ :=
        concat_spec leftFormed rightFormed (Nat.le_of_not_lt fits)
      rw [failed] at joined
      cases joined
    · intro long
      exact ⟨_, concat_too_long long⟩
  · intro leaves solid bounded
    obtain ⟨buckets, result, filling, joining, _⟩ :=
      fill_then_join_spec (fun leaf member => coarse_zero (solid leaf member))
        bounded
    exact ⟨buckets, result, filling, joining⟩
  · constructor
    · intro slices
      by_cases flat : left.pending = 0
      · omega
      · have long := leftFormed.one_lt_len_of_pending flat
        obtain ⟨part, sliced, _⟩ := slices 1 left.len (by omega) (by omega)
        exact pending_of_slice leftFormed sliced
    · intro shallow start stop ordered inside
      obtain ⟨part, sliced, _, same⟩ :=
        slice_of_pending leftFormed shallow ordered inside
      exact ⟨part, sliced, same⟩

theorem built_exact_mixedWidths :
    (∀ string, concat (latin1 [97, 98]) (utf16 [256]) = .ok string →
        string.content = [97, 98, 256]) ∧
      (¬ ∃ failure, concat (latin1 [97, 98]) (utf16 [256]) =
        .error failure) ∧
      ∃ part, (latin1 [97, 98]).slice 1 2 = .ok part ∧
        part.content = [98] := by
  have exact := @built_exact (latin1 [97, 98]) (utf16 [256])
    (@Built.fromLatin1 _ [97, 98] _ (by decide))
    (@Built.fromCodeUnits _ 1 [256] _ (by decide) (by decide))
  obtain ⟨joins, fails, _, _, _, _, slices⟩ := exact
  refine ⟨joins, ?_, ?_⟩
  · rw [fails]
    decide
  · exact slices.mpr (by decide) 1 2 (by decide) (by decide)

end JsString

end Fusor.Runtime
