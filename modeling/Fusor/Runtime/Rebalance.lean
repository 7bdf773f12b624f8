import Fusor.Runtime.StringIteration

/-!
# Rebalancing through Fibonacci buckets

Bucket `i` holds a string of at least `fib (i + 2)` units whose text comes
before the text of every lower bucket.  When no leaf is shorter than
`fib (p + 2)`, a string in bucket `i` has depth at most `2 * (i - p) - 1`,
and reaching a depth takes at least the length `weight p depth`.
-/

namespace Fusor.Runtime

open Nat (fib fib_mono fib_add_two)

theorem ropeBucketLengths_eq :
    ropeBucketLengths = (List.range 44).map fun index => fib (index + 2) := by
  decide +kernel

theorem ropeBucketLengths_getElem {index : Nat}
    (inside : index < ropeBucketLengths.length) :
    ropeBucketLengths[index] = fib (index + 2) := by
  simp [ropeBucketLengths_eq]

theorem maxStringCodeUnits_lt : maxStringCodeUnits < fib 45 := by
  decide +kernel

/-- The least additional length for one more level. -/
def weightStep (least : Nat) : Nat → Nat
  | 0 => fib (least + 2)
  | depth + 1 =>
      if depth % 2 = 0 then
        fib (least + depth / 2 + 3)
      else
        fib (least + depth / 2 + 2) + fib (least + 2)

/-- The least length of a string of the given depth in a bucket, when no leaf
falls below the bucket `least`. -/
def weight (least : Nat) : Nat → Nat
  | 0 => fib (least + 2)
  | depth + 1 => weight least depth + weightStep least depth

theorem weightStep_odd (least half : Nat) :
    weightStep least (2 * half + 1) = fib (least + half + 3) := by
  simp [weightStep]

theorem weightStep_even (least half : Nat) :
    weightStep least (2 * half + 2) =
      fib (least + half + 2) + fib (least + 2) := by
  have parity : (2 * half + 1) % 2 ≠ 0 := by omega
  have quotient : (2 * half + 1) / 2 = half := by omega
  simp only [weightStep, quotient, parity, ↓reduceIte]

theorem depth_cases (depth : Nat) :
    depth = 0 ∨ (∃ half, depth = 2 * half + 1) ∨
      ∃ half, depth = 2 * half + 2 := by
  rcases Nat.even_or_odd' depth with ⟨half, even | odd⟩
  · cases half with
    | zero => exact .inl even
    | succ half => exact .inr (.inr ⟨half, by omega⟩)
  · exact .inr (.inl ⟨half, odd⟩)

theorem weight_mono (least : Nat) : Monotone (weight least) :=
  monotone_nat_of_le_succ fun _ => Nat.le_add_right _ _

theorem fib_add_le {small large bound : Nat} (ordered : small ≤ large + 1)
    (below : large + 2 ≤ bound) : fib large + fib small ≤ fib bound :=
  calc
    fib large + fib small ≤ fib large + fib (large + 1) :=
      Nat.add_le_add_left (fib_mono ordered) _
    _ = fib (large + 2) := fib_add_two.symm
    _ ≤ fib bound := fib_mono below

theorem weightStep_le {least index depth : Nat} (above : least ≤ index)
    (shallow : depth ≤ 2 * (index - least) - 1) :
    weightStep least depth ≤ fib (index + 2) := by
  rcases depth_cases depth with rfl | ⟨half, rfl⟩ | ⟨half, rfl⟩
  · exact fib_mono (by omega)
  · rw [weightStep_odd]
    exact fib_mono (by omega)
  · rw [weightStep_even]
    exact fib_add_le (by omega) (by omega)

theorem weightStep_add_le {least index depth : Nat} (above : least < index)
    (shallow : depth + 1 ≤ 2 * (index - 1 - least)) :
    weightStep least depth + weightStep least (depth + 1) ≤
      fib (index + 2) + fib (least + 2) := by
  rcases depth_cases depth with rfl | ⟨half, rfl⟩ | ⟨half, rfl⟩
  · have next : fib (least + 3) ≤ fib (index + 2) := fib_mono (by omega)
    have first := weightStep_odd least 0
    simp only [weightStep, Nat.zero_add, Nat.add_zero] at *
    omega
  · have bound : fib (least + half + 2) + fib (least + half + 3) ≤
        fib (index + 2) := fib_add_le (by omega) (by omega)
    rw [weightStep_odd, weightStep_even]
    omega
  · have bound : fib (least + half + 3) + fib (least + half + 4) ≤
        fib (index + 2) := fib_add_le (by omega) (by omega)
    have smaller : fib (least + half + 2) ≤ fib (least + half + 3) :=
      fib_mono (by omega)
    have odd := weightStep_odd least (half + 1)
    rw [weightStep_even, show 2 * half + 2 + 1 = 2 * (half + 1) + 1 by omega,
      odd, show least + (half + 1) + 3 = least + half + 4 by omega]
    omega

/-- The length at which a rope of even depth becomes possible. -/
theorem weight_even (least half : Nat) :
    weight least (2 * half + 2) + 2 * fib (least + 3) =
      fib (least + half + 5) + fib (least + half + 3) +
        (half + 1) * fib (least + 2) := by
  induction half with
  | zero =>
      have four : fib (least + 4) = fib (least + 2) + fib (least + 3) :=
        fib_add_two
      have five : fib (least + 5) = fib (least + 3) + fib (least + 4) :=
        fib_add_two
      simp only [weight, weightStep, Nat.zero_add, Nat.add_zero, Nat.zero_mod,
        Nat.zero_div, ↓reduceIte, Nat.one_mul]
      omega
  | succ half induction =>
      have steps : weight least (2 * (half + 1) + 2) =
          weight least (2 * half + 2) + (fib (least + half + 2) +
            fib (least + 2)) + fib (least + (half + 1) + 3) := by
        rw [← weightStep_even, ← weightStep_odd]
        rfl
      have four : fib (least + half + 4) =
          fib (least + half + 2) + fib (least + half + 3) := fib_add_two
      have six : fib (least + half + 6) =
          fib (least + half + 4) + fib (least + half + 5) := fib_add_two
      rw [show least + (half + 1) + 3 = least + half + 4 by omega] at *
      rw [steps, Nat.add_mul (half + 1) 1, Nat.one_mul,
        show least + (half + 1) + 5 = least + half + 6 by omega]
      omega

namespace JsString

/-- A string that may stand in the bucket of the given index. -/
structure Bucketed (least index : Nat) (string : JsString) : Prop where
  formed : string.WellFormed
  above : least ≤ index
  fills : fib (index + 2) ≤ string.len
  shallow : string.depth ≤ 2 * (index - least) - 1
  heavy : weight least string.depth ≤ string.len

/-- A string joined from buckets below the given index. -/
structure Gathered (least index : Nat) (string : JsString) : Prop where
  formed : string.WellFormed
  above : least < index
  filled : fib (least + 2) ≤ string.len
  shallow : string.depth ≤ 2 * (index - 1 - least)
  heavy : string.depth = 0 ∨
    weight least (string.depth - 1) + fib (least + 2) ≤ string.len

theorem fib_add_two_pos (index : Nat) : 0 < fib (index + 2) :=
  Nat.fib_pos.mpr (by omega)

theorem fib_le_weightStep (least depth : Nat) :
    fib (least + 2) ≤ weightStep least depth := by
  rcases depth_cases depth with rfl | ⟨half, rfl⟩ | ⟨half, rfl⟩
  · exact Nat.le_refl _
  · rw [weightStep_odd]
    exact fib_mono (by omega)
  · rw [weightStep_even]
    exact Nat.le_add_left _ _

namespace Bucketed

variable {least index : Nat} {string left right : JsString}

theorem filled (bucketed : string.Bucketed least index) : string.len ≠ 0 := by
  have positive := fib_add_two_pos index
  have fills := bucketed.fills
  omega

theorem gathered (bucketed : string.Bucketed least index) :
    string.Gathered least (index + 1) := by
  obtain ⟨formed, above, fills, shallow, heavy⟩ := bucketed
  refine ⟨formed, by omega, ?_, by omega, ?_⟩
  · exact Nat.le_trans (fib_mono (by omega)) fills
  · cases deep : string.depth with
    | zero => exact .inl rfl
    | succ depth =>
        right
        rw [deep, weight] at heavy
        have step := fib_le_weightStep least depth
        rw [Nat.add_sub_cancel]
        omega

/-- Two strings of one bucket joined belong to the next. -/
theorem join (leftBucketed : left.Bucketed least index)
    (rightBucketed : right.Bucketed least index)
    (bounded : left.len + right.len ≤ maxStringCodeUnits) :
    (left.join right).Bucketed least (index + 1) := by
  have leftFilled := leftBucketed.filled
  have rightFilled := rightBucketed.filled
  obtain ⟨leftFormed, above, leftFills, leftShallow, leftHeavy⟩ := leftBucketed
  obtain ⟨rightFormed, _, rightFills, rightShallow, rightHeavy⟩ := rightBucketed
  have smaller : fib (index + 1) ≤ fib (index + 2) := fib_mono (by omega)
  have next : fib (index + 1 + 2) = fib (index + 1) + fib (index + 2) :=
    fib_add_two
  refine ⟨.join leftFormed rightFormed leftFilled rightFilled bounded,
    by omega, ?_, ?_, ?_⟩
  · rw [len_join]
    omega
  · rw [depth_join]
    omega
  · have step := @weightStep_le least index (max left.depth right.depth) above
      (by omega)
    have taller : weight least (max left.depth right.depth) + fib (index + 2) ≤
        left.len + right.len := by
      rcases Nat.le_total left.depth right.depth with ordered | ordered
      · rw [max_eq_right ordered]
        omega
      · rw [max_eq_left ordered]
        omega
    calc
      weight least (left.join right).depth ≤
          weight least (max left.depth right.depth + 1) :=
        weight_mono least (by rw [depth_join]; omega)
      _ ≤ left.len + right.len := by
        rw [weight]
        omega

end Bucketed

namespace Gathered

variable {least index : Nat} {left right leaf : JsString}

theorem nonempty (gathered : right.Gathered least index) : right.len ≠ 0 := by
  have positive := fib_add_two_pos least
  have filled := gathered.filled
  omega

theorem mono {larger : Nat} (gathered : right.Gathered least index)
    (ordered : index ≤ larger) : right.Gathered least larger := by
  obtain ⟨formed, above, filled, shallow, heavy⟩ := gathered
  exact ⟨formed, by omega, filled, by omega, heavy⟩

/-- The string of a bucket joined with what lies below it. -/
theorem join (bucketed : left.Bucketed least index)
    (gathered : right.Gathered least index)
    (bounded : left.len + right.len ≤ maxStringCodeUnits) :
    (left.join right).Gathered least (index + 1) := by
  have leftFilled := bucketed.filled
  have rightFilled := gathered.nonempty
  obtain ⟨leftFormed, _, leftFills, leftShallow, leftHeavy⟩ := bucketed
  obtain ⟨rightFormed, above, filled, rightShallow, rightHeavy⟩ := gathered
  refine ⟨.join leftFormed rightFormed leftFilled rightFilled bounded,
    by omega, ?_, ?_, .inr ?_⟩
  · rw [len_join]
    omega
  · rw [depth_join]
    omega
  · have taller : weight least (max left.depth right.depth) +
        fib (least + 2) ≤ left.len + right.len := by
      rcases Nat.le_total right.depth left.depth with ordered | ordered
      · rw [max_eq_left ordered]
        omega
      · rw [max_eq_right ordered]
        rcases rightHeavy with flat | heavy
        · have base : weight least 0 = fib (least + 2) := rfl
          have larger : fib (least + 2) ≤ fib (index + 2) :=
            fib_mono (by omega)
          rw [flat]
          omega
        · cases deep : right.depth with
          | zero =>
              have base : weight least 0 = fib (least + 2) := rfl
              have larger : fib (least + 2) ≤ fib (index + 2) :=
                fib_mono (by omega)
              omega
          | succ depth =>
              rw [deep, Nat.add_sub_cancel] at heavy
              have step := @weightStep_le least index depth (by omega)
                (by omega)
              rw [weight]
              omega
    calc
      weight least ((left.join right).depth - 1) + fib (least + 2) ≤
          weight least (max left.depth right.depth) + fib (least + 2) :=
        Nat.add_le_add_right (weight_mono least (by rw [depth_join]; omega)) _
      _ ≤ left.len + right.len := taller

/-- A leaf joined to everything below its bucket may stand in it. -/
theorem join_leaf (gathered : left.Gathered least index)
    (formed : leaf.WellFormed) (flat : leaf.depth = 0)
    (fills : fib (index + 2) ≤ leaf.len)
    (bounded : left.len + leaf.len ≤ maxStringCodeUnits) :
    (left.join leaf).Bucketed least index := by
  have leftFilled := gathered.nonempty
  have leafFilled : leaf.len ≠ 0 := by
    have positive := fib_add_two_pos index
    omega
  obtain ⟨leftFormed, above, filled, shallow, heavy⟩ := gathered
  have deep : (left.join leaf).depth ≤ left.depth + 1 := by
    rw [depth_join, flat]
    omega
  refine ⟨.join leftFormed formed leftFilled leafFilled bounded, by omega,
    ?_, by omega, ?_⟩
  · rw [len_join]
    omega
  · have enough : weight least (left.depth + 1) ≤ left.len + leaf.len := by
      have larger : fib (least + 2) ≤ fib (index + 2) := fib_mono (by omega)
      cases deep : left.depth with
      | zero =>
          have base : weight least (0 + 1) = fib (least + 2) + fib (least + 2) :=
            rfl
          omega
      | succ depth =>
          rw [deep, Nat.add_sub_cancel] at heavy
          have steps := @weightStep_add_le least index depth above (by omega)
          rw [weight, weight]
          omega
    exact Nat.le_trans (weight_mono least deep) enough

end Gathered

/-- Every occupied bucket holds a string that may stand there. -/
def Filled (least : Nat) : Nat → List (Option JsString) → Prop
  | _, [] => True
  | index, bucket :: buckets =>
      (∀ string, bucket = some string → string.Bucketed least index) ∧
        Filled least (index + 1) buckets

def Aggregated (least index : Nat) (aggregate : Option JsString) : Prop :=
  ∀ string, aggregate = some string → string.Gathered least index

def optionText (aggregate : Option JsString) : List UInt16 :=
  aggregate.elim [] content

/-- The text in the buckets; the highest bucket holds the earliest text. -/
def bucketText : List (Option JsString) → List UInt16
  | [] => []
  | bucket :: buckets => bucketText buckets ++ optionText bucket

theorem filled_replicate (least index count : Nat) :
    Filled least index (List.replicate count none) := by
  induction count generalizing index with
  | zero => trivial
  | succ count induction => exact ⟨by simp, induction (index + 1)⟩

theorem bucketText_replicate (count : Nat) :
    bucketText (List.replicate count none) = [] := by
  induction count with
  | zero => rfl
  | succ count induction =>
      simp [List.replicate_succ, bucketText, induction, optionText]

theorem filled_replicate_append {least index count : Nat}
    {buckets : List (Option JsString)}
    (filled : Filled least (index + count) buckets) :
    Filled least index (List.replicate count none ++ buckets) := by
  induction count generalizing index with
  | zero => exact filled
  | succ count induction =>
      exact ⟨by simp, induction (by
        rwa [Nat.add_assoc, Nat.add_comm 1 count])⟩

theorem bucketText_replicate_append (count : Nat)
    (buckets : List (Option JsString)) :
    bucketText (List.replicate count none ++ buckets) = bucketText buckets := by
  induction count with
  | zero => rfl
  | succ count induction =>
      simp [List.replicate_succ, bucketText, induction, optionText]

theorem prepend_spec {least index : Nat} {bucket aggregate : Option JsString}
    (bucketed : ∀ string, bucket = some string →
      string.Bucketed least index)
    (aggregated : Aggregated least index aggregate)
    (bounded : (optionText bucket ++ optionText aggregate).length ≤
      maxStringCodeUnits) :
    ∃ next, prepend bucket aggregate = .ok next ∧
      Aggregated least (index + 1) next ∧
      optionText next = optionText bucket ++ optionText aggregate := by
  cases bucket with
  | none =>
      refine ⟨aggregate, rfl, ?_, rfl⟩
      intro string same
      exact (aggregated string same).mono (Nat.le_succ index)
  | some left =>
      have leftBucketed := bucketed left rfl
      cases aggregate with
      | none =>
          refine ⟨some left, rfl, ?_, by simp [optionText]⟩
          rintro _ ⟨⟩
          exact leftBucketed.gathered
      | some right =>
          have gathered := aggregated right rfl
          have room : left.len + right.len ≤ maxStringCodeUnits := by
            rw [leftBucketed.formed.len_eq, gathered.formed.len_eq]
            simpa [optionText] using bounded
          refine ⟨some (left.join right), ?_, ?_, by simp [optionText]⟩
          · rw [prepend, newRopeNode_eq room]
            rfl
          · rintro _ ⟨⟩
            exact .join leftBucketed gathered room

theorem drop_ropeBucketLengths {index : Nat} (inside : index < 43) :
    ropeBucketLengths.drop (index + 1) =
      fib (index + 3) :: ropeBucketLengths.drop (index + 2) := by
  have bound : index + 1 < ropeBucketLengths.length := by
    change index + 1 < 44
    omega
  rw [List.drop_eq_getElem_cons bound, ropeBucketLengths_getElem bound]

/-- Collecting stops at the bucket of the length. -/
theorem collectLower_spec {least index len : Nat} (small : len < fib 45)
    {buckets : List (Option JsString)} {aggregate : Option JsString}
    (count : buckets.length + index = 44)
    (reached : index < 44) (base : index = 0 ∨ fib (index + 2) ≤ len)
    (filled : Filled least index buckets)
    (aggregated : Aggregated least index aggregate)
    (bounded : (bucketText buckets ++ optionText aggregate).length ≤
      maxStringCodeUnits) :
    ∃ steps rest final,
      collectLower len (ropeBucketLengths.drop (index + 1)) buckets aggregate =
        .ok (steps, rest, final) ∧
      rest.length + (index + steps) = 44 ∧
      Filled least (index + steps) rest ∧
      Aggregated least (index + steps) final ∧
      bucketText rest ++ optionText final =
        bucketText buckets ++ optionText aggregate ∧
      (index + steps = 0 ∨ fib (index + steps + 2) ≤ len) ∧
      len < fib (index + steps + 3) := by
  induction buckets generalizing index aggregate with
  | nil =>
      rw [List.length_nil] at count
      omega
  | cons bucket buckets induction =>
      rw [List.length_cons] at count
      have inside : index < 43 := by
        by_contra beyond
        have last : index = 43 := by omega
        subst last
        rcases base with zero | large
        · cases zero
        · exact Nat.not_le_of_gt small large
      rw [drop_ropeBucketLengths inside]
      by_cases larger : len ≥ fib (index + 3)
      · rw [bucketText, List.append_assoc, List.length_append] at bounded
        obtain ⟨next, joined, nextAggregated, nextText⟩ :=
          prepend_spec filled.1 aggregated (by omega)
        obtain ⟨steps, rest, final, collected, restCount, restFilled,
            finalAggregated, same, least, most⟩ :=
          @induction (index + 1) next (by omega) (by omega) (.inr larger)
            filled.2 nextAggregated (by
              rw [nextText, List.length_append]
              omega)
        have shift : index + 1 + steps = index + (steps + 1) := by omega
        rw [shift] at restCount restFilled finalAggregated least most
        refine ⟨steps + 1, rest, final, ?_, restCount, restFilled,
          finalAggregated, ?_, least, most⟩
        · simp only [collectLower, if_pos larger, joined, collected, bind,
            Except.bind]
        · rw [same, nextText, bucketText, List.append_assoc]
      · refine ⟨0, bucket :: buckets, aggregate, ?_, ?_, filled, aggregated,
          rfl, base, Nat.lt_of_not_ge larger⟩
        · rw [collectLower, if_neg larger]
        · rw [List.length_cons]
          omega

/-- A carried string finds an empty bucket before the last one. -/
theorem carry_spec {least index : Nat} {buckets : List (Option JsString)}
    {aggregate : JsString} (count : buckets.length + index = 44)
    (filled : Filled least index buckets)
    (bucketed : aggregate.Bucketed least index)
    (bounded : (bucketText buckets ++ aggregate.content).length ≤
      maxStringCodeUnits) :
    ∃ after, carry buckets aggregate = .ok after ∧
      after.length = buckets.length ∧ Filled least index after ∧
      bucketText after = bucketText buckets ++ aggregate.content := by
  induction buckets generalizing index aggregate with
  | nil =>
      rw [List.length_nil] at count
      have last : index = 44 := by omega
      subst last
      have fills : fib 45 ≤ aggregate.len :=
        Nat.le_trans (fib_mono (by omega)) bucketed.fills
      have small := bucketed.formed.len_le
      have limit := maxStringCodeUnits_lt
      omega
  | cons bucket buckets induction =>
      rw [List.length_cons] at count
      cases bucket with
      | none =>
          refine ⟨some aggregate :: buckets, rfl, rfl, ⟨?_, filled.2⟩, ?_⟩
          · rintro _ ⟨⟩
            exact bucketed
          · simp [bucketText, optionText]
      | some left =>
          have leftBucketed := filled.1 left rfl
          simp only [bucketText, optionText, Option.elim_some,
            List.append_assoc, List.length_append] at bounded
          have room : left.len + aggregate.len ≤ maxStringCodeUnits := by
            rw [leftBucketed.formed.len_eq, bucketed.formed.len_eq]
            omega
          obtain ⟨after, carried, length, afterFilled, text⟩ :=
            @induction (index + 1) (left.join aggregate) (by omega) filled.2
              (leftBucketed.join bucketed room) (by
                simp only [content_join, List.length_append]
                omega)
          refine ⟨none :: after, ?_, by simp [length],
            ⟨by simp, afterFilled⟩, ?_⟩
          · rw [carry, newRopeNode_eq room]
            simp only [carried, bind, Except.bind]
          · simp [bucketText, text, optionText]

/-- A leaf goes to the end of the text in the buckets. -/
theorem rebalanceLeaf_spec {least : Nat} {leaf : JsString}
    {buckets : List (Option JsString)} (formed : leaf.WellFormed)
    (isLeaf : leaf.isLeaf = true) (long : fib (least + 2) ≤ leaf.len)
    (count : buckets.length = 44) (filled : Filled least 0 buckets)
    (bounded : (bucketText buckets ++ leaf.content).length ≤
      maxStringCodeUnits) :
    ∃ after, rebalanceLeaf leaf buckets = .ok after ∧ after.length = 44 ∧
      Filled least 0 after ∧
      bucketText after = bucketText buckets ++ leaf.content := by
  have small : leaf.len < fib 45 :=
    Nat.lt_of_le_of_lt formed.len_le maxStringCodeUnits_lt
  have flat : leaf.depth = 0 := by
    cases leaf with
    | latin1 units => rfl
    | utf16 units => rfl
    | rope left right len depth wide => cases isLeaf
  rw [List.length_append] at bounded
  obtain ⟨steps, rest, aggregate, collected, restCount, restFilled,
      aggregated, text, lower, upper⟩ :=
    @collectLower_spec least 0 leaf.len small buckets none (by omega)
      (by omega) (.inl rfl) filled (by rintro _ ⟨⟩) (by
        simp [optionText]
        omega)
  rw [Nat.zero_add] at restCount restFilled aggregated lower upper
  simp only [optionText, Option.elim_none, List.append_nil] at text
  have fills : fib (steps + 2) ≤ leaf.len := by
    rcases lower with zero | fills
    · rw [zero]
      exact Nat.le_trans (fib_mono (by omega)) long
    · exact fills
  have above : least ≤ steps := by
    by_contra below
    have crossing : fib (steps + 3) ≤ fib (least + 2) := fib_mono (by omega)
    omega
  have placed : ∃ joined, appendLeaf aggregate leaf = .ok joined ∧
      joined.Bucketed least steps ∧
      joined.content = optionText aggregate ++ leaf.content := by
    cases aggregate with
    | none =>
        refine ⟨leaf, rfl, ⟨formed, above, fills, by omega, ?_⟩, rfl⟩
        rw [flat]
        exact long
    | some left =>
        have gathered := aggregated left rfl
        have size := congrArg List.length text
        simp only [Option.elim_some, List.length_append] at size
        have room : left.len + leaf.len ≤ maxStringCodeUnits := by
          rw [gathered.formed.len_eq, formed.len_eq]
          omega
        exact ⟨left.join leaf, newRopeNode_eq room,
          gathered.join_leaf formed flat fills room, rfl⟩
  obtain ⟨joined, joining, bucketed, joinedText⟩ := placed
  have size := congrArg List.length text
  rw [List.length_append] at size
  obtain ⟨after, carried, length, afterFilled, afterText⟩ :=
    @carry_spec least steps rest joined restCount restFilled bucketed (by
      simp only [joinedText, optionText, List.length_append]
      omega)
  refine ⟨List.replicate steps none ++ after, ?_, ?_, ?_, ?_⟩
  · rw [rebalanceLeaf, ← List.drop_one]
    simp only [Nat.zero_add] at collected
    simp only [collected, joining, carried, bind, Except.bind]
  · rw [List.length_append, List.length_replicate, length]
    omega
  · apply filled_replicate_append
    rwa [Nat.zero_add]
  · rw [bucketText_replicate_append, afterText, joinedText,
      ← List.append_assoc]
    simp only [optionText, text]

theorem joinBuckets_spec {least index : Nat}
    {buckets : List (Option JsString)} {aggregate : Option JsString}
    (filled : Filled least index buckets)
    (aggregated : Aggregated least index aggregate)
    (bounded : (bucketText buckets ++ optionText aggregate).length ≤
      maxStringCodeUnits) :
    ∃ result, joinBuckets buckets aggregate = .ok result ∧
      Aggregated least (index + buckets.length) result ∧
      optionText result = bucketText buckets ++ optionText aggregate := by
  induction buckets generalizing index aggregate with
  | nil => exact ⟨aggregate, rfl, aggregated, rfl⟩
  | cons bucket buckets induction =>
      rw [bucketText, List.append_assoc, List.length_append] at bounded
      obtain ⟨next, joined, nextAggregated, nextText⟩ :=
        prepend_spec filled.1 aggregated (by omega)
      obtain ⟨result, finished, resultAggregated, resultText⟩ :=
        induction filled.2 nextAggregated (by
          rw [nextText, List.length_append]
          omega)
      refine ⟨result, ?_, ?_, ?_⟩
      · rw [joinBuckets, joined]
        exact finished
      · rw [List.length_cons, Nat.add_comm buckets.length 1, ← Nat.add_assoc]
        exact resultAggregated
      · rw [resultText, nextText, bucketText, List.append_assoc]

def leafLengths : JsString → List Nat
  | latin1 units => [units.length]
  | utf16 units => [units.length]
  | rope left right _ _ _ => left.leafLengths ++ right.leafLengths

/-- A nonempty string without leaves below a bucket. -/
structure Coarse (least : Nat) (string : JsString) : Prop where
  solid : string.Solid
  long : ∀ len ∈ string.leafLengths, fib (least + 2) ≤ len

theorem Coarse.parts {least len depth : Nat} {left right : JsString}
    {wide : Bool} (coarse : (rope left right len depth wide).Coarse least) :
    left.Coarse least ∧ right.Coarse least := by
  obtain ⟨⟨formed, _⟩, long⟩ := coarse
  cases formed with
  | join leftFormed rightFormed leftFilled rightFilled bounded =>
      exact ⟨⟨⟨leftFormed, leftFilled⟩, fun len member =>
          long len (List.mem_append_left _ member)⟩,
        ⟨⟨rightFormed, rightFilled⟩, fun len member =>
          long len (List.mem_append_right _ member)⟩⟩

open CodeUnits (stackText stackText_cons) in
theorem fillBuckets_leaf {least : Nat} {leaf : JsString}
    {stack : List JsString} {buckets : List (Option JsString)}
    (coarse : leaf.Coarse least) (isLeaf : leaf.isLeaf = true)
    (count : buckets.length = 44) (filled : Filled least 0 buckets)
    (bounded : (bucketText buckets ++ stackText (leaf :: stack)).length ≤
      maxStringCodeUnits) :
    ∃ after, fillBuckets (leaf :: stack) buckets = fillBuckets stack after ∧
      after.length = 44 ∧ Filled least 0 after ∧
      bucketText after = bucketText buckets ++ leaf.content := by
  rw [stackText_cons, ← List.append_assoc, List.length_append] at bounded
  obtain ⟨⟨formed, filledLeaf⟩, long⟩ := coarse
  have occupied : leaf.isEmpty = false := by
    simpa [isEmpty] using filledLeaf
  have size : fib (least + 2) ≤ leaf.len := by
    cases leaf with
    | latin1 units => exact long _ (List.mem_singleton_self _)
    | utf16 units => exact long _ (List.mem_singleton_self _)
    | rope left right len depth wide => cases isLeaf
  obtain ⟨after, placed, length, afterFilled, text⟩ :=
    rebalanceLeaf_spec formed isLeaf size count filled (by omega)
  refine ⟨after, ?_, length, afterFilled, text⟩
  cases leaf with
  | latin1 units =>
      rw [fillBuckets, if_neg (by simp [occupied]), placed]
      rfl
  | utf16 units =>
      rw [fillBuckets, if_neg (by simp [occupied]), placed]
      rfl
  | rope left right len depth wide => cases isLeaf

open CodeUnits (stackText stackText_cons) in
theorem fillBuckets_spec {least : Nat} {stack : List JsString}
    {buckets : List (Option JsString)}
    (coarse : ∀ string ∈ stack, string.Coarse least)
    (count : buckets.length = 44) (filled : Filled least 0 buckets)
    (bounded : (bucketText buckets ++ stackText stack).length ≤
      maxStringCodeUnits) :
    ∃ after, fillBuckets stack buckets = .ok after ∧ after.length = 44 ∧
      Filled least 0 after ∧
      bucketText after = bucketText buckets ++ stackText stack := by
  induction size : CodeUnits.stackNodes stack using Nat.strongRecOn
    generalizing stack buckets with
  | _ bound induction =>
      subst size
      cases stack with
      | nil =>
          refine ⟨buckets, by rw [fillBuckets], count, filled, ?_⟩
          simp [stackText]
      | cons node stack =>
          have first := coarse node (by simp)
          have others : ∀ string ∈ stack, string.Coarse least :=
            fun string member => coarse string (List.mem_cons_of_mem _ member)
          have leafCase : node.isLeaf = true →
              ∃ after, fillBuckets (node :: stack) buckets = .ok after ∧
                after.length = 44 ∧ Filled least 0 after ∧
                bucketText after =
                  bucketText buckets ++ stackText (node :: stack) := by
            intro isLeaf
            obtain ⟨between, placed, betweenCount, betweenFilled, text⟩ :=
              fillBuckets_leaf first isLeaf count filled bounded
            have smaller : CodeUnits.stackNodes stack <
                CodeUnits.stackNodes (node :: stack) := by
              have positive : 0 < node.nodes := by
                cases node <;> simp [nodes]
              simp only [CodeUnits.stackNodes, List.map_cons, List.sum_cons]
              omega
            obtain ⟨after, finished, length, afterFilled, afterText⟩ :=
              induction _ smaller others betweenCount betweenFilled (by
                rwa [text, List.append_assoc, ← stackText_cons]) rfl
            refine ⟨after, placed.trans finished, length, afterFilled, ?_⟩
            rw [afterText, text, stackText_cons, List.append_assoc]
          cases node with
          | latin1 units => exact leafCase rfl
          | utf16 units => exact leafCase rfl
          | rope left right len depth wide =>
              have smaller : CodeUnits.stackNodes (left :: right :: stack) <
                  CodeUnits.stackNodes
                    (rope left right len depth wide :: stack) := by
                simp only [CodeUnits.stackNodes, List.map_cons, List.sum_cons,
                  nodes]
                omega
              have same : stackText (rope left right len depth wide :: stack) =
                  stackText (left :: right :: stack) := by
                simp [content]
              rw [same] at bounded ⊢
              rw [fillBuckets]
              refine induction _ smaller ?_ count filled bounded rfl
              intro string member
              rcases List.mem_cons.mp member with rfl | member
              · exact first.parts.1
              · rcases List.mem_cons.mp member with rfl | member
                · exact first.parts.2
                · exact others string member

/-- Nodes of admissible total length pass through the buckets without any
error. -/
theorem fill_then_join_spec {least : Nat} {stack : List JsString}
    (coarse : ∀ string ∈ stack, string.Coarse least)
    (bounded : (CodeUnits.stackText stack).length ≤ maxStringCodeUnits) :
    ∃ buckets result,
      fillBuckets stack (List.replicate ropeBucketLengths.length none) =
        .ok buckets ∧
      joinBuckets buckets none = .ok result ∧
      Aggregated least 44 result ∧
      optionText result = CodeUnits.stackText stack := by
  obtain ⟨buckets, filling, count, filled, bucketsText⟩ :=
    @fillBuckets_spec least stack (List.replicate 44 none) coarse (by simp)
      (filled_replicate least 0 44) (by
        rwa [bucketText_replicate, List.nil_append])
  rw [bucketText_replicate, List.nil_append] at bucketsText
  obtain ⟨result, joining, aggregated, resultText⟩ :=
    @joinBuckets_spec least 0 buckets none filled (by rintro _ ⟨⟩) (by
      simpa [optionText, bucketsText] using bounded)
  rw [count, Nat.zero_add] at aggregated
  refine ⟨buckets, result, filling, joining, aggregated, ?_⟩
  rw [resultText, bucketsText]
  exact List.append_nil _

theorem rebalance_spec {least : Nat} {left right : JsString}
    (leftCoarse : left.Coarse least) (rightCoarse : right.Coarse least)
    (bounded : left.len + right.len ≤ maxStringCodeUnits) :
    ∃ result, rebalance left right = .ok result ∧
      result.Gathered least 44 ∧
      result.content = left.content ++ right.content := by
  have text : CodeUnits.stackText [left, right] =
      left.content ++ right.content := by
    simp [CodeUnits.stackText]
  obtain ⟨buckets, result, filling, joining, aggregated, resultText⟩ :=
    @fill_then_join_spec least [left, right] (by
        intro string member
        rcases List.mem_cons.mp member with rfl | member
        · exact leftCoarse
        · rw [List.mem_singleton.mp member]
          exact rightCoarse)
      (by
        rw [text, List.length_append, ← leftCoarse.solid.1.len_eq,
          ← rightCoarse.solid.1.len_eq]
        exact bounded)
  rw [text] at resultText
  cases result with
  | none =>
      simp only [optionText, Option.elim_none, List.nil_eq,
        List.append_eq_nil_iff] at resultText
      exact absurd resultText.1 leftCoarse.solid.content_ne_nil
  | some result =>
      refine ⟨result, ?_, aggregated result rfl, resultText⟩
      rw [rebalance, filling]
      simp only [joining, bind, Except.bind, Option.getD_some]

end JsString

end Fusor.Runtime
