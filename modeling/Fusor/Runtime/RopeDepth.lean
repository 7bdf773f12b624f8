import Fusor.Runtime.StringOperations

/-!
# The depth of ropes

Rebalancing keeps a rope within the depth limit when the string is not too
long for its shortest leaf.  Leaves of one unit between leaves of growing
Fibonacci lengths raise the depth by two per bucket, and take a long enough
string past the limit and past the iterator's stack.
-/

namespace Fusor.Runtime

open Nat (fib fib_mono fib_add_two)

namespace JsString

/-- The concatenation is shorter than every string that needs more than the
admissible depth when no leaf is shorter than its shortest one. -/
def Balanceable (left right : JsString) : Prop :=
  ∃ least,
    (∀ len ∈ left.leafLengths ++ right.leafLengths, fib (least + 2) ≤ len) ∧
    left.len + right.len + 2 * fib (least + 3) <
      fib (least + 34) + fib (least + 32) + 31 * fib (least + 2)

/-- A concatenation that has to rebalance rebalances within the limit. -/
def KeepsDepth (left right : JsString) : Prop :=
  ropeMaxDepth ≤ max left.depth right.depth → Balanceable left right

theorem rebalance_depth {left right : JsString} (leftSolid : left.Solid)
    (rightSolid : right.Solid)
    (bounded : left.len + right.len ≤ maxStringCodeUnits)
    (balanceable : Balanceable left right) :
    ∃ string, rebalance left right = .ok string ∧
      string.depth ≤ ropeMaxDepth := by
  obtain ⟨least, long, short⟩ := balanceable
  obtain ⟨string, balanced, gathered, same⟩ :=
    @rebalance_spec least left right
      ⟨leftSolid, fun len member => long len (List.mem_append_left _ member)⟩
      ⟨rightSolid, fun len member => long len (List.mem_append_right _ member)⟩
      bounded
  refine ⟨string, balanced, ?_⟩
  by_contra deep
  have total : string.len = left.len + right.len := by
    rw [gathered.formed.len_eq, same, List.length_append,
      leftSolid.1.len_eq, rightSolid.1.len_eq]
  have closed := weight_even least 29
  have lighter : weight least 60 ≤ weight least (string.depth - 1) := by
    apply weight_mono
    simp only [ropeMaxDepth] at deep
    omega
  rcases gathered.heavy with flat | heavy
  · rw [flat] at deep
    exact deep (Nat.zero_le _)
  · simp only [show 2 * 29 + 2 = 60 from rfl,
      show least + 29 + 5 = least + 34 from rfl,
      show least + 29 + 3 = least + 32 from rfl] at closed
    omega

theorem concat_depth {left right string : JsString}
    (leftFormed : left.WellFormed) (rightFormed : right.WellFormed)
    (leftShallow : left.depth ≤ ropeMaxDepth)
    (rightShallow : right.depth ≤ ropeMaxDepth)
    (keeps : KeepsDepth left right)
    (result : concat left right = .ok string) :
    string.depth ≤ ropeMaxDepth := by
  have bounded : left.len + right.len ≤ maxStringCodeUnits := by
    by_contra long
    rw [concat_too_long (Nat.lt_of_not_le long)] at result
    cases result
  have limit : ropeMaxDepth = 60 := rfl
  cases concat_cases bounded with
  | leftEmpty _ equation =>
      cases equation.symm.trans result
      exact rightShallow
  | rightEmpty _ equation =>
      cases equation.symm.trans result
      exact leftShallow
  | copied leftLeaf rightLeaf equation =>
      obtain ⟨copy, copied, _, leaf, _⟩ :=
        copyConcat_spec leftFormed rightFormed leftLeaf rightLeaf bounded
      cases (equation.trans copied).symm.trans result
      rw [depth_of_isLeaf leaf]
      exact Nat.zero_le _
  | mergedRight first last len depth wide shape lastLeaf rightLeaf equation =>
      subst shape
      cases leftFormed with
      | join firstFormed lastFormed firstFilled lastFilled leftBounded =>
          rw [show (rope first last _ _ _).len = first.len + last.len from rfl]
            at bounded
          change min 255 (max first.depth last.depth + 1) ≤ _ at leftShallow
          obtain ⟨merged, copied, mergedFormed, leaf, mergedText⟩ :=
            copyConcat_spec lastFormed rightFormed lastLeaf rightLeaf (by omega)
          have mergedLen : merged.len = last.len + right.len := by
            rw [mergedFormed.len_eq, mergedText, List.length_append,
              lastFormed.len_eq, rightFormed.len_eq]
          have flat := depth_of_isLeaf leaf
          rw [equation, copied] at result
          change newRope first merged = _ at result
          rw [newRope_eq_join (by omega) (by omega)] at result
          cases result
          rw [depth_join]
          omega
  | mergedLeft first last len depth wide shape leftLeaf firstLeaf equation =>
      subst shape
      cases rightFormed with
      | join firstFormed lastFormed firstFilled lastFilled rightBounded =>
          rw [show (rope first last _ _ _).len = first.len + last.len from rfl]
            at bounded
          change min 255 (max first.depth last.depth + 1) ≤ _ at rightShallow
          obtain ⟨merged, copied, mergedFormed, leaf, mergedText⟩ :=
            copyConcat_spec leftFormed firstFormed leftLeaf firstLeaf (by omega)
          have mergedLen : merged.len = left.len + first.len := by
            rw [mergedFormed.len_eq, mergedText, List.length_append,
              leftFormed.len_eq, firstFormed.len_eq]
          have flat := depth_of_isLeaf leaf
          rw [equation, copied] at result
          change newRope merged last = _ at result
          rw [newRope_eq_join (by omega) (by omega)] at result
          cases result
          rw [depth_join]
          omega
  | joined leftFilled rightFilled equation =>
      by_cases shallow : max left.depth right.depth + 1 ≤ ropeMaxDepth
      · rw [equation, newRope_eq_join bounded shallow] at result
        cases result
        rw [depth_join]
        omega
      · obtain ⟨balanced, balancing, flat⟩ :=
          rebalance_depth ⟨leftFormed, leftFilled⟩ ⟨rightFormed, rightFilled⟩
            bounded (keeps (by omega))
        rw [equation, newRope_eq_rebalance bounded (by omega), balancing]
          at result
        cases result
        exact flat

theorem Built.depth_le {string : JsString}
    (built : Built KeepsDepth string) : string.depth ≤ ropeMaxDepth := by
  induction built with
  | fromLatin1 result =>
      rw [depth_of_isLeaf (fromLatin1_wellFormed result).2.1]
      exact Nat.zero_le _
  | fromCodeUnits hint result =>
      rw [depth_of_isLeaf (fromCodeUnits_wellFormed hint result).2.1]
      exact Nat.zero_le _
  | fromUtf8 hint result =>
      rw [depth_of_isLeaf (fromCodeUnits_wellFormed hint result).2.1]
      exact Nat.zero_le _
  | concat leftBuilt rightBuilt step result leftInduction rightInduction =>
      exact concat_depth leftBuilt.wellFormed rightBuilt.wellFormed
        leftInduction rightInduction step result
  | slice built result induction =>
      rcases (slice_inversion built.wellFormed result).2.1 with rfl | leaf
      · exact induction
      · rw [depth_of_isLeaf leaf]
        exact Nat.zero_le _

theorem built_shallow (string : JsString)
    (built : Built KeepsDepth string) :
    (string.depth ≤ ropeMaxDepth ∧ string.codeUnits = .ok string.content) ∧
    ∀ right, Built KeepsDepth right → string.len ≠ 0 → right.len ≠ 0 →
      string.len + right.len ≤ maxStringCodeUnits →
      Balanceable string right →
      ∃ balanced, rebalance string right = .ok balanced ∧
        balanced.depth ≤ ropeMaxDepth := by
  constructor
  · have shallow := built.depth_le
    have formed := built.wellFormed
    have limit : ropeMaxDepth = 60 := rfl
    have capacity : ropeIterStackCapacity = 61 := rfl
    refine ⟨shallow, codeUnits_eq formed ?_⟩
    have pending := formed.pending_le_depth (by omega)
    omega
  · intro right rightBuilt filled rightFilled bounded balanceable
    exact rebalance_depth ⟨built.wellFormed, filled⟩
      ⟨rightBuilt.wellFormed, rightFilled⟩ bounded balanceable

/-- A way of building a string of one repeated unit by plain joins. -/
inductive Plan where
  | unit (len : Nat)
  | append (left right : Plan)

namespace Plan

def string : Plan → JsString
  | unit len => latin1 (List.replicate len 120)
  | append left right => left.string.join right.string

def len : Plan → Nat
  | unit len => len
  | append left right => left.len + right.len

def depth : Plan → Nat
  | unit _ => 0
  | append left right => max left.depth right.depth + 1

def lengths : Plan → List Nat
  | unit len => [len]
  | append left right => left.lengths ++ right.lengths

/-- The concatenation copies a short leaf instead of joining. -/
def merges : Plan → Plan → Bool
  | unit left, unit right => right ≤ 512 && left ≤ 8192
  | append _ (unit last), unit right => right ≤ 512 && last ≤ 512
  | unit _, append (unit first) _ => first ≤ 512
  | _, _ => false

/-- Every append of the plan is a join within the depth limit. -/
def plain : Plan → Bool
  | unit len => 0 < len && len ≤ maxStringCodeUnits
  | append left right =>
      left.plain && right.plain && !merges left right &&
        left.len + right.len ≤ maxStringCodeUnits &&
        max left.depth right.depth + 1 ≤ ropeMaxDepth

theorem len_string (plan : Plan) : plan.string.len = plan.len := by
  induction plan with
  | unit count => simp [string, JsString.len, len]
  | append left right leftInduction rightInduction =>
      rw [string, len_join, leftInduction, rightInduction, len]

theorem lengths_string (plan : Plan) :
    plan.string.leafLengths = plan.lengths := by
  induction plan with
  | unit len => simp [string, leafLengths, lengths]
  | append left right leftInduction rightInduction =>
      rw [lengths, ← leftInduction, ← rightInduction]
      rfl

theorem depth_string {plan : Plan} (plain : plan.plain = true) :
    plan.string.depth = plan.depth ∧ plan.depth ≤ ropeMaxDepth := by
  induction plan with
  | unit len => exact ⟨rfl, Nat.zero_le _⟩
  | append left right leftInduction rightInduction =>
      simp only [Plan.plain, Bool.and_eq_true, decide_eq_true_eq] at plain
      obtain ⟨⟨⟨⟨leftPlain, rightPlain⟩, _⟩, _⟩, shallow⟩ := plain
      have limit : ropeMaxDepth = 60 := rfl
      rw [string, depth_join, (leftInduction leftPlain).1,
        (rightInduction rightPlain).1, Plan.depth]
      omega

theorem concatFilled_plain {left right : Plan}
    (plain : merges left right = false) :
    concatFilled left.string right.string =
      newRope left.string right.string := by
  cases left with
  | unit leftLen =>
      cases right with
      | unit rightLen =>
          simp only [merges, Bool.and_eq_false_iff, decide_eq_false_iff_not]
            at plain
          simp only [concatFilled, string, isLeaf, JsString.len,
            List.length_replicate, ropeShortLen, ropeShortLeftLen, true_and]
          split
          · rw [if_neg (by omega)]
          · rfl
      | append first last =>
          cases first with
          | unit firstLen =>
              simp only [merges, decide_eq_false_iff_not] at plain
              simp [concatFilled, string, isLeaf, JsString.len, ropeShortLen,
                JsString.join, plain]
          | append _ _ =>
              simp [concatFilled, string, isLeaf, JsString.join]
  | append first last =>
      cases right with
      | append _ _ =>
          simp [concatFilled, string, isLeaf, JsString.join]
      | unit rightLen =>
          cases last with
          | unit lastLen =>
              simp only [merges, Bool.and_eq_false_iff,
                decide_eq_false_iff_not] at plain
              simp only [concatFilled, string, isLeaf, JsString.len,
                ropeShortLen, JsString.join, List.length_replicate,
                Bool.false_eq_true, false_and, true_and, ↓reduceIte]
              split
              · rw [if_neg (by omega)]
              · rfl
          | append _ _ =>
              simp [concatFilled, string, isLeaf, JsString.join]

theorem concat_plain {left right : Plan} (leftFilled : left.len ≠ 0)
    (rightFilled : right.len ≠ 0) (plain : merges left right = false)
    (bounded : left.len + right.len ≤ maxStringCodeUnits) :
    concat left.string right.string = newRope left.string right.string := by
  rw [concat_eq (by rwa [len_string, len_string])]
  simp [isEmpty, len_string, leftFilled, rightFilled, concatFilled_plain plain]

theorem len_ne_zero {plan : Plan} (plain : plan.plain = true) :
    plan.len ≠ 0 := by
  induction plan with
  | unit len =>
      simp only [Plan.plain, Bool.and_eq_true, decide_eq_true_eq] at plain
      exact Nat.ne_of_gt plain.1
  | append left right leftInduction _ =>
      simp only [Plan.plain, Bool.and_eq_true] at plain
      have leftFilled := leftInduction plain.1.1.1.1
      rw [len]
      omega

theorem built {allowed : JsString → JsString → Prop}
    (allows : ∀ left right : JsString,
      max left.depth right.depth + 1 ≤ ropeMaxDepth → allowed left right)
    {plan : Plan} (plain : plan.plain = true) : Built allowed plan.string := by
  induction plan with
  | unit len =>
      simp only [Plan.plain, Bool.and_eq_true, decide_eq_true_eq] at plain
      refine @Built.fromLatin1 allowed (List.replicate len 120) _ ?_
      have filled : (List.replicate len (120 : UInt8)).isEmpty = false := by
        simp only [List.isEmpty_replicate, decide_eq_false_iff_not]
        omega
      simp [fromLatin1, checkLength, Nat.not_lt.mpr plain.2, filled, string,
        bind, Except.bind]
  | append left right leftInduction rightInduction =>
      simp only [Plan.plain, Bool.and_eq_true, decide_eq_true_eq,
        Bool.not_eq_true'] at plain
      obtain ⟨⟨⟨⟨leftPlain, rightPlain⟩, apart⟩, bounded⟩, shallow⟩ := plain
      have shallowStrings : max left.string.depth right.string.depth + 1 ≤
          ropeMaxDepth := by
        rw [(depth_string leftPlain).1, (depth_string rightPlain).1]
        exact shallow
      refine .concat (leftInduction leftPlain) (rightInduction rightPlain)
        (allows _ _ shallowStrings) ?_
      rw [concat_plain (len_ne_zero leftPlain) (len_ne_zero rightPlain) apart
        bounded, newRope_eq_join (by rwa [len_string, len_string])
        shallowStrings]
      rfl

end Plan

/-- Sixty-one pieces of 513 units, joined from the left. -/
def evenPlan : Plan :=
  (List.replicate 60 513).foldl
    (fun plan len => plan.append (.unit len)) (.unit 513)

theorem evenPlan_plain : evenPlan.plain = true := by
  decide +kernel

theorem built_shallow_evenPieces :
    ∃ string, Built KeepsDepth string ∧
      concat evenPlan.string (Plan.unit 513).string = .ok string ∧
      evenPlan.string.depth = ropeMaxDepth ∧
      string.depth ≤ ropeMaxDepth ∧
      string.codeUnits = .ok string.content ∧
      ∃ balanced, rebalance evenPlan.string (Plan.unit 513).string =
          .ok balanced ∧
        balanced.depth ≤ ropeMaxDepth := by
  have allows : ∀ left right : JsString,
      max left.depth right.depth + 1 ≤ ropeMaxDepth →
        KeepsDepth left right := by
    intro left right shallow deep
    omega
  have last : (Plan.unit 513).plain = true := by decide
  have evenBuilt := Plan.built allows evenPlan_plain
  have lastBuilt := Plan.built allows last
  have depth : evenPlan.string.depth = ropeMaxDepth := by
    rw [(Plan.depth_string evenPlan_plain).1]
    decide +kernel
  have sizes : evenPlan.string.len + (Plan.unit 513).string.len = 31806 := by
    rw [Plan.len_string, Plan.len_string]
    rfl
  have balanceable : Balanceable evenPlan.string (Plan.unit 513).string := by
    refine ⟨0, ?_, ?_⟩
    · rw [Plan.lengths_string, Plan.lengths_string]
      decide +kernel
    · rw [sizes]
      decide
  have bounded : evenPlan.string.len + (Plan.unit 513).string.len ≤
      maxStringCodeUnits := by
    rw [sizes]
    decide
  obtain ⟨string, joined, _⟩ :=
    concat_spec evenBuilt.wellFormed lastBuilt.wellFormed bounded
  have built := Built.concat evenBuilt lastBuilt (fun _ => balanceable) joined
  obtain ⟨shallow, units⟩ := (built_shallow string built).1
  refine ⟨string, built, joined, depth, shallow, units, ?_⟩
  exact (built_shallow _ evenBuilt).2 _ lastBuilt
    (by rw [Plan.len_string]; exact Plan.len_ne_zero evenPlan_plain)
    (by rw [Plan.len_string]; exact Plan.len_ne_zero last) bounded balanceable

section Staircase

/-- A leaf of the given length. -/
def step (len : Nat) : JsString :=
  latin1 (List.replicate len 120)

theorem len_step (len : Nat) : (step len).len = len := by
  simp [step, JsString.len]

/-- The string that one short leaf and one Fibonacci leaf per bucket leave
behind. -/
def tower : Nat → JsString
  | 0 => (step 1).join (step 1)
  | height + 1 => ((tower height).join (step 1)).join (step (fib (height + 4)))

/-- The lengths of the leaves of a tower. -/
def towerLengths : Nat → List Nat
  | 0 => [1, 1]
  | height + 1 => towerLengths height ++ [1, fib (height + 4)]

def towerBuckets (height : Nat) : List (Option JsString) :=
  List.replicate (height + 1) none ++
    some (tower height) :: List.replicate (42 - height) none

theorem len_tower_le (height : Nat) :
    (tower height).len ≤ fib (height + 6) := by
  induction height with
  | zero =>
      simp only [tower, len_join, len_step]
      decide
  | succ height induction =>
      have positive : 0 < fib (height + 3) := Nat.fib_pos.mpr (by omega)
      have five : fib (height + 5) = fib (height + 3) + fib (height + 4) :=
        fib_add_two
      have seven : fib (height + 1 + 6) = fib (height + 5) + fib (height + 6) :=
        fib_add_two
      simp only [tower, len_join, len_step]
      omega

theorem len_tower_lt {height : Nat} (bounded : height ≤ 31) :
    (tower height).len + 1 + fib (height + 4) ≤ maxStringCodeUnits := by
  have length := len_tower_le height
  have first : fib (height + 6) ≤ fib 37 := fib_mono (by omega)
  have second : fib (height + 4) ≤ fib 35 := fib_mono (by omega)
  have limit : fib 37 + 1 + fib 35 ≤ maxStringCodeUnits := by
    norm_num [maxStringCodeUnits]
  omega

theorem collectLower_replicate {len index count : Nat}
    {rest : List (Option JsString)} {aggregate : Option JsString}
    (inside : index + count < 44) (large : fib (index + count + 2) ≤ len) :
    collectLower len (ropeBucketLengths.drop (index + 1))
        (List.replicate count none ++ rest) aggregate =
      (collectLower len (ropeBucketLengths.drop (index + count + 1)) rest
        aggregate).map fun found => (found.1 + count, found.2) := by
  induction count generalizing index with
  | zero =>
      rw [List.replicate_zero, List.nil_append, Nat.add_zero]
      cases collectLower len (ropeBucketLengths.drop (index + 1)) rest
        aggregate <;> rfl
  | succ count induction =>
      have larger : len ≥ fib (index + 3) :=
        Nat.le_trans (fib_mono (by omega)) large
      rw [List.replicate_succ, List.cons_append,
        drop_ropeBucketLengths (by omega), collectLower, if_pos larger]
      have rest := @induction (index + 1) (by omega) (by
        rwa [show index + 1 + count = index + (count + 1) by omega])
      rw [show index + 1 + count = index + (count + 1) by omega] at rest
      simp only [prepend, bind, Except.bind, rest]
      cases collectLower len (ropeBucketLengths.drop (index + (count + 1) + 1))
        _ aggregate with
      | error failure => rfl
      | ok found =>
          simp only [Except.map]
          rw [Nat.add_assoc]

theorem rebalanceLeaf_one (buckets : List (Option JsString)) :
    rebalanceLeaf (step 1) (none :: buckets) =
      .ok (some (step 1) :: buckets) := by
  simp [rebalanceLeaf, len_step, ropeBucketLengths, collectLower, appendLeaf,
    carry, bind, Except.bind]

theorem rebalanceLeaf_fib {height : Nat} (bounded : height ≤ 30) :
    rebalanceLeaf (step (fib (height + 4)))
        (some (step 1) :: (List.replicate height none ++
          some (tower height) :: List.replicate (42 - height) none)) =
      .ok (towerBuckets (height + 1)) := by
  have room := len_tower_lt (Nat.le_succ_of_le bounded)
  have two : fib (height + 4) ≥ fib (0 + 3) := fib_mono (by omega)
  have same : fib (height + 4) ≥ fib (0 + 1 + height + 3) :=
    fib_mono (by omega)
  have next : ¬ fib (height + 4) ≥ fib (height + 2 + 3) := by
    have five : fib (height + 2 + 3) = fib (height + 3) + fib (height + 4) :=
      fib_add_two
    have positive : 0 < fib (height + 3) := Nat.fib_pos.mpr (by omega)
    omega
  have below := @collectLower_replicate (fib (height + 4)) (0 + 1) height
    (some (tower height) :: List.replicate (42 - height) none)
    (some (step 1)) (by omega) (fib_mono (by omega))
  have gathered : newRopeNode (tower height) (step 1) =
      .ok ((tower height).join (step 1)) :=
    newRopeNode_eq (by rw [len_step]; omega)
  have appended : newRopeNode ((tower height).join (step 1))
      (step (fib (height + 4))) = .ok (tower (height + 1)) :=
    newRopeNode_eq (by
      rw [len_join, len_step, len_step]
      exact room)
  have remaining : 42 - height = 41 - height + 1 := by omega
  have stop : collectLower (fib (height + 4))
      (ropeBucketLengths.drop (0 + 1 + height + 1))
      (some (tower height) :: List.replicate (42 - height) none)
      (some (step 1)) =
        .ok (1, List.replicate (42 - height) none,
          some ((tower height).join (step 1))) := by
    rw [drop_ropeBucketLengths (by omega), collectLower, if_pos same]
    simp only [prepend, gathered, bind, Except.bind]
    rw [remaining, List.replicate_succ,
      show 0 + 1 + height + 2 = height + 2 + 1 by omega,
      drop_ropeBucketLengths (by omega), collectLower, if_neg next]
  rw [rebalanceLeaf, ← List.drop_one, len_step,
    show (1 : Nat) = 0 + 1 from rfl, drop_ropeBucketLengths (by omega),
    collectLower, if_pos two]
  simp only [prepend, bind, Except.bind, below, stop, Except.map, appendLeaf,
    appended]
  rw [remaining, List.replicate_succ]
  simp only [carry, towerBuckets]
  rw [show 42 - (height + 1) = 41 - height by omega,
    show 1 + height + 1 = height + 1 + 1 by omega]

theorem fillBuckets_step {len : Nat} (filled : len ≠ 0)
    (stack : List JsString) (buckets : List (Option JsString)) :
    fillBuckets (step len :: stack) buckets =
      (rebalanceLeaf (step len) buckets).bind (fillBuckets stack) := by
  have occupied : (latin1 (List.replicate len 120)).isEmpty = false := by
    simpa [isEmpty, JsString.len] using filled
  rw [step, fillBuckets, if_neg (by simp [occupied])]
  rfl

theorem fillBuckets_tower {height : Nat} (bounded : height ≤ 31)
    (stack : List JsString) :
    fillBuckets ((towerLengths height).map step ++ stack)
        (List.replicate 44 none) = fillBuckets stack (towerBuckets height) := by
  induction height generalizing stack with
  | zero =>
      have joined : newRopeNode (step 1) (step 1) = .ok (tower 0) :=
        newRopeNode_eq (by rw [len_step]; decide)
      simp only [towerLengths, List.map_cons, List.map_nil, List.cons_append,
        List.nil_append]
      rw [fillBuckets_step (by decide), List.replicate_succ,
        rebalanceLeaf_one]
      change fillBuckets (step 1 :: stack) _ = _
      rw [fillBuckets_step (by decide)]
      simp [rebalanceLeaf, len_step, ropeBucketLengths, collectLower,
        appendLeaf, carry, joined, towerBuckets, List.replicate_succ, bind,
        Except.bind]
  | succ height induction =>
      rw [towerLengths, List.map_append, List.append_assoc,
        induction (by omega)]
      simp only [List.map_cons, List.map_nil, List.cons_append,
        List.nil_append]
      rw [fillBuckets_step (by decide), towerBuckets, List.replicate_succ,
        List.cons_append, rebalanceLeaf_one]
      change fillBuckets (step (fib (height + 4)) :: stack) _ = _
      rw [fillBuckets_step (Nat.ne_of_gt (Nat.fib_pos.mpr (by omega))),
        rebalanceLeaf_fib (by omega)]
      rfl

theorem fillBuckets_steps_congr {first second : List JsString}
    (same : ∀ buckets, fillBuckets first buckets = fillBuckets second buckets)
    (lengths : List Nat) (buckets : List (Option JsString)) :
    fillBuckets (lengths.map step ++ first) buckets =
      fillBuckets (lengths.map step ++ second) buckets := by
  induction lengths generalizing buckets with
  | nil => exact same buckets
  | cons len lengths induction =>
      simp only [List.map_cons, List.cons_append, step, fillBuckets]
      split
      · exact induction buckets
      · congr 1
        funext after
        exact induction after

theorem fillBuckets_plan (plan : Plan) (stack : List JsString)
    (buckets : List (Option JsString)) :
    fillBuckets (plan.string :: stack) buckets =
      fillBuckets (plan.lengths.map step ++ stack) buckets := by
  induction plan generalizing stack buckets with
  | unit len => rfl
  | append left right leftInduction rightInduction =>
      rw [Plan.string, JsString.join, fillBuckets, leftInduction,
        Plan.lengths, List.map_append, List.append_assoc]
      exact fillBuckets_steps_congr (rightInduction stack) _ _

/-- The first sixty-one leaves of a tower: appended and prepended in turn
around the first long leaf, so that no short leaf is copied. -/
def stairsPlan : Plan :=
  let core : Plan := .append (.unit 1) (.unit 610)
  let middle := (((towerLengths 31).drop 26).zip
      ((towerLengths 31).take 24).reverse).foldl
    (fun plan (right, left) => .append (.unit left) (.append plan (.unit right)))
    core
  (((towerLengths 31).drop 50).take 11).foldl
    (fun plan right => .append plan (.unit right)) middle

def landingPlan : Plan :=
  .append (.append (.unit (fib 33)) (.unit 1)) (.unit (fib 34))

theorem stairsPlan_plain : stairsPlan.plain = true := by
  decide +kernel

theorem landingPlan_plain : landingPlan.plain = true :=
  rfl

theorem stairs_lengths :
    stairsPlan.lengths ++ landingPlan.lengths = towerLengths 31 :=
  rfl

theorem concat_stairs :
    concat stairsPlan.string landingPlan.string = .ok (tower 31) := by
  have depths : ropeMaxDepth <
      max stairsPlan.string.depth landingPlan.string.depth + 1 := by
    rw [(Plan.depth_string stairsPlan_plain).1,
      (Plan.depth_string landingPlan_plain).1]
    decide +kernel
  have sizes : stairsPlan.len + landingPlan.len ≤ maxStringCodeUnits := by
    decide +kernel
  have filling : fillBuckets [stairsPlan.string, landingPlan.string]
      (List.replicate 44 none) = .ok (towerBuckets 31) := by
    rw [fillBuckets_plan,
      fillBuckets_steps_congr (fillBuckets_plan landingPlan []),
      ← List.append_assoc, ← List.map_append, stairs_lengths,
      fillBuckets_tower (Nat.le_refl 31), fillBuckets]
  rw [Plan.concat_plain (Plan.len_ne_zero stairsPlan_plain)
      (Plan.len_ne_zero landingPlan_plain) (by decide +kernel) sizes,
    newRope_eq_rebalance (by rwa [Plan.len_string, Plan.len_string]) depths,
    rebalance, show ropeBucketLengths.length = 44 from rfl, filling]
  simp [towerBuckets, joinBuckets, prepend, List.replicate_succ, bind,
    Except.bind]

theorem depth_tower {height : Nat} (bounded : height ≤ 31) :
    (tower height).depth = 2 * height + 1 := by
  induction height with
  | zero => rfl
  | succ height induction =>
      have flat : ∀ len, (step len).depth = 0 := fun _ => rfl
      simp only [tower, depth_join, flat, induction (by omega)]
      omega

theorem pending_tower (height : Nat) :
    (tower height).pending = 2 * height + 1 := by
  induction height with
  | zero => rfl
  | succ height induction =>
      have flat : ∀ len, (step len).pending = 0 := fun _ => rfl
      have join : ∀ left right : JsString, (left.join right).pending =
          max (left.pending + 1) right.pending := fun _ _ => rfl
      simp only [tower, join, flat, induction]
      omega

theorem built_tower : Built (fun _ _ => True) (tower 31) :=
  .concat (Plan.built (fun _ _ _ => trivial) stairsPlan_plain)
    (Plan.built (fun _ _ _ => trivial) landingPlan_plain) trivial concat_stairs

theorem built_too_deep :
    ∃ string, Built (fun _ _ => True) string ∧ string.depth = 63 ∧
      ropeMaxDepth < string.depth :=
  ⟨tower 31, built_tower, depth_tower (Nat.le_refl 31), by
    rw [depth_tower (Nat.le_refl 31)]
    decide⟩

theorem built_slice_fails :
    ∃ string, Built (fun _ _ => True) string ∧ 1 ≤ string.len ∧
      ¬ ∃ part, string.slice 1 string.len = .ok part := by
  have formed := built_tower.wellFormed
  have pending := pending_tower 31
  refine ⟨tower 31, built_tower, ?_, ?_⟩
  · have long := formed.one_lt_len_of_pending (by omega)
    omega
  · rintro ⟨part, sliced⟩
    have shallow := pending_of_slice formed sliced
    rw [pending] at shallow
    exact absurd shallow (by decide)

end Staircase

end JsString

end Fusor.Runtime
