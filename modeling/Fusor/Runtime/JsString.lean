import Mathlib.Data.Nat.Fib.Basic
import Fusor.Support.Result

/-!
# Immutable strings with bounded ropes

A string is a narrow leaf, a wide leaf or a rope of two strings that caches
its length, depth and width.  Concatenation copies short leaves, joins long
ones and rebalances a rope that would become too deep; iteration keeps the
postponed right parts on a stack of fixed capacity.  Reserving memory is
taken to succeed.
-/

namespace Fusor.Runtime

def maxStringCodeUnits : Nat := 2 ^ 30 - 1

def ropeShortLen : Nat := 512

def ropeShortLeftLen : Nat := 8192

def ropeMaxDepth : Nat := 60

def ropeIterStackCapacity : Nat := ropeMaxDepth + 1

def ropeBucketLengths : List Nat :=
  [1, 2, 3, 5, 8, 13, 21, 34, 55, 89, 144, 233, 377, 610, 987, 1597, 2584,
    4181, 6765, 10946, 17711, 28657, 46368, 75025, 121393, 196418, 317811,
    514229, 832040, 1346269, 2178309, 3524578, 5702887, 9227465, 14930352,
    24157817, 39088169, 63245986, 102334155, 165580141, 267914296, 433494437,
    701408733, 1134903170]

/-- The errors of string operations, and the panic of an index outside a
fixed array. -/
inductive StringFailure where
  | tooLong (requested maximum : Nat)
  | invalidRange (start stop len : Nat)
  | indexOutOfBounds
  deriving DecidableEq

inductive JsString where
  | latin1 (units : List UInt8)
  | utf16 (units : List UInt16)
  | rope (left right : JsString) (len depth : Nat) (wide : Bool)
  deriving DecidableEq

def checkLength (len : Nat) : Except StringFailure Nat :=
  if len > maxStringCodeUnits then
    .error (.tooLong len maxStringCodeUnits)
  else
    .ok len

def checkedSum (left right : Nat) : Except StringFailure Nat :=
  if left + right > maxStringCodeUnits then
    .error (.tooLong (left + right) maxStringCodeUnits)
  else
    .ok (left + right)

namespace JsString

def len : JsString → Nat
  | latin1 units => units.length
  | utf16 units => units.length
  | rope _ _ len _ _ => len

def depth : JsString → Nat
  | latin1 _ => 0
  | utf16 _ => 0
  | rope _ _ _ depth _ => depth

def isWide : JsString → Bool
  | latin1 _ => false
  | utf16 _ => true
  | rope _ _ _ _ wide => wide

def isLeaf : JsString → Bool
  | latin1 _ => true
  | utf16 _ => true
  | rope _ _ _ _ _ => false

def isEmpty (string : JsString) : Bool :=
  string.len == 0

def isLatin1 (string : JsString) : Bool :=
  !string.isWide

def empty : JsString :=
  latin1 []

/-- The code units of the leaves from left to right. -/
def content : JsString → List UInt16
  | latin1 units => units.map UInt8.toUInt16
  | utf16 units => units
  | rope left right _ _ _ => left.content ++ right.content

def fromLatin1 (units : List UInt8) : Except StringFailure JsString := do
  let _ ← checkLength units.length
  if units.isEmpty then
    .ok empty
  else
    .ok (latin1 units)

/-- The loop of `from_code_units`: the narrow buffer is used until the first
wide unit, which moves it into the wide buffer. -/
def collectCodeUnits : List UInt16 → List UInt8 → Option (List UInt16) →
    Except StringFailure JsString
  | [], narrow, none =>
      if narrow.isEmpty then .ok empty else .ok (latin1 narrow)
  | [], _, some wide => .ok (utf16 wide)
  | unit :: rest, narrow, buffer =>
      if (buffer.elim narrow.length List.length) = maxStringCodeUnits then
        .error (.tooLong (maxStringCodeUnits + 1) maxStringCodeUnits)
      else
        match buffer with
        | some wide => collectCodeUnits rest narrow (some (wide ++ [unit]))
        | none =>
            if unit < 256 then
              collectCodeUnits rest (narrow ++ [unit.toUInt8]) none
            else
              collectCodeUnits rest []
                (some (narrow.map UInt8.toUInt16 ++ [unit]))

/-- The iterator is given by its units and by the lower bound of its size
hint. -/
def fromCodeUnits (lowerBound : Nat) (units : List UInt16) :
    Except StringFailure JsString :=
  if lowerBound > maxStringCodeUnits then
    .error (.tooLong lowerBound maxStringCodeUnits)
  else
    collectCodeUnits units [] none

def encodeUtf16 (text : List Char) : List UInt16 :=
  text.flatMap fun character =>
    let code := character.toNat
    if code < 0x10000 then
      [UInt16.ofNat code]
    else
      [UInt16.ofNat (0xd800 + (code - 0x10000) / 0x400),
        UInt16.ofNat (0xdc00 + (code - 0x10000) % 0x400)]

def fromUtf8 (lowerBound : Nat) (text : List Char) :
    Except StringFailure JsString :=
  fromCodeUnits lowerBound (encodeUtf16 text)

def unitAt : JsString → Nat → Option UInt16
  | latin1 units, index => (units[index]?).map UInt8.toUInt16
  | utf16 units, index => units[index]?
  | rope left right _ _ _, index =>
      if index < left.len then
        left.unitAt index
      else
        right.unitAt (index - left.len)

def codeUnitAt (string : JsString) (index : Nat) : Option UInt16 :=
  if index ≥ string.len then none else string.unitAt index

def nodes : JsString → Nat
  | latin1 _ => 1
  | utf16 _ => 1
  | rope left right _ _ _ => left.nodes + right.nodes + 1

end JsString

/-- The leaf being read and the position in it. -/
structure LeafCursor where
  units : List UInt16
  index : Nat
  deriving DecidableEq

/-- The iterator over code units; the top of the stack comes first. -/
structure CodeUnits where
  stack : List JsString
  leaf : Option LeafCursor
  remaining : Nat
  deriving DecidableEq

namespace CodeUnits

/-- Goes down to the leftmost leaf and pushes the right parts on the way. -/
def descend (stack : List JsString) :
    JsString → Except StringFailure (LeafCursor × List JsString)
  | .latin1 units => .ok (⟨units.map UInt8.toUInt16, 0⟩, stack)
  | .utf16 units => .ok (⟨units, 0⟩, stack)
  | .rope left right _ _ _ =>
      if stack.length < ropeIterStackCapacity then
        descend (right :: stack) left
      else
        .error .indexOutOfBounds

def stackNodes (stack : List JsString) : Nat :=
  (stack.map JsString.nodes).sum

theorem stackNodes_descend {stack rest : List JsString} {node : JsString}
    {cursor : LeafCursor} (reached : descend stack node = .ok (cursor, rest)) :
    stackNodes rest < stackNodes (node :: stack) := by
  induction node generalizing stack with
  | latin1 units =>
      cases reached
      simp [stackNodes, JsString.nodes]
  | utf16 units =>
      cases reached
      simp [stackNodes, JsString.nodes]
  | rope left right len depth wide leftInduction _ =>
      simp only [descend] at reached
      split at reached
      · have smaller := leftInduction reached
        simp only [stackNodes, List.map_cons, List.sum_cons,
          JsString.nodes] at smaller ⊢
        omega
      · cases reached

def new (string : JsString) : CodeUnits where
  stack := [string]
  leaf := none
  remaining := string.len

/-- The unit under the cursor. -/
def current (iterator : CodeUnits) : Option (LeafCursor × UInt16) :=
  iterator.leaf.bind fun cursor =>
    (cursor.units[cursor.index]?).map fun unit => (cursor, unit)

def next (iterator : CodeUnits) :
    Except StringFailure (Option UInt16 × CodeUnits) :=
  match iterator.current with
  | some (cursor, unit) =>
      .ok (some unit,
        { iterator with
          leaf := some { cursor with index := cursor.index + 1 }
          remaining := iterator.remaining - 1 })
  | none =>
      match stacked : iterator.stack with
      | [] => .ok (none, { iterator with leaf := none })
      | node :: below =>
          match reached : descend below node with
          | .error failure => .error failure
          | .ok (cursor, stack) =>
              next { iterator with stack := stack, leaf := some cursor }
termination_by stackNodes iterator.stack
decreasing_by
  rw [stacked]
  exact stackNodes_descend reached

/-- Calls `next` the given number of times, or until the end. -/
def takeUnits : Nat → CodeUnits → Except StringFailure (List UInt16 × CodeUnits)
  | 0, iterator => .ok ([], iterator)
  | count + 1, iterator => do
      match ← iterator.next with
      | (none, after) => .ok ([], after)
      | (some unit, after) =>
          let (units, final) ← takeUnits count after
          .ok (unit :: units, final)

end CodeUnits

namespace JsString

/-- All code units, as the iterator delivers them. -/
def codeUnits (string : JsString) : Except StringFailure (List UInt16) := do
  let (units, _) ← CodeUnits.takeUnits string.len (CodeUnits.new string)
  .ok units

def copyConcat (left right : JsString) : Except StringFailure JsString := do
  let leftUnits ← left.codeUnits
  let rightUnits ← right.codeUnits
  fromCodeUnits (left.len + right.len) (leftUnits ++ rightUnits)

def newRopeNode (left right : JsString) : Except StringFailure JsString := do
  let len ← checkedSum left.len right.len
  .ok (rope left right len (min 255 (max left.depth right.depth + 1))
    (left.isWide || right.isWide))

/-- Joins an occupied bucket in front of what was taken out before. -/
def prepend : Option JsString → Option JsString →
    Except StringFailure (Option JsString)
  | none, aggregate => .ok aggregate
  | some bucket, none => .ok (some bucket)
  | some bucket, some right => do
      let node ← newRopeNode bucket right
      .ok (some node)

/-- Takes the buckets below the one of the given length out, joined in text
order.  The bounds are the lengths of the buckets after the current one; the
result is the index reached and the buckets from there on. -/
def collectLower (len : Nat) : List Nat → List (Option JsString) →
    Option JsString →
    Except StringFailure (Nat × List (Option JsString) × Option JsString)
  | bound :: bounds, bucket :: buckets, aggregate =>
      if len ≥ bound then do
        let aggregate ← prepend bucket aggregate
        let (index, rest, aggregate) ←
          collectLower len bounds buckets aggregate
        .ok (index + 1, rest, aggregate)
      else
        .ok (0, bucket :: buckets, aggregate)
  | _, _, _ => .error .indexOutOfBounds

/-- Joins the aggregate with occupied buckets until an empty one takes it. -/
def carry : List (Option JsString) → JsString →
    Except StringFailure (List (Option JsString))
  | [], _ => .error (.tooLong (maxStringCodeUnits + 1) maxStringCodeUnits)
  | none :: buckets, aggregate => .ok (some aggregate :: buckets)
  | some left :: buckets, aggregate => do
      let node ← newRopeNode left aggregate
      let buckets ← carry buckets node
      .ok (none :: buckets)

def appendLeaf : Option JsString → JsString → Except StringFailure JsString
  | none, leaf => .ok leaf
  | some left, leaf => newRopeNode left leaf

def rebalanceLeaf (leaf : JsString) (buckets : List (Option JsString)) :
    Except StringFailure (List (Option JsString)) := do
  let (index, rest, aggregate) ←
    collectLower leaf.len ropeBucketLengths.tail buckets none
  let aggregate ← appendLeaf aggregate leaf
  let rest ← carry rest aggregate
  .ok (List.replicate index none ++ rest)

/-- Puts the leaves below the stacked nodes into the buckets. -/
def fillBuckets (stack : List JsString) (buckets : List (Option JsString)) :
    Except StringFailure (List (Option JsString)) :=
  match stack with
  | [] => .ok buckets
  | rope left right _ _ _ :: stack =>
      fillBuckets (left :: right :: stack) buckets
  | latin1 units :: stack =>
      if (latin1 units).isEmpty then
        fillBuckets stack buckets
      else do
        let buckets ← rebalanceLeaf (latin1 units) buckets
        fillBuckets stack buckets
  | utf16 units :: stack =>
      if (utf16 units).isEmpty then
        fillBuckets stack buckets
      else do
        let buckets ← rebalanceLeaf (utf16 units) buckets
        fillBuckets stack buckets
termination_by CodeUnits.stackNodes stack
decreasing_by
  all_goals simp only [CodeUnits.stackNodes, List.map_cons, List.sum_cons, nodes]
  all_goals omega

def joinBuckets : List (Option JsString) → Option JsString →
    Except StringFailure (Option JsString)
  | [], result => .ok result
  | bucket :: buckets, result => do
      let result ← prepend bucket result
      joinBuckets buckets result

def rebalance (left right : JsString) : Except StringFailure JsString := do
  let buckets ← fillBuckets [left, right]
    (List.replicate ropeBucketLengths.length none)
  let result ← joinBuckets buckets none
  .ok (result.getD empty)

def newRope (left right : JsString) : Except StringFailure JsString := do
  let len ← checkedSum left.len right.len
  let depth := min 255 (max left.depth right.depth + 1)
  if depth > ropeMaxDepth then
    rebalance left right
  else
    .ok (rope left right len depth (left.isWide || right.isWide))

/-- The shapes of the concatenation of two strings that are not empty. -/
def concatFilled (left right : JsString) : Except StringFailure JsString :=
  if right.isLeaf ∧ right.len ≤ ropeShortLen then
    if left.isLeaf ∧ left.len ≤ ropeShortLeftLen then
      copyConcat left right
    else
      match left with
      | rope first last _ _ _ =>
          if last.isLeaf ∧ last.len ≤ ropeShortLen then do
            let merged ← copyConcat last right
            newRope first merged
          else
            newRope left right
      | _ => newRope left right
  else if left.isLeaf then
    match right with
    | rope first last _ _ _ =>
        if first.isLeaf ∧ first.len ≤ ropeShortLen then do
          let merged ← copyConcat left first
          newRope merged last
        else
          newRope left right
    | _ => newRope left right
  else
    newRope left right

def concat (left right : JsString) : Except StringFailure JsString := do
  let _ ← checkedSum left.len right.len
  if left.isEmpty then
    .ok right
  else if right.isEmpty then
    .ok left
  else
    concatFilled left right

def slice (string : JsString) (start stop : Nat) :
    Except StringFailure JsString :=
  if start > stop ∨ stop > string.len then
    .error (.invalidRange start stop string.len)
  else if start = 0 ∧ stop = string.len then
    .ok string
  else if start = stop then
    fromCodeUnits 0 []
  else do
    let (_, iterator) ← CodeUnits.takeUnits start (CodeUnits.new string)
    let (units, _) ← CodeUnits.takeUnits (stop - start) iterator
    fromCodeUnits (stop - start) units

/-- The rope node over two strings, without the length check. -/
def join (left right : JsString) : JsString :=
  rope left right (left.len + right.len)
    (min 255 (max left.depth right.depth + 1)) (left.isWide || right.isWide)

@[simp]
theorem len_join (left right : JsString) :
    (left.join right).len = left.len + right.len :=
  rfl

@[simp]
theorem depth_join (left right : JsString) :
    (left.join right).depth = min 255 (max left.depth right.depth + 1) :=
  rfl

@[simp]
theorem isWide_join (left right : JsString) :
    (left.join right).isWide = (left.isWide || right.isWide) :=
  rfl

@[simp]
theorem content_join (left right : JsString) :
    (left.join right).content = left.content ++ right.content :=
  rfl

/-- The cached data is right, wide leaves hold a wide unit, and no part of a
rope is empty. -/
inductive WellFormed : JsString → Prop where
  | latin1 {units : List UInt8} (bounded : units.length ≤ maxStringCodeUnits) :
      WellFormed (latin1 units)
  | utf16 {units : List UInt16} (bounded : units.length ≤ maxStringCodeUnits)
      (wide : ∃ unit ∈ units, ¬ unit < 256) : WellFormed (utf16 units)
  | join {left right : JsString} (leftFormed : WellFormed left)
      (rightFormed : WellFormed right) (leftFilled : left.len ≠ 0)
      (rightFilled : right.len ≠ 0)
      (bounded : left.len + right.len ≤ maxStringCodeUnits) :
      WellFormed (left.join right)

namespace WellFormed

theorem len_eq {string : JsString} (formed : string.WellFormed) :
    string.len = string.content.length := by
  induction formed with
  | latin1 bounded => simp [len, content]
  | utf16 bounded wide => rfl
  | join _ _ _ _ _ leftInduction rightInduction =>
      simp [leftInduction, rightInduction]

theorem len_le {string : JsString} (formed : string.WellFormed) :
    string.len ≤ maxStringCodeUnits := by
  cases formed with
  | latin1 bounded => exact bounded
  | utf16 bounded wide => exact bounded
  | join _ _ _ _ bounded => exact bounded

theorem toUInt16_lt (unit : UInt8) : unit.toUInt16 < 256 := by
  rw [UInt16.lt_iff_toNat_lt]
  simpa using unit.toNat_lt

theorem isLatin1_iff {string : JsString} (formed : string.WellFormed) :
    string.isLatin1 = true ↔ ∀ unit ∈ string.content, unit < 256 := by
  induction formed with
  | latin1 bounded =>
      simp only [isLatin1, isWide, content, List.mem_map]
      constructor
      · rintro _ _ ⟨narrow, _, rfl⟩
        exact toUInt16_lt narrow
      · intro _
        rfl
  | utf16 bounded wide =>
      obtain ⟨unit, member, notNarrow⟩ := wide
      simp only [isLatin1, isWide, content, Bool.not_true, Bool.false_eq_true,
        false_iff]
      intro narrow
      exact notNarrow (narrow unit member)
  | join _ _ _ _ _ leftInduction rightInduction =>
      simp only [isLatin1, isWide_join, content_join, Bool.not_or,
        Bool.and_eq_true, List.mem_append, or_imp, forall_and] at *
      rw [leftInduction, rightInduction]

theorem unitAt_eq {string : JsString} (formed : string.WellFormed)
    (index : Nat) : string.unitAt index = string.content[index]? := by
  induction formed generalizing index with
  | latin1 bounded => simp [unitAt, content]
  | utf16 bounded wide => rfl
  | join leftFormed _ _ _ _ leftInduction rightInduction =>
      simp only [JsString.join, unitAt, content]
      rw [leftFormed.len_eq]
      split
      · rename_i inside
        rw [leftInduction, List.getElem?_append_left inside]
      · rename_i outside
        rw [rightInduction, List.getElem?_append_right (Nat.le_of_not_lt outside)]

theorem codeUnitAt_eq {string : JsString} (formed : string.WellFormed)
    (index : Nat) : string.codeUnitAt index = string.content[index]? := by
  unfold codeUnitAt
  split
  · rename_i outside
    rw [formed.len_eq] at outside
    exact (List.getElem?_eq_none outside).symm
  · exact formed.unitAt_eq index

theorem empty : JsString.empty.WellFormed :=
  .latin1 (Nat.zero_le _)

end WellFormed

theorem newRopeNode_eq {left right : JsString}
    (bounded : left.len + right.len ≤ maxStringCodeUnits) :
    newRopeNode left right = .ok (left.join right) := by
  simp [newRopeNode, checkedSum, Nat.not_lt.mpr bounded, JsString.join, bind,
    Except.bind]

theorem collectCodeUnits_wide {units wide : List UInt16}
    {narrow : List UInt8}
    (bounded : wide.length + units.length ≤ maxStringCodeUnits) :
    collectCodeUnits units narrow (some wide) = .ok (utf16 (wide ++ units)) := by
  induction units generalizing wide with
  | nil => simp [collectCodeUnits]
  | cons unit units induction =>
      simp only [List.length_cons] at bounded
      have room : wide.length ≠ maxStringCodeUnits := by omega
      simp only [collectCodeUnits, Option.elim_some, room, ↓reduceIte]
      rw [induction (by simp; omega)]
      simp

theorem toUInt16_toUInt8 {unit : UInt16} (narrow : unit < 256) :
    unit.toUInt8.toUInt16 = unit := by
  rw [UInt16.lt_iff_toNat_lt] at narrow
  apply UInt16.toNat_inj.mp
  simpa using Nat.mod_eq_of_lt narrow

theorem collectCodeUnits_narrow {units : List UInt16} {narrow : List UInt8}
    (bounded : narrow.length + units.length ≤ maxStringCodeUnits) :
    ∃ string, collectCodeUnits units narrow none = .ok string ∧
      string.WellFormed ∧ string.isLeaf = true ∧
      string.content = narrow.map UInt8.toUInt16 ++ units := by
  induction units generalizing narrow with
  | nil =>
      cases narrow with
      | nil => exact ⟨empty, rfl, .empty, rfl, rfl⟩
      | cons first rest =>
          exact ⟨_, rfl, .latin1 (by simpa using bounded), rfl, by
            simp [content]⟩
  | cons unit units induction =>
      simp only [List.length_cons] at bounded
      have room : narrow.length ≠ maxStringCodeUnits := by omega
      simp only [collectCodeUnits, Option.elim_none, room, ↓reduceIte]
      by_cases fits : unit < 256
      · obtain ⟨string, collected, formed, leaf, same⟩ :=
          @induction (narrow ++ [unit.toUInt8]) (by simp; omega)
        refine ⟨string, by rw [if_pos fits, collected], formed, leaf, ?_⟩
        simp [same, toUInt16_toUInt8 fits]
      · rw [if_neg fits, collectCodeUnits_wide (by simp; omega)]
        refine ⟨_, rfl, .utf16 (by simp; omega) ⟨unit, by simp, fits⟩, rfl, ?_⟩
        simp [content]

theorem fromCodeUnits_eq_ok {lowerBound : Nat} {units : List UInt16}
    (hint : lowerBound ≤ units.length)
    (bounded : units.length ≤ maxStringCodeUnits) :
    ∃ string, fromCodeUnits lowerBound units = .ok string ∧
      string.WellFormed ∧ string.isLeaf = true ∧ string.content = units := by
  have room : ¬ lowerBound > maxStringCodeUnits := by omega
  obtain ⟨string, collected, formed, leaf, same⟩ :=
    @collectCodeUnits_narrow units [] (by simpa using bounded)
  exact ⟨string, by rw [fromCodeUnits, if_neg room, collected], formed, leaf,
    same⟩

theorem fromLatin1_wellFormed {units : List UInt8} {string : JsString}
    (built : fromLatin1 units = .ok string) :
    string.WellFormed ∧ string.isLeaf = true ∧
      string.content = units.map UInt8.toUInt16 := by
  unfold fromLatin1 checkLength at built
  split at built
  · cases built
  · rename_i bounded
    cases units with
    | nil =>
        cases built
        exact ⟨.empty, rfl, rfl⟩
    | cons first rest =>
        cases built
        exact ⟨.latin1 (Nat.le_of_not_lt bounded), rfl, rfl⟩

end JsString

end Fusor.Runtime
