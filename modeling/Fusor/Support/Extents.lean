import Mathlib.Tactic

/-!
# Lists measured by the widths of their elements

A text is a list of characters, and an encoding gives every character a
width.  An offset in the encoded text is a boundary when it is the extent of
a prefix.  Splitting and slicing at boundaries, the offsets at which the
pieces of a list begin, and the search for the piece that holds an offset
are stated here for any positive width.
-/

namespace Fusor.Support

variable {α : Type}

def extent (width : α → Nat) (list : List α) : Nat :=
  (list.map width).sum

@[simp]
theorem extent_nil (width : α → Nat) : extent width [] = 0 :=
  rfl

@[simp]
theorem extent_cons (width : α → Nat) (head : α) (tail : List α) :
    extent width (head :: tail) = width head + extent width tail := by
  simp [extent]

@[simp]
theorem extent_append (width : α → Nat) (front back : List α) :
    extent width (front ++ back) = extent width front + extent width back := by
  simp [extent]

/-- Both sides of an offset, unless it lies inside an element or past the
end. -/
def splitAtExtent (width : α → Nat) :
    List α → Nat → Option (List α × List α)
  | [], offset => if offset = 0 then some ([], []) else none
  | head :: tail, offset =>
      if offset = 0 then
        some ([], head :: tail)
      else if offset < width head then
        none
      else
        (splitAtExtent width tail (offset - width head)).map
          fun (front, back) => (head :: front, back)

/-- The elements between two boundaries. -/
def sliceExtent (width : α → Nat) (list : List α) (first last : Nat) :
    Option (List α) :=
  if first ≤ last then
    match splitAtExtent width list first with
    | none => none
    | some (_, back) =>
        (splitAtExtent width back (last - first)).map Prod.fst
  else
    none

section Positive

variable {width : α → Nat} (positive : ∀ element, 0 < width element)

include positive

theorem extent_pos_of_ne_nil {list : List α} (nonempty : list ≠ []) :
    0 < extent width list := by
  cases list with
  | nil => exact absurd rfl nonempty
  | cons head tail =>
      have headPositive := positive head
      rw [extent_cons]
      omega

theorem splitAtExtent_append (front back : List α) :
    splitAtExtent width (front ++ back) (extent width front) =
      some (front, back) := by
  induction front with
  | nil => cases back <;> simp [splitAtExtent]
  | cons head tail induction =>
      have headPositive := positive head
      rw [List.cons_append, splitAtExtent, extent_cons, if_neg (by omega),
        if_neg (by omega), Nat.add_sub_cancel_left, induction]
      rfl

theorem splitAtExtent_eq_some_iff {list front back : List α} {offset : Nat} :
    splitAtExtent width list offset = some (front, back) ↔
      list = front ++ back ∧ extent width front = offset := by
  constructor
  · intro split
    induction list generalizing offset front with
    | nil =>
        rw [splitAtExtent] at split
        split at split
        · cases split
          simp_all
        · cases split
    | cons head tail induction =>
        rw [splitAtExtent] at split
        split at split
        · cases split
          simp_all
        · split at split
          · cases split
          · obtain ⟨⟨tailFront, tailBack⟩, found, same⟩ :=
              Option.map_eq_some_iff.mp split
            cases same
            obtain ⟨joined, measured⟩ := induction found
            refine ⟨by rw [joined, List.cons_append], ?_⟩
            rw [extent_cons]
            omega
  · intro ⟨joined, measured⟩
    subst joined
    subst measured
    exact splitAtExtent_append positive front back

theorem sliceExtent_eq_some_iff {list middle : List α} {first last : Nat} :
    sliceExtent width list first last = some middle ↔
      ∃ front back, list = front ++ (middle ++ back) ∧
        extent width front = first ∧ first + extent width middle = last := by
  unfold sliceExtent
  constructor
  · intro sliced
    split at sliced
    · cases found : splitAtExtent width list first with
      | none => simp [found] at sliced
      | some sides =>
          obtain ⟨front, rest⟩ := sides
          simp only [found] at sliced
          obtain ⟨⟨inner, back⟩, inside, same⟩ :=
            Option.map_eq_some_iff.mp sliced
          cases same
          have outer := (splitAtExtent_eq_some_iff positive).mp found
          have within := (splitAtExtent_eq_some_iff positive).mp inside
          refine ⟨front, back, by rw [outer.1, within.1], outer.2, ?_⟩
          have measured : extent width inner = last - first := within.2
          simp only
          omega
    · cases sliced
  · intro ⟨front, back, joined, firstMeasured, lastMeasured⟩
    subst joined
    subst firstMeasured
    subst lastMeasured
    rw [if_pos (Nat.le_add_right _ _), splitAtExtent_append positive]
    simp only
    rw [Nat.add_sub_cancel_left, splitAtExtent_append positive]
    rfl

/-- Of two prefixes of one list, the one with the smaller extent comes
first. -/
theorem prefix_of_extent_le {list front longer : List α}
    (isFront : front <+: list) (isLonger : longer <+: list)
    (smaller : extent width front ≤ extent width longer) :
    front <+: longer := by
  rcases List.prefix_or_prefix_of_prefix isFront isLonger with order | order
  · exact order
  · obtain ⟨rest, joined⟩ := order
    subst joined
    cases rest with
    | nil => simp
    | cons head tail =>
        have headPositive := positive head
        rw [extent_append, extent_cons] at smaller
        omega

theorem extent_lt_of_extent_lt {other : α → Nat}
    {list front longer : List α}
    (isFront : front <+: list) (isLonger : longer <+: list)
    (smaller : extent other front < extent other longer)
    (otherPositive : ∀ element, 0 < other element) :
    extent width front < extent width longer := by
  obtain ⟨rest, joined⟩ := prefix_of_extent_le otherPositive isFront isLonger
    (Nat.le_of_lt smaller)
  subst joined
  have nonempty : rest ≠ [] := by
    intro empty
    subst empty
    simp at smaller
  have restPositive := extent_pos_of_ne_nil positive nonempty
  rw [extent_append]
  omega

end Positive

/-- The number of elements before the first one that fails the test. -/
def partitionPoint (list : List α) (test : α → Bool) : Nat :=
  (list.takeWhile test).length

theorem partitionPoint_spec {list : List α} {test : α → Bool}
    {index : Nat} (found : partitionPoint list test = index + 1) :
    (∃ element, list[index]? = some element ∧ test element = true) ∧
      ∀ element, list[index + 1]? = some element → test element = false := by
  induction list generalizing index with
  | nil => simp [partitionPoint] at found
  | cons head tail induction =>
      cases passed : test head with
      | false => simp [partitionPoint, passed] at found
      | true =>
          have counted : partitionPoint tail test = index := by
            simpa [partitionPoint, passed] using found
          cases index with
          | zero =>
              refine ⟨⟨head, rfl, passed⟩, ?_⟩
              intro element next
              cases tail with
              | nil => simp at next
              | cons second others =>
                  cases next
                  by_contra holds
                  have secondPassed := Bool.eq_true_of_not_eq_false holds
                  simp [partitionPoint, secondPassed] at counted
          | succ index => exact induction counted

/-- In an increasing list the elements up to a bound come first. -/
theorem partitionPoint_eq {list : List Nat} {bound index value : Nat}
    (increasing : list.Pairwise (· < ·)) (present : list[index]? = some value)
    (below : value ≤ bound)
    (above : ∀ next, list[index + 1]? = some next → bound < next) :
    partitionPoint list (fun element => element ≤ bound) = index + 1 := by
  induction list generalizing index with
  | nil => cases present
  | cons head tail induction =>
      obtain ⟨headFirst, tailIncreasing⟩ := List.pairwise_cons.mp increasing
      cases index with
      | zero =>
          cases present
          cases tail with
          | nil => simp [partitionPoint, below]
          | cons second others =>
              have secondAbove := above second rfl
              simp [partitionPoint, below, secondAbove]
      | succ index =>
          have headBelow : head ≤ bound :=
            Nat.le_trans
              (Nat.le_of_lt (headFirst value (List.mem_of_getElem? present)))
              below
          have counted := induction tailIncreasing present above
          simpa [partitionPoint, headBelow] using counted

/-- The offsets at which the pieces begin. -/
def startsOf (width : α → Nat) : List (List α) → Nat → List Nat
  | [], _ => []
  | piece :: pieces, offset =>
      offset :: startsOf width pieces (offset + extent width piece)

theorem startsOf_length (width : α → Nat) (pieces : List (List α))
    (offset : Nat) : (startsOf width pieces offset).length = pieces.length := by
  induction pieces generalizing offset with
  | nil => rfl
  | cons piece pieces induction => simp [startsOf, induction]

theorem startsOf_get (width : α → Nat) (front : List (List α))
    (piece : List α) (back : List (List α)) (offset : Nat) :
    (startsOf width (front ++ piece :: back) offset)[front.length]? =
      some (offset + extent width front.flatten) := by
  induction front generalizing offset with
  | nil => simp [startsOf]
  | cons head tail induction =>
      rw [List.cons_append, startsOf, List.length_cons,
        List.getElem?_cons_succ, induction, List.flatten_cons, extent_append]
      congr 1
      omega

theorem le_of_mem_startsOf {width : α → Nat} {pieces : List (List α)}
    {offset start : Nat} (member : start ∈ startsOf width pieces offset) :
    offset ≤ start ∧ start ≤ offset + extent width pieces.flatten := by
  induction pieces generalizing offset with
  | nil => cases member
  | cons piece pieces induction =>
      rw [List.flatten_cons, extent_append]
      rcases List.mem_cons.mp member with same | later
      · omega
      · have bounds := induction later
        omega

/-- Every piece but the last one has an element. -/
def Separated (pieces : List (List α)) : Prop :=
  ∀ piece ∈ pieces.dropLast, piece ≠ []

theorem startsOf_increasing {width : α → Nat}
    (positive : ∀ element, 0 < width element) {pieces : List (List α)}
    {offset : Nat} (separated : Separated pieces) :
    (startsOf width pieces offset).Pairwise (· < ·) := by
  induction pieces generalizing offset with
  | nil => exact List.Pairwise.nil
  | cons piece pieces induction =>
      cases pieces with
      | nil => exact List.pairwise_singleton _ _
      | cons second others =>
          have nonempty : piece ≠ [] :=
            separated piece (by simp)
          have piecePositive := extent_pos_of_ne_nil positive nonempty
          refine List.pairwise_cons.mpr ⟨?_, induction ?_⟩
          · intro start member
            have bounds := le_of_mem_startsOf member
            omega
          · intro later member
            exact separated later (by simp [member])

end Fusor.Support
