import Mathlib.Data.List.GetD
import Fusor.Bytecode.AssemblerCorrectness

/-!
# Branch relaxation finds the least layout

Widening a branch moves what follows it, so it never brings a target nearer.
The passes start from the shortest forms and widen a branch only to the least
width that reaches with the widths found so far, so they stay below every
assignment of widths in which all branches reach.
-/

namespace Fusor.Bytecode

open Fusor.Graph Fusor.Support

/-! ## Offsets -/

/-- Where an instruction starts. -/
def offset (widths : List Nat) (position : Nat) : Nat :=
  (widths.take position).sum

/-- The displacement of a branch, from the byte after its opcode. -/
def displacement (widths : List Nat) (source target : Nat) : Int :=
  (offset widths target : Int) - ((offset widths source + 1 : Nat) : Int)

/-- No instruction is wider. -/
def NoWider (left right : List Nat) : Prop :=
  List.Forall₂ (· ≤ ·) left right

theorem offset_add (widths : List Nat) {first second : Nat}
    (before : first ≤ second) :
    offset widths second =
      offset widths first + ((widths.take second).drop first).sum := by
  unfold offset
  have split := List.take_append_drop first (widths.take second)
  rw [List.take_take, Nat.min_eq_left before] at split
  rw [← List.sum_append, split]

theorem offset_succ {widths : List Nat} {position : Nat}
    (inside : position < widths.length) :
    offset widths (position + 1) =
      offset widths position + widths.getD position 0 := by
  unfold offset
  rw [List.take_succ_eq_append_getElem inside, List.sum_append,
    List.sum_singleton, List.getD_eq_getElem _ _ inside]

theorem NoWider.span_le {left right : List Nat} (narrow : NoWider left right)
    (first second : Nat) :
    ((left.take second).drop first).sum ≤
      ((right.take second).drop first).sum := by
  have cut : List.Forall₂ (· ≤ ·) ((left.take second).drop first)
      ((right.take second).drop first) :=
    List.forall₂_drop first (List.forall₂_take second narrow)
  exact cut.sum_le_sum

/-- A displacement that lies between nothing and one that fits fits. -/
theorem fitsWidth_between {candidate : Nat} {near far : Int}
    (between : (-1 ≤ near ∧ near ≤ far) ∨ (far ≤ near ∧ near ≤ -1))
    (fits : fitsWidth candidate far = true) :
    fitsWidth candidate near = true := by
  unfold fitsWidth at fits ⊢
  split at fits
  · simp only [Bool.and_eq_true, decide_eq_true_eq] at fits ⊢
    omega
  · simp only [Bool.and_eq_true, decide_eq_true_eq] at fits ⊢
    omega
  · simp only [Bool.and_eq_true, decide_eq_true_eq] at fits ⊢
    omega
  · cases fits

/-- With narrower instructions every target is at least as near. -/
theorem NoWider.fitsWidth {left right : List Nat}
    (narrow : NoWider left right) {candidate source target : Nat}
    (fits : fitsWidth candidate (displacement right source target) = true) :
    fitsWidth candidate (displacement left source target) = true := by
  apply fitsWidth_between _ fits
  unfold displacement
  rcases Nat.lt_or_ge source target with forward | backward
  · left
    have span := narrow.span_le source target
    rw [offset_add left (Nat.le_of_lt forward),
      offset_add right (Nat.le_of_lt forward)]
    omega
  · right
    have span := narrow.span_le target source
    rw [offset_add left backward, offset_add right backward]
    omega

theorem NoWider.getD_le {left right : List Nat} (narrow : NoWider left right)
    (index : Nat) : left.getD index 0 ≤ right.getD index 0 := by
  induction narrow generalizing index with
  | nil => exact Nat.le_refl _
  | cons less rest induction =>
      cases index with
      | zero => exact less
      | succ index => exact induction index

theorem NoWider.of_getD_le {left right : List Nat}
    (length : left.length = right.length)
    (narrow : ∀ index < left.length, left.getD index 0 ≤ right.getD index 0) :
    NoWider left right := by
  refine List.forall₂_iff_get.mpr ⟨length, ?_⟩
  intro index inside inside'
  have less := narrow index inside
  rw [List.getD_eq_getElem _ _ inside, List.getD_eq_getElem _ _ inside'] at less
  exact less

/-- Taking one width over from the wider layout. -/
theorem NoWider.set {left right : List Nat} (narrow : NoWider left right)
    (index : Nat) : NoWider (left.set index (right.getD index 0)) right := by
  induction narrow generalizing index with
  | nil => exact .nil
  | cons less rest induction =>
      cases index with
      | zero => exact .cons (Nat.le_refl _) rest
      | succ index => exact .cons less (induction index)

theorem offset_set_of_le (widths : List Nat) {source position : Nat}
    (before : position ≤ source) (width : Nat) :
    offset (widths.set source width) position = offset widths position := by
  unfold offset
  rw [List.take_set_of_le before]

theorem offset_set_of_lt {widths : List Nat} {source position : Nat}
    (inside : source < widths.length) (after : source < position)
    (width : Nat) :
    offset (widths.set source width) position + widths.getD source 0 =
      offset widths position + width := by
  induction widths generalizing source position with
  | nil => exact absurd inside (Nat.not_lt_zero _)
  | cons first rest induction =>
      obtain ⟨position, rfl⟩ := Nat.exists_eq_succ_of_ne_zero
        (Nat.ne_of_gt (Nat.lt_of_le_of_lt (Nat.zero_le _) after))
      cases source with
      | zero =>
          simp only [offset, List.set_cons_zero, Nat.succ_eq_add_one,
            List.take_succ_cons, List.sum_cons, List.getD_cons_zero]
          omega
      | succ source =>
          have within : source < rest.length := by simpa using inside
          have later : source < position := by omega
          have step := induction within later
          simp only [offset, List.set_cons_succ, Nat.succ_eq_add_one,
            List.take_succ_cons, List.sum_cons, List.getD_cons_succ] at step ⊢
          omega

/-- The displacement of a branch that is widened itself. -/
theorem displacement_set {widths : List Nat} {source target width : Nat}
    (inside : source < widths.length) (wider : widths.getD source 0 ≤ width) :
    displacement (widths.set source width) source target =
      displacement widths source target +
        if source < target then
          ((width - widths.getD source 0 : Nat) : Int) else 0 := by
  unfold displacement
  rw [offset_set_of_le widths (Nat.le_refl source)]
  split
  · rename_i after
    have moved := offset_set_of_lt inside after width
    omega
  · rename_i before
    rw [offset_set_of_le widths (Nat.le_of_not_lt before)]
    omega

/-- The table of all offsets. -/
def offsets (widths : List Nat) : List Nat :=
  (List.range (widths.length + 1)).map (offset widths)

theorem getD_offsets {widths : List Nat} {position : Nat}
    (inside : position ≤ widths.length) :
    (offsets widths).getD position 0 = offset widths position := by
  have bound : position < widths.length + 1 := Nat.lt_succ_of_le inside
  simp [offsets, List.getD_eq_getElem?_getD, List.getElem?_range bound]

theorem offsets_cons (width : Nat) (widths : List Nat) :
    offsets (width :: widths) = 0 :: (offsets widths).map (width + ·) := by
  have shifted : offset (width :: widths) ∘ Nat.succ =
      (width + ·) ∘ offset widths := by
    funext index
    simp [offset]
  unfold offsets
  rw [List.length_cons, List.range_succ_eq_map, List.map_cons, List.map_map,
    shifted, List.map_map]
  rfl

theorem populate_go {widths : List Nat} (position : Nat)
    (small : position + widths.sum < 2 ^ 64) :
    populateInstructionPositions.go position widths =
      .ok ((offsets widths).map (position + ·)) := by
  induction widths generalizing position with
  | nil => rfl
  | cons width widths induction =>
      rw [List.sum_cons] at small
      have step := induction (position + width) (by omega)
      rw [populateInstructionPositions.go, if_pos (by omega), step,
        offsets_cons, List.map_cons, List.map_map]
      simp only [bind, Except.bind, pure, Except.pure, Except.ok.injEq,
        Nat.add_zero]
      congr 2
      funext index
      exact Nat.add_assoc position width index

theorem populate_eq {widths : List Nat} (small : widths.sum < 2 ^ 64) :
    populateInstructionPositions widths = .ok (offsets widths) := by
  have result := populate_go 0 (by omega : 0 + widths.sum < 2 ^ 64)
  simpa [populateInstructionPositions] using result

/-! ## The least width that reaches -/

/-- A width that a branch may take and with which it reaches. -/
structure Reaches (kind : BranchKind) (widths : List Nat)
    (source target width : Nat) : Prop where
  wider : widths.getD source 0 ≤ width
  supported : kind.supportsWidth width = true
  fits : fitsWidth width
    (displacement (widths.set source width) source target) = true

theorem width_cases {kind : BranchKind} {width : Nat}
    (supported : kind.supportsWidth width = true) :
    width = 2 ∨ width = 3 ∨ width = 5 := by
  cases kind <;> simp [BranchKind.supportsWidth] at supported <;> omega

section Required

variable {kind : BranchKind} {widths : List Nat} {source target : Nat}
  (inside : source < widths.length) (bounded : target ≤ widths.length)
  (small : widths.sum < 2 ^ 40)

include small in
theorem offset_lt (position : Nat) : offset widths position < 2 ^ 40 := by
  have split := List.take_append_drop position widths
  have total : (widths.take position).sum + (widths.drop position).sum =
      widths.sum := by
    rw [← List.sum_append, split]
  unfold offset
  omega

include inside bounded small

/-- The displacement that the search for a width computes. -/
theorem candidate_displacement {width : Nat}
    (wider : widths.getD source 0 ≤ width) (narrow : width ≤ 5) :
    (do
      let moved ← candidateTarget source target (offsets widths)
        (width - widths.getD source 0)
      signedDisplacement ((offsets widths).getD source 0) moved) =
      .ok (displacement (widths.set source width) source target) := by
  have first := offset_lt small source
  have second := offset_lt small target
  rw [displacement_set inside wider]
  unfold candidateTarget
  simp only [getD_offsets bounded, getD_offsets (Nat.le_of_lt inside)]
  by_cases forward : source < target
  · rw [if_pos forward, if_pos forward, if_pos (by omega)]
    simp only [bind, Except.bind, signedDisplacement]
    rw [if_neg (by omega), if_pos (by omega)]
    unfold displacement
    congr 1
    omega
  · rw [if_neg forward, if_neg forward]
    simp only [bind, Except.bind, signedDisplacement]
    rw [if_neg (by omega), if_pos (by omega)]
    unfold displacement
    congr 1
    omega

theorem requiredBranchSize_cons (instructionIndex labelIndex : Nat)
    {width : Nat} (narrow : width ≤ 5) (candidates : List Nat) :
    (Reaches kind widths source target width ∧
      requiredBranchSize.go kind (widths.getD source 0) source target
        (offsets widths) instructionIndex labelIndex (width :: candidates) =
          .ok width) ∨
    (¬ Reaches kind widths source target width ∧
      requiredBranchSize.go kind (widths.getD source 0) source target
        (offsets widths) instructionIndex labelIndex (width :: candidates) =
          requiredBranchSize.go kind (widths.getD source 0) source target
            (offsets widths) instructionIndex labelIndex candidates) := by
  rw [requiredBranchSize.go]
  by_cases skipped : width < widths.getD source 0 ∨
      kind.supportsWidth width = false
  · right
    refine ⟨?_, by rw [if_pos (by simpa using skipped)]⟩
    intro reached
    rcases skipped with short | unsupported
    · exact absurd reached.wider (Nat.not_le.mpr short)
    · rw [reached.supported] at unsupported
      cases unsupported
  · rw [if_neg (by simpa using skipped)]
    rw [not_or, Nat.not_lt, Bool.not_eq_false] at skipped
    obtain ⟨wider, supported⟩ := skipped
    have measured := candidate_displacement inside bounded small wider narrow
    obtain ⟨moved, targets, signed⟩ := bind_eq_ok_iff.mp measured
    rw [targets]
    simp only [bind, Except.bind]
    rw [signed]
    by_cases fits : fitsWidth width
        (displacement (widths.set source width) source target) = true
    · exact .inl ⟨⟨wider, supported, fits⟩, if_pos fits⟩
    · exact .inr ⟨fun reached => fits reached.fits, if_neg fits⟩

theorem requiredBranchSize_nil (instructionIndex labelIndex : Nat)
    (wide : widths.getD source 0 ≤ 5) :
    ∃ distance, requiredBranchSize.go kind (widths.getD source 0) source
      target (offsets widths) instructionIndex labelIndex [] =
        .error (.branchDisplacementOutOfRange instructionIndex labelIndex
          distance) := by
  have widest : kind.longOpcode.metadata.instructionSize = 5 := by
    cases kind <;> rfl
  have measured := candidate_displacement inside bounded small wide
    (Nat.le_refl 5)
  obtain ⟨moved, targets, signed⟩ := bind_eq_ok_iff.mp measured
  refine ⟨displacement (widths.set source 5) source target, ?_⟩
  rw [requiredBranchSize.go, widest, targets]
  simp only [bind, Except.bind]
  rw [signed]

/-- The search finds the least width that reaches, or there is none. -/
theorem requiredBranchSize_spec (instructionIndex labelIndex : Nat)
    (wide : widths.getD source 0 ≤ 5) :
    (∃ width, requiredBranchSize kind (widths.getD source 0) source target
        (offsets widths) instructionIndex labelIndex = .ok width ∧
      IsLeast {width | Reaches kind widths source target width} width) ∨
    (∃ distance, requiredBranchSize kind (widths.getD source 0) source target
        (offsets widths) instructionIndex labelIndex =
          .error (.branchDisplacementOutOfRange instructionIndex labelIndex
            distance) ∧
      ∀ width, ¬ Reaches kind widths source target width) := by
  unfold requiredBranchSize
  have step := fun {width : Nat} (narrow : width ≤ 5) =>
    @requiredBranchSize_cons kind widths source target inside bounded small
      instructionIndex labelIndex width narrow
  rcases step (by decide : 2 ≤ 5) [3, 5] with ⟨two, found⟩ | ⟨notTwo, second⟩
  · refine .inl ⟨2, found, two, ?_⟩
    intro other reached
    rcases width_cases reached.supported with rfl | rfl | rfl <;> omega
  rw [second]
  rcases step (by decide : 3 ≤ 5) [5] with ⟨three, found⟩ | ⟨notThree, third⟩
  · refine .inl ⟨3, found, three, ?_⟩
    intro other reached
    rcases width_cases reached.supported with rfl | rfl | rfl
    · exact absurd reached notTwo
    · omega
    · omega
  rw [third]
  rcases step (by decide : 5 ≤ 5) [] with ⟨five, found⟩ | ⟨notFive, last⟩
  · refine .inl ⟨5, found, five, ?_⟩
    intro other reached
    rcases width_cases reached.supported with rfl | rfl | rfl
    · exact absurd reached notTwo
    · exact absurd reached notThree
    · omega
  · rw [last]
    obtain ⟨distance, failed⟩ := requiredBranchSize_nil inside bounded small
      instructionIndex labelIndex wide
    refine .inr ⟨distance, failed, ?_⟩
    intro other reached
    rcases width_cases reached.supported with rfl | rfl | rfl
    · exact notTwo reached
    · exact notThree reached
    · exact notFive reached

end Required

/-! ## Assignments of widths -/

/-- A width that an item may have: the kinds of branches have several. -/
def Admits : AssemblyItem → Nat → Prop
  | .branch kind _, width => kind.supportsWidth width = true
  | item, width => width = item.minimumSize

theorem admits_minimumSize (item : AssemblyItem) :
    Admits item item.minimumSize := by
  cases item with
  | instruction planned => rfl
  | branch kind label => cases kind <;> rfl
  | withBranch opcode atom value label => rfl

theorem Admits.minimumSize_le {item : AssemblyItem} {width : Nat}
    (admitted : Admits item width) : item.minimumSize ≤ width := by
  cases item with
  | instruction planned => exact Nat.le_of_eq admitted.symm
  | branch kind label =>
      cases kind <;>
        simp [Admits, BranchKind.supportsWidth] at admitted <;>
        simp only [AssemblyItem.minimumSize, BranchKind.minimumSize] <;> omega
  | withBranch opcode atom value label => exact Nat.le_of_eq admitted.symm

theorem Admits.le_eleven {item : AssemblyItem} {width : Nat}
    (admitted : Admits item width) : width ≤ 11 := by
  cases item with
  | instruction planned => exact admitted ▸ planned.encodedSize_le
  | branch kind label =>
      rcases width_cases admitted with rfl | rfl | rfl <;> decide
  | withBranch opcode atom value label =>
      have ten : width = 10 := admitted
      omega

/-- How often a branch of this width can still be widened. -/
def widthSlack : AssemblyItem → Nat → Nat
  | .branch _ _, 2 => 2
  | .branch _ _, 3 => 1
  | _, _ => 0

def slack (items : List AssemblyItem) (widths : List Nat) : Nat :=
  (List.zipWith widthSlack items widths).sum

theorem widthSlack_le (item : AssemblyItem) (width : Nat) :
    widthSlack item width ≤
      if BytecodeAssembler.isBranch item then 2 else 0 := by
  unfold widthSlack BytecodeAssembler.isBranch
  split <;> simp

theorem slack_le (items : List AssemblyItem) (widths : List Nat) :
    slack items widths ≤ 2 * items.countP BytecodeAssembler.isBranch := by
  induction items generalizing widths with
  | nil => simp [slack]
  | cons item items induction =>
      cases widths with
      | nil => simp [slack]
      | cons width widths =>
          have rest := induction widths
          have first := widthSlack_le item width
          rw [List.countP_cons]
          simp only [slack, List.zipWith_cons_cons, List.sum_cons] at rest ⊢
          split at first
          · rename_i branch
            rw [if_pos branch]
            omega
          · omega

theorem widthSlack_lt {item : AssemblyItem} {narrow wide : Nat}
    (first : Admits item narrow) (second : Admits item wide)
    (less : narrow < wide) : widthSlack item wide < widthSlack item narrow := by
  cases item with
  | instruction planned =>
      exact absurd (first.trans second.symm) (Nat.ne_of_lt less)
  | branch kind label =>
      rcases width_cases first with rfl | rfl | rfl <;>
        rcases width_cases second with rfl | rfl | rfl <;>
        simp [widthSlack] at less ⊢
  | withBranch opcode atom value label =>
      exact absurd (first.trans second.symm) (Nat.ne_of_lt less)

theorem slack_mono {items : List AssemblyItem} {narrow wide : List Nat}
    (first : List.Forall₂ Admits items narrow)
    (second : List.Forall₂ Admits items wide)
    (noWider : NoWider narrow wide) :
    slack items wide ≤ slack items narrow ∧
      (narrow ≠ wide → slack items wide < slack items narrow) := by
  induction first generalizing wide with
  | nil =>
      cases second
      simp
  | @cons item width items widths admitted rest induction =>
      cases second with
      | @cons _ width' _ widths' admitted' rest' =>
          obtain ⟨less, noWider⟩ := List.forall₂_cons.mp noWider
          obtain ⟨bound, strict⟩ := induction rest' noWider
          simp only [slack, List.zipWith_cons_cons, List.sum_cons] at bound strict ⊢
          rcases Nat.lt_or_eq_of_le less with less | rfl
          · have one := widthSlack_lt admitted admitted' less
            exact ⟨by omega, fun _ => by omega⟩
          · refine ⟨by omega, ?_⟩
            intro different
            have later := strict (fun same => different (by rw [same]))
            omega

namespace BytecodeAssembler

section Pass

variable (assembler : BytecodeAssembler)

/-- Widths of all items, each one that its item may have. -/
def Assignment (widths : List Nat) : Prop :=
  List.Forall₂ Admits assembler.items widths

/-- Every branch reaches its target. -/
def Fits (widths : List Nat) : Prop :=
  ∀ (position : Nat) kind label target,
    assembler.items[position]? = some (.branch kind label) →
    assembler.binding label = some target →
      fitsWidth (widths.getD position 0)
        (displacement widths position target) = true

/-- Widths that are no wider than any with which all branches reach. -/
structure Lower (widths : List Nat) : Prop where
  assignment : assembler.Assignment widths
  least : ∀ other, assembler.Assignment other → assembler.Fits other →
    NoWider widths other

/-- What a pass makes of the widths of some items from a position on. -/
structure Widened (widths : List Nat) (position : Nat)
    (items : List AssemblyItem) (widened : List Nat) : Prop where
  admitted : List.Forall₂ Admits items widened
  wider : NoWider (widths.drop position) widened
  least : ∀ (index : Nat) kind label,
    items[index]? = some (.branch kind label) →
      ∃ target, assembler.binding label = some target ∧
        IsLeast {width | Reaches kind widths (position + index) target width}
          (widened.getD index 0)

/-- A branch that no width brings to its target. -/
def Stuck (widths : List Nat) (position : Nat) (items : List AssemblyItem) :
    Prop :=
  ∃ (index : Nat) (kind : BranchKind) (label target : Nat),
    items[index]? = some (.branch kind label) ∧
      assembler.binding label = some target ∧
      ∀ width, ¬ Reaches kind widths (position + index) target width

end Pass

section RelaxItems

variable {assembler : BytecodeAssembler} {widths : List Nat}
  (planned : assembler.TargetsPlanned)
  (sized : assembler.items.length = widths.length)
  (small : widths.sum < 2 ^ 40) (few : widths.length ≤ 2 ^ 32)

include planned sized small few

/-- The width that a pass gives to one branch. -/
theorem branchWidth_spec {position : Nat} {kind : BranchKind} {label : Nat}
    (found : assembler.items[position]? = some (.branch kind label))
    (supported : kind.supportsWidth (widths.getD position 0) = true) :
    ∃ target, assembler.targetPosition label = .ok target ∧
      assembler.binding label = some target ∧ position < 2 ^ 32 ∧
      ((∃ width, requiredBranchSize kind (widths.getD position 0) position
          target (offsets widths) position label = .ok width ∧
        IsLeast {width | Reaches kind widths position target width} width) ∨
      (∃ distance, requiredBranchSize kind (widths.getD position 0) position
          target (offsets widths) position label =
            .error (.branchDisplacementOutOfRange position label distance) ∧
        ∀ width, ¬ Reaches kind widths position target width)) := by
  obtain ⟨inside, _⟩ := List.getElem?_eq_some_iff.mp found
  obtain ⟨target, bound, within⟩ :=
    planned _ (List.mem_of_getElem? found) label rfl
  refine ⟨target, targetPosition_ok_iff.mpr bound, bound, by omega, ?_⟩
  apply requiredBranchSize_spec (by omega) (by omega) small
  rcases width_cases supported with same | same | same <;> omega

omit planned sized small few in
/-- One item and the items after it. -/
theorem Widened.cons {position : Nat} {item : AssemblyItem}
    {items : List AssemblyItem} {width : Nat} {widened : List Nat}
    (inside : position < widths.length)
    (admitted : Admits item width) (wider : widths.getD position 0 ≤ width)
    (least : ∀ kind label, item = .branch kind label →
      ∃ target, assembler.binding label = some target ∧
        IsLeast {width | Reaches kind widths position target width} width)
    (rest : assembler.Widened widths (position + 1) items widened) :
    assembler.Widened widths position (item :: items) (width :: widened) := by
  refine ⟨.cons admitted rest.admitted, ?_, ?_⟩
  · have current : widths.getD position 0 = widths[position] := by
      simp [List.getD_eq_getElem?_getD, inside]
    rw [List.drop_eq_getElem_cons inside, ← current]
    exact .cons wider rest.wider
  · intro index kind label found
    cases index with
    | zero =>
        simp only [List.getElem?_cons_zero, Option.some.injEq] at found
        exact least kind label found
    | succ index =>
        have later := rest.least index kind label found
        rw [Nat.add_right_comm] at later
        exact later

omit planned sized small few in
theorem Stuck.later {position : Nat} {item : AssemblyItem}
    {items : List AssemblyItem}
    (stuck : assembler.Stuck widths (position + 1) items) :
    assembler.Stuck widths position (item :: items) := by
  obtain ⟨index, kind, label, target, found, bound, none⟩ := stuck
  refine ⟨index + 1, kind, label, target, found, bound, ?_⟩
  rw [Nat.add_right_comm] at none
  exact none

/-- What a pass does with some items from a position on. -/
def PassOutcome (assembler : BytecodeAssembler) (widths : List Nat)
    (position : Nat) (items : List AssemblyItem) (current : List Nat)
    (result : Except AssemblerError (List Nat × Bool)) : Prop :=
  (∃ widened changed, result = .ok (widened, changed) ∧
    assembler.Widened widths position items widened ∧
    (changed = true ↔ widened ≠ current)) ∨
  (∃ index label distance,
    result = .error (.branchDisplacementOutOfRange index label distance) ∧
    assembler.Stuck widths position items)

omit planned sized small few in
/-- The outcome for one item and the items after it. -/
theorem PassOutcome.cons {position : Nat} {item : AssemblyItem}
    {items : List AssemblyItem} {width : Nat} {grew : Bool}
    {current : List Nat} {result : Except AssemblerError (List Nat × Bool)}
    (inside : position < widths.length)
    (admitted : Admits item width) (wider : widths.getD position 0 ≤ width)
    (least : ∀ kind label, item = .branch kind label →
      ∃ target, assembler.binding label = some target ∧
        IsLeast {width | Reaches kind widths position target width} width)
    (growth : grew = true ↔ width ≠ widths.getD position 0)
    (rest : assembler.PassOutcome widths (position + 1) items current result) :
    assembler.PassOutcome widths position (item :: items)
      (widths.getD position 0 :: current)
      (result >>= fun later => pure (width :: later.1, grew || later.2)) := by
  rcases rest with ⟨widened, changed, rfl, rest, different⟩ |
    ⟨index, label, distance, rfl, stuck⟩
  · refine .inl ⟨width :: widened, grew || changed, rfl,
      rest.cons inside admitted wider least, ?_⟩
    rw [Bool.or_eq_true, growth, different, Ne, Ne, Ne, List.cons.injEq,
      Classical.not_and_iff_not_or_not]
  · exact .inr ⟨index, label, distance, rfl, stuck.later⟩

omit planned sized small few in
theorem relaxItems_fixed {item : AssemblyItem}
    (fixed : ∀ kind label, item ≠ .branch kind label) (positions : List Nat)
    (position : Nat) (items : List AssemblyItem) (width : Nat)
    (later : List Nat) :
    assembler.relaxItems positions position (item :: items) (width :: later) =
      (assembler.relaxItems positions (position + 1) items later >>=
        fun later => pure (width :: later.1, false || later.2)) := by
  cases item with
  | instruction planned => rfl
  | branch kind label => exact absurd rfl (fixed kind label)
  | withBranch opcode atom value label => rfl

omit planned sized small few in
theorem relaxItems_branch {kind : BranchKind} {label target position : Nat}
    (targeted : assembler.targetPosition label = .ok target)
    (few : position < 2 ^ 32) (positions : List Nat)
    (items : List AssemblyItem) (width : Nat) (later : List Nat) :
    assembler.relaxItems positions position (.branch kind label :: items)
        (width :: later) =
      (requiredBranchSize kind width position target positions position
        label >>= fun desired =>
          assembler.relaxItems positions (position + 1) items later >>=
            fun later =>
              pure ((if width < desired then desired else width) :: later.1,
                decide (width < desired) || later.2)) := by
  rw [relaxItems, targeted]
  simp only [Bind.bind, Except.bind, if_neg (Nat.not_le.mpr few)]
  cases requiredBranchSize kind width position target positions position
    label with
  | error error => rfl
  | ok desired =>
      by_cases less : width < desired <;> simp [less, pure, Except.pure]

/-- A pass finds for every branch the least width that reaches with the widths
before the pass, or a branch that no width brings to its target. -/
theorem relaxItems_spec (items : List AssemblyItem) (position : Nat)
    (rest : assembler.items.drop position = items)
    (admitted : List.Forall₂ Admits items (widths.drop position)) :
    assembler.PassOutcome widths position items (widths.drop position)
      (assembler.relaxItems (offsets widths) position items
        (widths.drop position)) := by
  induction items generalizing position with
  | nil =>
      have ended : widths.drop position = [] :=
        List.forall₂_nil_left_iff.mp admitted
      refine .inl ⟨[], false, by rw [ended]; rfl, ⟨.nil, ?_, ?_⟩, ?_⟩
      · rw [ended]
        exact .nil
      · intro index kind label found
        cases found
      · simp [ended]
  | cons item items induction =>
      have inside : position < assembler.items.length := by
        have length := congrArg List.length rest
        simp only [List.length_drop, List.length_cons] at length
        omega
      have inside' : position < widths.length := by omega
      rw [List.drop_eq_getElem_cons inside, List.cons.injEq] at rest
      obtain ⟨here, after⟩ := rest
      have found : assembler.items[position]? = some item := by
        rw [List.getElem?_eq_getElem inside, here]
      have current : widths[position] = widths.getD position 0 := by
        simp [List.getD_eq_getElem?_getD, inside']
      rw [List.drop_eq_getElem_cons inside', current] at admitted ⊢
      obtain ⟨first, admitted⟩ := List.forall₂_cons.mp admitted
      have later := induction (position + 1) after admitted
      by_cases branch : ∃ kind label, item = .branch kind label
      · obtain ⟨kind, label, rfl⟩ := branch
        obtain ⟨target, targeted, bound, few', required⟩ :=
          branchWidth_spec planned sized small few found first
        rw [relaxItems_branch targeted few']
        rcases required with ⟨width, required, least⟩ |
          ⟨distance, required, none⟩
        · rw [required]
          have wider := least.1.wider
          have same : (if widths.getD position 0 < width then width
              else widths.getD position 0) = width := by
            split <;> omega
          simp only [Bind.bind, Except.bind, same]
          refine PassOutcome.cons inside' least.1.supported wider ?_ ?_ later
          · intro kind' label' equal
            cases equal
            exact ⟨target, bound, least⟩
          · rw [decide_eq_true_eq]
            omega
        · rw [required]
          refine .inr ⟨position, label, distance, rfl, ?_⟩
          exact ⟨0, kind, label, target, rfl, bound, none⟩
      · have fixed : ∀ kind label, item ≠ .branch kind label :=
          fun kind label equal => branch ⟨kind, label, equal⟩
        rw [relaxItems_fixed fixed]
        refine PassOutcome.cons inside' first (Nat.le_refl _) ?_ ?_ later
        · intro kind label equal
          exact absurd equal (fixed kind label)
        · simp

end RelaxItems

/-! ## Passes -/

section Passes

variable {assembler : BytecodeAssembler} {widths : List Nat}

theorem Assignment.admits {position : Nat} {item : AssemblyItem}
    (assignment : assembler.Assignment widths)
    (found : assembler.items[position]? = some item) :
    Admits item (widths.getD position 0) := by
  obtain ⟨inside, here⟩ := List.getElem?_eq_some_iff.mp found
  have inside' : position < widths.length := by
    rw [← assignment.length_eq]
    exact inside
  have admitted := (List.forall₂_iff_get.mp assignment).2 position inside inside'
  rw [List.getD_eq_getElem _ _ inside', ← here]
  exact admitted

theorem Assignment.sum_lt (assignment : assembler.Assignment widths)
    (few : assembler.items.length ≤ 2 ^ 32) : widths.sum < 2 ^ 40 := by
  have bound : ∀ width ∈ widths, width ≤ 11 := by
    intro width member
    obtain ⟨index, inside, rfl⟩ := List.mem_iff_getElem.mp member
    have inside' : index < assembler.items.length := by
      rw [assignment.length_eq]
      exact inside
    have admitted :=
      assignment.admits (List.getElem?_eq_getElem inside')
    rw [List.getD_eq_getElem _ _ inside] at admitted
    exact admitted.le_eleven
  have total := List.sum_le_card_nsmul widths 11 bound
  rw [← assignment.length_eq, smul_eq_mul] at total
  omega

/-- A layout in which all branches reach offers every branch a width that
reaches already with narrower widths around it. -/
theorem Lower.reaches (lower : assembler.Lower widths) {other : List Nat}
    (assignment : assembler.Assignment other) (fits : assembler.Fits other)
    {position : Nat} {kind : BranchKind} {label target : Nat}
    (found : assembler.items[position]? = some (.branch kind label))
    (bound : assembler.binding label = some target) :
    Reaches kind widths position target (other.getD position 0) := by
  have narrow := lower.least other assignment fits
  refine ⟨narrow.getD_le position, assignment.admits found, ?_⟩
  exact (narrow.set position).fitsWidth (fits position kind label target found bound)

theorem Lower.widened (lower : assembler.Lower widths) {widened : List Nat}
    (pass : assembler.Widened widths 0 assembler.items widened) :
    assembler.Lower widened := by
  refine ⟨pass.admitted, ?_⟩
  intro other assignment fits
  have length : widened.length = other.length :=
    pass.admitted.length_eq.symm.trans assignment.length_eq
  apply NoWider.of_getD_le length
  intro position inside
  have inside' : position < assembler.items.length := by
    rw [pass.admitted.length_eq]
    exact inside
  have found := List.getElem?_eq_getElem inside'
  have first := @Assignment.admits assembler widened _ _ pass.admitted found
  have second := assignment.admits found
  cases item : assembler.items[position] with
  | branch kind label =>
      rw [item] at found
      obtain ⟨target, bound, least⟩ := pass.least position kind label found
      rw [Nat.zero_add] at least
      exact least.2 (lower.reaches assignment fits found bound)
  | instruction planned =>
      rw [item] at first second
      exact Nat.le_of_eq (Eq.trans first second.symm)
  | withBranch opcode atom value label =>
      rw [item] at first second
      exact Nat.le_of_eq (Eq.trans first second.symm)

theorem fits_of_unchanged
    (pass : assembler.Widened widths 0 assembler.items widths) :
    assembler.Fits widths := by
  intro position kind label target found bound
  obtain ⟨target', bound', least⟩ := pass.least position kind label found
  rw [Nat.zero_add] at least
  cases bound.symm.trans bound'
  have inside : position < widths.length := by
    rw [← pass.admitted.length_eq]
    exact (List.getElem?_eq_some_iff.mp found).1
  have fits := least.1.fits
  have same : widths.set position (widths.getD position 0) = widths := by
    rw [List.getD_eq_getElem _ _ inside]
    exact List.set_getElem_self inside
  rw [same] at fits
  exact fits

theorem Lower.not_stuck (lower : assembler.Lower widths) {other : List Nat}
    (assignment : assembler.Assignment other) (fits : assembler.Fits other) :
    ¬ assembler.Stuck widths 0 assembler.items := by
  intro stuck
  obtain ⟨position, kind, label, target, found, bound, none⟩ := stuck
  rw [Nat.zero_add] at none
  exact none _ (lower.reaches assignment fits found bound)

/-- The shortest forms. -/
theorem lower_minimum :
    assembler.Lower (assembler.items.map AssemblyItem.minimumSize) := by
  refine ⟨?_, ?_⟩
  · unfold Assignment
    rw [List.forall₂_map_right_iff]
    exact List.forall₂_same.mpr fun item _ => admits_minimumSize item
  · intro other assignment _
    unfold NoWider
    rw [List.forall₂_map_left_iff]
    exact assignment.imp fun item width admitted => admitted.minimumSize_le

end Passes

end BytecodeAssembler

end Fusor.Bytecode
