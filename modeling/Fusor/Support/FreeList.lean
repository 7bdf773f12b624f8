import Mathlib.Logic.Function.Basic
import Mathlib.Tactic

/-!
# Free lists threaded through their nodes

The free nodes of a store carry the name of the next free node.  A link
function says what each node carries; the nodes on the list are exactly those
that carry a link, each once.
-/

namespace Fusor.Support

variable {α : Type}

/-- Following the links from the head visits the path and ends. -/
def Threaded (link : α → Option (Option α)) : Option α → List α → Prop
  | head, [] => head = none
  | head, node :: path =>
      head = some node ∧ ∃ next, link node = some next ∧
        Threaded link next path

/-- The path visits the free nodes, each once. -/
structure FreeList (link : α → Option (Option α)) (head : Option α)
    (path : List α) : Prop where
  threaded : Threaded link head path
  nodup : path.Nodup
  complete : ∀ node, node ∈ path ↔ (link node).isSome

/-- The result of a walk along the list. -/
inductive Located (α : Type) where
  | found (previous : Option α)
  | missing
  | endless
  deriving DecidableEq

theorem Threaded.congr {link other : α → Option (Option α)} {path : List α}
    {head : Option α} (agree : ∀ node ∈ path, link node = other node)
    (threaded : Threaded link head path) : Threaded other head path := by
  induction path generalizing head with
  | nil => exact threaded
  | cons node path induction =>
      obtain ⟨same, next, carried, rest⟩ := threaded
      refine ⟨same, next, ?_, induction ?_ rest⟩
      · rw [← agree node (by simp)]
        exact carried
      · intro other member
        exact agree other (List.mem_cons_of_mem node member)

variable [DecidableEq α]

/-- Walks from the cursor to the target and remembers the node before it. -/
def locate (link : α → Option (Option α)) (target : α) :
    Nat → Option α → Option α → Located α
  | 0, _, _ => .endless
  | _ + 1, _, none => .missing
  | fuel + 1, previous, some current =>
      if current = target then .found previous
      else match link current with
        | some next => locate link target fuel (some current) next
        | none => .missing

namespace FreeList

variable {link : α → Option (Option α)} {head : Option α} {path : List α}

theorem push (list : FreeList link head path) {node : α}
    (taken : link node = none) :
    FreeList (Function.update link node (some head)) (some node)
      (node :: path) := by
  have fresh : node ∉ path := by
    rw [list.complete, taken]
    simp
  refine ⟨⟨rfl, head, Function.update_self .., ?_⟩,
    List.nodup_cons.mpr ⟨fresh, list.nodup⟩, ?_⟩
  · apply list.threaded.congr
    intro other member
    have different : other ≠ node := by
      rintro rfl
      exact fresh member
    rw [Function.update_of_ne different]
  · intro other
    by_cases same : other = node
    · subst same
      simp
    · rw [Function.update_of_ne same, ← list.complete]
      simp [same]

theorem pop {node : α} (list : FreeList link (some node) path) :
    ∃ next rest, link node = some next ∧ path = node :: rest ∧
      FreeList (Function.update link node none) next rest := by
  cases path with
  | nil => cases list.threaded
  | cons first rest =>
      obtain ⟨same, next, carried, threaded⟩ := list.threaded
      cases same
      obtain ⟨fresh, nodup⟩ := List.nodup_cons.mp list.nodup
      refine ⟨next, rest, carried, rfl, ?_, nodup, ?_⟩
      · apply threaded.congr
        intro other member
        have different : other ≠ node := by
          rintro rfl
          exact fresh member
        rw [Function.update_of_ne different]
      · intro other
        by_cases same : other = node
        · subst same
          simp [fresh]
        · rw [Function.update_of_ne same, ← list.complete]
          simp [same]

/-- Taking out a node behind another one. -/
theorem unlink {previous target : α} {before after : List α}
    (list : FreeList link head (before ++ previous :: target :: after))
    {next : Option α} (carried : link target = some next) :
    FreeList (Function.update (Function.update link previous (some next))
      target none) head (before ++ previous :: after) := by
  have apart : (before ++ previous :: target :: after).Nodup := list.nodup
  rw [List.nodup_append, List.nodup_cons, List.nodup_cons] at apart
  obtain ⟨beforeNodup, ⟨previousFresh, targetFresh, afterNodup⟩, disjoint⟩ :=
    apart
  have different : previous ≠ target := by
    rintro rfl
    simp at previousFresh
  have kept : ∀ node, node ≠ previous → node ≠ target →
      Function.update (Function.update link previous (some next)) target none
        node = link node := by
    intro node notPrevious notTarget
    rw [Function.update_of_ne notTarget, Function.update_of_ne notPrevious]
  refine ⟨?_, ?_, ?_⟩
  · have threaded := list.threaded
    clear list
    induction before generalizing head with
    | nil =>
        obtain ⟨same, middle, toTarget, sameTarget, after', fromTarget, rest⟩ :=
          threaded
        rw [carried] at fromTarget
        cases fromTarget
        refine ⟨same, next, ?_, ?_⟩
        · rw [Function.update_of_ne different, Function.update_self]
        · apply rest.congr
          intro node member
          symm
          apply kept
          · rintro rfl
            exact previousFresh (List.mem_cons_of_mem _ member)
          · rintro rfl
            exact targetFresh member
    | cons node before induction =>
        obtain ⟨same, middle, link', rest⟩ := threaded
        obtain ⟨fresh, beforeNodup⟩ := List.nodup_cons.mp beforeNodup
        refine ⟨same, middle, ?_, ?_⟩
        · rw [kept node]
          · exact link'
          · exact disjoint node (by simp) previous (by simp)
          · exact disjoint node (by simp) target (by simp)
        · apply induction beforeNodup ?_ rest
          intro first firstMember second secondMember
          exact disjoint first (List.mem_cons_of_mem _ firstMember) second
            secondMember
  · rw [List.nodup_append, List.nodup_cons]
    refine ⟨beforeNodup, ⟨?_, afterNodup⟩, ?_⟩
    · intro member
      exact previousFresh (List.mem_cons_of_mem _ member)
    · intro first firstMember second secondMember
      apply disjoint first firstMember second
      rcases List.mem_cons.mp secondMember with rfl | member
      · simp
      · simp [member]
  · intro node
    by_cases isTarget : node = target
    · subst isTarget
      have outside : node ∉ before := fun member =>
        disjoint node member node (by simp) rfl
      simp [outside, targetFresh, different.symm]
    · by_cases isPrevious : node = previous
      · subst isPrevious
        rw [Function.update_of_ne isTarget, Function.update_self]
        simp
      · rw [kept node isPrevious isTarget, ← list.complete]
        simp [isPrevious, isTarget]

/-- The walk finds every free node, with the node before it. -/
theorem locate_of_mem {target : α} (list : FreeList link head path)
    (member : target ∈ path) {fuel : Nat} (enough : path.length < fuel)
    (previous : Option α) :
    (head = some target ∧
        locate link target fuel previous head = .found previous) ∨
      ∃ before last after, path = before ++ last :: target :: after ∧
        locate link target fuel previous head = .found (some last) := by
  have threaded := list.threaded
  clear list
  induction path generalizing head fuel previous with
  | nil => simp at member
  | cons node path induction =>
      obtain ⟨rfl, next, carried, rest⟩ := threaded
      obtain ⟨fuel, rfl⟩ : ∃ rest, fuel = rest + 1 :=
        Nat.exists_eq_succ_of_ne_zero (by omega)
      by_cases here : node = target
      · subst here
        exact .inl ⟨rfl, by simp [locate]⟩
      · have later : target ∈ path := by
          rcases List.mem_cons.mp member with same | later
          · exact absurd same.symm here
          · exact later
        have walked : locate link target (fuel + 1) previous (some node) =
            locate link target fuel (some node) next := by
          rw [locate, if_neg here, carried]
        right
        rw [walked]
        rcases induction later (by simpa using enough) (some node) rest with
          ⟨reached, located⟩ | ⟨before, last, after, split, located⟩
        · cases path with
          | nil => simp at later
          | cons first path =>
              obtain ⟨same, _⟩ := rest
              rw [reached] at same
              cases same
              exact ⟨[], node, path, rfl, located⟩
        · exact ⟨node :: before, last, after, by rw [split]; rfl, located⟩

end FreeList

end Fusor.Support
