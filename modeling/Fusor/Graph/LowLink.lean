import Mathlib.Logic.Relation

/-!
# Low links of a depth-first walk

A depth-first walk numbers the nodes as it enters them and keeps the ones
whose component is not complete on a stack.  Every node on the stack carries a
low link, the number of a node on the stack that it reaches.  Low links are
not determined by the graph, but the test made with them is: a node closes its
component exactly when no edge leaves the nodes from it upwards for the rest
of the stack.
-/

namespace Fusor.Graph

open Relation

variable {α : Type} {edge : α → α → Prop} {closed closed' : α → Prop}
  {index index' low low' : α → Nat} {stack stack' : List α}

/-- The numbers and low links of the nodes on the stack, whose top comes
first. -/
structure LowLink (edge : α → α → Prop) (closed : α → Prop)
    (index low : α → Nat) (stack : List α) : Prop where
  descending : stack.Pairwise fun upper lower => index lower < index upper
  apart : ∀ node ∈ stack, ¬ closed node
  low_le : ∀ node ∈ stack, low node ≤ index node
  low_reached : ∀ node ∈ stack, ∃ target ∈ stack,
    index target = low node ∧ ReflTransGen edge node target
  closed_edge : ∀ source target, closed source → edge source target →
    closed target

/-- The targets of a node are closed or bound its low link. -/
def Settled (edge : α → α → Prop) (closed : α → Prop) (index low : α → Nat)
    (stack : List α) (node : α) : Prop :=
  ∀ target, edge node target →
    closed target ∨ (target ∈ stack ∧ low node ≤ index target)

/-- The nodes that stay on the stack above a node while its targets are
visited. -/
structure Visited (edge : α → α → Prop) (closed : α → Prop)
    (index low : α → Nat) (stack : List α) (parent : α) (nodes : List α) :
    Prop where
  settled : ∀ node ∈ nodes, Settled edge closed index low stack node
  unclosed : ∀ node ∈ nodes, low node < index node
  reached : ∀ node ∈ nodes, ReflTransGen edge parent node
  child : ∀ node ∈ nodes, ∃ child ∈ nodes,
    edge parent child ∧ low child ≤ low node

/-- The nodes that a completed visit leaves on the stack. -/
structure LeftOpen (edge : α → α → Prop) (closed : α → Prop)
    (index low : α → Nat) (stack : List α) (entered : α) (nodes : List α) :
    Prop where
  settled : ∀ node ∈ nodes, Settled edge closed index low stack node
  unclosed : ∀ node ∈ nodes, low node < index node
  reached : ∀ node ∈ nodes, ReflTransGen edge entered node
  bounded : ∀ node ∈ nodes, entered ∈ nodes ∧ low entered ≤ low node

theorem Settled.mono {node : α}
    (settled : Settled edge closed index low stack node)
    (same : ∀ node ∈ stack, index' node = index node)
    (sameLow : low' node = low node)
    (closes : ∀ node, closed node → closed' node)
    (grows : ∀ node ∈ stack, node ∈ stack') :
    Settled edge closed' index' low' stack' node := by
  intro target follows
  rcases settled target follows with done | ⟨member, bound⟩
  · exact .inl (closes target done)
  · refine .inr ⟨grows target member, ?_⟩
    rw [sameLow, same target member]
    exact bound

theorem Visited.nil (parent : α) :
    Visited edge closed index low stack parent [] := by
  constructor <;> simp

theorem Visited.mono {parent : α} {nodes : List α}
    (visited : Visited edge closed index low stack parent nodes)
    (within : ∀ node ∈ nodes, node ∈ stack)
    (same : ∀ node ∈ stack, index' node = index node)
    (sameLow : ∀ node ∈ nodes, low' node = low node)
    (closes : ∀ node, closed node → closed' node)
    (grows : ∀ node ∈ stack, node ∈ stack') :
    Visited edge closed' index' low' stack' parent nodes := by
  constructor
  · intro node member
    exact (visited.settled node member).mono same (sameLow node member) closes
      grows
  · intro node member
    rw [sameLow node member, same node (within node member)]
    exact visited.unclosed node member
  · exact visited.reached
  · intro node member
    obtain ⟨child, present, follows, bound⟩ := visited.child node member
    refine ⟨child, present, follows, ?_⟩
    rw [sameLow child present, sameLow node member]
    exact bound

/-- What the visit of a target leaves on the stack joins the nodes above its
parent. -/
theorem Visited.adopt {parent entered : α} {nodes left : List α}
    (visited : Visited edge closed index low stack parent nodes)
    (follows : edge parent entered)
    (opened : LeftOpen edge closed index low stack entered left) :
    Visited edge closed index low stack parent (left ++ nodes) := by
  constructor
  · intro node member
    rcases List.mem_append.mp member with inside | inside
    · exact opened.settled node inside
    · exact visited.settled node inside
  · intro node member
    rcases List.mem_append.mp member with inside | inside
    · exact opened.unclosed node inside
    · exact visited.unclosed node inside
  · intro node member
    rcases List.mem_append.mp member with inside | inside
    · exact .head follows (opened.reached node inside)
    · exact visited.reached node inside
  · intro node member
    rcases List.mem_append.mp member with inside | inside
    · obtain ⟨present, bound⟩ := opened.bounded node inside
      exact ⟨entered, List.mem_append_left nodes present, follows, bound⟩
    · obtain ⟨child, present, rest⟩ := visited.child node inside
      exact ⟨child, List.mem_append_right left present, rest⟩

theorem LeftOpen.nil (entered : α) :
    LeftOpen edge closed index low stack entered [] := by
  constructor <;> simp

namespace LowLink

/-- A node is entered with a number above all others. -/
theorem push {entered : α} (link : LowLink edge closed index low stack)
    (fresh : entered ∉ stack) (unclosed : ¬ closed entered)
    (same : ∀ node ∈ stack, index' node = index node)
    (sameLow : ∀ node ∈ stack, low' node = low node)
    (highest : ∀ node ∈ stack, index node < index' entered)
    (own : low' entered = index' entered) :
    LowLink edge closed index' low' (entered :: stack) := by
  constructor
  · refine List.pairwise_cons.mpr ⟨?_, ?_⟩
    · intro node member
      rw [same node member]
      exact highest node member
    · refine link.descending.imp_of_mem ?_
      intro upper lower upperMember lowerMember less
      rw [same upper upperMember, same lower lowerMember]
      exact less
  · intro node member
    rcases List.mem_cons.mp member with rfl | inside
    · exact unclosed
    · exact link.apart node inside
  · intro node member
    rcases List.mem_cons.mp member with rfl | inside
    · exact Nat.le_of_eq own
    · rw [same node inside, sameLow node inside]
      exact link.low_le node inside
  · intro node member
    rcases List.mem_cons.mp member with rfl | inside
    · exact ⟨node, List.mem_cons_self, own.symm, .refl⟩
    · obtain ⟨target, targetMember, equal, path⟩ := link.low_reached node inside
      refine ⟨target, List.mem_cons_of_mem entered targetMember, ?_, path⟩
      rw [same target targetMember, sameLow node inside]
      exact equal
  · exact link.closed_edge

/-- A node takes over the low link of a target on the stack. -/
theorem lower {source target : α} (link : LowLink edge closed index low stack)
    (sourceMember : source ∈ stack) (targetMember : target ∈ stack)
    (follows : edge source target)
    (lowered : low' source = min (low source) (low target))
    (same : ∀ node, node ≠ source → low' node = low node) :
    LowLink edge closed index low' stack := by
  constructor
  · exact link.descending
  · exact link.apart
  · intro node member
    by_cases own : node = source
    · subst own
      rw [lowered]
      exact Nat.le_trans (Nat.min_le_left _ _) (link.low_le node member)
    · rw [same node own]
      exact link.low_le node member
  · intro node member
    by_cases own : node = source
    · subst own
      by_cases less : low node ≤ low target
      · obtain ⟨reached, reachedMember, equal, path⟩ :=
          link.low_reached node member
        refine ⟨reached, reachedMember, ?_, path⟩
        rw [lowered, Nat.min_eq_left less]
        exact equal
      · obtain ⟨reached, reachedMember, equal, path⟩ :=
          link.low_reached target targetMember
        refine ⟨reached, reachedMember, ?_, .head follows path⟩
        rw [lowered, Nat.min_eq_right (Nat.le_of_not_le less)]
        exact equal
    · rw [same node own]
      exact link.low_reached node member
  · exact link.closed_edge

/-- Some node of a stack closes its component. -/
theorem eq_nil (link : LowLink edge closed index low stack)
    (unclosed : ∀ node ∈ stack, low node < index node) : stack = [] := by
  have none : ∀ number node, index node = number → node ∉ stack := by
    intro number
    induction number using Nat.strongRecOn with
    | _ number induction =>
        intro node equal member
        obtain ⟨target, targetMember, reached, _⟩ :=
          link.low_reached node member
        have less := unclosed node member
        exact induction (index target) (by omega) target rfl targetMember
  cases stack with
  | nil => rfl
  | cons node stack => exact absurd List.mem_cons_self (none _ node rfl)

section Closing

variable {entered : α} {above base : List α}

/-- No edge leaves the nodes from an entered node upwards, except for closed
nodes. -/
def Isolated (edge : α → α → Prop) (closed : α → Prop) (entered : α)
    (above : List α) : Prop :=
  ∀ node ∈ entered :: above, ∀ target, edge node target →
    closed target ∨ target ∈ entered :: above

variable (link : LowLink edge closed index low (above ++ entered :: base))
  (visited : Visited edge closed index low (above ++ entered :: base) entered
    above)
  (processed : ∀ target, edge entered target → closed target ∨
    (target ∈ above ++ entered :: base ∧ low entered ≤ low target))

include link in
theorem index_below {node : α} (member : node ∈ base) :
    index node < index entered :=
  (List.pairwise_cons.mp (List.pairwise_append.mp link.descending).2.1).1
    node member

include link in
theorem index_above {node : α} (member : node ∈ above) :
    index entered < index node :=
  (List.pairwise_append.mp link.descending).2.2 node member entered
    List.mem_cons_self

theorem mem_stack_iff {node : α} :
    node ∈ above ++ entered :: base ↔ node ∈ entered :: above ∨ node ∈ base := by
  simp only [List.mem_append, List.mem_cons]
  rw [← or_assoc, or_comm (a := node ∈ above)]

include link visited processed in
theorem low_entered_le {node : α} (member : node ∈ entered :: above) :
    low entered ≤ low node := by
  rcases List.mem_cons.mp member with rfl | inside
  · exact Nat.le_refl _
  · obtain ⟨child, present, follows, bound⟩ := visited.child node inside
    rcases processed child follows with done | ⟨_, less⟩
    · exact absurd done
        (link.apart child (List.mem_append_left _ present))
    · exact Nat.le_trans less bound

include link processed in
theorem settled_entered :
    Settled edge closed index low (above ++ entered :: base) entered := by
  intro target follows
  rcases processed target follows with done | ⟨member, less⟩
  · exact .inl done
  · exact .inr ⟨member, Nat.le_trans less (link.low_le target member)⟩

include link visited processed in
theorem settled_of_mem {node : α} (member : node ∈ entered :: above) :
    Settled edge closed index low (above ++ entered :: base) node := by
  rcases List.mem_cons.mp member with rfl | inside
  · exact settled_entered link processed
  · exact visited.settled node inside

include link in
theorem reaches_of_isolated (isolated : Isolated edge closed entered above)
    {source target : α} (member : source ∈ entered :: above)
    (path : ReflTransGen edge source target)
    (targetMember : target ∈ above ++ entered :: base) :
    target ∈ entered :: above := by
  have kept : closed target ∨ target ∈ entered :: above := by
    clear targetMember
    induction path with
    | refl => exact .inr member
    | tail _ follows induction =>
        rcases induction with done | inside
        · exact .inl (link.closed_edge _ _ done follows)
        · exact isolated _ inside _ follows
  rcases kept with done | inside
  · exact absurd done (link.apart target targetMember)
  · exact inside

include link visited processed in
/-- The test with the low link does not depend on how the links were found. -/
theorem closes_iff :
    index entered = low entered ↔ Isolated edge closed entered above := by
  constructor
  · intro closes node member target follows
    rcases settled_of_mem link visited processed member target follows with
      done | ⟨targetMember, less⟩
    · exact .inl done
    · rcases mem_stack_iff.mp targetMember with inside | below
      · exact .inr inside
      · have bound := low_entered_le link visited processed member
        have below := index_below link below
        omega
  · intro isolated
    have enteredMember : entered ∈ above ++ entered :: base := by simp
    obtain ⟨target, targetMember, equal, path⟩ :=
      link.low_reached entered enteredMember
    have inside := reaches_of_isolated link isolated List.mem_cons_self path
      targetMember
    have bound := link.low_le entered enteredMember
    rcases List.mem_cons.mp inside with rfl | higher
    · exact equal
    · have := index_above link higher
      omega

include link visited in
/-- The nodes of a closed component reach the node entered first. -/
theorem reaches_entered (isolated : Isolated edge closed entered above)
    {node : α} (member : node ∈ entered :: above) :
    ReflTransGen edge node entered := by
  induction number : index node using Nat.strongRecOn generalizing node with
  | _ count induction =>
      rcases List.mem_cons.mp member with rfl | inside
      · exact .refl
      · obtain ⟨target, targetMember, equal, path⟩ :=
          link.low_reached node (List.mem_append_left _ inside)
        have less := visited.unclosed node inside
        have within := reaches_of_isolated link isolated member path
          targetMember
        exact path.trans (induction (index target) (by omega) within rfl)

include link visited processed in
/-- A node that does not close its component stays on the stack with the nodes
above it. -/
theorem leftOpen (stays : index entered ≠ low entered) :
    LeftOpen edge closed index low (above ++ entered :: base) entered
      (above ++ [entered]) := by
  have split : ∀ node, node ∈ above ++ [entered] → node ∈ entered :: above := by
    intro node member
    simpa [or_comm] using member
  constructor
  · intro node member
    exact settled_of_mem link visited processed (split node member)
  · intro node member
    rcases List.mem_cons.mp (split node member) with rfl | inside
    · exact Nat.lt_of_le_of_ne (link.low_le node (by simp)) (Ne.symm stays)
    · exact visited.unclosed node inside
  · intro node member
    rcases List.mem_cons.mp (split node member) with rfl | inside
    · exact .refl
    · exact visited.reached node inside
  · intro node member
    exact ⟨by simp, low_entered_le link visited processed (split node member)⟩

include link in
/-- An isolated component is taken off the stack. -/
theorem pop (isolated : Isolated edge closed entered above)
    (closes : ∀ node, closed' node ↔ closed node ∨ node ∈ entered :: above) :
    LowLink edge closed' index low base := by
  have within : ∀ node ∈ base, node ∈ above ++ entered :: base :=
    fun node member => by simp [member]
  constructor
  · exact (List.pairwise_cons.mp
      (List.pairwise_append.mp link.descending).2.1).2
  · intro node member done
    rcases (closes node).mp done with before | inside
    · exact link.apart node (within node member) before
    · have below := index_below link member
      rcases List.mem_cons.mp inside with rfl | higher
      · exact Nat.lt_irrefl _ below
      · have := index_above link higher
        omega
  · intro node member
    exact link.low_le node (within node member)
  · intro node member
    obtain ⟨target, targetMember, equal, path⟩ :=
      link.low_reached node (within node member)
    refine ⟨target, ?_, equal, path⟩
    have less := link.low_le node (within node member)
    have below := index_below link member
    rcases mem_stack_iff.mp targetMember with inside | inside
    · rcases List.mem_cons.mp inside with rfl | higher
      · omega
      · have := index_above link higher
        omega
    · exact inside
  · intro source target done follows
    rcases (closes source).mp done with before | inside
    · exact (closes target).mpr (.inl (link.closed_edge _ _ before follows))
    · exact (closes target).mpr (isolated source inside target follows)

end Closing

end LowLink

end Fusor.Graph
