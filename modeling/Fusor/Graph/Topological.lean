import Mathlib.Algebra.Ring.Nat
import Mathlib.Data.List.Nodup
import Mathlib.Data.List.Range
import Mathlib.Data.Fintype.EquivFin
import Mathlib.Algebra.BigOperators.Group.List.Basic
import Mathlib.Logic.Relation
import Mathlib.Order.Bounds.Basic
import Mathlib.Order.WellFounded

/-!
# Ordering a directed multigraph

The nodes are the numbers below a bound, and every node lists its targets, a
target as often as there are edges to it.  Nodes without incoming edges are
taken from a queue, and the edges that leave a taken node are removed.  When
all nodes are taken they are in topological order; otherwise the nodes left
have a cycle among them.  Along a topological order the longest walks from a
root are found by relaxing every edge once.
-/

namespace Fusor.Graph

structure Multigraph where
  size : Nat
  targets : Nat → List Nat
  closed : ∀ source < size, ∀ target ∈ targets source, target < size

namespace Multigraph

variable (graph : Multigraph)

def Edge (source target : Nat) : Prop :=
  source < graph.size ∧ target ∈ graph.targets source

def Acyclic : Prop :=
  ∀ node, ¬ Relation.TransGen graph.Edge node node

/-- A walk from a root to a node, with the number of nodes on it. -/
inductive Walk (root : Nat) : Nat → Nat → Prop where
  | start : Walk root 1 root
  | step {count source target : Nat} : Walk root count source →
      graph.Edge source target → Walk root (count + 1) target

/-- Every node once, and after all nodes with an edge to it. -/
structure Topological (order : List Nat) : Prop where
  lists : order.Perm (List.range graph.size)
  earlier : ∀ before node after, order = before ++ node :: after →
    ∀ source, graph.Edge source node → source ∈ before

/-- The edges to a node from the nodes of a list. -/
def incoming (sources : List Nat) (node : Nat) : Nat :=
  (sources.map fun source => (graph.targets source).count node).sum

/-- The edges to a node from the nodes that were not taken. -/
def remaining (order : List Nat) (node : Nat) : Nat :=
  graph.incoming ((List.range graph.size).filter fun source =>
    !decide (source ∈ order)) node

variable {graph}

theorem incoming_pos {sources : List Nat} {node : Nat} :
    0 < graph.incoming sources node ↔
      ∃ source ∈ sources, node ∈ graph.targets source := by
  unfold incoming
  induction sources with
  | nil => simp
  | cons first rest induction =>
      simp only [List.map_cons, List.sum_cons, Nat.add_pos_iff_pos_or_pos,
        List.count_pos_iff, List.mem_cons, exists_eq_or_imp]
      exact or_congr_right induction

theorem remaining_pos {order : List Nat} {node : Nat} :
    0 < graph.remaining order node ↔
      ∃ source, source ∉ order ∧ graph.Edge source node := by
  unfold remaining Edge
  rw [incoming_pos]
  constructor
  · rintro ⟨source, member, target⟩
    obtain ⟨inside, untaken⟩ := List.mem_filter.mp member
    exact ⟨source, by simpa using untaken, List.mem_range.mp inside, target⟩
  · rintro ⟨source, untaken, inside, target⟩
    refine ⟨source, List.mem_filter.mpr ⟨List.mem_range.mpr inside, ?_⟩, target⟩
    simpa using untaken

/-- Taking a node removes the edges that leave it. -/
theorem remaining_take {order : List Nat} {taken : Nat}
    (inside : taken < graph.size) (untaken : taken ∉ order) (node : Nat) :
    graph.remaining order node =
      graph.remaining (order ++ [taken]) node +
        (graph.targets taken).count node := by
  unfold remaining incoming
  have distinct : (List.range graph.size).Nodup := List.nodup_range
  have member : taken ∈ List.range graph.size := List.mem_range.mpr inside
  obtain ⟨before, after, split⟩ := List.append_of_mem member
  rw [split] at distinct ⊢
  have apart := List.nodup_middle.mp distinct
  obtain ⟨fresh, _⟩ := List.nodup_cons.mp apart
  rw [List.mem_append, not_or] at fresh
  have same : ∀ list : List Nat, taken ∉ list →
      (list.filter fun source => !decide (source ∈ order ++ [taken])) =
        list.filter fun source => !decide (source ∈ order) := by
    intro list absent
    apply List.filter_congr
    intro source listed
    have different : source ≠ taken := by
      rintro rfl
      exact absent listed
    simp [different]
  rw [List.filter_append, List.filter_append, List.filter_cons,
    List.filter_cons, same before fresh.1, same after fresh.2]
  simp only [untaken, decide_false, Bool.not_false, if_true,
    List.mem_append, List.mem_singleton, or_true, decide_true,
    Bool.not_true, Bool.false_eq_true, if_false, List.map_append,
    List.sum_append, List.map_cons, List.sum_cons]
  omega

/-! ## Taking nodes from a queue -/

/-- The edges still to be removed of the node just taken, and the tables: how
many edges to each node remain, the nodes without any that wait, and the nodes
taken. -/
structure Sorting (graph : Multigraph) (pending indegrees ready order : List Nat) :
    Prop where
  length : indegrees.length = graph.size
  distinct : (order ++ ready).Nodup
  inside : ∀ node ∈ order ++ ready, node < graph.size
  counted : ∀ node < graph.size, indegrees.getD node 0 =
    graph.remaining order node + pending.count node
  free : ∀ node < graph.size,
    node ∈ order ++ ready ↔ indegrees.getD node 0 = 0
  earlier : ∀ before node after, order = before ++ node :: after →
    ∀ source, graph.Edge source node → source ∈ before

/-- Removes an edge. -/
def release (tables : List Nat × List Nat) (target : Nat) :
    List Nat × List Nat :=
  let left := tables.1.getD target 0 - 1
  (tables.1.set target left,
    if left = 0 then tables.2 ++ [target] else tables.2)

theorem getD_set {list : List Nat} {index : Nat} (inside : index < list.length)
    (value other : Nat) :
    (list.set index value).getD other 0 =
      if other = index then value else list.getD other 0 := by
  rw [List.getD_eq_getElem?_getD, List.getD_eq_getElem?_getD,
    List.getElem?_set]
  by_cases same : index = other
  · subst same
    simp [inside]
  · simp [same, Ne.symm same]

theorem Sorting.release {pending indegrees ready order : List Nat}
    {target : Nat}
    (sorting : Sorting graph (target :: pending) indegrees ready order)
    (bounded : target < graph.size) :
    Sorting graph pending (release (indegrees, ready) target).1
      (release (indegrees, ready) target).2 order := by
  have within : target < indegrees.length := by
    rw [sorting.length]
    exact bounded
  have here := sorting.counted target bounded
  rw [List.count_cons_self] at here
  have waiting : target ∉ order ++ ready := by
    rw [sorting.free target bounded]
    omega
  have written : ∀ node,
      (indegrees.set target (indegrees.getD target 0 - 1)).getD node 0 =
        if node = target then indegrees.getD target 0 - 1
        else indegrees.getD node 0 :=
    getD_set within _
  have counted : ∀ node < graph.size,
      (indegrees.set target (indegrees.getD target 0 - 1)).getD node 0 =
        graph.remaining order node + pending.count node := by
    intro node small
    rw [written]
    by_cases same : node = target
    · subst same
      rw [if_pos rfl]
      omega
    · rw [if_neg same, sorting.counted node small,
        List.count_cons_of_ne (Ne.symm same)]
  unfold Multigraph.release
  by_cases last : indegrees.getD target 0 - 1 = 0
  · simp only [last, ↓reduceIte]
    rw [last] at written counted
    refine ⟨?_, ?_, ?_, counted, ?_, sorting.earlier⟩
    · rw [List.length_set, sorting.length]
    · rw [← List.append_assoc]
      exact sorting.distinct.append (List.nodup_singleton target)
        (by simpa using waiting)
    · intro node member
      rw [← List.append_assoc, List.mem_append, List.mem_singleton] at member
      rcases member with old | rfl
      · exact sorting.inside node old
      · exact bounded
    · intro node small
      rw [← List.append_assoc, List.mem_append, List.mem_singleton, written]
      by_cases same : node = target
      · simp [same]
      · rw [if_neg same, or_iff_left same]
        exact sorting.free node small
  · simp only [last, ↓reduceIte]
    refine ⟨?_, sorting.distinct, sorting.inside, counted, ?_,
      sorting.earlier⟩
    · rw [List.length_set, sorting.length]
    · intro node small
      rw [written]
      by_cases same : node = target
      · rw [if_pos same, same]
        exact iff_of_false waiting last
      · rw [if_neg same]
        exact sorting.free node small

theorem Sorting.releaseAll {pending : List Nat}
    (bounded : ∀ target ∈ pending, target < graph.size)
    {indegrees ready order : List Nat}
    (sorting : Sorting graph pending indegrees ready order) :
    Sorting graph [] (pending.foldl Multigraph.release (indegrees, ready)).1
      (pending.foldl Multigraph.release (indegrees, ready)).2 order := by
  induction pending generalizing indegrees ready with
  | nil => exact sorting
  | cons target rest induction =>
      have released := sorting.release (bounded target List.mem_cons_self)
      exact induction (fun other member =>
        bounded other (List.mem_cons_of_mem target member)) released

/-- Taking the first node that waits. -/
theorem Sorting.take {indegrees ready order : List Nat} {node : Nat}
    (sorting : Sorting graph [] indegrees (node :: ready) order) :
    Sorting graph (graph.targets node) indegrees ready (order ++ [node]) := by
  have listed : node ∈ order ++ node :: ready := by simp
  have bounded := sorting.inside node listed
  have untaken : node ∉ order := by
    intro taken
    exact (List.disjoint_of_nodup_append sorting.distinct) taken
      List.mem_cons_self
  have moved : order ++ node :: ready = order ++ [node] ++ ready := by simp
  refine ⟨sorting.length, moved ▸ sorting.distinct,
    moved ▸ sorting.inside, ?_, moved ▸ sorting.free, ?_⟩
  · intro other small
    rw [sorting.counted other small, List.count_nil, Nat.add_zero,
      remaining_take bounded untaken]
  · intro before other after split source edge
    rcases List.eq_nil_or_concat after with rfl | ⟨rest, last, rfl⟩
    · obtain ⟨rfl, same⟩ := List.append_inj' split rfl
      obtain rfl : node = other := by simpa using same
      have zero := (sorting.free node bounded).mp listed
      rw [sorting.counted node bounded, List.count_nil] at zero
      by_contra untaken
      have some_ : 0 < graph.remaining order node :=
        remaining_pos.mpr ⟨source, untaken, edge⟩
      omega
    · have shifted : order ++ [node] = before ++ other :: rest ++ [last] := by
        simpa using split
      obtain ⟨earlier, _⟩ := List.append_inj' shifted rfl
      exact sorting.earlier before other rest earlier source edge

theorem Sorting.length_le {pending indegrees ready order : List Nat}
    (sorting : Sorting graph pending indegrees ready order) :
    (order ++ ready).length ≤ graph.size := by
  have inside : order ++ ready ⊆ List.range graph.size := by
    intro node member
    exact List.mem_range.mpr (sorting.inside node member)
  simpa using (sorting.distinct.subperm inside).length_le

/-- If all nodes were taken, they are in topological order. -/
theorem Sorting.topological {indegrees order : List Nat}
    (sorting : Sorting graph [] indegrees [] order)
    (all : order.length = graph.size) : graph.Topological order := by
  have distinct := sorting.distinct
  rw [List.append_nil] at distinct
  refine ⟨?_, sorting.earlier⟩
  apply List.Subperm.perm_of_length_le
  · apply distinct.subperm
    intro node member
    exact List.mem_range.mpr (sorting.inside node (by simpa using member))
  · rw [List.length_range, all]

/-- In a topological order an edge leads forward. -/
theorem Topological.idxOf_lt {order : List Nat}
    (sorted : graph.Topological order) {source target : Nat}
    (edge : graph.Edge source target) :
    order.idxOf source < order.idxOf target := by
  have member : target ∈ order := by
    rw [sorted.lists.mem_iff, List.mem_range]
    exact graph.closed source edge.1 target edge.2
  obtain ⟨before, after, split⟩ := List.append_of_mem member
  have first := sorted.earlier before target after split source edge
  have distinct : order.Nodup :=
    sorted.lists.nodup_iff.mpr List.nodup_range
  rw [split] at distinct
  have absent : target ∉ before := by
    intro early
    exact (List.disjoint_of_nodup_append distinct) early List.mem_cons_self
  rw [split, List.idxOf_append_of_mem first, List.idxOf_append_of_notMem absent,
    List.idxOf_cons_self, Nat.add_zero]
  exact List.idxOf_lt_length_of_mem first

theorem Topological.acyclic {order : List Nat}
    (sorted : graph.Topological order) : graph.Acyclic := by
  intro node cycle
  have forward : ∀ {source target}, Relation.TransGen graph.Edge source target →
      order.idxOf source < order.idxOf target := by
    intro source target walk
    induction walk with
    | single edge => exact sorted.idxOf_lt edge
    | tail _ edge induction => exact Nat.lt_trans induction (sorted.idxOf_lt edge)
  exact Nat.lt_irrefl _ (forward cycle)

/-- In a finite graph without cycles, a set of nodes that has with each node
one with an edge to it is empty. -/
theorem Acyclic.eq_empty (acyclic : graph.Acyclic) {left : Nat → Prop}
    (inside : ∀ node, left node → node < graph.size)
    (before : ∀ node, left node → ∃ source, left source ∧
      graph.Edge source node) (node : Nat) : ¬ left node := by
  intro present
  let above : Fin graph.size → Fin graph.size → Prop := fun first second =>
    Relation.TransGen graph.Edge first.val second.val
  have transitive : IsTrans (Fin graph.size) above :=
    ⟨fun _ _ _ first second => first.trans second⟩
  have irreflexive : Std.Irrefl above := ⟨fun first => acyclic first.val⟩
  have founded : WellFounded above :=
    Finite.wellFounded_of_trans_of_irrefl above
  obtain ⟨least, isLeft, minimal⟩ := founded.has_min
    {index : Fin graph.size | left index.val}
    ⟨⟨node, inside node present⟩, present⟩
  obtain ⟨source, isSource, edge⟩ := before least.val isLeft
  exact minimal ⟨source, edge.1⟩ isSource (.single edge)

/-- Without cycles all nodes are taken. -/
theorem Sorting.all_of_acyclic {indegrees order : List Nat}
    (sorting : Sorting graph [] indegrees [] order)
    (acyclic : graph.Acyclic) : order.length = graph.size := by
  have taken : ∀ node, ¬ (node < graph.size ∧ node ∉ order) := by
    apply acyclic.eq_empty
    · intro node left
      exact left.1
    · rintro node ⟨small, untaken⟩
      have some_ : indegrees.getD node 0 ≠ 0 := by
        rw [Ne, ← sorting.free node small, List.append_nil]
        exact untaken
      rw [sorting.counted node small, List.count_nil, Nat.add_zero] at some_
      obtain ⟨source, before, edge⟩ :=
        remaining_pos.mp (Nat.pos_of_ne_zero some_)
      exact ⟨source, ⟨edge.1, before⟩, edge⟩
  have covers : List.range graph.size ⊆ order := by
    intro node member
    by_contra untaken
    exact taken node ⟨List.mem_range.mp member, untaken⟩
  have least := (List.nodup_range.subperm covers).length_le
  have most := sorting.length_le
  rw [List.length_range] at least
  rw [List.append_nil] at most
  omega

/-! ## Relaxing along an order -/

/-- Relaxes an edge to a target, where the source has the depth below. -/
def relax (depth : Nat) (tables : List Nat × Nat) (target : Nat) :
    List Nat × Nat :=
  if tables.1.getD target 0 < depth then
    (tables.1.set target depth, max tables.2 depth)
  else tables

/-- Every depth is that of a walk, the greatest is kept, and the edges that
leave the nodes dealt with are relaxed. -/
structure Relaxing (graph : Multigraph) (root : Nat) (relaxed depths : List Nat)
    (greatest : Nat) : Prop where
  length : depths.length = graph.size
  walks : ∀ node < graph.size, depths.getD node 0 ≠ 0 →
    graph.Walk root (depths.getD node 0) node
  rooted : 1 ≤ depths.getD root 0
  most : ∀ node < graph.size, depths.getD node 0 ≤ greatest
  attained : ∃ node < graph.size, depths.getD node 0 = greatest
  edges : ∀ source ∈ relaxed, depths.getD source 0 ≠ 0 →
    ∀ target ∈ graph.targets source,
      depths.getD source 0 + 1 ≤ depths.getD target 0

/-- What relaxing some edges from one source does to the depths. -/
structure Raised (depth : Nat) (pending before after : List Nat) : Prop where
  grows : ∀ node, before.getD node 0 ≤ after.getD node 0
  kept : ∀ node, node ∉ pending → after.getD node 0 = before.getD node 0
  reached : ∀ target ∈ pending, depth ≤ after.getD target 0

theorem Raised.refl (depth : Nat) (depths : List Nat) :
    Raised depth [] depths depths :=
  ⟨fun _ => Nat.le_refl _, fun _ _ => rfl, by simp⟩

theorem Raised.cons {depth target : Nat} {pending before middle after : List Nat}
    (first : Raised depth [target] before middle)
    (rest : Raised depth pending middle after) :
    Raised depth (target :: pending) before after := by
  refine ⟨fun node => Nat.le_trans (first.grows node) (rest.grows node), ?_, ?_⟩
  · intro node absent
    rw [List.mem_cons, not_or] at absent
    rw [rest.kept node absent.2, first.kept node (by simpa using absent.1)]
  · intro other member
    rcases List.mem_cons.mp member with rfl | later
    · exact Nat.le_trans (first.reached other List.mem_cons_self)
        (rest.grows other)
    · exact rest.reached other later

theorem relax_raised {depths : List Nat} {target : Nat}
    (within : target < depths.length) (depth greatest : Nat) :
    Raised depth [target] depths (relax depth (depths, greatest) target).1 := by
  unfold relax
  by_cases less : depths.getD target 0 < depth
  · simp only [less, ↓reduceIte]
    refine ⟨?_, ?_, ?_⟩
    · intro node
      rw [getD_set within]
      split
      · rename_i same
        rw [same]
        exact Nat.le_of_lt less
      · exact Nat.le_refl _
    · intro node absent
      rw [getD_set within, if_neg (by simpa using absent)]
    · intro node member
      rw [getD_set within, if_pos (by simpa using member)]
  · simp only [less, ↓reduceIte]
    refine ⟨fun _ => Nat.le_refl _, fun _ _ => rfl, ?_⟩
    intro node member
    obtain rfl : node = target := by simpa using member
    exact Nat.le_of_not_lt less

/-- The part of the invariant that every single relaxation keeps. -/
structure Measured (graph : Multigraph) (root : Nat) (depths : List Nat)
    (greatest : Nat) : Prop where
  length : depths.length = graph.size
  walks : ∀ node < graph.size, depths.getD node 0 ≠ 0 →
    graph.Walk root (depths.getD node 0) node
  most : ∀ node < graph.size, depths.getD node 0 ≤ greatest
  attained : ∃ node < graph.size, depths.getD node 0 = greatest

theorem Measured.relax {root depth target greatest : Nat} {depths : List Nat}
    (measured : Measured graph root depths greatest)
    (walk : graph.Walk root depth target) (bounded : target < graph.size) :
    Measured graph root (Multigraph.relax depth (depths, greatest) target).1
      (Multigraph.relax depth (depths, greatest) target).2 := by
  have within : target < depths.length := by
    rw [measured.length]
    exact bounded
  unfold Multigraph.relax
  by_cases less : depths.getD target 0 < depth
  · simp only [less, ↓reduceIte]
    refine ⟨?_, ?_, ?_, ?_⟩
    · rw [List.length_set, measured.length]
    · intro node small
      rw [getD_set within]
      split
      · rename_i same
        intro _
        rw [same]
        exact walk
      · exact measured.walks node small
    · intro node small
      rw [getD_set within]
      split
      · exact Nat.le_max_right _ _
      · exact Nat.le_trans (measured.most node small) (Nat.le_max_left _ _)
    · by_cases deeper : greatest ≤ depth
      · refine ⟨target, bounded, ?_⟩
        rw [getD_set within, if_pos rfl, Nat.max_eq_right deeper]
      · obtain ⟨node, small, same⟩ := measured.attained
        refine ⟨node, small, ?_⟩
        have different : node ≠ target := by
          rintro rfl
          omega
        rw [getD_set within, if_neg different, same]
        omega
  · simp only [less, ↓reduceIte]
    exact measured

theorem relaxAll_spec {root depth : Nat} {pending : List Nat}
    (walks : ∀ target ∈ pending, graph.Walk root depth target)
    (bounded : ∀ target ∈ pending, target < graph.size)
    {depths : List Nat} {greatest : Nat}
    (measured : Measured graph root depths greatest) :
    Measured graph root
        (pending.foldl (Multigraph.relax depth) (depths, greatest)).1
        (pending.foldl (Multigraph.relax depth) (depths, greatest)).2 ∧
      Raised depth pending depths
        (pending.foldl (Multigraph.relax depth) (depths, greatest)).1 := by
  induction pending generalizing depths greatest with
  | nil => exact ⟨measured, .refl depth depths⟩
  | cons target rest induction =>
      have small := bounded target List.mem_cons_self
      have within : target < depths.length := by
        rw [measured.length]
        exact small
      have first := measured.relax (walks target List.mem_cons_self) small
      obtain ⟨later, raised⟩ := induction
        (fun other member => walks other (List.mem_cons_of_mem target member))
        (fun other member => bounded other (List.mem_cons_of_mem target member))
        first
      exact ⟨later, (relax_raised within depth greatest).cons raised⟩

/-- Relaxing the edges that leave the next node of a topological order. -/
theorem Relaxing.relax {root node greatest : Nat} {relaxed after depths : List Nat}
    (sorted : graph.Topological (relaxed ++ node :: after))
    (relaxing : Relaxing graph root relaxed depths greatest)
    (reached : depths.getD node 0 ≠ 0) :
    Relaxing graph root (relaxed ++ [node])
      ((graph.targets node).foldl (Multigraph.relax (depths.getD node 0 + 1))
        (depths, greatest)).1
      ((graph.targets node).foldl (Multigraph.relax (depths.getD node 0 + 1))
        (depths, greatest)).2 := by
  have small : node < graph.size := by
    rw [← List.mem_range, ← sorted.lists.mem_iff]
    simp
  have edge : ∀ target ∈ graph.targets node, graph.Edge node target :=
    fun target member => ⟨small, member⟩
  have walk := relaxing.walks node small reached
  obtain ⟨measured, raised⟩ := relaxAll_spec
    (fun target member => .step walk (edge target member))
    (graph.closed node small)
    ⟨relaxing.length, relaxing.walks, relaxing.most, relaxing.attained⟩
  have later : ∀ source ∈ relaxed ++ [node],
      source ∉ graph.targets node := by
    intro source member target
    have forward := sorted.idxOf_lt (edge source target)
    have distinct : (relaxed ++ node :: after).Nodup :=
      sorted.lists.nodup_iff.mpr List.nodup_range
    have absent : node ∉ relaxed := by
      intro early
      exact (List.disjoint_of_nodup_append distinct) early List.mem_cons_self
    rw [List.idxOf_append_of_notMem absent, List.idxOf_cons_self] at forward
    rcases List.mem_append.mp member with early | last
    · rw [List.idxOf_append_of_mem early] at forward
      have bound := List.idxOf_lt_length_of_mem early
      omega
    · obtain rfl : source = node := by simpa using last
      rw [List.idxOf_append_of_notMem absent, List.idxOf_cons_self] at forward
      omega
  refine ⟨measured.length, measured.walks, ?_, measured.most,
    measured.attained, ?_⟩
  · exact Nat.le_trans relaxing.rooted (raised.grows root)
  · intro source member
    rw [raised.kept source (later source member)]
    intro positive target listed
    rcases List.mem_append.mp member with early | last
    · exact Nat.le_trans (relaxing.edges source early positive target listed)
        (raised.grows target)
    · obtain rfl : source = node := by simpa using last
      exact raised.reached target listed

/-- A node that no walk has reached yet has nothing to relax. -/
theorem Relaxing.skip {root node greatest : Nat} {relaxed depths : List Nat}
    (relaxing : Relaxing graph root relaxed depths greatest)
    (nothing : depths.getD node 0 = 0 ∨ graph.targets node = []) :
    Relaxing graph root (relaxed ++ [node]) depths greatest := by
  refine { relaxing with edges := ?_ }
  intro source member positive target listed
  rcases List.mem_append.mp member with early | last
  · exact relaxing.edges source early positive target listed
  · obtain rfl : source = node := by simpa using last
    rcases nothing with zero | none
    · exact absurd zero positive
    · rw [none] at listed
      cases listed

theorem relaxing_initial {root : Nat} (bounded : root < graph.size) :
    Relaxing graph root [] ((List.replicate graph.size 0).set root 1) 1 := by
  have read : ∀ node, ((List.replicate graph.size 0).set root 1).getD node 0 =
      if node = root then 1 else 0 := by
    intro node
    rw [getD_set (by simpa using bounded)]
    split
    · rfl
    · rw [List.getD_eq_getElem?_getD, List.getElem?_replicate]
      split
      · rfl
      · rfl
  refine ⟨by simp, ?_, ?_, ?_, ⟨root, bounded, ?_⟩, by simp⟩
  · intro node _ positive
    rw [read] at positive ⊢
    split at positive
    · rename_i same
      rw [if_pos same, same]
      exact .start
    · exact absurd rfl positive
  · rw [read, if_pos rfl]
  · intro node _
    rw [read]
    split
    · exact Nat.le_refl 1
    · exact Nat.zero_le 1
  · rw [read, if_pos rfl]

theorem Walk.pos {root count node : Nat} (walk : graph.Walk root count node) :
    1 ≤ count := by
  cases walk <;> omega

/-- When all edges are relaxed no walk is longer than the depth of its last
node. -/
theorem Relaxing.count_le {root greatest : Nat} {order depths : List Nat}
    (sorted : graph.Topological order)
    (relaxing : Relaxing graph root order depths greatest) {count node : Nat}
    (walk : graph.Walk root count node) : count ≤ depths.getD node 0 := by
  induction walk with
  | start => exact relaxing.rooted
  | @step count source target walk edge induction =>
      have member : source ∈ order := by
        rw [sorted.lists.mem_iff, List.mem_range]
        exact edge.1
      have positive : depths.getD source 0 ≠ 0 := by
        have some_ := walk.pos
        omega
      have next := relaxing.edges source member positive target edge.2
      omega

theorem Walk.inside {root count node : Nat} (bounded : root < graph.size)
    (walk : graph.Walk root count node) : node < graph.size := by
  cases walk with
  | start => exact bounded
  | step _ edge => exact graph.closed _ edge.1 _ edge.2

theorem exists_walk_iff {root node : Nat} :
    (∃ count, graph.Walk root count node) ↔
      Relation.ReflTransGen graph.Edge root node := by
  constructor
  · rintro ⟨count, walk⟩
    induction walk with
    | start => exact .refl
    | step _ edge induction => exact .tail induction edge
  · intro reached
    induction reached with
    | refl => exact ⟨1, .start⟩
    | tail _ edge induction =>
        obtain ⟨count, walk⟩ := induction
        exact ⟨count + 1, .step walk edge⟩

/-- In a topological order a walk has at most as many nodes as there are up to
its last one. -/
theorem Topological.count_le {order : List Nat}
    (sorted : graph.Topological order) {root count node : Nat}
    (walk : graph.Walk root count node) : count ≤ order.idxOf node + 1 := by
  induction walk with
  | start => omega
  | step _ edge induction =>
      have forward := sorted.idxOf_lt edge
      omega

/-- At the end the greatest depth is the longest walk from the root, and the
nodes without a depth are those that are not reached. -/
theorem Relaxing.isGreatest {root greatest : Nat} {order depths : List Nat}
    (bounded : root < graph.size) (sorted : graph.Topological order)
    (relaxing : Relaxing graph root order depths greatest) :
    IsGreatest {count | ∃ node, graph.Walk root count node} greatest := by
  constructor
  · obtain ⟨node, small, same⟩ := relaxing.attained
    refine ⟨node, ?_⟩
    have deep := relaxing.most root bounded
    have first := relaxing.rooted
    rw [← same]
    apply relaxing.walks node small
    omega
  · rintro count ⟨node, walk⟩
    exact Nat.le_trans (relaxing.count_le sorted walk)
      (relaxing.most node (walk.inside bounded))

theorem Relaxing.reached_iff {root greatest : Nat} {order depths : List Nat}
    (sorted : graph.Topological order)
    (relaxing : Relaxing graph root order depths greatest) {node : Nat}
    (small : node < graph.size) :
    depths.getD node 0 ≠ 0 ↔ Relation.ReflTransGen graph.Edge root node := by
  rw [← exists_walk_iff]
  constructor
  · intro positive
    exact ⟨_, relaxing.walks node small positive⟩
  · rintro ⟨count, walk⟩
    have most := relaxing.count_le sorted walk
    have some_ := walk.pos
    omega

end Multigraph

end Fusor.Graph
