import Mathlib.Data.Finset.Card
import Mathlib.Order.Bounds.Defs

/-!
# Marking a graph with ephemerons

A graph has nodes with edges between them, and tables of ephemerons.  The
value of an ephemeron is reached when the table and the key are.  Keys and
values may also be tokens, which have no edges of their own and may be held
from outside.  A work list is run until it is empty, the tables are scanned,
and this is repeated until a scan marks nothing.
-/

namespace Fusor.Graph

inductive Item (N S : Type) where
  | node (node : N)
  | token (token : S)
  deriving DecidableEq

/-- The items are those that an edge or an ephemeron can lead to, and the
counted ones are those that show the progress of a scan. -/
structure EphemeronGraph (N S : Type) where
  edges : N → List N
  tables : List (N × List (Item N S × Option (Item N S)))
  anchored : S → Bool
  counted : Item N S → Bool
  items : Finset (Item N S)
  edges_mem : ∀ source, ∀ target ∈ edges source, .node target ∈ items
  values_mem : ∀ table ∈ tables, ∀ entry ∈ table.2, ∀ value,
    entry.2 = some value → value ∈ items
  values_counted : ∀ table ∈ tables, ∀ entry ∈ table.2, ∀ value,
    entry.2 = some value → counted value = true

structure Marks (N S : Type) where
  marked : Finset (Item N S)
  work : List N

variable {N S : Type}

namespace Marks

def empty : Marks N S :=
  ⟨∅, []⟩

/-- One set of marks extends another, and what it adds is in a set and, if it
is a node, on the work list. -/
structure Extends (before after : Marks N S) (added : Item N S → Prop) :
    Prop where
  kept : before.marked ⊆ after.marked
  work : ∀ node ∈ before.work, node ∈ after.work
  marked : ∀ item ∈ after.marked, item ∈ before.marked ∨
    (added item ∧ ∀ node, item = .node node → node ∈ after.work)
  pushed : ∀ node ∈ after.work, node ∈ before.work ∨
    (.node node ∈ after.marked ∧ .node node ∉ before.marked)

variable {before middle after : Marks N S} {added wider : Item N S → Prop}

theorem Extends.refl (marks : Marks N S) (added : Item N S → Prop) :
    Extends marks marks added :=
  ⟨fun _ => id, fun _ => id, fun _ => .inl, fun _ => .inl⟩

theorem Extends.mono (extended : Extends before after added)
    (weaker : ∀ item, added item → wider item) :
    Extends before after wider := by
  refine ⟨extended.kept, extended.work, ?_, extended.pushed⟩
  intro item member
  rcases extended.marked item member with old | ⟨new, pushed⟩
  · exact .inl old
  · exact .inr ⟨weaker item new, pushed⟩

theorem Extends.trans (first : Extends before middle added)
    (second : Extends middle after added) : Extends before after added := by
  refine ⟨first.kept.trans second.kept,
    fun node member => second.work node (first.work node member), ?_, ?_⟩
  · intro item member
    rcases second.marked item member with old | new
    · rcases first.marked item old with older | ⟨new, pushed⟩
      · exact .inl older
      · exact .inr ⟨new, fun node same =>
          second.work node (pushed node same)⟩
    · exact .inr new
  · intro node member
    rcases second.pushed node member with old | ⟨new, fresh⟩
    · rcases first.pushed node old with older | ⟨new, fresh⟩
      · exact .inl older
      · exact .inr ⟨second.kept new, fresh⟩
    · exact .inr ⟨new, fun old => fresh (first.kept old)⟩

variable [DecidableEq N] [DecidableEq S]

def mark (marks : Marks N S) (item : Item N S) : Marks N S :=
  if item ∈ marks.marked then marks
  else ⟨insert item marks.marked, match item with
    | .node node => node :: marks.work
    | .token _ => marks.work⟩

def markNodes (marks : Marks N S) (nodes : List N) : Marks N S :=
  nodes.foldl (fun marks node => marks.mark (.node node)) marks

theorem mark_extends (marks : Marks N S) (item : Item N S) :
    Extends marks (marks.mark item) (· = item) := by
  unfold mark
  by_cases present : item ∈ marks.marked
  · rw [if_pos present]
    exact .refl marks _
  · rw [if_neg present]
    refine ⟨Finset.subset_insert _ _, ?_, ?_, ?_⟩
    · intro node member
      cases item with
      | node other => exact List.mem_cons_of_mem other member
      | token other => exact member
    · intro other member
      rcases Finset.mem_insert.mp member with rfl | old
      · refine .inr ⟨rfl, ?_⟩
        rintro node rfl
        exact List.mem_cons_self
      · exact .inl old
    · intro node member
      cases item with
      | token other => exact .inl member
      | node other =>
          rcases List.mem_cons.mp member with rfl | old
          · exact .inr ⟨Finset.mem_insert_self _ _, present⟩
          · exact .inl old

theorem mem_mark (marks : Marks N S) (item : Item N S) :
    item ∈ (marks.mark item).marked := by
  unfold mark
  by_cases present : item ∈ marks.marked
  · rwa [if_pos present]
  · rw [if_neg present]
    exact Finset.mem_insert_self _ _

theorem markNodes_spec (nodes : List N) (marks : Marks N S) :
    Extends marks (marks.markNodes nodes)
      (fun item => ∃ node ∈ nodes, item = .node node) ∧
    ∀ node ∈ nodes, .node node ∈ (marks.markNodes nodes).marked := by
  induction nodes generalizing marks with
  | nil => exact ⟨.refl marks _, by simp⟩
  | cons first rest induction =>
      obtain ⟨extended, present⟩ := induction (marks.mark (.node first))
      have start := marks.mark_extends (.node first)
      have whole : Extends marks
          ((marks.mark (.node first)).markNodes rest)
          (fun item => ∃ node ∈ first :: rest, item = .node node) := by
        apply Extends.trans (start.mono _) (extended.mono _)
        · rintro item rfl
          exact ⟨first, List.mem_cons_self, rfl⟩
        · rintro item ⟨node, member, same⟩
          exact ⟨node, List.mem_cons_of_mem first member, same⟩
      refine ⟨whole, ?_⟩
      intro node member
      rcases List.mem_cons.mp member with rfl | later
      · exact extended.kept (marks.mem_mark (.node node))
      · exact present node later

/-- The room left among the items, twice, and the length of the work list. -/
def remaining (items : Finset (Item N S)) (marks : Marks N S) : Nat :=
  2 * (items \ marks.marked).card + marks.work.length

theorem remaining_mark_le (items : Finset (Item N S)) (marks : Marks N S)
    {item : Item N S} (within : item ∈ items) :
    (marks.mark item).remaining items ≤ marks.remaining items := by
  unfold mark
  by_cases present : item ∈ marks.marked
  · rw [if_pos present]
  · rw [if_neg present]
    have smaller : (items \ insert item marks.marked).card <
        (items \ marks.marked).card := by
      apply Finset.card_lt_card
      rw [Finset.ssubset_iff_of_subset
        (Finset.sdiff_subset_sdiff subset_rfl (Finset.subset_insert _ _))]
      exact ⟨item, by simp [within, present], by simp⟩
    cases item with
    | node node => simp only [remaining, List.length_cons]; omega
    | token token => simp only [remaining]; omega

theorem remaining_markNodes_le (items : Finset (Item N S)) (nodes : List N)
    (marks : Marks N S) (within : ∀ node ∈ nodes, .node node ∈ items) :
    (marks.markNodes nodes).remaining items ≤ marks.remaining items := by
  induction nodes generalizing marks with
  | nil => exact Nat.le_refl _
  | cons first rest induction =>
      apply Nat.le_trans (induction (marks.mark (.node first)) _)
      · exact remaining_mark_le items marks (within first List.mem_cons_self)
      · intro node member
        exact within node (List.mem_cons_of_mem first member)

end Marks

namespace EphemeronGraph

variable (graph : EphemeronGraph N S)

/-- What is reached from the roots. -/
inductive Reached (roots : List N) : Item N S → Prop where
  | root {node : N} : node ∈ roots → Reached roots (.node node)
  | edge {source target : N} : Reached roots (.node source) →
      target ∈ graph.edges source → Reached roots (.node target)
  | value {table : N × List (Item N S × Option (Item N S))}
      {key item : Item N S} : table ∈ graph.tables →
      Reached roots (.node table.1) → (key, some item) ∈ table.2 →
      Reached roots key → Reached roots item
  | anchoredValue {table : N × List (Item N S × Option (Item N S))}
      {token : S} {item : Item N S} : table ∈ graph.tables →
      Reached roots (.node table.1) → (.token token, some item) ∈ table.2 →
      graph.anchored token = true → Reached roots item

/-- A key is live when it is reached, or a token that is held from
outside. -/
def Live (roots : List N) (key : Item N S) : Prop :=
  graph.Reached roots key ∨
    ∃ token, key = .token token ∧ graph.anchored token = true

/-- The set has the roots, and with a node its edges, and with a table the
values of the ephemerons whose keys it has or which are held from outside. -/
structure Closed (roots : List N) (set : Set (Item N S)) : Prop where
  roots : ∀ node ∈ roots, .node node ∈ set
  edges : ∀ source, .node source ∈ set → ∀ target ∈ graph.edges source,
    .node target ∈ set
  values : ∀ table ∈ graph.tables, .node table.1 ∈ set → ∀ key item,
    (key, some item) ∈ table.2 →
    (key ∈ set ∨ ∃ token, key = .token token ∧ graph.anchored token = true) →
    item ∈ set

/-- What a scan may add. -/
def Offered (entries : List (Item N S × Option (Item N S)))
    (item : Item N S) : Prop :=
  ∃ entry ∈ entries, entry.2 = some item

theorem offered_mem {item : Item N S}
    (offered : ∃ table ∈ graph.tables, Offered table.2 item) :
    item ∈ graph.items := by
  obtain ⟨table, listed, entry, member, value⟩ := offered
  exact graph.values_mem table listed entry member item value

theorem offered_counted {item : Item N S}
    (offered : ∃ table ∈ graph.tables, Offered table.2 item) :
    graph.counted item = true := by
  obtain ⟨table, listed, entry, member, value⟩ := offered
  exact graph.values_counted table listed entry member item value

variable {graph}

theorem Reached.of_live {roots : List N}
    {table : N × List (Item N S × Option (Item N S))} {key item : Item N S}
    (listed : table ∈ graph.tables)
    (owner : graph.Reached roots (.node table.1))
    (entry : (key, some item) ∈ table.2) (live : graph.Live roots key) :
    graph.Reached roots item := by
  rcases live with reached | ⟨token, rfl, anchored⟩
  · exact .value listed owner entry reached
  · exact .anchoredValue listed owner entry anchored

theorem reached_isLeast (roots : List N) :
    IsLeast {set | graph.Closed roots set}
      {item | graph.Reached roots item} := by
  constructor
  · refine ⟨fun _ => .root, fun _ reached _ => .edge reached, ?_⟩
    intro table listed owner key item entry live
    exact .of_live listed owner entry live
  · intro set closed item reached
    induction reached with
    | root member => exact closed.roots _ member
    | edge _ follows source => exact closed.edges _ source _ follows
    | value listed _ entry _ owner key =>
        exact closed.values _ listed owner _ _ entry (.inl key)
    | anchoredValue listed _ entry anchored owner =>
        exact closed.values _ listed owner _ _ entry
          (.inr ⟨_, rfl, anchored⟩)

variable [DecidableEq N] [DecidableEq S] (graph)

def keyIsLive (marks : Marks N S) : Item N S → Bool
  | .node node => decide (.node node ∈ marks.marked)
  | .token token =>
      decide (.token token ∈ marks.marked) || graph.anchored token

def scanEntry (marks : Marks N S) (entry : Item N S × Option (Item N S)) :
    Marks N S :=
  if graph.keyIsLive marks entry.1 then
    match entry.2 with
    | some value => marks.mark value
    | none => marks
  else marks

def scanTable (marks : Marks N S)
    (table : N × List (Item N S × Option (Item N S))) : Marks N S :=
  if .node table.1 ∈ marks.marked then table.2.foldl graph.scanEntry marks
  else marks

def scan (marks : Marks N S) : Marks N S :=
  graph.tables.foldl graph.scanTable marks

/-- Runs the work list until it is empty. -/
def drain (marks : Marks N S) : Marks N S :=
  match _pending : marks.work with
  | [] => marks
  | node :: rest =>
      drain ({ marks with work := rest }.markNodes (graph.edges node))
  termination_by marks.remaining graph.items
  decreasing_by
    apply Nat.lt_of_le_of_lt
      (Marks.remaining_markNodes_le graph.items _ _ (graph.edges_mem node))
    simp [Marks.remaining, _pending]

def progress (marks : Marks N S) : Nat :=
  (marks.marked.filter (graph.counted ·)).card

theorem keyIsLive_iff (marks : Marks N S) (key : Item N S) :
    graph.keyIsLive marks key = true ↔ key ∈ marks.marked ∨
      ∃ token, key = .token token ∧ graph.anchored token = true := by
  cases key with
  | node node => simp [keyIsLive]
  | token token => simp [keyIsLive]

theorem keyIsLive_mono {before after : Marks N S}
    (kept : before.marked ⊆ after.marked) {key : Item N S}
    (live : graph.keyIsLive before key = true) :
    graph.keyIsLive after key = true := by
  rw [keyIsLive_iff] at live ⊢
  exact live.imp_left fun member => kept member

theorem scanEntry_extends (marks : Marks N S)
    (entry : Item N S × Option (Item N S)) :
    marks.Extends (graph.scanEntry marks entry)
      fun item => entry.2 = some item := by
  unfold scanEntry
  by_cases live : graph.keyIsLive marks entry.1 = true
  · rw [if_pos live]
    cases value : entry.2 with
    | none => exact .refl marks _
    | some item =>
        apply (marks.mark_extends item).mono
        rintro other rfl
        rfl
  · rw [if_neg live]
    exact .refl marks _

theorem scanEntries_extends (entries : List (Item N S × Option (Item N S)))
    (marks : Marks N S) :
    marks.Extends (entries.foldl graph.scanEntry marks) (Offered entries) := by
  induction entries generalizing marks with
  | nil => exact .refl marks _
  | cons first rest induction =>
      apply Marks.Extends.trans ((graph.scanEntry_extends marks first).mono _)
        ((induction (graph.scanEntry marks first)).mono _)
      · intro item value
        exact ⟨first, List.mem_cons_self, value⟩
      · rintro item ⟨entry, member, value⟩
        exact ⟨entry, List.mem_cons_of_mem first member, value⟩

theorem scanTable_extends (marks : Marks N S)
    (table : N × List (Item N S × Option (Item N S))) :
    marks.Extends (graph.scanTable marks table) (Offered table.2) := by
  unfold scanTable
  by_cases reached : .node table.1 ∈ marks.marked
  · rw [if_pos reached]
    exact graph.scanEntries_extends table.2 marks
  · rw [if_neg reached]
    exact .refl marks _

theorem scanTables_extends
    (tables : List (N × List (Item N S × Option (Item N S))))
    (marks : Marks N S) :
    marks.Extends (tables.foldl graph.scanTable marks)
      fun item => ∃ table ∈ tables, Offered table.2 item := by
  induction tables generalizing marks with
  | nil => exact .refl marks _
  | cons first rest induction =>
      apply Marks.Extends.trans ((graph.scanTable_extends marks first).mono _)
        ((induction (graph.scanTable marks first)).mono _)
      · intro item offered
        exact ⟨first, List.mem_cons_self, offered⟩
      · rintro item ⟨table, member, offered⟩
        exact ⟨table, List.mem_cons_of_mem first member, offered⟩

theorem scan_extends (marks : Marks N S) :
    marks.Extends (graph.scan marks)
      fun item => ∃ table ∈ graph.tables, Offered table.2 item :=
  graph.scanTables_extends graph.tables marks

/-- A scan without progress marks nothing. -/
theorem scan_eq_of_progress {marks : Marks N S}
    (stalled : graph.progress (graph.scan marks) = graph.progress marks) :
    (graph.scan marks).marked = marks.marked := by
  have extended := graph.scan_extends marks
  have smaller : marks.marked.filter (graph.counted ·) ⊆
      (graph.scan marks).marked.filter (graph.counted ·) :=
    Finset.filter_subset_filter _ extended.kept
  have same := Finset.eq_of_subset_of_card_le smaller (Nat.le_of_eq stalled)
  apply Finset.Subset.antisymm _ extended.kept
  intro item member
  rcases extended.marked item member with old | ⟨offered, _⟩
  · exact old
  · have counted := graph.offered_counted offered
    have inside : item ∈ marks.marked.filter (graph.counted ·) := by
      rw [same]
      exact Finset.mem_filter.mpr ⟨member, counted⟩
    exact (Finset.mem_filter.mp inside).1

theorem card_scan_lt {marks : Marks N S}
    (moved : graph.progress (graph.scan marks) ≠ graph.progress marks) :
    (graph.items \ (graph.scan marks).marked).card <
      (graph.items \ marks.marked).card := by
  have extended := graph.scan_extends marks
  have grown : ∃ item ∈ (graph.scan marks).marked, item ∉ marks.marked := by
    by_contra none
    push Not at none
    apply moved
    rw [progress, progress, Finset.Subset.antisymm none extended.kept]
  obtain ⟨item, new, fresh⟩ := grown
  apply Finset.card_lt_card
  rw [Finset.ssubset_iff_of_subset
    (Finset.sdiff_subset_sdiff subset_rfl extended.kept)]
  refine ⟨item, ?_, by simp [new]⟩
  rcases extended.marked item new with old | ⟨offered, _⟩
  · exact absurd old fresh
  · exact Finset.mem_sdiff.mpr ⟨graph.offered_mem offered, fresh⟩

theorem drain_nil {marks : Marks N S} (pending : marks.work = []) :
    graph.drain marks = marks := by
  unfold drain
  split
  · rfl
  · rename_i other
    rw [pending] at other
    cases other

theorem drain_cons {marks : Marks N S} {node : N} {rest : List N}
    (pending : marks.work = node :: rest) :
    graph.drain marks = graph.drain
      ({ marks with work := rest }.markNodes (graph.edges node)) := by
  rw [drain]
  split
  · rename_i other
    rw [pending] at other
    cases other
  · rename_i other
    rw [pending] at other
    cases other
    rfl

theorem subset_drain (marks : Marks N S) :
    marks.marked ⊆ (graph.drain marks).marked := by
  induction marks using EphemeronGraph.drain.induct graph with
  | case1 marks pending => rw [graph.drain_nil pending]
  | case2 marks node rest pending induction =>
      rw [graph.drain_cons pending]
      exact (Marks.markNodes_spec (graph.edges node)
        { marks with work := rest }).1.kept.trans induction

/-- Alternates between the work list and scans until a scan makes no
progress. -/
def close (marks : Marks N S) : Marks N S :=
  let drained := graph.drain marks
  let scanned := graph.scan drained
  if graph.progress scanned = graph.progress drained then scanned
  else close scanned
  termination_by (graph.items \ marks.marked).card
  decreasing_by
    rename_i moved
    apply Nat.lt_of_lt_of_le (graph.card_scan_lt moved)
    exact Finset.card_le_card
      (Finset.sdiff_subset_sdiff subset_rfl (graph.subset_drain marks))

def start (roots : List N) : Marks N S :=
  Marks.empty.markNodes roots

/-- What holds of the marks at every point: they are reached, and the edges
of a marked node are marked or still to be followed. -/
structure Consistent (roots : List N) (marks : Marks N S) : Prop where
  reached : ∀ item ∈ marks.marked, graph.Reached roots item
  pending : ∀ node ∈ marks.work, .node node ∈ marks.marked
  roots : ∀ node ∈ roots, .node node ∈ marks.marked
  edges : ∀ source, .node source ∈ marks.marked → source ∈ marks.work ∨
    ∀ target ∈ graph.edges source, .node target ∈ marks.marked

variable {graph} {roots : List N} {before after : Marks N S}

omit [DecidableEq N] [DecidableEq S] in
/-- Marking further reached items keeps the marks consistent. -/
theorem Consistent.extend {added : Item N S → Prop}
    (consistent : graph.Consistent roots before)
    (extended : before.Extends after added)
    (sound : ∀ item, added item → graph.Reached roots item) :
    graph.Consistent roots after := by
  constructor
  · intro item member
    rcases extended.marked item member with old | ⟨new, _⟩
    · exact consistent.reached item old
    · exact sound item new
  · intro node member
    rcases extended.pushed node member with old | ⟨new, _⟩
    · exact extended.kept (consistent.pending node old)
    · exact new
  · intro node member
    exact extended.kept (consistent.roots node member)
  · intro source member
    rcases extended.marked _ member with old | ⟨_, pushed⟩
    · rcases consistent.edges source old with waiting | followed
      · exact .inl (extended.work source waiting)
      · exact .inr fun target follows =>
          extended.kept (followed target follows)
    · exact .inl (pushed source rfl)

theorem consistent_start (roots : List N) :
    graph.Consistent roots (start roots) := by
  obtain ⟨extended, present⟩ :=
    Marks.markNodes_spec roots (Marks.empty : Marks N S)
  constructor
  · intro item member
    rcases extended.marked item member with old | ⟨⟨node, root, rfl⟩, _⟩
    · exact absurd old (Finset.notMem_empty item)
    · exact .root root
  · intro node member
    rcases extended.pushed node member with old | ⟨new, _⟩
    · exact absurd old List.not_mem_nil
    · exact new
  · exact present
  · intro source member
    rcases extended.marked _ member with old | ⟨_, pushed⟩
    · exact absurd old (Finset.notMem_empty _)
    · exact .inl (pushed source rfl)

/-- Following the edges of one node keeps the marks consistent. -/
theorem Consistent.follow {marks : Marks N S} {node : N} {rest : List N}
    (consistent : graph.Consistent roots marks)
    (pending : marks.work = node :: rest) :
    graph.Consistent roots
      ({ marks with work := rest }.markNodes (graph.edges node)) := by
  obtain ⟨extended, present⟩ :=
    Marks.markNodes_spec (graph.edges node) { marks with work := rest }
  have marked : .node node ∈ marks.marked :=
    consistent.pending node (by rw [pending]; exact List.mem_cons_self)
  constructor
  · intro item member
    rcases extended.marked item member with old | ⟨⟨target, follows, rfl⟩, _⟩
    · exact consistent.reached item old
    · exact .edge (consistent.reached _ marked) follows
  · intro other member
    rcases extended.pushed other member with old | ⟨new, _⟩
    · apply extended.kept
      apply consistent.pending other
      rw [pending]
      exact List.mem_cons_of_mem node old
    · exact new
  · intro root member
    exact extended.kept (consistent.roots root member)
  · intro source member
    by_cases same : source = node
    · subst same
      exact .inr present
    · rcases extended.marked _ member with old | ⟨_, pushed⟩
      · rcases consistent.edges source old with waiting | followed
        · rw [pending] at waiting
          rcases List.mem_cons.mp waiting with equal | later
          · exact absurd equal same
          · exact .inl (extended.work source later)
        · exact .inr fun target follows =>
            extended.kept (followed target follows)
      · exact .inl (pushed source rfl)

theorem Consistent.drain {marks : Marks N S}
    (consistent : graph.Consistent roots marks) :
    graph.Consistent roots (graph.drain marks) ∧
      (graph.drain marks).work = [] := by
  induction marks using EphemeronGraph.drain.induct graph with
  | case1 marks pending =>
      rw [graph.drain_nil pending]
      exact ⟨consistent, pending⟩
  | case2 marks node rest pending induction =>
      rw [graph.drain_cons pending]
      exact induction (consistent.follow pending)

theorem Consistent.live_of_keyIsLive {marks : Marks N S} {key : Item N S}
    (consistent : graph.Consistent roots marks)
    (live : graph.keyIsLive marks key = true) : graph.Live roots key :=
  ((graph.keyIsLive_iff marks key).mp live).imp_left
    fun member => consistent.reached key member

theorem Consistent.scanEntries {marks : Marks N S}
    {table : N × List (Item N S × Option (Item N S))}
    (listed : table ∈ graph.tables)
    (owner : graph.Reached roots (.node table.1))
    (entries : List (Item N S × Option (Item N S)))
    (within : ∀ entry ∈ entries, entry ∈ table.2)
    (consistent : graph.Consistent roots marks) :
    graph.Consistent roots (entries.foldl graph.scanEntry marks) := by
  induction entries generalizing marks with
  | nil => exact consistent
  | cons first rest induction =>
      apply induction (fun entry member =>
        within entry (List.mem_cons_of_mem first member))
      unfold scanEntry
      by_cases live : graph.keyIsLive marks first.1 = true
      · rw [if_pos live]
        cases value : first.2 with
        | none => exact consistent
        | some item =>
            apply consistent.extend (marks.mark_extends item)
            rintro other rfl
            have member := within first List.mem_cons_self
            have split : first = (first.1, some other) := by
              rw [← value]
            rw [split] at member
            exact .of_live listed owner member
              (consistent.live_of_keyIsLive live)
      · rw [if_neg live]
        exact consistent

theorem Consistent.scanTables {marks : Marks N S}
    (tables : List (N × List (Item N S × Option (Item N S))))
    (within : ∀ table ∈ tables, table ∈ graph.tables)
    (consistent : graph.Consistent roots marks) :
    graph.Consistent roots (tables.foldl graph.scanTable marks) := by
  induction tables generalizing marks with
  | nil => exact consistent
  | cons first rest induction =>
      apply induction (fun table member =>
        within table (List.mem_cons_of_mem first member))
      unfold scanTable
      by_cases reached : .node first.1 ∈ marks.marked
      · rw [if_pos reached]
        exact consistent.scanEntries (within first List.mem_cons_self)
          (consistent.reached _ reached) first.2 (fun _ => id)
      · rw [if_neg reached]
        exact consistent

theorem Consistent.scan {marks : Marks N S}
    (consistent : graph.Consistent roots marks) :
    graph.Consistent roots (graph.scan marks) :=
  consistent.scanTables graph.tables (fun _ => id)

theorem mem_scanEntries (entries : List (Item N S × Option (Item N S)))
    (marks : Marks N S) {key item : Item N S}
    (member : (key, some item) ∈ entries)
    (live : graph.keyIsLive marks key = true) :
    item ∈ (entries.foldl graph.scanEntry marks).marked := by
  induction entries generalizing marks with
  | nil => exact absurd member List.not_mem_nil
  | cons first rest induction =>
      have first_kept := (graph.scanEntry_extends marks first).kept
      rcases List.mem_cons.mp member with rfl | later
      · apply (graph.scanEntries_extends rest _).kept
        simp only [scanEntry, live, ↓reduceIte]
        exact marks.mem_mark item
      · exact induction (graph.scanEntry marks first) later
          (graph.keyIsLive_mono first_kept live)

theorem mem_scanTables
    (tables : List (N × List (Item N S × Option (Item N S))))
    (marks : Marks N S)
    {table : N × List (Item N S × Option (Item N S))} {key item : Item N S}
    (listed : table ∈ tables) (owner : .node table.1 ∈ marks.marked)
    (entry : (key, some item) ∈ table.2)
    (live : graph.keyIsLive marks key = true) :
    item ∈ (tables.foldl graph.scanTable marks).marked := by
  induction tables generalizing marks with
  | nil => exact absurd listed List.not_mem_nil
  | cons first rest induction =>
      have first_kept := (graph.scanTable_extends marks first).kept
      rcases List.mem_cons.mp listed with rfl | later
      · apply (graph.scanTables_extends rest _).kept
        rw [scanTable, if_pos owner]
        exact mem_scanEntries table.2 marks entry live
      · exact induction (graph.scanTable marks first) later
          (first_kept owner) (graph.keyIsLive_mono first_kept live)

/-- Consistent marks without work that a scan leaves as they are make a closed
set. -/
theorem Consistent.closed {marks : Marks N S}
    (consistent : graph.Consistent roots marks) (idle : marks.work = [])
    (stable : (graph.scan marks).marked = marks.marked) :
    graph.Closed roots {item | item ∈ marks.marked} := by
  constructor
  · exact consistent.roots
  · intro source member target follows
    rcases consistent.edges source member with waiting | followed
    · rw [idle] at waiting
      exact absurd waiting List.not_mem_nil
    · exact followed target follows
  · intro table listed owner key item entry live
    have present := mem_scanTables graph.tables marks listed owner entry
      ((graph.keyIsLive_iff marks key).mpr live)
    change item ∈ (graph.scan marks).marked at present
    rwa [stable] at present

theorem Consistent.close {marks : Marks N S}
    (consistent : graph.Consistent roots marks) :
    graph.Consistent roots (graph.close marks) ∧
      graph.Closed roots {item | item ∈ (graph.close marks).marked} := by
  induction marks using EphemeronGraph.close.induct graph with
  | case1 marks drained scanned stalled =>
      obtain ⟨settled, idle⟩ := consistent.drain
      have same := graph.scan_eq_of_progress stalled
      rw [EphemeronGraph.close, if_pos stalled]
      refine ⟨settled.scan, ?_⟩
      have closed := settled.closed idle same
      rwa [same]
  | case2 marks drained scanned moved induction =>
      obtain ⟨settled, _⟩ := consistent.drain
      rw [EphemeronGraph.close, if_neg moved]
      exact induction settled.scan

/-- The marks of a whole run are what is reached from the roots. -/
theorem mem_close_start (roots : List N) (item : Item N S) :
    item ∈ (graph.close (start roots)).marked ↔
      graph.Reached roots item := by
  have begun : graph.Consistent roots (start roots) := consistent_start roots
  obtain ⟨consistent, closed⟩ := begun.close
  constructor
  · exact consistent.reached item
  · intro reached
    exact (reached_isLeast roots).2 closed reached

theorem close_start_isLeast (roots : List N) :
    IsLeast {set | graph.Closed roots set}
      {item | item ∈ (graph.close (start roots)).marked} := by
  have same : {item | item ∈ (graph.close (start roots)).marked} =
      {item | graph.Reached roots item} :=
    Set.ext fun item => mem_close_start roots item
  rw [same]
  exact reached_isLeast roots

end EphemeronGraph

end Fusor.Graph
