import Fusor.RegExp.Lowering

/-!
# Capture numbering

Capture collection visits the groups of a pattern from left to right, so the
metadata is one push for each group in that order.  Group numbers are then
positive and bounded, and groups that start at different places have
different numbers.
-/

namespace Fusor.RegExp

open Ast Support

/-- The part of a capturing group that the metadata keeps. -/
structure Group where
  span : Span
  name : Option String
  deriving DecidableEq

mutual

/-- The capturing groups of a term from left to right. -/
def Ast.Term.groups : Term → List Group
  | .capturingGroup span name body => ⟨span, name⟩ :: disjunctionGroups body
  | .lookAroundAssertion _ _ body | .ignoreGroup _ _ body =>
      disjunctionGroups body
  | .quantifier _ _ _ _ body => body.groups
  | _ => []

def alternativeGroups : Alternative → List Group
  | [] => []
  | term :: terms => term.groups ++ alternativeGroups terms

def disjunctionGroups : Disjunction → List Group
  | [] => []
  | alternative :: alternatives =>
      alternativeGroups alternative ++ disjunctionGroups alternatives

end

theorem alternativeGroups_eq (alternative : Alternative) :
    alternativeGroups alternative = alternative.flatMap Term.groups := by
  induction alternative with
  | nil => rfl
  | cons term terms induction =>
      rw [alternativeGroups, induction, List.flatMap_cons]

theorem disjunctionGroups_eq (body : Disjunction) :
    disjunctionGroups body = body.flatten.flatMap Term.groups := by
  induction body with
  | nil => rfl
  | cons alternative alternatives induction =>
      rw [disjunctionGroups, induction, alternativeGroups_eq,
        List.flatten_cons, List.flatMap_append]

def Visit.groups : Visit → List Group
  | .disjunction body _ => disjunctionGroups body
  | .term visited _ => visited.groups

def CaptureMetadata.pushGroup (captures : CaptureMetadata) (group : Group) :
    CaptureMetadata :=
  captures.push group.span group.name

/-- The metadata is one push for each group, from left to right. -/
theorem collectCaptures_eq_ok {limits : CompileLimits} {stack : List Visit}
    {captures collected : CaptureMetadata}
    (finished : collectCaptures limits stack captures = .ok collected) :
    collected = (stack.flatMap Visit.groups).foldl
      CaptureMetadata.pushGroup captures := by
  induction stack, captures using collectCaptures.induct limits with
  | case1 captures =>
      rw [collectCaptures] at finished
      cases finished
      rfl
  | case2 captures stack body depth deep =>
      rw [collectCaptures, if_pos deep] at finished
      cases finished
  | case3 captures stack body depth shallow induction =>
      rw [collectCaptures, if_neg shallow] at finished
      rw [induction finished, List.flatMap_append, List.flatMap_cons]
      congr 2
      rw [List.flatMap_map, Visit.groups, disjunctionGroups_eq]
      rfl
  | case4 captures stack span name body depth full =>
      rw [collectCaptures, if_pos full] at finished
      cases finished
  | case5 captures stack span name body depth free induction =>
      rw [collectCaptures, if_neg free] at finished
      rw [induction finished]
      simp only [List.flatMap_cons, Visit.groups, Term.groups,
        List.cons_append, List.foldl_cons]
      rfl
  | case6 captures stack span modifiers body depth induction =>
      rw [collectCaptures] at finished
      rw [induction finished]
      simp only [List.flatMap_cons, Visit.groups, Term.groups]
  | case7 captures stack span kind body depth induction =>
      rw [collectCaptures] at finished
      rw [induction finished]
      simp only [List.flatMap_cons, Visit.groups, Term.groups]
  | case8 captures stack span min max greedy body depth induction =>
      rw [collectCaptures] at finished
      rw [induction finished]
      simp only [List.flatMap_cons, Visit.groups, Term.groups]
  | case9 captures visited depth stack noGroup noIgnore noLook noRepeat
      induction =>
      rw [collectCaptures] at finished
      · have none : (Visit.term visited depth).groups = [] := by
          cases visited with
          | capturingGroup span name body =>
              exact (noGroup span name body rfl).elim
          | ignoreGroup span modifiers body =>
              exact (noIgnore span modifiers body rfl).elim
          | lookAroundAssertion span kind body =>
              exact (noLook span kind body rfl).elim
          | quantifier span min max greedy body =>
              exact (noRepeat span min max greedy body rfl).elim
          | _ => rfl
        rw [induction finished, List.flatMap_cons, none, List.nil_append]
      all_goals assumption

/-- The metadata of a pattern with the listed groups. -/
def groupMetadata (groups : List Group) : CaptureMetadata :=
  groups.foldl CaptureMetadata.pushGroup {}

/-- The numbers of the groups with a name, from left to right. -/
def namedGroups (groups : List Group) (name : String) : List Nat :=
  (groups.zipIdx 1).filterMap fun (group, index) =>
    if group.name = some name then some index else none

section Metadata

theorem groupMetadata_append (groups : List Group) (group : Group) :
    groupMetadata (groups ++ [group]) =
      (groupMetadata groups).push group.span group.name := by
  simp [groupMetadata, CaptureMetadata.pushGroup]

@[simp] theorem length_groupMetadata_spans (groups : List Group) :
    (groupMetadata groups).spans.length = groups.length := by
  induction groups using List.reverseRecOn with
  | nil => rfl
  | append_singleton groups group induction =>
      rw [groupMetadata_append]
      simp [CaptureMetadata.push, induction]

@[simp] theorem groupMetadata_names (groups : List Group) :
    (groupMetadata groups).names = groups.map Group.name := by
  induction groups using List.reverseRecOn with
  | nil => rfl
  | append_singleton groups group induction =>
      rw [groupMetadata_append]
      simp [CaptureMetadata.push, induction]

theorem groupMetadata_spans_le (groups : List Group) :
    ∀ capture ∈ (groupMetadata groups).spans,
      0 < capture.2.2 ∧ capture.2.2 ≤ groups.length := by
  induction groups using List.reverseRecOn with
  | nil => simp [groupMetadata]
  | append_singleton groups group induction =>
      intro capture found
      rw [groupMetadata_append] at found
      simp only [CaptureMetadata.push, List.mem_append, List.mem_singleton,
        length_groupMetadata_spans] at found
      rw [List.length_append, List.length_singleton]
      rcases found with earlier | rfl
      · have bounds := induction capture earlier
        omega
      · exact ⟨Nat.succ_pos _, le_rfl⟩

/-- A group number leads back to the start of its group. -/
theorem lookup_byStart {groups : List Group} {start index : Nat}
    (known : (groupMetadata groups).byStart.lookup start = some index) :
    ∃ position group, index = position + 1 ∧
      groups[position]? = some group ∧ group.span.start = start := by
  induction groups using List.reverseRecOn with
  | nil => simp [groupMetadata] at known
  | append_singleton groups group induction =>
      rw [groupMetadata_append] at known
      simp only [CaptureMetadata.push, List.lookup_cons,
        length_groupMetadata_spans] at known
      by_cases same : start = group.span.start
      · rw [beq_iff_eq.mpr same] at known
        cases known
        refine ⟨groups.length, group, rfl, ?_, same.symm⟩
        exact List.getElem?_concat_length
      · rw [beq_eq_false_iff_ne.mpr same] at known
        obtain ⟨position, earlier, number, found, begins⟩ := induction known
        have inside := (List.getElem?_eq_some_iff.mp found).1
        refine ⟨position, earlier, number, ?_, begins⟩
        rw [List.getElem?_append_left inside]
        exact found

/-- Groups that start at different places are numbered from left to right. -/
theorem lookup_byStart_of_nodup {groups : List Group}
    (distinct : (groups.map fun group => group.span.start).Nodup)
    {position : Nat} {group : Group} (found : groups[position]? = some group) :
    (groupMetadata groups).byStart.lookup group.span.start =
      some (position + 1) := by
  induction groups using List.reverseRecOn with
  | nil => simp at found
  | append_singleton groups last induction =>
      rw [groupMetadata_append]
      simp only [CaptureMetadata.push, List.lookup_cons,
        length_groupMetadata_spans]
      rw [List.map_append, List.nodup_append] at distinct
      by_cases inside : position < groups.length
      · rw [List.getElem?_append_left inside] at found
        have different : group.span.start ≠ last.span.start :=
          distinct.2.2 _ (List.mem_map_of_mem (List.mem_of_getElem? found)) _
            (by simp)
        rw [beq_eq_false_iff_ne.mpr different]
        exact induction distinct.1 found
      · have bound := (List.getElem?_eq_some_iff.mp found).1
        rw [List.length_append, List.length_singleton] at bound
        have final : position = groups.length := by omega
        subst final
        rw [List.getElem?_concat_length] at found
        cases found
        rw [beq_self_eq_true]

theorem lookup_pushName (name known : String) (index : Nat)
    (names : List (String × List Nat)) :
    (pushName known index names).lookup name =
      if name = known then
        some ((names.lookup name).getD [] ++ [index])
      else names.lookup name := by
  induction names with
  | nil =>
      by_cases same : name = known
      · simp [pushName, same]
      · simp [pushName, same]
  | cons entry entries induction =>
      obtain ⟨listed, indices⟩ := entry
      by_cases first : listed = known
      · subst first
        by_cases same : name = listed
        · simp [pushName, same]
        · simp [pushName, List.lookup_cons, beq_eq_false_iff_ne.mpr same, same]
      · by_cases same : name = listed
        · subst same
          simp [pushName, first]
        · simp only [pushName, if_neg first, List.lookup_cons,
            beq_eq_false_iff_ne.mpr same, induction]

theorem namedGroups_append (groups : List Group) (group : Group)
    (name : String) :
    namedGroups (groups ++ [group]) name =
      namedGroups groups name ++
        if group.name = some name then [groups.length + 1] else [] := by
  rw [namedGroups, List.zipIdx_append, List.filterMap_append]
  by_cases same : group.name = some name
  · simp [namedGroups, same, Nat.add_comm]
  · simp [namedGroups, same]

/-- The metadata lists the groups of a name from left to right. -/
theorem lookup_byName (groups : List Group) (name : String) :
    (groupMetadata groups).byName.lookup name =
      if namedGroups groups name = [] then none
      else some (namedGroups groups name) := by
  induction groups using List.reverseRecOn with
  | nil => rfl
  | append_singleton groups group induction =>
      rw [groupMetadata_append, namedGroups_append]
      simp only [CaptureMetadata.push, length_groupMetadata_spans]
      cases given : group.name with
      | none => simpa using induction
      | some known =>
          simp only [lookup_pushName, induction, Option.some.injEq]
          by_cases same : name = known
          · subst same
            by_cases nothing : namedGroups groups name = []
            · simp [nothing]
            · simp [nothing]
          · rw [if_neg same, if_neg (Ne.symm same), List.append_nil]

/-- The range that a quantifier clears holds group numbers only. -/
theorem within_le (groups : List Group) (start stop : Nat) :
    ((groupMetadata groups).within start stop).2 ≤ groups.length + 1 := by
  unfold CaptureMetadata.within
  generalize folding : List.foldl _ _ _ = bounds
  have total : bounds.2 ≤ groups.length + 1 := by
    rw [← folding]
    refine List.foldlRecOn (motive := fun bounds : Option Nat × Nat =>
      bounds.2 ≤ groups.length + 1) _ _ (Nat.zero_le _) ?_
    intro bounds small capture found
    have number := (groupMetadata_spans_le groups capture found).2
    split
    · exact max_le small (by omega)
    · exact small
  obtain ⟨lower, upper⟩ := bounds
  cases lower with
  | none => exact Nat.zero_le _
  | some lower => exact total

theorem groupMetadata_spans (groups : List Group) :
    (groupMetadata groups).spans = (groups.zipIdx 1).map fun (group, index) =>
      (group.span.start, group.span.stop, index) := by
  induction groups using List.reverseRecOn with
  | nil => rfl
  | append_singleton groups group induction =>
      rw [groupMetadata_append, List.zipIdx_append, List.map_append,
        ← induction]
      simp only [CaptureMetadata.push, length_groupMetadata_spans,
        Nat.add_comm groups.length 1]
      rfl

/-- One group of the search for the groups between two places. -/
def widen (start stop : Nat) (bounds : Option Nat × Nat)
    (capture : Nat × Nat × Nat) : Option Nat × Nat :=
  if start ≤ capture.1 ∧ capture.2.1 ≤ stop then
    (some ((bounds.1.map (min · capture.2.2)).getD capture.2.2),
      max bounds.2 (capture.2.2 + 1))
  else bounds

theorem foldl_widen_outside {start stop : Nat}
    {captures : List (Nat × Nat × Nat)}
    (outside : ∀ capture ∈ captures,
      ¬ (start ≤ capture.1 ∧ capture.2.1 ≤ stop)) (bounds : Option Nat × Nat) :
    captures.foldl (widen start stop) bounds = bounds := by
  induction captures with
  | nil => rfl
  | cons capture captures induction =>
      rw [List.foldl_cons, widen,
        if_neg (outside capture List.mem_cons_self)]
      exact induction fun later found =>
        outside later (List.mem_cons_of_mem _ found)

theorem foldl_widen_inside {start stop : Nat} {groups : List Group}
    (inside : ∀ group ∈ groups,
      start ≤ group.span.start ∧ group.span.stop ≤ stop) (first : Nat) :
    ((groups.zipIdx first).map fun (group, index) =>
        (group.span.start, group.span.stop, index)).foldl (widen start stop)
      (none, 0) =
      if groups = [] then (none, 0)
      else (some first, first + groups.length) := by
  induction groups using List.reverseRecOn with
  | nil => rfl
  | append_singleton groups group induction =>
      have earlier := induction fun other found =>
        inside other (List.mem_append_left _ found)
      have last := inside group (by simp)
      rw [List.zipIdx_append, List.map_append, List.foldl_append, earlier]
      simp only [List.zipIdx_cons, List.zipIdx_nil, List.map_cons,
        List.map_nil, List.foldl_cons, List.foldl_nil, widen, if_pos last]
      by_cases nothing : groups = []
      · subst nothing
        simp
      · rw [if_neg nothing, if_neg (by simp)]
        simp only [Option.map_some, Option.getD_some, List.length_append,
          List.length_singleton]
        congr 2 <;> omega

/-- The range between two places is exactly that of the groups between them. -/
theorem within_eq {front own back : List Group} {start stop : Nat}
    (inside : ∀ group ∈ own,
      start ≤ group.span.start ∧ group.span.stop ≤ stop)
    (before : ∀ group ∈ front,
      ¬ (start ≤ group.span.start ∧ group.span.stop ≤ stop))
    (after : ∀ group ∈ back,
      ¬ (start ≤ group.span.start ∧ group.span.stop ≤ stop)) :
    (groupMetadata (front ++ own ++ back)).within start stop =
      if own = [] then (0, 0)
      else (front.length + 1, front.length + own.length + 1) := by
  have outside : ∀ (groups : List Group) (first : Nat),
      (∀ group ∈ groups,
        ¬ (start ≤ group.span.start ∧ group.span.stop ≤ stop)) →
      ∀ capture ∈ (groups.zipIdx first).map fun (group, index) =>
        (group.span.start, group.span.stop, index),
        ¬ (start ≤ capture.1 ∧ capture.2.1 ≤ stop) := by
    intro groups first apart capture found
    obtain ⟨numbered, member, rfl⟩ := List.mem_map.mp found
    exact apart _ (List.fst_mem_of_mem_zipIdx member)
  have folded : (groupMetadata (front ++ own ++ back)).spans.foldl
      (widen start stop) (none, 0) =
      if own = [] then (none, 0)
      else (some (1 + front.length), 1 + front.length + own.length) := by
    rw [groupMetadata_spans, List.zipIdx_append, List.zipIdx_append,
      List.map_append, List.map_append, List.foldl_append, List.foldl_append,
      foldl_widen_outside (outside front _ before),
      foldl_widen_inside inside, foldl_widen_outside (outside back _ after)]
  unfold CaptureMetadata.within
  generalize folding : List.foldl _ _ _ = bounds
  rw [folding.symm.trans folded]
  by_cases nothing : own = []
  · rw [if_pos nothing, if_pos nothing]
  · rw [if_neg nothing, if_neg nothing]
    simp only [Prod.mk.injEq]
    omega

end Metadata

namespace Node

/-- The numbers of the groups of a node. -/
def indices : Node → List Nat
  | .empty | .token _ | .boundary _ _ | .backReference _ _ => []
  | .seq first second | .alt first second => first.indices ++ second.indices
  | .capture index body => index :: body.indices
  | .lookaround _ body | .repetition _ _ _ _ _ body => body.indices

/-- No group has the number of a group around it. -/
def Nested : Node → Prop
  | .empty | .token _ | .boundary _ _ | .backReference _ _ => True
  | .seq first second | .alt first second => first.Nested ∧ second.Nested
  | .capture index body => index ∉ body.indices ∧ body.Nested
  | .lookaround _ body | .repetition _ _ _ _ _ body => body.Nested

end Node

def groupStarts (groups : List Group) : List Nat :=
  groups.map fun group => group.span.start

theorem groupStarts_append (first second : List Group) :
    groupStarts (first ++ second) =
      groupStarts first ++ groupStarts second :=
  List.map_append

/-- The node numbers the listed groups as the metadata of the whole pattern
does. -/
structure Numbers (groups own : List Group) (node : Node) : Prop where
  bounded : node.Bounded (groups.length + 1)
  known : ∀ index ∈ node.indices, ∃ group ∈ own,
    (groupMetadata groups).byStart.lookup group.span.start = some index
  nested : (groupStarts own).Nodup → node.Nested

namespace Numbers

variable {groups own : List Group}

theorem seq {second : List Group} {left right : Node}
    (numbersLeft : Numbers groups own left)
    (numbersRight : Numbers groups second right) :
    Numbers groups (own ++ second) (.seq left right) where
  bounded := ⟨numbersLeft.bounded, numbersRight.bounded⟩
  known index found := by
    rcases List.mem_append.mp found with inLeft | inRight
    · obtain ⟨group, member, known⟩ := numbersLeft.known index inLeft
      exact ⟨group, List.mem_append_left _ member, known⟩
    · obtain ⟨group, member, known⟩ := numbersRight.known index inRight
      exact ⟨group, List.mem_append_right _ member, known⟩
  nested distinct := by
    rw [groupStarts_append, List.nodup_append] at distinct
    exact ⟨numbersLeft.nested distinct.1, numbersRight.nested distinct.2.1⟩

theorem swap {left right : Node} (numbers : Numbers groups own
    (.seq left right)) : Numbers groups own (.seq right left) where
  bounded := numbers.bounded.symm
  known index found := by
    refine numbers.known index ?_
    simp only [Node.indices, List.mem_append] at found ⊢
    exact found.symm
  nested distinct := (numbers.nested distinct).symm

theorem alt {left right : Node} (numbers : Numbers groups own
    (.seq left right)) : Numbers groups own (.alt left right) :=
  ⟨numbers.bounded, numbers.known, numbers.nested⟩

theorem capture {span : Span} {name : Option String} {index : Nat}
    {body : Node} (numbers : Numbers groups own body)
    (known : (groupMetadata groups).byStart.lookup span.start = some index) :
    Numbers groups (⟨span, name⟩ :: own) (.capture index body) where
  bounded := by
    obtain ⟨position, group, number, found, -⟩ := lookup_byStart known
    have inside := (List.getElem?_eq_some_iff.mp found).1
    exact ⟨by omega, numbers.bounded⟩
  known other found := by
    rcases List.mem_cons.mp found with rfl | inner
    · exact ⟨⟨span, name⟩, List.mem_cons_self, known⟩
    · obtain ⟨group, member, knownInner⟩ := numbers.known other inner
      exact ⟨group, List.mem_cons_of_mem _ member, knownInner⟩
  nested distinct := by
    have different := List.nodup_cons.mp distinct
    refine ⟨fun inner => different.1 ?_, numbers.nested different.2⟩
    obtain ⟨group, member, knownInner⟩ := numbers.known index inner
    obtain ⟨first, outer, number, found, begins⟩ := lookup_byStart known
    obtain ⟨second, nested, innerNumber, innerFound, innerBegins⟩ :=
      lookup_byStart knownInner
    have same : first = second := by omega
    subst same
    cases found.symm.trans innerFound
    exact List.mem_map.mpr ⟨group, member, innerBegins.symm.trans begins⟩

theorem zero_not_mem {node : Node} (numbers : Numbers groups own node) :
    0 ∉ node.indices := by
  intro zero
  obtain ⟨group, _, known⟩ := numbers.known 0 zero
  obtain ⟨position, _, number, _⟩ := lookup_byStart known
  omega

end Numbers

section Numbering

variable (groups : List Group) (maxNesting : Nat)

mutual

theorem numbers_term {mode : MatchMode} {direction : Direction} {node : Node}
    (term : Term)
    (lowered : lowerTerm (groupMetadata groups) maxNesting mode direction
      term = .ok node) :
    Numbers groups term.groups node := by
  match term with
  | .boundaryAssertion .. | .character .. | .dot .. |
    .characterClassEscape .. | .indexedReference .. =>
      rw [lowerTerm] at lowered
      cases lowered
      exact ⟨trivial, by simp [Node.indices], fun _ => trivial⟩
  | .unicodePropertyEscape .. =>
      rw [lowerTerm, bind_eq_ok_iff] at lowered
      obtain ⟨property, _, lowered⟩ := lowered
      cases lowered
      exact ⟨trivial, by simp [Node.indices], fun _ => trivial⟩
  | .characterClass .. =>
      rw [lowerTerm, bind_eq_ok_iff] at lowered
      obtain ⟨characters, _, lowered⟩ := lowered
      cases lowered
      exact ⟨trivial, by simp [Node.indices], fun _ => trivial⟩
  | .namedReference .. =>
      rw [lowerTerm] at lowered
      split at lowered
      · cases lowered
      · cases lowered
        exact ⟨trivial, by simp [Node.indices], fun _ => trivial⟩
  | .lookAroundAssertion _ kind body =>
      rw [lowerTerm, bind_eq_ok_iff] at lowered
      obtain ⟨inner, loweredBody, lowered⟩ := lowered
      cases lowered
      have numbers := numbers_disjunction body loweredBody
      rw [Term.groups]
      exact ⟨numbers.bounded, numbers.known, numbers.nested⟩
  | .ignoreGroup _ modifiers body =>
      rw [lowerTerm] at lowered
      rw [Term.groups]
      exact numbers_disjunction body lowered
  | .quantifier _ min max greedy body =>
      rw [lowerTerm, bind_eq_ok_iff] at lowered
      obtain ⟨inner, loweredBody, lowered⟩ := lowered
      cases lowered
      have numbers := numbers_term body loweredBody
      have cleared := within_le groups body.span.start body.span.stop
      rw [Term.groups]
      exact ⟨⟨cleared, numbers.bounded⟩, numbers.known, numbers.nested⟩
  | .capturingGroup span name body =>
      rw [lowerTerm] at lowered
      split at lowered
      · cases lowered
      · rename_i index known
        rw [bind_eq_ok_iff] at lowered
        obtain ⟨inner, loweredBody, lowered⟩ := lowered
        cases lowered
        rw [Term.groups]
        exact (numbers_disjunction body loweredBody).capture known
termination_by sizeOf term

theorem numbers_alternative {mode : MatchMode} {direction : Direction}
    {node : Node} (body : Alternative)
    (lowered : lowerAlternative (groupMetadata groups) maxNesting mode
      direction body = .ok node) :
    Numbers groups (alternativeGroups body) node := by
  match body with
  | [] =>
      rw [lowerAlternative] at lowered
      cases lowered
      exact ⟨trivial, by simp [Node.indices], fun _ => trivial⟩
  | term :: terms =>
      rw [lowerAlternative, bind_eq_ok_iff] at lowered
      obtain ⟨first, loweredFirst, lowered⟩ := lowered
      rw [bind_eq_ok_iff] at lowered
      obtain ⟨rest, loweredRest, lowered⟩ := lowered
      have numbers := (numbers_term term loweredFirst).seq
        (numbers_alternative terms loweredRest)
      rw [alternativeGroups]
      cases direction
      · cases lowered
        exact numbers
      · cases lowered
        exact numbers.swap
termination_by sizeOf body

theorem numbers_disjunction {mode : MatchMode} {direction : Direction}
    {node : Node} (body : Disjunction)
    (lowered : lowerDisjunction (groupMetadata groups) maxNesting mode
      direction body = .ok node) :
    Numbers groups (disjunctionGroups body) node := by
  match body with
  | [] =>
      rw [lowerDisjunction] at lowered
      cases lowered
      exact ⟨trivial, by simp [Node.indices], fun _ => trivial⟩
  | [alternative] =>
      rw [lowerDisjunction, bind_eq_ok_iff] at lowered
      obtain ⟨first, loweredFirst, lowered⟩ := lowered
      cases lowered
      have numbers := numbers_alternative alternative loweredFirst
      rw [disjunctionGroups, disjunctionGroups, List.append_nil]
      exact numbers
  | alternative :: second :: others =>
      rw [lowerDisjunction, bind_eq_ok_iff] at lowered
      obtain ⟨first, loweredFirst, lowered⟩ := lowered
      rw [bind_eq_ok_iff] at lowered
      obtain ⟨rest, loweredRest, lowered⟩ := lowered
      cases lowered
      rw [disjunctionGroups]
      exact ((numbers_alternative alternative loweredFirst).seq
        (numbers_disjunction (second :: others) loweredRest)).alt
termination_by sizeOf body

end

end Numbering

/-- The program whose body is the code of the node. -/
def programOf (flags : RegExpFlags) (groups : List Group) (node : Node) :
    Program where
  instructions := .saveStart 0 ::
    (node.emit .forward 1 0 ++ [Instruction.saveEnd 0, .matched])
  captureCount := groups.length + 1
  captureNames := none :: groups.map Group.name
  repeatCount := node.slots
  flags := flags

theorem resolve_of_lowers {before after : Compiler} {node : Node}
    (lowers : Lowers before after node .forward)
    (started : before.assembly = [.instruction (.saveStart 0)]) :
    Compiler.resolveEntries
        (Compiler.labelPositions
          (after.assembly ++
            [Assembly.instruction (.saveEnd 0), .instruction .matched]) 0
          (List.replicate after.nextLabel none))
        (after.assembly ++
          [Assembly.instruction (.saveEnd 0), .instruction .matched]) =
      .ok (.saveStart 0 :: (node.emit .forward 1 before.repeatCount ++
        [Instruction.saveEnd 0, .matched])) := by
  obtain ⟨entries, assembly, code, once, fresh⟩ := lowers.entries
  rw [assembly, started]
  generalize table : Compiler.labelPositions _ _ _ = labels
  have placed : Placed labels 0
      ([Assembly.instruction (.saveStart 0)] ++ entries ++
        [Assembly.instruction (.saveEnd 0), .instruction .matched]) := by
    rw [← table]
    refine placed_labelPositions ?_ ?_
    · simpa using once
    · intro label found
      rw [List.length_replicate]
      exact (fresh label (by simpa using found)).2
  rw [placed_append, placed_append] at placed
  exact resolveEntries_append
    (resolveEntries_append
      (show Compiler.resolveEntries labels [.instruction (.saveStart 0)] =
        .ok [.saveStart 0] from rfl)
      (code.resolves labels 1 placed.1.2))
    (show Compiler.resolveEntries labels
      [.instruction (.saveEnd 0), .instruction .matched] =
        .ok [.saveEnd 0, .matched] from rfl)

/-- The compiler emits the code of the lowered pattern between the two saves
of the whole match. -/
theorem compilePattern_eq_ok {flags : RegExpFlags} {limits : CompileLimits}
    {pattern : Pattern} {program : Program}
    (compiled : compilePattern flags limits pattern = .ok program) :
    ∃ node,
      lowerDisjunction (groupMetadata (disjunctionGroups pattern.body))
        limits.maxNesting flags.initialMode .forward pattern.body = .ok node ∧
      program = programOf flags (disjunctionGroups pattern.body) node := by
  rw [compilePattern, bind_eq_ok_iff] at compiled
  obtain ⟨captures, collected, compiled⟩ := compiled
  have metadata := collectCaptures_eq_ok collected
  simp only [List.flatMap_cons, List.flatMap_nil, List.append_nil,
    Visit.groups] at metadata
  change captures = groupMetadata (disjunctionGroups pattern.body) at metadata
  rw [Compiler.build, bind_eq_ok_iff] at compiled
  obtain ⟨final, run, compiled⟩ := compiled
  rw [bind_eq_ok_iff] at compiled
  obtain ⟨instructions, resolved, built⟩ := compiled
  obtain ⟨started, start, run⟩ := Compiler.runActions_cons_ok run
  obtain ⟨lowered, body, run⟩ := Compiler.runActions_cons_ok run
  obtain ⟨saved, save, finish⟩ := Compiler.runActions_cons_ok run
  have starts := Compiler.runActions_emit_ok start
  have saves := Compiler.runActions_emit_ok save
  have finishes := Compiler.runActions_emit_ok finish
  subst starts saves finishes
  obtain ⟨node, tree, lowers⟩ := lowers_disjunction _ _ pattern.body body
  subst metadata
  refine ⟨node, tree, ?_⟩
  have code := resolve_of_lowers lowers rfl
  simp only [Compiler.resolve, List.append_assoc, List.cons_append,
    List.nil_append] at resolved
  rw [code] at resolved
  cases resolved
  cases built
  simp only [programOf, lowers.captures, lowers.flags, lowers.slots,
    length_groupMetadata_spans, groupMetadata_names, Nat.zero_add]

end Fusor.RegExp
