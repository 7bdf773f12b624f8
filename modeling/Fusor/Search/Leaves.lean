import Mathlib.Data.Set.Lattice
import Mathlib.Tactic

/-!
# Leaves of a branching search

Each node of a graph is a leaf or branches into further nodes.  A search asks
whether no leaf, one leaf or several leaves can be reached.  It may avoid the
nodes of its current path, and then every leaf is still found along a path that
repeats no node, or it may visit every node once.
-/

namespace Fusor.Search

variable {ν ℓ : Type}

inductive Expansion (ν ℓ : Type) where
  | leaf (value : ℓ)
  | branch (nodes : List ν)

inductive Answer (ℓ : Type) where
  | nothing
  | unique (value : ℓ)
  | several
  deriving DecidableEq

/-- The answer that belongs to a set of leaves. -/
def Classifies (leaves : Set ℓ) : Answer ℓ → Prop
  | .nothing => leaves = ∅
  | .unique value => leaves = {value}
  | .several => leaves.Nontrivial

theorem Classifies.unique_answer {leaves : Set ℓ} {first second : Answer ℓ}
    (one : Classifies leaves first) (other : Classifies leaves second) :
    first = second := by
  cases first with
  | nothing =>
      cases second with
      | nothing => rfl
      | unique value =>
          exact absurd (one.symm.trans other).symm (Set.singleton_ne_empty value)
      | several => exact absurd one other.nonempty.ne_empty
  | unique value =>
      cases second with
      | nothing =>
          exact absurd (one.symm.trans other) (Set.singleton_ne_empty value)
      | unique again =>
          rw [Set.singleton_eq_singleton_iff.mp (one.symm.trans other)]
      | several =>
          refine absurd other ?_
          rw [show leaves = {value} from one]
          exact Set.not_nontrivial_singleton
  | several =>
      cases second with
      | nothing => exact absurd other one.nonempty.ne_empty
      | unique value =>
          refine absurd one ?_
          rw [show leaves = {value} from other]
          exact Set.not_nontrivial_singleton
      | several => rfl

/-- The leaf found so far as a set. -/
def foundLeaves : Option ℓ → Set ℓ
  | none => ∅
  | some value => {value}

def Answer.ofFound : Option ℓ → Answer ℓ
  | none => .nothing
  | some value => .unique value

theorem classifies_ofFound (found : Option ℓ) :
    Classifies (foundLeaves found) (.ofFound found) := by
  cases found with
  | none => rfl
  | some value => rfl

section Scanning

variable [DecidableEq ℓ]

/-- How one more answer changes the leaf found so far: it stays or is set, or
there are several leaves. -/
def Answer.merge : Option ℓ → Answer ℓ → Option (Option ℓ)
  | _, .several => none
  | found, .nothing => some found
  | none, .unique value => some (some value)
  | some first, .unique value =>
      if first = value then some (some first) else none

theorem merge_eq_some {leaves : Set ℓ} {answer : Answer ℓ}
    {found next : Option ℓ} (classifies : Classifies leaves answer)
    (merged : Answer.merge found answer = some next) :
    foundLeaves next = foundLeaves found ∪ leaves := by
  cases answer with
  | several => cases found <;> cases merged
  | nothing =>
      have empty : leaves = ∅ := classifies
      have kept : found = next := by
        cases found <;> exact Option.some.inj merged
      rw [empty, Set.union_empty, kept]
  | unique value =>
      have single : leaves = {value} := classifies
      cases found with
      | none =>
          cases merged
          rw [single]
          exact (Set.empty_union _).symm
      | some first =>
          rw [Answer.merge] at merged
          split at merged
          · rename_i same
            cases merged
            rw [single, ← same]
            exact (Set.union_self _).symm
          · cases merged

theorem merge_eq_none {leaves : Set ℓ} {answer : Answer ℓ} {found : Option ℓ}
    (classifies : Classifies leaves answer)
    (merged : Answer.merge found answer = none) :
    (foundLeaves found ∪ leaves).Nontrivial := by
  cases answer with
  | several =>
      have many : leaves.Nontrivial := classifies
      exact many.mono Set.subset_union_right
  | nothing => cases found <;> cases merged
  | unique value =>
      have single : leaves = {value} := classifies
      cases found with
      | none => cases merged
      | some first =>
          rw [Answer.merge] at merged
          split at merged
          · cases merged
          · rename_i different
            refine ⟨first, .inl rfl, value, ?_, different⟩
            rw [single]
            exact .inr rfl

end Scanning

section Paths

variable {expand : ν → Expansion ν ℓ}

/-- The leaf can be reached from the node. -/
inductive Leads (expand : ν → Expansion ν ℓ) : ν → ℓ → Prop where
  | leaf {node : ν} {value : ℓ} (here : expand node = .leaf value) :
      Leads expand node value
  | branch {node next : ν} {nodes : List ν} {value : ℓ}
      (here : expand node = .branch nodes) (member : next ∈ nodes)
      (rest : Leads expand next value) : Leads expand node value

/-- The leaf can be reached along a path that repeats no node and avoids some
nodes. -/
inductive LeadsOutside (expand : ν → Expansion ν ℓ) :
    Set ν → ν → ℓ → Prop where
  | leaf {avoided : Set ν} {node : ν} {value : ℓ} (fresh : node ∉ avoided)
      (here : expand node = .leaf value) :
      LeadsOutside expand avoided node value
  | branch {avoided : Set ν} {node next : ν} {nodes : List ν} {value : ℓ}
      (fresh : node ∉ avoided) (here : expand node = .branch nodes)
      (member : next ∈ nodes)
      (rest : LeadsOutside expand (insert node avoided) next value) :
      LeadsOutside expand avoided node value

theorem LeadsOutside.leads {avoided : Set ν} {node : ν} {value : ℓ}
    (leads : LeadsOutside expand avoided node value) :
    Leads expand node value := by
  induction leads with
  | leaf fresh here => exact .leaf here
  | branch fresh here member rest induction => exact .branch here member induction

/-- The leaf can be reached in at most so many steps. -/
def LeadsWithin (expand : ν → Expansion ν ℓ) (value : ℓ) : Nat → ν → Prop
  | 0, node => expand node = .leaf value
  | steps + 1, node => LeadsWithin expand value steps node ∨
      ∃ nodes next, expand node = .branch nodes ∧ next ∈ nodes ∧
        LeadsWithin expand value steps next

theorem Leads.within {node : ν} {value : ℓ} (leads : Leads expand node value) :
    ∃ steps, LeadsWithin expand value steps node := by
  induction leads with
  | leaf here => exact ⟨0, here⟩
  | branch here member rest induction =>
      obtain ⟨steps, within⟩ := induction
      exact ⟨steps + 1, .inr ⟨_, _, here, member, within⟩⟩

/-- A shortest path only meets nodes from which the leaf is nearer. -/
theorem LeadsWithin.outside {value : ℓ} {steps : Nat} {node : ν}
    {avoided : Set ν} (within : LeadsWithin expand value steps node)
    (far : ∀ other ∈ avoided, ¬ LeadsWithin expand value steps other) :
    LeadsOutside expand avoided node value := by
  induction steps generalizing node avoided with
  | zero => exact .leaf (fun member => far node member within) within
  | succ steps induction =>
      by_cases near : LeadsWithin expand value steps node
      · exact induction near fun other member reached =>
          far other member (.inl reached)
      · have fresh : node ∉ avoided := fun member => far node member within
        rcases within with same | ⟨nodes, next, here, member, rest⟩
        · exact absurd same near
        · refine .branch fresh here member (induction rest ?_)
          intro other avoids
          rcases Set.mem_insert_iff.mp avoids with rfl | older
          · exact near
          · exact fun reached => far other older (.inl reached)

theorem leadsOutside_empty_iff {node : ν} {value : ℓ} :
    LeadsOutside expand ∅ node value ↔ Leads expand node value := by
  constructor
  · exact LeadsOutside.leads
  · intro leads
    obtain ⟨steps, within⟩ := leads.within
    exact within.outside fun other member => absurd member (Set.notMem_empty other)

theorem leadsOutside_of_mem {avoided : Set ν} {node : ν}
    (member : node ∈ avoided) :
    {value | LeadsOutside expand avoided node value} = ∅ := by
  apply Set.eq_empty_of_forall_notMem
  intro value leads
  cases leads with
  | leaf fresh here => exact fresh member
  | branch fresh here inside rest => exact fresh member

theorem leadsOutside_leaf {avoided : Set ν} {node : ν} {value : ℓ}
    (fresh : node ∉ avoided) (here : expand node = .leaf value) :
    {other | LeadsOutside expand avoided node other} = {value} := by
  ext other
  constructor
  · intro leads
    cases leads with
    | leaf _ again =>
        rw [here] at again
        cases again
        rfl
    | branch _ again =>
        rw [here] at again
        cases again
  · rintro rfl
    exact .leaf fresh here

theorem leadsOutside_branch {avoided : Set ν} {node : ν} {nodes : List ν}
    (fresh : node ∉ avoided) (here : expand node = .branch nodes) :
    {value | LeadsOutside expand avoided node value} =
      {value | ∃ next ∈ nodes,
        LeadsOutside expand (insert node avoided) next value} := by
  ext value
  constructor
  · intro leads
    cases leads with
    | leaf _ again =>
        rw [here] at again
        cases again
    | branch _ again member rest =>
        rw [here] at again
        cases again
        exact ⟨_, member, rest⟩
  · rintro ⟨next, member, rest⟩
    exact .branch fresh here member rest

end Paths

section Measure

/-- The nodes of a finite world that are still to be met. -/
noncomputable def remaining (world : List ν) (met : Set ν) : Nat :=
  {node | node ∈ world ∧ node ∉ met}.ncard

theorem remaining_insert_lt {world : List ν} {met : Set ν} {node : ν}
    (member : node ∈ world) (fresh : node ∉ met) :
    remaining world (insert node met) < remaining world met := by
  apply Set.ncard_lt_ncard
  · refine ⟨?_, ?_⟩
    · rintro other ⟨inside, unmet⟩
      exact ⟨inside, fun again => unmet (.inr again)⟩
    · intro subset
      exact (subset ⟨member, fresh⟩).2 (.inl rfl)
  · exact (List.finite_toSet world).subset fun _ found => found.1

theorem remaining_le_of_subset {world : List ν} {less more : Set ν}
    (subset : less ⊆ more) :
    remaining world more ≤ remaining world less := by
  apply Set.ncard_le_ncard
  · rintro other ⟨inside, unmet⟩
    exact ⟨inside, fun found => unmet (subset found)⟩
  · exact (List.finite_toSet world).subset fun _ found => found.1

theorem remaining_le_length (world : List ν) (met : Set ν) :
    remaining world met ≤ world.length := by
  classical
  calc remaining world met ≤ {node | node ∈ world}.ncard :=
        Set.ncard_le_ncard (fun _ found => found.1)
          (List.finite_toSet world)
    _ = world.toFinset.card := by
        rw [← Set.ncard_coe_finset, List.coe_toFinset]
    _ ≤ world.length := world.toFinset_card_le

end Measure

section Once

variable {expand : ν → Expansion ν ℓ}

/-- The leaves among the nodes met since. -/
def newLeaves (expand : ν → Expansion ν ℓ) (before after : List ν) : Set ℓ :=
  {value | ∃ node ∈ after, node ∉ before ∧ expand node = .leaf value}

/-- All branches of the nodes met since have been met. -/
def Closed (expand : ν → Expansion ν ℓ) (before after : List ν) : Prop :=
  ∀ node ∈ after, node ∉ before → ∀ nodes, expand node = .branch nodes →
    nodes ⊆ after

inductive Path (expand : ν → Expansion ν ℓ) : ν → ν → Prop where
  | refl {node : ν} : Path expand node node
  | step {node next last : ν} {nodes : List ν}
      (here : expand node = .branch nodes) (member : next ∈ nodes)
      (rest : Path expand next last) : Path expand node last

theorem Path.leads {node last : ν} {value : ℓ} (path : Path expand node last)
    (here : expand last = .leaf value) : Leads expand node value := by
  induction path with
  | refl => exact .leaf here
  | step branch member rest induction => exact .branch branch member (induction here)

theorem newLeaves_trans {before middle after : List ν}
    (first : before ⊆ middle) (second : middle ⊆ after) :
    newLeaves expand before after =
      newLeaves expand before middle ∪ newLeaves expand middle after := by
  ext value
  constructor
  · rintro ⟨node, member, fresh, here⟩
    by_cases early : node ∈ middle
    · exact .inl ⟨node, early, fresh, here⟩
    · exact .inr ⟨node, member, early, here⟩
  · rintro (⟨node, member, fresh, here⟩ | ⟨node, member, fresh, here⟩)
    · exact ⟨node, second member, fresh, here⟩
    · exact ⟨node, member, fun old => fresh (first old), here⟩

/-- A visit of one node: the nodes it meets, their leaves, and that nothing is
left open unless several leaves were found. -/
structure VisitSpec (expand : ν → Expansion ν ℓ) (targets : List ν)
    (before after : List ν) (leaves : Set ℓ) (answer : Answer ℓ) : Prop where
  grows : before ⊆ after
  reached : ∀ node ∈ after, node ∉ before →
    ∃ target ∈ targets, Path expand target node
  classified : Classifies (leaves ∪ newLeaves expand before after) answer
  closed : answer ≠ .several → targets ⊆ after ∧ Closed expand before after

variable [DecidableEq ν] [DecidableEq ℓ]

/-- The answers of the nodes in order, as far as they are needed. -/
def scanOnce (visit : ν → List ν → Option (Answer ℓ × List ν)) :
    List ν → Option ℓ → List ν → Option (Answer ℓ × List ν)
  | [], found, met => some (.ofFound found, met)
  | node :: nodes, found, met => do
      let (answer, met) ← visit node met
      match Answer.merge found answer with
      | some found => scanOnce visit nodes found met
      | none => some (.several, met)

/-- The search that never visits a node again, with a bound on its depth. -/
def visitOnce (expand : ν → Expansion ν ℓ) :
    Nat → ν → List ν → Option (Answer ℓ × List ν)
  | 0, _, _ => none
  | fuel + 1, node, met =>
      if node ∈ met then some (.nothing, met)
      else
        match expand node with
        | .leaf value => some (.unique value, node :: met)
        | .branch nodes =>
            scanOnce (visitOnce expand fuel) nodes none (node :: met)

theorem scanOnce_spec {visit : ν → List ν → Option (Answer ℓ × List ν)}
    {bound : List ν → Prop} {nodes : List ν}
    (steps : ∀ node ∈ nodes, ∀ met, bound met → ∃ answer after,
      visit node met = some (answer, after) ∧
        VisitSpec expand [node] met after ∅ answer)
    (grows : ∀ met after, bound met → met ⊆ after → bound after)
    (found : Option ℓ) (met : List ν) (bounded : bound met) :
    ∃ answer after, scanOnce visit nodes found met = some (answer, after) ∧
      VisitSpec expand nodes met after (foundLeaves found) answer := by
  induction nodes generalizing found met with
  | nil =>
      refine ⟨_, met, rfl, List.Subset.refl _, ?_, ?_, ?_⟩
      · intro node member fresh
        exact absurd member fresh
      · have none : newLeaves expand met met = ∅ := by
          apply Set.eq_empty_of_forall_notMem
          rintro value ⟨node, member, fresh, _⟩
          exact fresh member
        rw [none, Set.union_empty]
        exact classifies_ofFound found
      · intro _
        exact ⟨List.nil_subset _, fun node member fresh => absurd member fresh⟩
  | cons node nodes induction =>
      obtain ⟨answer, middle, visited, spec⟩ :=
        steps node List.mem_cons_self met bounded
      have classified := spec.classified
      rw [Set.empty_union] at classified
      rw [scanOnce, visited]
      simp only [Option.bind_eq_bind, Option.bind_some]
      cases merged : Answer.merge found answer with
      | none =>
          refine ⟨_, middle, rfl, spec.grows, ?_, ?_, ?_⟩
          · intro other member fresh
            obtain ⟨target, one, path⟩ := spec.reached other member fresh
            rw [List.mem_singleton.mp one] at path
            exact ⟨node, List.mem_cons_self, path⟩
          · exact merge_eq_none classified merged
          · intro different
            exact absurd rfl different
      | some next =>
          obtain ⟨final, after, scanned, rest⟩ := induction
            (fun other member => steps other (.tail _ member)) next middle
            (grows met middle bounded spec.grows)
          refine ⟨final, after, scanned, ?_, ?_, ?_, ?_⟩
          · exact fun other old => rest.grows (spec.grows old)
          · intro other member fresh
            by_cases early : other ∈ middle
            · obtain ⟨target, one, path⟩ := spec.reached other early fresh
              rw [List.mem_singleton.mp one] at path
              exact ⟨node, List.mem_cons_self, path⟩
            · obtain ⟨target, one, path⟩ := rest.reached other member early
              exact ⟨target, .tail _ one, path⟩
          · have joined := rest.classified
            rw [merge_eq_some classified merged] at joined
            rw [newLeaves_trans spec.grows rest.grows, ← Set.union_assoc]
            exact joined
          · intro different
            obtain ⟨later, closing⟩ := rest.closed different
            have notSeveral : answer ≠ .several := by
              rintro rfl
              cases found <;> cases merged
            obtain ⟨now, close⟩ := spec.closed notSeveral
            refine ⟨?_, ?_⟩
            · intro other member
              rcases List.mem_cons.mp member with rfl | old
              · exact rest.grows (now List.mem_cons_self)
              · exact later old
            · intro other member fresh branches here
              by_cases early : other ∈ middle
              · exact fun inner inside =>
                  rest.grows (close other early fresh branches here inside)
              · exact closing other member early branches here

/-- A finite set that the branches do not leave. -/
def Encloses (expand : ν → Expansion ν ℓ) (world : List ν) : Prop :=
  ∀ node ∈ world, ∀ nodes, expand node = .branch nodes → nodes ⊆ world

theorem visitOnce_spec {world : List ν} (encloses : Encloses expand world)
    {fuel : Nat} {node : ν} {met : List ν} (member : node ∈ world)
    (enough : remaining world {other | other ∈ met} < fuel) :
    ∃ answer after, visitOnce expand fuel node met = some (answer, after) ∧
      VisitSpec expand [node] met after ∅ answer := by
  induction fuel generalizing node met with
  | zero => exact absurd enough (Nat.not_lt_zero _)
  | succ fuel induction =>
      unfold visitOnce
      by_cases old : node ∈ met
      · rw [if_pos old]
        refine ⟨_, met, rfl, List.Subset.refl _, ?_, ?_, ?_⟩
        · intro other inside fresh
          exact absurd inside fresh
        · apply Set.eq_empty_of_forall_notMem
          rintro value (none | ⟨other, inside, fresh, _⟩)
          · exact none
          · exact fresh inside
        · intro _
          refine ⟨?_, fun other inside fresh => absurd inside fresh⟩
          intro other one
          rw [List.mem_singleton.mp one]
          exact old
      · rw [if_neg old]
        cases here : expand node with
        | leaf value =>
            refine ⟨_, node :: met, rfl, List.subset_cons_self _ _, ?_, ?_, ?_⟩
            · intro other inside fresh
              rcases List.mem_cons.mp inside with rfl | older
              · exact ⟨other, List.mem_cons_self, .refl⟩
              · exact absurd older fresh
            · rw [Set.empty_union]
              ext other
              constructor
              · rintro ⟨last, inside, fresh, leaf⟩
                rcases List.mem_cons.mp inside with rfl | older
                · rw [here] at leaf
                  cases leaf
                  rfl
                · exact absurd older fresh
              · rintro rfl
                exact ⟨node, List.mem_cons_self, old, here⟩
            · intro _
              refine ⟨?_, ?_⟩
              · intro other one
                rw [List.mem_singleton.mp one]
                exact List.mem_cons_self
              · intro other inside fresh branches branch
                rcases List.mem_cons.mp inside with rfl | older
                · rw [here] at branch
                  cases branch
                · exact absurd older fresh
        | branch nodes =>
            have smaller : remaining world {other | other ∈ node :: met} <
                fuel := by
              have less := remaining_insert_lt member
                (show node ∉ {other | other ∈ met} from old)
              have same : insert node {other | other ∈ met} =
                  {other | other ∈ node :: met} := by
                ext other
                simp
              rw [same] at less
              omega
            have scans := @scanOnce_spec ν ℓ expand _ _ (visitOnce expand fuel)
              (fun met => remaining world {other | other ∈ met} < fuel) nodes
              (fun next inside met bounded =>
                induction (encloses node member nodes here inside) bounded)
              (fun met after bounded subset => Nat.lt_of_le_of_lt
                (remaining_le_of_subset fun _ found => subset found) bounded)
              none (node :: met) smaller
            obtain ⟨answer, after, scanned, spec⟩ := scans
            have present : node ∈ after := spec.grows List.mem_cons_self
            refine ⟨answer, after, scanned, ?_, ?_, ?_, ?_⟩
            · exact fun other older => spec.grows (.tail _ older)
            · intro other inside fresh
              refine ⟨node, List.mem_cons_self, ?_⟩
              by_cases same : other = node
              · rw [same]
                exact .refl
              · obtain ⟨target, one, path⟩ := spec.reached other inside
                  (by simp [same, fresh])
                exact .step here one path
            · have classified := spec.classified
              have trans := @newLeaves_trans ν ℓ expand met (node :: met)
                after (List.subset_cons_self _ _) spec.grows
              have none : newLeaves expand met (node :: met) = ∅ := by
                apply Set.eq_empty_of_forall_notMem
                rintro value ⟨other, inside, fresh, leaf⟩
                rcases List.mem_cons.mp inside with rfl | older
                · rw [here] at leaf
                  cases leaf
                · exact fresh older
              rw [trans, none, Set.empty_union]
              exact classified
            · intro different
              obtain ⟨all, close⟩ := spec.closed different
              refine ⟨?_, ?_⟩
              · intro other one
                rw [List.mem_singleton.mp one]
                exact present
              · intro other inside fresh branches branch
                by_cases same : other = node
                · rw [same, here] at branch
                  cases branch
                  exact all
                · exact close other inside (by simp [same, fresh]) branches branch

/-- Visiting every node once classifies the leaves that can be reached. -/
theorem visitOnce_classifies {world : List ν}
    (encloses : Encloses expand world) {fuel : Nat} {node : ν}
    (member : node ∈ world) (enough : world.length < fuel) :
    ∃ answer after, visitOnce expand fuel node [] = some (answer, after) ∧
      Classifies {value | Leads expand node value} answer := by
  obtain ⟨answer, after, visited, spec⟩ := visitOnce_spec encloses member
    (Nat.lt_of_le_of_lt (remaining_le_length world {other | other ∈ []})
      enough)
  refine ⟨answer, after, visited, ?_⟩
  have classified := spec.classified
  rw [Set.empty_union] at classified
  have sound : newLeaves expand [] after ⊆ {value | Leads expand node value} := by
    rintro value ⟨last, inside, fresh, here⟩
    obtain ⟨target, one, path⟩ := spec.reached last inside fresh
    rw [List.mem_singleton.mp one] at path
    exact path.leads here
  by_cases several : answer = .several
  · subst several
    exact Set.Nontrivial.mono classified sound
  · obtain ⟨start, close⟩ := spec.closed several
    have complete : {value | Leads expand node value} ⊆
        newLeaves expand [] after := by
      intro value leads
      have present : node ∈ after := start List.mem_cons_self
      clear start sound classified visited spec member
      induction leads with
      | leaf here => exact ⟨_, present, List.not_mem_nil, here⟩
      | branch here inside rest induction =>
          exact induction (close _ present List.not_mem_nil _ here inside)
    rw [Set.Subset.antisymm complete sound]
    exact classified

end Once

end Fusor.Search
