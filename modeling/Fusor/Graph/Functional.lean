import Mathlib.Logic.Relation

/-!
# Functional graphs

A partial successor function on vertices.  From every vertex of a finite such
graph one either reaches a vertex without successor or runs into a cycle; the
two outcomes are transported backwards along paths and forwards along
simulations.
-/

namespace Fusor.Graph

variable {α β : Type}

/-- `target` is the successor of `source`. -/
def Follows (next : α → Option α) (source target : α) : Prop :=
  next source = some target

/-- The vertex without successor that ends the walk from a vertex. -/
inductive LeadsTo (next : α → Option α) : α → α → Prop where
  | stop {vertex : α} : next vertex = none → LeadsTo next vertex vertex
  | follow {source middle target : α} :
      next source = some middle → LeadsTo next middle target →
      LeadsTo next source target

/-- The walk from a vertex runs into a cycle. -/
def Cyclic (next : α → Option α) (vertex : α) : Prop :=
  ∃ repeated, Relation.ReflTransGen (Follows next) vertex repeated ∧
    Relation.TransGen (Follows next) repeated repeated

theorem LeadsTo.of_reaches {next : α → Option α} {source middle target : α}
    (path : Relation.ReflTransGen (Follows next) source middle)
    (leads : LeadsTo next middle target) : LeadsTo next source target := by
  induction path using Relation.ReflTransGen.head_induction_on with
  | refl => exact leads
  | head first _ induction => exact .follow first induction

theorem Cyclic.of_reaches {next : α → Option α} {source middle : α}
    (path : Relation.ReflTransGen (Follows next) source middle)
    (cyclic : Cyclic next middle) : Cyclic next source := by
  obtain ⟨repeated, reached, cycle⟩ := cyclic
  exact ⟨repeated, path.trans reached, cycle⟩

theorem LeadsTo.eq_or_followed {next : α → Option α} {source target : α}
    (leads : LeadsTo next source target) :
    target = source ∨ ∃ vertex, next vertex = some target := by
  induction leads with
  | stop => exact .inl rfl
  | follow first _ induction =>
      rcases induction with same | followed
      · exact .inr ⟨_, same ▸ first⟩
      · exact .inr followed

section Simulation

variable {next : α → Option α} {next' : β → Option β} {image : α → Option β}

/-- Every vertex with an image steps as its image does. -/
structure Simulates (next : α → Option α) (next' : β → Option β)
    (image : α → Option β) : Prop where
  stop : ∀ vertex vertex', image vertex = some vertex' →
    next vertex = none → next' vertex' = none
  follow : ∀ vertex vertex' successor, image vertex = some vertex' →
    next vertex = some successor →
    ∃ successor', image successor = some successor' ∧
      next' vertex' = some successor'

theorem Simulates.leadsTo (simulates : Simulates next next' image)
    {source target : α} {source' : β} (leads : LeadsTo next source target)
    (start : image source = some source') :
    ∃ target', image target = some target' ∧
      LeadsTo next' source' target' := by
  induction leads generalizing source' with
  | stop final => exact ⟨source', start, .stop (simulates.stop _ _ start final)⟩
  | follow first _ induction =>
      obtain ⟨middle', imaged, first'⟩ := simulates.follow _ _ _ start first
      obtain ⟨target', reached, leads'⟩ := induction imaged
      exact ⟨target', reached, .follow first' leads'⟩

theorem Simulates.reaches (simulates : Simulates next next' image)
    {source target : α} {source' : β}
    (path : Relation.ReflTransGen (Follows next) source target)
    (start : image source = some source') :
    ∃ target', image target = some target' ∧
      Relation.ReflTransGen (Follows next') source' target' := by
  induction path with
  | refl => exact ⟨source', start, .refl⟩
  | tail _ last induction =>
      obtain ⟨middle', imaged, path'⟩ := induction
      obtain ⟨target', reached, last'⟩ := simulates.follow _ _ _ imaged last
      exact ⟨target', reached, path'.tail last'⟩

theorem Simulates.reachesProperly (simulates : Simulates next next' image)
    {source target : α} {source' : β}
    (path : Relation.TransGen (Follows next) source target)
    (start : image source = some source') :
    ∃ target', image target = some target' ∧
      Relation.TransGen (Follows next') source' target' := by
  obtain ⟨middle, first, rest⟩ := Relation.TransGen.head'_iff.mp path
  obtain ⟨middle', imaged, first'⟩ := simulates.follow _ _ _ start first
  obtain ⟨target', reached, rest'⟩ := simulates.reaches rest imaged
  exact ⟨target', reached, Relation.TransGen.head' first' rest'⟩

theorem Simulates.cyclic (simulates : Simulates next next' image)
    {source : α} {source' : β} (cyclic : Cyclic next source)
    (start : image source = some source') : Cyclic next' source' := by
  obtain ⟨repeated, reached, cycle⟩ := cyclic
  obtain ⟨repeated', imaged, path'⟩ := simulates.reaches reached start
  obtain ⟨again', imagedAgain, cycle'⟩ :=
    simulates.reachesProperly cycle imaged
  rw [imaged] at imagedAgain
  cases imagedAgain
  exact ⟨repeated', path', cycle'⟩

end Simulation

end Fusor.Graph
