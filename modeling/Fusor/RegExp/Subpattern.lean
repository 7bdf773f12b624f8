import Fusor.RegExp.Captures
import Fusor.RegExp.NodeSearch

/-!
# The parts of a pattern

Where a part of the pattern stands decides its mode, its direction and the
numbers of its groups.  Its code stands in the program, and the groups between
the ends of its span are exactly its own, because the parser gives nested and
ordered spans.
-/

namespace Fusor.RegExp

open Ast Support

inductive Part where
  | term (visited : Term)
  | alternative (body : Alternative)
  | disjunction (body : Disjunction)

namespace Part

def groups : Part → List Group
  | .term visited => visited.groups
  | .alternative body => alternativeGroups body
  | .disjunction body => disjunctionGroups body

def lower (captures : CaptureMetadata) (maxNesting : Nat) (mode : MatchMode)
    (direction : Direction) : Part → Except CompileError Node
  | .term visited => lowerTerm captures maxNesting mode direction visited
  | .alternative body =>
      lowerAlternative captures maxNesting mode direction body
  | .disjunction body =>
      lowerDisjunction captures maxNesting mode direction body

end Part

section Spans

mutual

/-- The spans in a term are nested and ordered.  What is in a group stands
behind the parenthesis of the group. -/
def Ast.Term.Spanned : Term → Prop
  | .capturingGroup span _ body =>
      SpannedDisjunction (span.start + 1) span.stop body
  | .lookAroundAssertion span _ body | .ignoreGroup span _ body =>
      SpannedDisjunction span.start span.stop body
  | .quantifier span _ _ _ body =>
      span.start ≤ body.span.start ∧ body.Spanned ∧
        body.span.stop ≤ span.stop
  | term => term.span.start ≤ term.span.stop

def SpannedAlternative (lower upper : Nat) : Alternative → Prop
  | [] => lower ≤ upper
  | term :: terms =>
      lower ≤ term.span.start ∧ term.Spanned ∧
        SpannedAlternative term.span.stop upper terms

def SpannedDisjunction (lower upper : Nat) : Disjunction → Prop
  | [] => lower ≤ upper
  | alternative :: alternatives => ∃ middle,
      SpannedAlternative lower middle alternative ∧
        SpannedDisjunction middle upper alternatives

end

/-- The groups stand between the places. -/
structure Between (lower upper : Nat) (groups : List Group) : Prop where
  ordered : lower ≤ upper
  within : ∀ group ∈ groups, lower ≤ group.span.start ∧
    group.span.start < group.span.stop ∧ group.span.stop ≤ upper

namespace Between

variable {least lower middle upper most : Nat} {groups others : List Group}

theorem nil (ordered : lower ≤ upper) : Between lower upper [] :=
  ⟨ordered, fun _ found => absurd found List.not_mem_nil⟩

theorem append (first : Between lower middle groups)
    (second : Between middle upper others) :
    Between lower upper (groups ++ others) where
  ordered := first.ordered.trans second.ordered
  within group found := by
    have low := first.ordered
    have high := second.ordered
    rcases List.mem_append.mp found with early | late
    · have bounds := first.within group early
      omega
    · have bounds := second.within group late
      omega

theorem mono (between : Between lower upper groups)
    (low : least ≤ lower) (high : upper ≤ most) :
    Between least most groups where
  ordered := low.trans (between.ordered.trans high)
  within group found := by
    have bounds := between.within group found
    omega

/-- Groups that open before the lower place, and those between the places,
open before the upper one. -/
theorem before (between : Between lower upper groups)
    (early : ∀ group ∈ others, group.span.start < lower) :
    ∀ group ∈ others ++ groups, group.span.start < upper := by
  intro group found
  rcases List.mem_append.mp found with earlier | own
  · exact (early group earlier).trans_le between.ordered
  · have bounds := between.within group own
    omega

/-- Groups between the places, and those that close after the upper one, close
after the lower one. -/
theorem after (between : Between lower upper groups)
    (late : ∀ group ∈ others, upper < group.span.stop) :
    ∀ group ∈ groups ++ others, lower < group.span.stop := by
  intro group found
  rcases List.mem_append.mp found with own | later
  · have bounds := between.within group own
    omega
  · exact between.ordered.trans_lt (late group later)

end Between

mutual

theorem between_term (term : Term) (spanned : term.Spanned) :
    Between term.span.start term.span.stop term.groups := by
  match term with
  | .boundaryAssertion .. | .character .. | .dot .. |
    .characterClassEscape .. | .indexedReference .. |
    .unicodePropertyEscape .. | .characterClass .. | .namedReference .. =>
      exact .nil spanned
  | .lookAroundAssertion _ _ body | .ignoreGroup _ _ body =>
      exact between_disjunction body spanned
  | .quantifier _ _ _ _ body =>
      obtain ⟨low, inner, high⟩ := spanned
      exact (between_term body inner).mono low high
  | .capturingGroup span name body =>
      have inner := between_disjunction body spanned
      have ordered := inner.ordered
      constructor
      · exact (Nat.le_succ _).trans ordered
      · intro group found
        rcases List.mem_cons.mp found with rfl | nested
        · exact ⟨le_rfl, ordered, le_rfl⟩
        · have bounds := inner.within group nested
          change span.start ≤ _ ∧ _ ∧ _ ≤ span.stop
          omega
termination_by sizeOf term

theorem between_alternative {lower upper : Nat} (body : Alternative)
    (spanned : SpannedAlternative lower upper body) :
    Between lower upper (alternativeGroups body) := by
  match body with
  | [] => exact .nil spanned
  | term :: terms =>
      obtain ⟨low, first, rest⟩ := spanned
      exact ((between_term term first).mono low le_rfl).append
        (between_alternative terms rest)
termination_by sizeOf body

theorem between_disjunction {lower upper : Nat} (body : Disjunction)
    (spanned : SpannedDisjunction lower upper body) :
    Between lower upper (disjunctionGroups body) := by
  match body with
  | [] => exact .nil spanned
  | alternative :: alternatives =>
      obtain ⟨middle, first, rest⟩ := spanned
      exact (between_alternative alternative first).append
        (between_disjunction alternatives rest)
termination_by sizeOf body

end

end Spans

/-- A part with what its place in the pattern decides: the mode, the direction
and the number of the capturing groups that open before it. -/
structure Occurrence where
  part : Part
  mode : MatchMode
  direction : Direction
  parens : Nat

/-- The second occurrence is directly in the first one. -/
inductive Child : Occurrence → Occurrence → Prop where
  | lookaround {span : Span} {kind : LookAroundAssertionKind}
      {body : Disjunction} {mode : MatchMode} {direction : Direction}
      {parens : Nat} :
      Child ⟨.term (.lookAroundAssertion span kind body), mode, direction,
          parens⟩
        ⟨.disjunction body, mode, (Compiler.lookaroundKind kind).direction,
          parens⟩
  | quantified {span : Span} {min : UInt64} {max : Option UInt64}
      {greedy : Bool} {body : Term} {mode : MatchMode} {direction : Direction}
      {parens : Nat} :
      Child ⟨.term (.quantifier span min max greedy body), mode, direction,
          parens⟩
        ⟨.term body, mode, direction, parens⟩
  | captured {span : Span} {name : Option String} {body : Disjunction}
      {mode : MatchMode} {direction : Direction} {parens : Nat} :
      Child ⟨.term (.capturingGroup span name body), mode, direction, parens⟩
        ⟨.disjunction body, mode, direction, parens + 1⟩
  | ignored {span : Span} {modifiers : Option Modifiers} {body : Disjunction}
      {mode : MatchMode} {direction : Direction} {parens : Nat} :
      Child ⟨.term (.ignoreGroup span modifiers body), mode, direction, parens⟩
        ⟨.disjunction body, Compiler.applyModifiers mode modifiers, direction,
          parens⟩
  | first {term : Term} {terms : Alternative} {mode : MatchMode}
      {direction : Direction} {parens : Nat} :
      Child ⟨.alternative (term :: terms), mode, direction, parens⟩
        ⟨.term term, mode, direction, parens⟩
  | rest {term : Term} {terms : Alternative} {mode : MatchMode}
      {direction : Direction} {parens : Nat} :
      Child ⟨.alternative (term :: terms), mode, direction, parens⟩
        ⟨.alternative terms, mode, direction, parens + term.groups.length⟩
  | alternative {body : Alternative} {others : Disjunction} {mode : MatchMode}
      {direction : Direction} {parens : Nat} :
      Child ⟨.disjunction (body :: others), mode, direction, parens⟩
        ⟨.alternative body, mode, direction, parens⟩
  | others {body : Alternative} {others : Disjunction} {mode : MatchMode}
      {direction : Direction} {parens : Nat} :
      Child ⟨.disjunction (body :: others), mode, direction, parens⟩
        ⟨.disjunction others, mode, direction,
          parens + (alternativeGroups body).length⟩

/-- The occurrence is somewhere in the pattern. -/
def Ast.Pattern.Contains (pattern : Pattern) (flags : RegExpFlags) :
    Occurrence → Prop :=
  Relation.ReflTransGen Child
    ⟨.disjunction pattern.body, flags.initialMode, .forward, 0⟩

/-- The spans in the part are nested and ordered between the places. -/
def Part.Spanned (lower upper : Nat) : Part → Prop
  | .term visited =>
      lower ≤ visited.span.start ∧ visited.Spanned ∧ visited.span.stop ≤ upper
  | .alternative body => SpannedAlternative lower upper body
  | .disjunction body => SpannedDisjunction lower upper body

/-- What the parser guarantees of the spans in a pattern. -/
def Ast.Pattern.Spanned (pattern : Pattern) : Prop :=
  ∃ stop, SpannedDisjunction 0 stop pattern.body

section Location

/-- The groups of an occurrence in the list of all groups: those before it
open before the lower place, and those behind it close after the upper one. -/
structure Located (groups front back : List Group) (lower upper : Nat)
    (occurrence : Occurrence) : Prop where
  split : groups = front ++ occurrence.part.groups ++ back
  numbered : front.length = occurrence.parens
  spanned : occurrence.part.Spanned lower upper
  before : ∀ group ∈ front, group.span.start < lower
  after : ∀ group ∈ back, upper < group.span.stop

variable {groups front back : List Group} {lower upper : Nat}
  {outer inner : Occurrence}

theorem Located.child (located : Located groups front back lower upper outer)
    (child : Child outer inner) :
    ∃ front back lower upper, Located groups front back lower upper inner := by
  obtain ⟨split, numbered, spanned, before, after⟩ := located
  cases child with
  | @lookaround span kind body mode direction parens =>
      obtain ⟨low, nested, high⟩ := spanned
      exact ⟨front, back, span.start, span.stop, split, numbered, nested,
        fun group found => (before group found).trans_le low,
        fun group found => high.trans_lt (after group found)⟩
  | @quantified span min max greedy body mode direction parens =>
      obtain ⟨low, ⟨first, nested, last⟩, high⟩ := spanned
      exact ⟨front, back, lower, upper, split, numbered,
        ⟨low.trans first, nested, last.trans high⟩, before, after⟩
  | @captured span name body mode direction parens =>
      obtain ⟨low, nested, high⟩ := spanned
      refine ⟨front ++ [⟨span, name⟩], back, span.start + 1, span.stop, ?_,
        ?_, nested, ?_, fun group found => high.trans_lt (after group found)⟩
      · rw [split]
        simp [Part.groups, Term.groups]
      · rw [List.length_append, numbered]
        rfl
      · intro group found
        change lower ≤ span.start at low
        rcases List.mem_append.mp found with early | own
        · have earlier := before group early
          omega
        · rw [List.mem_singleton.mp own]
          exact Nat.lt_succ_self _
  | @ignored span modifiers body mode direction parens =>
      obtain ⟨low, nested, high⟩ := spanned
      exact ⟨front, back, span.start, span.stop, split, numbered, nested,
        fun group found => (before group found).trans_le low,
        fun group found => high.trans_lt (after group found)⟩
  | @first term terms mode direction parens =>
      obtain ⟨low, nested, later⟩ := spanned
      have behind := between_alternative terms later
      refine ⟨front, alternativeGroups terms ++ back, lower, term.span.stop,
        ?_, numbered, ⟨low, nested, le_rfl⟩, before, behind.after after⟩
      rw [split]
      simp [Part.groups, alternativeGroups]
  | @rest term terms mode direction parens =>
      obtain ⟨low, nested, later⟩ := spanned
      have ahead := (between_term term nested).mono low le_rfl
      refine ⟨front ++ term.groups, back, term.span.stop, upper, ?_, ?_,
        later, ahead.before before, after⟩
      · rw [split]
        simp [Part.groups, alternativeGroups]
      · rw [List.length_append, numbered]
  | @alternative body others mode direction parens =>
      obtain ⟨middle, nested, later⟩ := spanned
      have behind := between_disjunction others later
      refine ⟨front, disjunctionGroups others ++ back, lower, middle, ?_,
        numbered, nested, before, behind.after after⟩
      rw [split]
      simp [Part.groups, disjunctionGroups]
  | @others body others mode direction parens =>
      obtain ⟨middle, nested, later⟩ := spanned
      have ahead := between_alternative body nested
      refine ⟨front ++ alternativeGroups body, back, middle, upper, ?_, ?_,
        later, ahead.before before, after⟩
      · rw [split]
        simp [Part.groups, disjunctionGroups]
      · rw [List.length_append, numbered]

theorem Ast.Pattern.Contains.located {pattern : Pattern} {flags : RegExpFlags}
    (contains : pattern.Contains flags inner) (spanned : pattern.Spanned) :
    ∃ front back lower upper,
      Located (disjunctionGroups pattern.body) front back lower upper
        inner := by
  induction contains with
  | refl =>
      obtain ⟨stop, nested⟩ := spanned
      exact ⟨[], [], 0, stop, (List.append_nil _).symm, rfl, nested,
        fun _ found => absurd found List.not_mem_nil,
        fun _ found => absurd found List.not_mem_nil⟩
  | tail _ child located =>
      obtain ⟨front, back, lower, upper, located⟩ := located
      exact located.child child

/-- A quantifier clears exactly the groups of its body. -/
theorem within_of_contains {pattern : Pattern} {flags : RegExpFlags}
    {body : Term} {mode : MatchMode} {direction : Direction} {parens : Nat}
    (contains : pattern.Contains flags ⟨.term body, mode, direction, parens⟩)
    (spanned : pattern.Spanned) :
    (groupMetadata (disjunctionGroups pattern.body)).within body.span.start
        body.span.stop =
      if body.groups = [] then (0, 0)
      else (parens + 1, parens + body.groups.length + 1) := by
  obtain ⟨front, back, lower, upper, located⟩ := contains.located spanned
  obtain ⟨low, nested, high⟩ := located.spanned
  have own := between_term body nested
  have numbered : front.length = parens := located.numbered
  rw [located.split, ← numbered]
  apply within_eq
  · intro group found
    have bounds := own.within group found
    omega
  · intro group found
    have earlier := located.before group found
    omega
  · intro group found
    have later := located.after group found
    omega

end Location

section Emission

/-- The code of the occurrence is in the program. -/
def Emitted (program : Program) (captures : CaptureMetadata)
    (maxNesting : Nat) (occurrence : Occurrence) : Prop :=
  ∃ node address slot,
    occurrence.part.lower captures maxNesting occurrence.mode
      occurrence.direction = .ok node ∧
    CodeAt program.instructions address
      (node.emit occurrence.direction address slot)

variable {program : Program} {captures : CaptureMetadata} {maxNesting : Nat}
  {outer inner : Occurrence}

theorem Emitted.child (emitted : Emitted program captures maxNesting outer)
    (child : Child outer inner) :
    Emitted program captures maxNesting inner := by
  obtain ⟨node, address, slot, lowered, code⟩ := emitted
  cases child with
  | lookaround =>
      rw [Part.lower, lowerTerm, bind_eq_ok_iff] at lowered
      obtain ⟨body, loweredBody, lowered⟩ := lowered
      cases lowered
      rw [Node.emit, CodeAt.cons_iff, CodeAt.append_iff] at code
      exact ⟨body, address + 1, slot, loweredBody, code.2.1⟩
  | quantified =>
      rw [Part.lower, lowerTerm, bind_eq_ok_iff] at lowered
      obtain ⟨body, loweredBody, lowered⟩ := lowered
      cases lowered
      rw [Node.emit, CodeAt.cons_iff, CodeAt.append_iff] at code
      exact ⟨body, address + 1, slot + 1, loweredBody, code.2.1⟩
  | captured =>
      rw [Part.lower, lowerTerm] at lowered
      split at lowered
      · cases lowered
      · rw [bind_eq_ok_iff] at lowered
        obtain ⟨body, loweredBody, lowered⟩ := lowered
        cases lowered
        rw [Node.emit, CodeAt.cons_iff, CodeAt.append_iff] at code
        exact ⟨body, address + 1, slot, loweredBody, code.2.1⟩
  | ignored =>
      rw [Part.lower, lowerTerm] at lowered
      exact ⟨node, address, slot, lowered, code⟩
  | @first term terms mode direction parens =>
      rw [Part.lower, lowerAlternative, bind_eq_ok_iff] at lowered
      obtain ⟨front, loweredFront, lowered⟩ := lowered
      rw [bind_eq_ok_iff] at lowered
      obtain ⟨back, _, lowered⟩ := lowered
      cases direction with
      | forward =>
          cases lowered
          rw [Node.emit, CodeAt.append_iff] at code
          exact ⟨front, _, _, loweredFront, code.1⟩
      | backward =>
          cases lowered
          rw [Node.emit, CodeAt.append_iff, Node.length_emit] at code
          exact ⟨front, _, _, loweredFront, code.2⟩
  | @rest term terms mode direction parens =>
      rw [Part.lower, lowerAlternative, bind_eq_ok_iff] at lowered
      obtain ⟨front, _, lowered⟩ := lowered
      rw [bind_eq_ok_iff] at lowered
      obtain ⟨back, loweredBack, lowered⟩ := lowered
      cases direction with
      | forward =>
          cases lowered
          rw [Node.emit, CodeAt.append_iff, Node.length_emit] at code
          exact ⟨back, _, _, loweredBack, code.2⟩
      | backward =>
          cases lowered
          rw [Node.emit, CodeAt.append_iff] at code
          exact ⟨back, _, _, loweredBack, code.1⟩
  | @alternative body others mode direction parens =>
      rw [Part.lower, lowerDisjunction, bind_eq_ok_iff] at lowered
      obtain ⟨front, loweredFront, lowered⟩ := lowered
      cases others with
      | nil =>
          cases lowered
          exact ⟨_, address, slot, loweredFront, code⟩
      | cons second others =>
          obtain ⟨back, _, lowered⟩ := bind_eq_ok_iff.mp lowered
          cases lowered
          rw [Node.emit, CodeAt.cons_iff, CodeAt.append_iff] at code
          exact ⟨front, _, _, loweredFront, code.2.1⟩
  | @others body others mode direction parens =>
      rw [Part.lower, lowerDisjunction, bind_eq_ok_iff] at lowered
      obtain ⟨front, _, lowered⟩ := lowered
      cases others with
      | nil =>
          refine ⟨.empty, address, slot, by rw [Part.lower, lowerDisjunction],
            ?_⟩
          intro index instruction found
          cases found
      | cons second others =>
          obtain ⟨back, loweredBack, lowered⟩ := bind_eq_ok_iff.mp lowered
          cases lowered
          rw [Node.emit, CodeAt.cons_iff, CodeAt.append_iff,
            CodeAt.cons_iff, Node.length_emit] at code
          have placed := code.2.2.2
          rw [Nat.add_right_comm address 1, Nat.add_assoc _ 1 1] at placed
          exact ⟨back, _, _, loweredBack, placed⟩

theorem Ast.Pattern.Contains.emitted {pattern : Pattern}
    {flags : RegExpFlags} (contains : pattern.Contains flags inner)
    (whole : Emitted program captures maxNesting
      ⟨.disjunction pattern.body, flags.initialMode, .forward, 0⟩) :
    Emitted program captures maxNesting inner := by
  induction contains with
  | refl => exact whole
  | tail _ child emitted => exact emitted.child child

end Emission

end Fusor.RegExp
