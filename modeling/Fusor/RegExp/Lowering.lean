import Fusor.RegExp.Compiler
import Fusor.RegExp.Node
import Fusor.Support.Result

/-!
# From the syntax tree to lowered trees

`lowerTerm`, `lowerAlternative` and `lowerDisjunction` name the tree whose
code the compiler emits.  The action loop is compositional, label numbers are
fresh and marked once, and resolution turns the labelled assembly of a term
into the code of its lowered tree.
-/

namespace Fusor.RegExp

open Ast Support

section Lowering

variable (captures : CaptureMetadata) (maxNesting : Nat)

mutual

def lowerTerm (mode : MatchMode) (direction : Direction) :
    Term → Except CompileError Node
  | .boundaryAssertion _ kind =>
      .ok (.boundary (Compiler.boundaryKind kind) mode)
  | .lookAroundAssertion _ kind body => do
      let lowered ← lowerDisjunction mode
        (Compiler.lookaroundKind kind).direction body
      pure (.lookaround (Compiler.lookaroundKind kind) lowered)
  | .quantifier _ min max greedy body => do
      let lowered ← lowerTerm mode direction body
      pure (.repetition min max greedy
        (captures.within body.span.start body.span.stop).1
        (captures.within body.span.start body.span.stop).2 lowered)
  | .character _ value => .ok (.token (.character value mode))
  | .dot _ => .ok (.token (.dot mode))
  | .characterClassEscape _ kind =>
      .ok (.token (.characterClass
        (.mk false .union [classEscape kind] [] false) mode))
  | .unicodePropertyEscape _ property => do
      let lowered ← lowerUnicodeProperty property
      pure (.token (.characterClass
        (.mk false .union [.unicodeProperty lowered] [] property.strings) mode))
  | .characterClass _ characters => do
      let lowered ← lowerCharacterClass characters 0 maxNesting
      pure (.token (.characterClass lowered mode))
  | .capturingGroup span _ body =>
      match captures.byStart.lookup span.start with
      | none => .error (.resourceLimit "capture metadata")
      | some index => do
          let lowered ← lowerDisjunction mode direction body
          pure (.capture index lowered)
  | .ignoreGroup _ modifiers body =>
      lowerDisjunction (Compiler.applyModifiers mode modifiers) direction body
  | .indexedReference _ index => .ok (.backReference [index] mode)
  | .namedReference _ name =>
      match captures.byName.lookup name with
      | none => .error (.syntaxError "unknown named capture")
      | some indices => .ok (.backReference indices mode)

/-- The terms of an alternative in emission order. -/
def lowerAlternative (mode : MatchMode) (direction : Direction) :
    Alternative → Except CompileError Node
  | [] => .ok .empty
  | term :: terms => do
      let first ← lowerTerm mode direction term
      let rest ← lowerAlternative mode direction terms
      pure (match direction with
        | .forward => .seq first rest
        | .backward => .seq rest first)

def lowerDisjunction (mode : MatchMode) (direction : Direction) :
    Disjunction → Except CompileError Node
  | [] => .ok .empty
  | alternative :: alternatives => do
      let first ← lowerAlternative mode direction alternative
      match alternatives with
      | [] => pure first
      | _ :: _ => do
          let rest ← lowerDisjunction mode direction alternatives
          pure (.alt first rest)

end

variable {mode : MatchMode} {direction : Direction}

theorem lowerTerm_ignoreGroup (span : Span) (modifiers : Option Modifiers)
    (body : Disjunction) :
    lowerTerm captures maxNesting mode direction
        (.ignoreGroup span modifiers body) =
      lowerDisjunction captures maxNesting
        (Compiler.applyModifiers mode modifiers) direction body := by
  rw [lowerTerm]

theorem lowerAlternative_nil :
    lowerAlternative captures maxNesting mode direction [] = .ok .empty := by
  rw [lowerAlternative]

theorem lowerDisjunction_nil :
    lowerDisjunction captures maxNesting mode direction [] = .ok .empty := by
  rw [lowerDisjunction]

theorem lowerDisjunction_single (alternative : Alternative) :
    lowerDisjunction captures maxNesting mode direction [alternative] =
      lowerAlternative captures maxNesting mode direction alternative := by
  rw [lowerDisjunction]
  exact bind_pure _

end Lowering

namespace Compiler

theorem runActions_append (first second : List Action) (compiler : Compiler) :
    compiler.runActions (first ++ second) =
      (compiler.runActions first >>= fun between =>
        between.runActions second) := by
  induction cost : (first.map Action.cost).sum using Nat.strong_induction_on
    generalizing first compiler with
  | _ total induction =>
      subst cost
      cases first with
      | nil =>
          rw [List.nil_append, runActions]
          rfl
      | cons action actions =>
          cases action with
          | disjunction body mode direction =>
              have fewer := compiler.scheduleDisjunction_cost_lt body mode
                direction
              rw [List.cons_append, runActions, runActions, ← List.append_assoc]
              refine induction _ ?_ _ _ rfl
              simp only [List.map_append, List.sum_append, List.map_cons,
                List.sum_cons, Action.cost]
              omega
          | alternative body mode direction =>
              have fewer := alternativeSequence_cost_lt body mode direction
              rw [List.cons_append, runActions, runActions, ← List.append_assoc]
              refine induction _ ?_ _ _ rfl
              simp only [List.map_append, List.sum_append, List.map_cons,
                List.sum_cons, Action.cost]
              omega
          | term scheduled mode direction =>
              rw [List.cons_append, runActions, runActions]
              cases result : compiler.scheduleTerm scheduled mode direction with
              | error error => rfl
              | ok pair =>
                  obtain ⟨scheduler, sequence⟩ := pair
                  have fewer := scheduleTerm_cost_lt result
                  simp only
                  rw [← List.append_assoc]
                  refine induction _ ?_ _ _ rfl
                  simp only [List.map_append, List.sum_append, List.map_cons,
                    List.sum_cons, Action.cost]
                  omega
          | emit unresolved =>
              rw [List.cons_append, runActions, runActions]
              cases compiler.emit unresolved with
              | error error => rfl
              | ok later =>
                  refine induction _ ?_ _ _ rfl
                  simp [Action.cost]
          | mark label =>
              rw [List.cons_append, runActions, runActions]
              refine induction _ ?_ _ _ rfl
              simp [Action.cost]

theorem runActions_cons_ok {action : Action} {actions : List Action}
    {compiler final : Compiler}
    (finished : compiler.runActions (action :: actions) = .ok final) :
    ∃ between, compiler.runActions [action] = .ok between ∧
      between.runActions actions = .ok final := by
  have split : action :: actions = [action] ++ actions := rfl
  rw [split, runActions_append, bind_eq_ok_iff] at finished
  exact finished

theorem runActions_emit_ok {unresolved : Instruction}
    {compiler final : Compiler}
    (finished : compiler.runActions [.emit unresolved] = .ok final) :
    final = { compiler with
      instructionCount := compiler.instructionCount + 1
      assembly := compiler.assembly ++ [.instruction unresolved] } := by
  rw [runActions, emit] at finished
  split at finished
  · simp at finished
  · rename_i later stored
    split at stored
    · simp at stored
    · rw [runActions] at finished
      cases finished
      cases stored
      rfl

theorem runActions_mark_ok {label : Nat} {compiler final : Compiler}
    (finished : compiler.runActions [.mark label] = .ok final) :
    final = compiler.mark label := by
  rw [runActions, runActions] at finished
  exact (Except.ok.inj finished).symm

theorem runActions_term_ok {scheduled : Term} {mode : MatchMode}
    {direction : Direction} {compiler final : Compiler}
    (finished : compiler.runActions [.term scheduled mode direction] =
      .ok final) :
    ∃ scheduler sequence,
      compiler.scheduleTerm scheduled mode direction =
        .ok (scheduler, sequence) ∧
      scheduler.runActions sequence = .ok final := by
  rw [runActions] at finished
  split at finished
  · cases finished
  · rename_i scheduler sequence result
    rw [List.append_nil] at finished
    exact ⟨scheduler, sequence, result, finished⟩

theorem runActions_alternative (body : Alternative) (mode : MatchMode)
    (direction : Direction) (compiler : Compiler) :
    compiler.runActions [.alternative body mode direction] =
      compiler.runActions (alternativeSequence body mode direction) := by
  rw [runActions, List.append_nil]

theorem runActions_disjunction (body : Disjunction) (mode : MatchMode)
    (direction : Direction) (compiler : Compiler) :
    compiler.runActions [.disjunction body mode direction] =
      (compiler.scheduleDisjunction body mode direction).1.runActions
        (compiler.scheduleDisjunction body mode direction).2 := by
  rw [runActions, List.append_nil]

end Compiler

def marks (entries : List Assembly) : List Nat :=
  entries.filterMap fun
    | .label label => some label
    | .instruction _ => none

def instructionTotal (entries : List Assembly) : Nat :=
  entries.countP fun
    | .label _ => false
    | .instruction _ => true

@[simp] theorem marks_append (first second : List Assembly) :
    marks (first ++ second) = marks first ++ marks second :=
  List.filterMap_append

@[simp] theorem marks_label (label : Nat) (entries : List Assembly) :
    marks (.label label :: entries) = label :: marks entries := rfl

@[simp] theorem marks_instruction (unresolved : Instruction)
    (entries : List Assembly) :
    marks (.instruction unresolved :: entries) = marks entries := rfl

@[simp] theorem marks_nil : marks [] = [] := rfl

@[simp] theorem instructionTotal_append (first second : List Assembly) :
    instructionTotal (first ++ second) =
      instructionTotal first + instructionTotal second :=
  List.countP_append

@[simp] theorem instructionTotal_label (label : Nat)
    (entries : List Assembly) :
    instructionTotal (.label label :: entries) = instructionTotal entries := by
  simp [instructionTotal]

@[simp] theorem instructionTotal_instruction (unresolved : Instruction)
    (entries : List Assembly) :
    instructionTotal (.instruction unresolved :: entries) =
      instructionTotal entries + 1 := by
  simp [instructionTotal]

@[simp] theorem instructionTotal_nil : instructionTotal [] = 0 := rfl

/-- Every label marked in the entries resolves to the address of its mark. -/
def Placed (labels : List (Option Nat)) : Nat → List Assembly → Prop
  | _, [] => True
  | address, .label label :: entries =>
      labels[label]? = some (some address) ∧ Placed labels address entries
  | address, .instruction _ :: entries => Placed labels (address + 1) entries

theorem placed_append {labels : List (Option Nat)} {address : Nat}
    {first second : List Assembly} :
    Placed labels address (first ++ second) ↔
      Placed labels address first ∧
        Placed labels (address + instructionTotal first) second := by
  induction first generalizing address with
  | nil => simp [Placed]
  | cons entry entries induction =>
      cases entry with
      | label label =>
          simp only [List.cons_append, Placed, induction,
            instructionTotal_label, and_assoc]
      | instruction unresolved =>
          simp only [List.cons_append, Placed, induction,
            instructionTotal_instruction]
          rw [Nat.add_right_comm, Nat.add_assoc]

theorem getElem?_labelPositions_of_unmarked {entries : List Assembly}
    {address label : Nat} {labels : List (Option Nat)}
    (unmarked : label ∉ marks entries) :
    (Compiler.labelPositions entries address labels)[label]? =
      labels[label]? := by
  induction entries generalizing address labels with
  | nil => rfl
  | cons entry entries induction =>
      cases entry with
      | label marked =>
          rw [marks_label, List.mem_cons, not_or] at unmarked
          rw [Compiler.labelPositions, induction unmarked.2,
            List.getElem?_set, if_neg (Ne.symm unmarked.1)]
      | instruction unresolved =>
          rw [Compiler.labelPositions]
          exact induction unmarked

/-- Labels that are marked once and belong to the table are placed. -/
theorem placed_labelPositions {entries : List Assembly} {address : Nat}
    {labels : List (Option Nat)} (once : (marks entries).Nodup)
    (known : ∀ label ∈ marks entries, label < labels.length) :
    Placed (Compiler.labelPositions entries address labels) address
      entries := by
  induction entries generalizing address labels with
  | nil => trivial
  | cons entry entries induction =>
      cases entry with
      | label marked =>
          rw [marks_label, List.nodup_cons] at once
          rw [Compiler.labelPositions]
          refine ⟨?_, induction once.2 ?_⟩
          · rw [getElem?_labelPositions_of_unmarked once.1, List.getElem?_set,
              if_pos rfl, if_pos (known marked (by simp))]
          · intro label found
            rw [List.length_set]
            exact known label (by simp [found])
      | instruction unresolved =>
          rw [Compiler.labelPositions]
          exact induction once known

theorem target_of_placed {labels : List (Option Nat)} {label address : Nat}
    (found : labels[label]? = some (some address)) :
    Compiler.target labels label = .ok address := by
  rw [Compiler.target, found]

theorem resolveEntries_append {labels : List (Option Nat)}
    {first second : List Assembly} {firstCode secondCode : List Instruction}
    (resolvedFirst : Compiler.resolveEntries labels first = .ok firstCode)
    (resolvedSecond : Compiler.resolveEntries labels second =
      .ok secondCode) :
    Compiler.resolveEntries labels (first ++ second) =
      .ok (firstCode ++ secondCode) := by
  induction first generalizing firstCode with
  | nil =>
      cases resolvedFirst
      exact resolvedSecond
  | cons entry entries induction =>
      cases entry with
      | label label => exact induction resolvedFirst
      | instruction unresolved =>
          rw [Compiler.resolveEntries, bind_eq_ok_iff] at resolvedFirst
          obtain ⟨instruction, resolved, resolvedFirst⟩ := resolvedFirst
          rw [bind_eq_ok_iff] at resolvedFirst
          obtain ⟨rest, resolvedRest, finished⟩ := resolvedFirst
          cases finished
          rw [List.cons_append, Compiler.resolveEntries, resolved]
          simp only [bind, Except.bind, induction resolvedRest]
          rfl

/-- The entries are the labelled code of the node, wherever they stand. -/
structure Assembles (entries : List Assembly) (node : Node)
    (direction : Direction) (slot : Nat) : Prop where
  total : instructionTotal entries = node.size
  resolves : ∀ labels address, Placed labels address entries →
    Compiler.resolveEntries labels entries =
      .ok (node.emit direction address slot)

/-- The compiler state has grown by the labelled code of the node. -/
structure Lowers (before after : Compiler) (node : Node)
    (direction : Direction) : Prop where
  entries : ∃ entries, after.assembly = before.assembly ++ entries ∧
    Assembles entries node direction before.repeatCount ∧
    (marks entries).Nodup ∧
    ∀ label ∈ marks entries,
      before.nextLabel ≤ label ∧ label < after.nextLabel
  labels : before.nextLabel ≤ after.nextLabel
  slots : after.repeatCount = before.repeatCount + node.slots
  flags : after.flags = before.flags
  limits : after.limits = before.limits
  captures : after.captures = before.captures

namespace Lowers

theorem empty (compiler : Compiler) (direction : Direction) :
    Lowers compiler compiler .empty direction where
  entries := ⟨[], by simp, ⟨rfl, fun _ _ _ => rfl⟩, by simp, by simp⟩
  labels := le_rfl
  slots := rfl
  flags := rfl
  limits := rfl
  captures := rfl

theorem seq {before between after : Compiler} {first second : Node}
    {direction : Direction} (lowersFirst : Lowers before between first direction)
    (lowersSecond : Lowers between after second direction) :
    Lowers before after (.seq first second) direction where
  entries := by
    obtain ⟨firstEntries, firstAssembly, firstCode, firstOnce, firstFresh⟩ :=
      lowersFirst.entries
    obtain ⟨secondEntries, secondAssembly, secondCode, secondOnce,
      secondFresh⟩ := lowersSecond.entries
    refine ⟨firstEntries ++ secondEntries, ?_, ⟨?_, ?_⟩, ?_, ?_⟩
    · rw [secondAssembly, firstAssembly, List.append_assoc]
    · rw [instructionTotal_append, firstCode.total, secondCode.total]
      rfl
    · intro labels address placed
      rw [placed_append, firstCode.total] at placed
      have resolved := resolveEntries_append
        (firstCode.resolves labels address placed.1)
        (secondCode.resolves labels _ placed.2)
      rw [lowersFirst.slots] at resolved
      exact resolved
    · rw [marks_append]
      refine firstOnce.append secondOnce ?_
      intro label inFirst inSecond
      have upper := (firstFresh label inFirst).2
      have lower := (secondFresh label inSecond).1
      omega
    · intro label found
      have first := lowersFirst.labels
      have second := lowersSecond.labels
      rw [marks_append, List.mem_append] at found
      rcases found with inFirst | inSecond
      · have bounds := firstFresh label inFirst
        omega
      · have bounds := secondFresh label inSecond
        omega
  labels := lowersFirst.labels.trans lowersSecond.labels
  slots := by
    rw [lowersSecond.slots, lowersFirst.slots, Nat.add_assoc]
    rfl
  flags := lowersSecond.flags.trans lowersFirst.flags
  limits := lowersSecond.limits.trans lowersFirst.limits
  captures := lowersSecond.captures.trans lowersFirst.captures

/-- One emitted instruction without targets. -/
theorem single {before after : Compiler} {node : Node} {direction : Direction}
    {instruction : Instruction}
    (finished : before.runActions [.emit instruction] = .ok after)
    (plain : ∀ labels, Compiler.resolveInstruction labels instruction =
      .ok instruction)
    (code : ∀ address slot, node.emit direction address slot = [instruction])
    (slots : node.slots = 0) :
    Lowers before after node direction := by
  have grown := Compiler.runActions_emit_ok finished
  subst grown
  exact {
    entries := by
      refine ⟨[.instruction instruction], rfl, ⟨?_, ?_⟩, by simp, by simp⟩
      · rw [← node.length_emit direction 0 0, code]
        rfl
      · intro labels address _
        rw [code]
        simp only [Compiler.resolveEntries, plain, bind, Except.bind]
        rfl
    labels := le_rfl
    slots := by rw [slots]; rfl
    flags := rfl
    limits := rfl
    captures := rfl }

end Lowers

section Blocks

/-- The block of a group: an instruction without targets on both sides. -/
theorem lowers_bracket {before entered left after : Compiler} {body : Node}
    {direction : Direction} {index : Nat}
    (enter : before.runActions
      [.emit (Node.enterInstruction direction index)] = .ok entered)
    (lowers : Lowers entered left body direction)
    (leave : left.runActions
      [.emit (Node.leaveInstruction direction index)] = .ok after) :
    Lowers before after (.capture index body) direction := by
  have grown := Compiler.runActions_emit_ok enter
  have last := Compiler.runActions_emit_ok leave
  subst grown last
  obtain ⟨inner, assembly, code, once, fresh⟩ := lowers.entries
  have plainEnter : ∀ labels, Compiler.resolveInstruction labels
      (Node.enterInstruction direction index) =
        .ok (Node.enterInstruction direction index) := by
    intro labels
    cases direction <;> rfl
  have plainLeave : ∀ labels, Compiler.resolveInstruction labels
      (Node.leaveInstruction direction index) =
        .ok (Node.leaveInstruction direction index) := by
    intro labels
    cases direction <;> rfl
  exact {
    entries := by
      refine ⟨.instruction (Node.enterInstruction direction index) ::
        (inner ++
          [Assembly.instruction (Node.leaveInstruction direction index)]),
        ?_, ⟨?_, ?_⟩, ?_, ?_⟩
      · simp only [assembly, List.append_assoc, List.cons_append,
          List.nil_append]
      · simp only [instructionTotal_instruction, instructionTotal_append,
          instructionTotal_nil, code.total, Node.size]
      · intro labels address placed
        rw [Placed, placed_append] at placed
        have resolved := resolveEntries_append
          (code.resolves labels _ placed.1)
          (show Compiler.resolveEntries labels
            [.instruction (Node.leaveInstruction direction index)] = .ok
              [Node.leaveInstruction direction index] by
            simp only [Compiler.resolveEntries, plainLeave, bind, Except.bind]
            rfl)
        simp only [Compiler.resolveEntries, plainEnter, resolved, bind,
          Except.bind]
        rfl
      · simpa using once
      · intro label found
        exact fresh label (by simpa using found)
    labels := lowers.labels
    slots := lowers.slots
    flags := lowers.flags
    limits := lowers.limits
    captures := lowers.captures }

/-- The block of a lookaround with its two labels. -/
theorem lowers_lookaround {before entered left accepted : Compiler}
    {body : Node} {kind : LookaroundKind} (direction : Direction)
    (enter : Compiler.runActions
      [.emit (.lookaround kind before.nextLabel (before.nextLabel + 1))]
      { before with nextLabel := before.nextLabel + 2 } = .ok entered)
    (lowers : Lowers (entered.mark before.nextLabel) left body kind.direction)
    (leave : left.runActions [.emit (.lookaroundAccept kind)] =
      .ok accepted) :
    Lowers before (accepted.mark (before.nextLabel + 1))
      (.lookaround kind body) direction := by
  have grown := Compiler.runActions_emit_ok enter
  have last := Compiler.runActions_emit_ok leave
  subst grown last
  obtain ⟨inner, assembly, code, once, fresh⟩ := lowers.entries
  have labels := lowers.labels
  simp only [Compiler.mark] at assembly fresh labels code
  exact {
    entries := by
      refine ⟨.instruction
          (.lookaround kind before.nextLabel (before.nextLabel + 1)) ::
        .label before.nextLabel :: (inner ++
          [Assembly.instruction (.lookaroundAccept kind),
            .label (before.nextLabel + 1)]), ?_, ⟨?_, ?_⟩, ?_, ?_⟩
      · simp only [Compiler.mark, assembly, List.append_assoc,
          List.cons_append, List.nil_append]
      · simp only [instructionTotal_instruction, instructionTotal_label,
          instructionTotal_append, instructionTotal_nil, code.total, Node.size]
      · intro labels address placed
        simp only [Placed, placed_append, code.total] at placed
        obtain ⟨bodyPlaced, innerPlaced, exitPlaced, -⟩ := placed
        have resolved := resolveEntries_append
          (code.resolves labels _ innerPlaced)
          (show Compiler.resolveEntries labels
            [.instruction (.lookaroundAccept kind),
              .label (before.nextLabel + 1)] =
                .ok [.lookaroundAccept kind] from rfl)
        have exit : address + 1 + body.size + 1 = address + body.size + 2 := by
          omega
        rw [exit] at exitPlaced
        simp only [Compiler.resolveEntries, Compiler.resolveInstruction,
          target_of_placed bodyPlaced, target_of_placed exitPlaced, resolved,
          bind, Except.bind]
        rfl
      · simp only [marks_instruction, marks_label, marks_append, marks_nil,
          List.nodup_cons, List.mem_append, List.mem_singleton]
        refine ⟨?_, once.append (by simp) ?_⟩
        · rintro (found | same)
          · have lower := (fresh _ found).1
            omega
          · omega
        · intro label found same
          rw [List.mem_singleton] at same
          have lower := (fresh _ found).1
          omega
      · intro label found
        simp only [marks_instruction, marks_label, marks_append, marks_nil,
          List.mem_cons, List.mem_append, List.not_mem_nil, or_false] at found
        simp only [Compiler.mark]
        rcases found with rfl | found | rfl
        · omega
        · have bounds := fresh label found
          omega
        · omega
    labels := by simp only [Compiler.mark]; omega
    slots := lowers.slots
    flags := lowers.flags
    limits := lowers.limits
    captures := lowers.captures }

/-- The block of a quantifier with its slot and its three labels. -/
theorem lowers_repetition {before headed left ended : Compiler}
    {body : Node} {direction : Direction} {min : UInt64}
    {max : Option UInt64} {greedy : Bool} {captureStart captureEnd : Nat}
    (enter : Compiler.runActions
      [.emit (.repeatHead before.repeatCount min max greedy
        (before.nextLabel + 1) (before.nextLabel + 2) captureStart captureEnd)]
      (Compiler.mark { before with
        nextLabel := before.nextLabel + 3
        repeatCount := before.repeatCount + 1 } before.nextLabel) =
          .ok headed)
    (lowers : Lowers (headed.mark (before.nextLabel + 1)) left body direction)
    (leave : left.runActions
      [.emit (.repeatEnd before.repeatCount before.nextLabel)] = .ok ended) :
    Lowers before (ended.mark (before.nextLabel + 2))
      (.repetition min max greedy captureStart captureEnd body) direction := by
  have grown := Compiler.runActions_emit_ok enter
  have last := Compiler.runActions_emit_ok leave
  subst grown last
  obtain ⟨inner, assembly, code, once, fresh⟩ := lowers.entries
  have labels := lowers.labels
  have slots := lowers.slots
  simp only [Compiler.mark] at assembly fresh labels code slots
  exact {
    entries := by
      refine ⟨.label before.nextLabel :: .instruction
          (.repeatHead before.repeatCount min max greedy
            (before.nextLabel + 1) (before.nextLabel + 2) captureStart
            captureEnd) ::
        .label (before.nextLabel + 1) :: (inner ++
          [Assembly.instruction (.repeatEnd before.repeatCount before.nextLabel),
            .label (before.nextLabel + 2)]), ?_, ⟨?_, ?_⟩, ?_, ?_⟩
      · simp only [Compiler.mark, assembly, List.append_assoc,
          List.cons_append, List.nil_append]
      · simp only [instructionTotal_instruction, instructionTotal_label,
          instructionTotal_append, instructionTotal_nil, code.total, Node.size]
      · intro labels address placed
        simp only [Placed, placed_append, code.total] at placed
        obtain ⟨headPlaced, bodyPlaced, innerPlaced, exitPlaced, -⟩ := placed
        have final : Compiler.resolveEntries labels
            [.instruction (.repeatEnd before.repeatCount before.nextLabel),
              .label (before.nextLabel + 2)] =
                .ok [.repeatEnd before.repeatCount address] := by
          simp only [Compiler.resolveEntries, Compiler.resolveInstruction,
            target_of_placed headPlaced, bind, Except.bind]
          rfl
        have resolved := resolveEntries_append
          (code.resolves labels _ innerPlaced) final
        have exit : address + 1 + body.size + 1 = address + body.size + 2 := by
          omega
        rw [exit] at exitPlaced
        simp only [Compiler.resolveEntries, Compiler.resolveInstruction,
          target_of_placed bodyPlaced, target_of_placed exitPlaced, resolved,
          bind, Except.bind]
        rfl
      · simp only [marks_instruction, marks_label, marks_append, marks_nil,
          List.nodup_cons, List.mem_append, List.mem_cons, List.not_mem_nil,
          or_false]
        refine ⟨?_, ?_, once.append (by simp) ?_⟩
        · rintro (same | found | same)
          · omega
          · have lower := (fresh _ found).1
            omega
          · omega
        · rintro (found | same)
          · have lower := (fresh _ found).1
            omega
          · omega
        · intro label found same
          rw [List.mem_singleton] at same
          have lower := (fresh _ found).1
          omega
      · intro label found
        simp only [marks_instruction, marks_label, marks_append, marks_nil,
          List.mem_cons, List.mem_append, List.not_mem_nil, or_false] at found
        simp only [Compiler.mark]
        rcases found with rfl | rfl | found | rfl
        · omega
        · omega
        · have bounds := fresh label found
          omega
        · omega
    labels := by simp only [Compiler.mark]; omega
    slots := by
      simp only [Compiler.mark, Node.slots]
      omega
    flags := lowers.flags
    limits := lowers.limits
    captures := lowers.captures }

/-- The compiler state has grown by the labelled code of the alternatives
that follow one another, with `stop` marked behind the last one.  The labels
of the chain itself were taken before the run, from `low` up to `high`. -/
structure LowersChain (before after : Compiler) (node : Node)
    (direction : Direction) (stop low high : Nat) : Prop where
  entries : ∃ entries,
    after.assembly = before.assembly ++ (entries ++ [Assembly.label stop]) ∧
    instructionTotal entries = node.size ∧
    (∀ labels address,
      labels[stop]? = some (some (address + node.size)) →
      Placed labels address entries →
      Compiler.resolveEntries labels entries =
        .ok (node.emit direction address before.repeatCount)) ∧
    (marks entries).Nodup ∧
    ∀ label ∈ marks entries, (low ≤ label ∧ label < high) ∨
      (before.nextLabel ≤ label ∧ label < after.nextLabel)
  labels : before.nextLabel ≤ after.nextLabel
  slots : after.repeatCount = before.repeatCount + node.slots
  flags : after.flags = before.flags
  limits : after.limits = before.limits
  captures : after.captures = before.captures

theorem LowersChain.last {before between : Compiler} {node : Node}
    {direction : Direction} (lowers : Lowers before between node direction)
    (stop low high : Nat) :
    LowersChain before (between.mark stop) node direction stop low high where
  entries := by
    obtain ⟨entries, assembly, code, once, fresh⟩ := lowers.entries
    refine ⟨entries, ?_, code.total, ?_, once, ?_⟩
    · simp only [Compiler.mark, assembly, List.append_assoc]
    · intro labels address _ placed
      exact code.resolves labels address placed
    · intro label found
      exact .inr (fresh label found)
  labels := lowers.labels
  slots := lowers.slots
  flags := lowers.flags
  limits := lowers.limits
  captures := lowers.captures

theorem LowersChain.cons {before entered left jumped after : Compiler}
    {first rest : Node} {direction : Direction} {stop low high : Nat}
    (enter : before.runActions [.emit (.split low (low + 1))] = .ok entered)
    (lowers : Lowers (entered.mark low) left first direction)
    (leave : left.runActions [.emit (.jump stop)] = .ok jumped)
    (chain : LowersChain (jumped.mark (low + 1)) after rest direction stop
      (low + 2) high)
    (room : low + 2 ≤ high) (taken : high ≤ before.nextLabel) :
    LowersChain before after (.alt first rest) direction stop low high := by
  have grown := Compiler.runActions_emit_ok enter
  have last := Compiler.runActions_emit_ok leave
  subst grown last
  obtain ⟨inner, assembly, code, once, fresh⟩ := lowers.entries
  obtain ⟨others, restAssembly, restTotal, restCode, restOnce, restFresh⟩ :=
    chain.entries
  have labels := lowers.labels
  have restLabels := chain.labels
  have slots := lowers.slots
  have restSlots := chain.slots
  simp only [Compiler.mark] at assembly fresh labels code slots
  simp only [Compiler.mark] at restAssembly restFresh restLabels restSlots
  simp only [Compiler.mark] at restCode
  exact {
    entries := by
      refine ⟨.instruction (.split low (low + 1)) :: .label low :: (inner ++
        .instruction (.jump stop) :: .label (low + 1) :: others),
        ?_, ?_, ?_, ?_, ?_⟩
      · simp only [assembly, restAssembly, List.append_assoc,
          List.cons_append, List.nil_append]
      · simp only [instructionTotal_instruction, instructionTotal_label,
          instructionTotal_append, code.total, restTotal, Node.size]
        omega
      · intro labels address stopped placed
        simp only [Placed, placed_append, code.total] at placed
        obtain ⟨branchPlaced, innerPlaced, nextPlaced, othersPlaced⟩ := placed
        have next : address + 1 + first.size + 1 = address + first.size + 2 :=
          by omega
        have final : address + (Node.alt first rest).size =
            address + first.size + 2 + rest.size := by
          simp only [Node.size]
          omega
        rw [next] at nextPlaced othersPlaced
        rw [final] at stopped
        have behind := restCode labels _ stopped othersPlaced
        have jump : Compiler.resolveEntries labels
            (.instruction (.jump stop) :: .label (low + 1) :: others) =
              .ok (.jump (address + first.size + 2 + rest.size) ::
                rest.emit direction (address + first.size + 2)
                  left.repeatCount) := by
          simp only [Compiler.resolveEntries, Compiler.resolveInstruction,
            target_of_placed stopped, behind, bind, Except.bind]
          rfl
        have resolved := resolveEntries_append
          (code.resolves labels _ innerPlaced) jump
        have target : address + first.size + 2 + rest.size =
            address + first.size + rest.size + 2 := by
          omega
        rw [target, slots] at resolved
        simp only [Compiler.resolveEntries, Compiler.resolveInstruction,
          target_of_placed branchPlaced, target_of_placed nextPlaced,
          resolved, bind, Except.bind]
        rfl
      · simp only [marks_instruction, marks_label, marks_append,
          List.nodup_cons, List.mem_append, List.mem_cons]
        refine ⟨?_, once.append (List.nodup_cons.mpr ⟨?_, restOnce⟩) ?_⟩
        · rintro (found | same | found)
          · have lower := (fresh _ found).1
            omega
          · omega
          · have bounds := restFresh _ found
            omega
        · intro found
          have bounds := restFresh _ found
          omega
        · intro label found behind
          have bounds := fresh _ found
          rcases List.mem_cons.mp behind with rfl | behind
          · omega
          · have later := restFresh _ behind
            omega
      · intro label found
        simp only [marks_instruction, marks_label, marks_append,
          List.mem_cons, List.mem_append] at found
        rcases found with rfl | found | rfl | found
        · omega
        · have bounds := fresh label found
          omega
        · omega
        · have bounds := restFresh label found
          omega
    labels := labels.trans restLabels
    slots := by
      simp only [Node.slots]
      omega
    flags := chain.flags.trans lowers.flags
    limits := chain.limits.trans lowers.limits
    captures := chain.captures.trans lowers.captures }

/-- A closed chain is the block of a disjunction. -/
theorem LowersChain.close {before after : Compiler} {node : Node}
    {direction : Direction} {high : Nat}
    (chain : LowersChain { before with nextLabel := high } after node
      direction before.nextLabel (before.nextLabel + 1) high)
    (taken : before.nextLabel + 1 ≤ high) :
    Lowers before after node direction := by
  obtain ⟨entries, assembly, total, code, once, fresh⟩ := chain.entries
  have labels := chain.labels
  simp only at assembly fresh labels code
  exact {
    entries := by
      refine ⟨entries ++ [Assembly.label before.nextLabel], assembly,
        ⟨?_, ?_⟩, ?_, ?_⟩
      · simp [total]
      · intro labels address placed
        rw [placed_append, total] at placed
        have resolved := resolveEntries_append
          (code labels address placed.2.1 placed.1)
          (show Compiler.resolveEntries labels [.label before.nextLabel] =
            .ok [] from rfl)
        rw [List.append_nil] at resolved
        exact resolved
      · rw [marks_append]
        refine once.append (by simp) ?_
        intro label found same
        have bounds := fresh label found
        simp only [marks_label, marks_nil, List.mem_singleton] at same
        omega
      · intro label found
        simp only [marks_append, marks_label, marks_nil, List.mem_append,
          List.mem_singleton] at found
        rcases found with found | rfl
        · have bounds := fresh label found
          omega
        · omega
    labels := by omega
    slots := chain.slots
    flags := chain.flags
    limits := chain.limits
    captures := chain.captures }

end Blocks

theorem alternativesSequence_label_le (mode : MatchMode)
    (direction : Direction) (stop : Nat) (body : Disjunction) (label : Nat) :
    label ≤
      (Compiler.alternativesSequence mode direction stop body label).2 := by
  induction body generalizing label with
  | nil => exact le_rfl
  | cons alternative alternatives induction =>
      cases alternatives with
      | nil => exact le_rfl
      | cons second rest =>
          have later := induction (label + 2)
          simp only [Compiler.alternativesSequence] at later ⊢
          omega

/-- What the compiler appends for the term is the code of its lowered tree. -/
def LowersTerm (mode : MatchMode) (direction : Direction) (term : Term) :
    Prop :=
  ∀ ⦃before after : Compiler⦄,
    before.runActions [.term term mode direction] = .ok after →
      ∃ node, lowerTerm before.captures before.limits.maxNesting mode direction
          term = .ok node ∧ Lowers before after node direction

def LowersAlternative (mode : MatchMode) (direction : Direction)
    (body : Alternative) : Prop :=
  ∀ ⦃before after : Compiler⦄,
    before.runActions (Compiler.alternativeSequence body mode direction) =
        .ok after →
      ∃ node, lowerAlternative before.captures before.limits.maxNesting mode
          direction body = .ok node ∧ Lowers before after node direction

/-- The labels of the chain, from `low` on, are taken before it is emitted. -/
def LowersAlternatives (mode : MatchMode) (direction : Direction)
    (body : Disjunction) : Prop :=
  ∀ ⦃before after : Compiler⦄ ⦃stop low : Nat⦄,
    (Compiler.alternativesSequence mode direction stop body low).2 ≤
        before.nextLabel →
    before.runActions
        (Compiler.alternativesSequence mode direction stop body low).1 =
          .ok after →
      ∃ node, lowerDisjunction before.captures before.limits.maxNesting mode
          direction body = .ok node ∧
        LowersChain before after node direction stop low
          (Compiler.alternativesSequence mode direction stop body low).2

def LowersDisjunction (mode : MatchMode) (direction : Direction)
    (body : Disjunction) : Prop :=
  ∀ ⦃before after : Compiler⦄,
    before.runActions [.disjunction body mode direction] = .ok after →
      ∃ node, lowerDisjunction before.captures before.limits.maxNesting mode
          direction body = .ok node ∧ Lowers before after node direction

section Terms

variable {mode : MatchMode} {direction : Direction} {span : Span}
  {term body : Term} {alternative : Alternative} {disjunction : Disjunction}

/-- A term of one instruction that nothing is looked up for. -/
theorem lowersTerm_leaf (node : Node) {instruction : Instruction}
    (scheduled : ∀ compiler : Compiler,
      compiler.scheduleTerm term mode direction =
        .ok (compiler, [.emit instruction]))
    (lowered : ∀ captures maxNesting,
      lowerTerm captures maxNesting mode direction term = .ok node)
    (plain : ∀ labels, Compiler.resolveInstruction labels instruction =
      .ok instruction)
    (code : ∀ address slot, node.emit direction address slot = [instruction])
    (slots : node.slots = 0) : LowersTerm mode direction term := by
  intro before after finished
  obtain ⟨scheduler, sequence, result, run⟩ :=
    Compiler.runActions_term_ok finished
  rw [scheduled] at result
  cases result
  exact ⟨node, lowered _ _, .single run plain code slots⟩

theorem lowersTerm_unicodePropertyEscape (property : UnicodeProperty) :
    LowersTerm mode direction (.unicodePropertyEscape span property) := by
  intro before after finished
  obtain ⟨scheduler, sequence, scheduled, run⟩ :=
    Compiler.runActions_term_ok finished
  rw [Compiler.scheduleTerm, bind_eq_ok_iff] at scheduled
  obtain ⟨lowered, result, scheduled⟩ := scheduled
  cases scheduled
  refine ⟨.token (.characterClass (.mk false .union
    [.unicodeProperty lowered] [] property.strings) mode), ?_,
    .single run (fun _ => rfl) (fun _ _ => rfl) rfl⟩
  rw [lowerTerm, result]
  rfl

theorem lowersTerm_characterClass (characters : Ast.CharacterClass) :
    LowersTerm mode direction (.characterClass span characters) := by
  intro before after finished
  obtain ⟨scheduler, sequence, scheduled, run⟩ :=
    Compiler.runActions_term_ok finished
  rw [Compiler.scheduleTerm, bind_eq_ok_iff] at scheduled
  obtain ⟨lowered, result, scheduled⟩ := scheduled
  cases scheduled
  refine ⟨.token (.characterClass lowered mode), ?_,
    .single run (fun _ => rfl) (fun _ _ => rfl) rfl⟩
  rw [lowerTerm, result]
  rfl

theorem lowersTerm_namedReference (name : String) :
    LowersTerm mode direction (.namedReference span name) := by
  intro before after finished
  obtain ⟨scheduler, sequence, scheduled, run⟩ :=
    Compiler.runActions_term_ok finished
  rw [Compiler.scheduleTerm] at scheduled
  split at scheduled
  · cases scheduled
  · rename_i indices known
    cases scheduled
    refine ⟨.backReference indices mode, ?_,
      .single run (fun _ => rfl) (fun _ _ => rfl) rfl⟩
    rw [lowerTerm, known]

theorem lowersTerm_ignoreGroup {modifiers : Option Modifiers}
    (inner : LowersDisjunction (Compiler.applyModifiers mode modifiers)
      direction disjunction) :
    LowersTerm mode direction (.ignoreGroup span modifiers disjunction) := by
  intro before after finished
  obtain ⟨scheduler, sequence, scheduled, run⟩ :=
    Compiler.runActions_term_ok finished
  cases scheduled
  obtain ⟨node, lowered, lowers⟩ := inner run
  exact ⟨node, (lowerTerm_ignoreGroup ..).trans lowered, lowers⟩

theorem lowersTerm_capturingGroup {name : Option String}
    (inner : LowersDisjunction mode direction disjunction) :
    LowersTerm mode direction (.capturingGroup span name disjunction) := by
  intro before after finished
  obtain ⟨scheduler, sequence, scheduled, run⟩ :=
    Compiler.runActions_term_ok finished
  rw [Compiler.scheduleTerm] at scheduled
  split at scheduled
  · cases scheduled
  · rename_i index known
    have shape : scheduler = before ∧ sequence =
        [.emit (Node.enterInstruction direction index),
          .disjunction disjunction mode direction,
          .emit (Node.leaveInstruction direction index)] := by
      cases direction
      all_goals
        cases scheduled
        exact ⟨rfl, rfl⟩
    obtain ⟨rfl, rfl⟩ := shape
    obtain ⟨entered, enter, run⟩ := Compiler.runActions_cons_ok run
    obtain ⟨left, within, leave⟩ := Compiler.runActions_cons_ok run
    obtain ⟨node, lowered, lowers⟩ := inner within
    refine ⟨_, ?_, lowers_bracket enter lowers leave⟩
    have grown := Compiler.runActions_emit_ok enter
    subst grown
    rw [lowerTerm, known]
    simp only [lowered, bind, Except.bind]
    rfl

theorem lowersTerm_lookAroundAssertion {kind : LookAroundAssertionKind}
    (inner : LowersDisjunction mode (Compiler.lookaroundKind kind).direction
      disjunction) :
    LowersTerm mode direction
      (.lookAroundAssertion span kind disjunction) := by
  intro before after finished
  obtain ⟨scheduler, sequence, scheduled, run⟩ :=
    Compiler.runActions_term_ok finished
  cases scheduled
  obtain ⟨entered, enter, run⟩ := Compiler.runActions_cons_ok run
  obtain ⟨marked, mark, run⟩ := Compiler.runActions_cons_ok run
  obtain ⟨left, within, run⟩ := Compiler.runActions_cons_ok run
  obtain ⟨accepted, leave, exit⟩ := Compiler.runActions_cons_ok run
  cases Compiler.runActions_mark_ok mark
  cases Compiler.runActions_mark_ok exit
  obtain ⟨node, lowered, lowers⟩ := inner within
  refine ⟨_, ?_, lowers_lookaround direction enter lowers leave⟩
  have grown := Compiler.runActions_emit_ok enter
  subst grown
  simp only [Compiler.mark] at lowered
  simp only [lowerTerm, lowered, bind, Except.bind]
  rfl

theorem lowersTerm_quantifier {min : UInt64} {max : Option UInt64}
    {greedy : Bool} (inner : LowersTerm mode direction body) :
    LowersTerm mode direction (.quantifier span min max greedy body) := by
  intro before after finished
  obtain ⟨scheduler, sequence, scheduled, run⟩ :=
    Compiler.runActions_term_ok finished
  cases scheduled
  obtain ⟨headed, head, run⟩ := Compiler.runActions_cons_ok run
  obtain ⟨entered, enter, run⟩ := Compiler.runActions_cons_ok run
  obtain ⟨marked, mark, run⟩ := Compiler.runActions_cons_ok run
  obtain ⟨left, within, run⟩ := Compiler.runActions_cons_ok run
  obtain ⟨ended, leave, exit⟩ := Compiler.runActions_cons_ok run
  cases Compiler.runActions_mark_ok head
  cases Compiler.runActions_mark_ok mark
  cases Compiler.runActions_mark_ok exit
  obtain ⟨node, lowered, lowers⟩ := inner within
  refine ⟨_, ?_, lowers_repetition enter lowers leave⟩
  have grown := Compiler.runActions_emit_ok enter
  subst grown
  simp only [Compiler.mark] at lowered
  simp only [lowerTerm, lowered, bind, Except.bind]
  rfl

theorem lowersAlternative_nil : LowersAlternative mode direction [] := by
  intro before after finished
  cases direction
  all_goals
    rw [Compiler.alternativeSequence] at finished
    simp only [List.map_nil, List.reverse_nil] at finished
    rw [Compiler.runActions] at finished
    cases finished
    exact ⟨.empty, lowerAlternative_nil .., .empty _ _⟩

/-- Backwards the last term is emitted first. -/
theorem lowersAlternative_cons (first : LowersTerm mode direction term)
    (rest : LowersAlternative mode direction alternative) :
    LowersAlternative mode direction (term :: alternative) := by
  intro before after finished
  cases direction with
  | forward =>
      obtain ⟨between, head, tail⟩ := Compiler.runActions_cons_ok finished
      obtain ⟨firstNode, loweredFirst, lowersFirst⟩ := first head
      change between.runActions
        (Compiler.alternativeSequence alternative mode .forward) = _ at tail
      obtain ⟨restNode, loweredRest, lowersRest⟩ := rest tail
      refine ⟨.seq firstNode restNode, ?_, lowersFirst.seq lowersRest⟩
      rw [lowersFirst.captures, lowersFirst.limits] at loweredRest
      simp only [lowerAlternative, loweredFirst, loweredRest, bind,
        Except.bind]
      rfl
  | backward =>
      rw [Compiler.alternativeSequence] at finished
      simp only [List.reverse_cons, List.map_append, List.map_cons,
        List.map_nil] at finished
      rw [Compiler.runActions_append, bind_eq_ok_iff] at finished
      obtain ⟨between, tail, head⟩ := finished
      change before.runActions
        (Compiler.alternativeSequence alternative mode .backward) = _ at tail
      obtain ⟨restNode, loweredRest, lowersRest⟩ := rest tail
      obtain ⟨firstNode, loweredFirst, lowersFirst⟩ := first head
      refine ⟨.seq restNode firstNode, ?_, lowersRest.seq lowersFirst⟩
      rw [lowersRest.captures, lowersRest.limits] at loweredFirst
      simp only [lowerAlternative, loweredFirst, loweredRest, bind,
        Except.bind]
      rfl

theorem lowersAlternatives_nil : LowersAlternatives mode direction [] := by
  intro before after stop low _ finished
  cases Compiler.runActions_mark_ok finished
  exact ⟨.empty, lowerDisjunction_nil .., .last (.empty _ _) _ _ _⟩

theorem lowersAlternatives_single
    (only : LowersAlternative mode direction alternative) :
    LowersAlternatives mode direction [alternative] := by
  intro before after stop low _ finished
  obtain ⟨between, head, tail⟩ := Compiler.runActions_cons_ok finished
  cases Compiler.runActions_mark_ok tail
  rw [Compiler.runActions_alternative] at head
  obtain ⟨node, lowered, lowers⟩ := only head
  exact ⟨node, (lowerDisjunction_single ..).trans lowered,
    .last lowers _ _ _⟩

theorem lowersAlternatives_cons {second : Alternative}
    (first : LowersAlternative mode direction alternative)
    (others : LowersAlternatives mode direction (second :: disjunction)) :
    LowersAlternatives mode direction
      (alternative :: second :: disjunction) := by
  intro before after stop low taken finished
  have room := alternativesSequence_label_le mode direction stop
    (second :: disjunction) (low + 2)
  obtain ⟨entered, enter, run⟩ := Compiler.runActions_cons_ok finished
  obtain ⟨marked, mark, run⟩ := Compiler.runActions_cons_ok run
  obtain ⟨left, within, run⟩ := Compiler.runActions_cons_ok run
  obtain ⟨jumped, leave, run⟩ := Compiler.runActions_cons_ok run
  obtain ⟨passed, next, behind⟩ := Compiler.runActions_cons_ok run
  cases Compiler.runActions_mark_ok mark
  cases Compiler.runActions_mark_ok next
  rw [Compiler.runActions_alternative] at within
  obtain ⟨firstNode, loweredFirst, lowersFirst⟩ := first within
  have kept := lowersFirst.labels
  have grown := Compiler.runActions_emit_ok enter
  have last := Compiler.runActions_emit_ok leave
  subst grown last
  simp only [Compiler.mark] at kept
  have free := taken.trans kept
  change _ ≤ (Compiler.mark { left with
    instructionCount := left.instructionCount + 1
    assembly := left.assembly ++ [Assembly.instruction (.jump stop)] }
      (low + 1)).nextLabel at free
  obtain ⟨restNode, loweredRest, chain⟩ := others free behind
  refine ⟨.alt firstNode restNode, ?_,
    .cons enter lowersFirst leave chain room taken⟩
  simp only [Compiler.mark, lowersFirst.captures, lowersFirst.limits]
    at loweredRest
  simp only [Compiler.mark] at loweredFirst
  rw [lowerDisjunction]
  simp only [loweredFirst, loweredRest, bind, Except.bind]
  rfl

/-- A single alternative is emitted without labels. -/
theorem lowersDisjunction_single
    (only : LowersAlternative mode direction alternative) :
    LowersDisjunction mode direction [alternative] := by
  intro before after finished
  rw [Compiler.runActions_disjunction] at finished
  simp only [Compiler.scheduleDisjunction,
    Compiler.runActions_alternative] at finished
  obtain ⟨node, lowered, lowers⟩ := only finished
  exact ⟨node, (lowerDisjunction_single ..).trans lowered, lowers⟩

theorem lowersDisjunction_nil : LowersDisjunction mode direction [] := by
  intro before after finished
  rw [Compiler.runActions_disjunction] at finished
  obtain ⟨node, lowered, chain⟩ := lowersAlternatives_nil le_rfl finished
  exact ⟨node, lowered, chain.close le_rfl⟩

theorem lowersDisjunction_cons {second : Alternative}
    (chained : LowersAlternatives mode direction
      (alternative :: second :: disjunction)) :
    LowersDisjunction mode direction
      (alternative :: second :: disjunction) := by
  intro before after finished
  rw [Compiler.runActions_disjunction] at finished
  have room := alternativesSequence_label_le mode direction
    before.nextLabel (alternative :: second :: disjunction)
    (before.nextLabel + 1)
  obtain ⟨node, lowered, chain⟩ := chained le_rfl finished
  exact ⟨node, lowered, chain.close room⟩

end Terms

mutual

theorem lowers_term (mode : MatchMode) (direction : Direction) (term : Term) :
    LowersTerm mode direction term :=
  match term with
  | .boundaryAssertion _ kind =>
      lowersTerm_leaf (.boundary (Compiler.boundaryKind kind) mode)
        (fun _ => rfl) (fun _ _ => by rw [lowerTerm]) (fun _ => rfl)
        (fun _ _ => rfl) rfl
  | .character _ value =>
      lowersTerm_leaf (.token (.character value mode))
        (fun _ => rfl) (fun _ _ => by rw [lowerTerm]) (fun _ => rfl)
        (fun _ _ => rfl) rfl
  | .dot _ =>
      lowersTerm_leaf (.token (.dot mode))
        (fun _ => rfl) (fun _ _ => by rw [lowerTerm]) (fun _ => rfl)
        (fun _ _ => rfl) rfl
  | .characterClassEscape _ kind =>
      lowersTerm_leaf (.token (.characterClass
          (.mk false .union [classEscape kind] [] false) mode))
        (fun _ => rfl) (fun _ _ => by rw [lowerTerm]) (fun _ => rfl)
        (fun _ _ => rfl) rfl
  | .indexedReference _ index =>
      lowersTerm_leaf (.backReference [index] mode)
        (fun _ => rfl) (fun _ _ => by rw [lowerTerm]) (fun _ => rfl)
        (fun _ _ => rfl) rfl
  | .unicodePropertyEscape _ property =>
      lowersTerm_unicodePropertyEscape property
  | .characterClass _ characters => lowersTerm_characterClass characters
  | .namedReference _ name => lowersTerm_namedReference name
  | .ignoreGroup _ modifiers body =>
      lowersTerm_ignoreGroup (lowers_disjunction
        (Compiler.applyModifiers mode modifiers) direction body)
  | .capturingGroup _ _ body =>
      lowersTerm_capturingGroup (lowers_disjunction mode direction body)
  | .lookAroundAssertion _ kind body =>
      lowersTerm_lookAroundAssertion (lowers_disjunction mode
        (Compiler.lookaroundKind kind).direction body)
  | .quantifier _ _ _ _ body =>
      lowersTerm_quantifier (lowers_term mode direction body)
termination_by (sizeOf term, 0)

theorem lowers_alternative (mode : MatchMode) (direction : Direction)
    (body : Alternative) : LowersAlternative mode direction body :=
  match body with
  | [] => lowersAlternative_nil
  | term :: terms =>
      lowersAlternative_cons (lowers_term mode direction term)
        (lowers_alternative mode direction terms)
termination_by (sizeOf body, 0)

theorem lowers_alternatives (mode : MatchMode) (direction : Direction)
    (body : Disjunction) : LowersAlternatives mode direction body :=
  match body with
  | [] => lowersAlternatives_nil
  | [alternative] =>
      lowersAlternatives_single (lowers_alternative mode direction alternative)
  | alternative :: second :: others =>
      lowersAlternatives_cons (lowers_alternative mode direction alternative)
        (lowers_alternatives mode direction (second :: others))
termination_by (sizeOf body, 0)

theorem lowers_disjunction (mode : MatchMode) (direction : Direction)
    (body : Disjunction) : LowersDisjunction mode direction body :=
  match body with
  | [] => lowersDisjunction_nil
  | [alternative] =>
      lowersDisjunction_single (lowers_alternative mode direction alternative)
  | alternative :: second :: others =>
      lowersDisjunction_cons (lowers_alternatives mode direction
        (alternative :: second :: others))
termination_by (sizeOf body, 1)

end

end Fusor.RegExp
