import Mathlib.Algebra.Ring.Nat
import Mathlib.Data.List.Sort
import Fusor.RegExp.Pattern

/-!
# The pattern compiler

Capture collection, the action stack that lowers a pattern into labelled
assembly, and label resolution.  The head of an action or visit list is the
top of the source's stack.
-/

namespace Fusor.RegExp

open Ast

inductive CompileError where
  | invalidFlags
  | syntaxError (message : String)
  | resourceLimit (resource : String)
  | unsupported (feature : String)
  deriving DecidableEq

structure CompileLimits where
  maxPatternBytes : Nat := 2 ^ 20
  maxInstructions : Nat := 2 ^ 20
  maxCaptures : Nat := 254
  maxNesting : Nat := 256
  deriving DecidableEq

namespace Emoji

def supports (name : String) : Bool :=
  name ∈ ["Basic_Emoji", "Emoji_Keycap_Sequence", "RGI_Emoji",
    "RGI_Emoji_Modifier_Sequence", "RGI_Emoji_Flag_Sequence",
    "RGI_Emoji_Tag_Sequence", "RGI_Emoji_ZWJ_Sequence"]

end Emoji

def classEscape : CharacterClassEscapeKind → CharacterClassItem
  | .d => .digit false
  | .negativeD => .digit true
  | .s => .space false
  | .negativeS => .space true
  | .w => .word false
  | .negativeW => .word true

def lowerUnicodeProperty (property : UnicodeProperty) :
    Except CompileError UnicodeProperty :=
  if property.strings && !Emoji.supports property.name then
    .error (.unsupported "RGI emoji ZWJ properties of strings")
  else .ok property

/-- `Vec::dedup`: drops an element equal to the one kept before it. -/
def dedup : List (List Nat) → List (List Nat)
  | [] => []
  | [value] => [value]
  | first :: second :: rest =>
      if first = second then dedup (second :: rest)
      else first :: dedup (second :: rest)

/-- The stable sort by decreasing length followed by `dedup`. -/
def sortClassStrings (strings : List (List Nat)) : List (List Nat) :=
  dedup (strings.insertionSort fun left right => right.length ≤ left.length)

mutual

def lowerCharacterClass (characters : Ast.CharacterClass)
    (depth maxDepth : Nat) : Except CompileError CharacterClass :=
  match characters with
  | .mk negative kind body =>
      if maxDepth < depth then .error (.resourceLimit "nesting")
      else do
        let (items, strings, hasStringProperties) ←
          lowerClassContents body depth maxDepth
        pure (.mk negative kind items (sortClassStrings strings)
          hasStringProperties)

def lowerClassContents (body : List CharacterClassContents)
    (depth maxDepth : Nat) :
    Except CompileError
      (List CharacterClassItem × List (List Nat) × Bool) :=
  match body with
  | [] => .ok ([], [], false)
  | .characterClassRange min max :: rest => do
      let (items, strings, properties) ← lowerClassContents rest depth maxDepth
      pure (.range min max :: items, strings, properties)
  | .characterClassEscape kind :: rest => do
      let (items, strings, properties) ← lowerClassContents rest depth maxDepth
      pure (classEscape kind :: items, strings, properties)
  | .character value :: rest => do
      let (items, strings, properties) ← lowerClassContents rest depth maxDepth
      pure (.range value value :: items, strings, properties)
  | .unicodePropertyEscape property :: rest => do
      let property ← lowerUnicodeProperty property
      let (items, strings, properties) ← lowerClassContents rest depth maxDepth
      pure (.unicodeProperty property :: items, strings,
        property.strings || properties)
  | .nestedCharacterClass nested :: rest => do
      let nested ← lowerCharacterClass nested (depth + 1) maxDepth
      let (items, strings, properties) ← lowerClassContents rest depth maxDepth
      pure (.nested nested :: items, nested.strings ++ strings,
        nested.hasStringProperties || properties)
  | .classStringDisjunction alternatives :: rest => do
      let (items, strings, properties) ← lowerClassContents rest depth maxDepth
      pure (.nested (.mk false .union (alternatives.map .string) alternatives
          false) :: items,
        alternatives ++ strings, properties)

end

structure CaptureMetadata where
  byStart : List (Nat × Nat) := []
  spans : List (Nat × Nat × Nat) := []
  byName : List (String × List Nat) := []
  names : List (Option String) := []

/-- `by_name.entry(name).or_default().push(index)`. -/
def pushName (name : String) (index : Nat) :
    List (String × List Nat) → List (String × List Nat)
  | [] => [(name, [index])]
  | (known, indices) :: rest =>
      if known = name then (known, indices ++ [index]) :: rest
      else (known, indices) :: pushName name index rest

namespace CaptureMetadata

def push (captures : CaptureMetadata) (span : Span) (name : Option String) :
    CaptureMetadata :=
  let index := captures.spans.length + 1
  { byStart := (span.start, index) :: captures.byStart
    spans := captures.spans ++ [(span.start, span.stop, index)]
    byName :=
      match name with
      | none => captures.byName
      | some name => pushName name index captures.byName
    names := captures.names ++ [name] }

def within (captures : CaptureMetadata) (start stop : Nat) : Nat × Nat :=
  let bounds := captures.spans.foldl
    (fun (bounds : Option Nat × Nat) (capture : Nat × Nat × Nat) =>
      if start ≤ capture.1 ∧ capture.2.1 ≤ stop then
        (some ((bounds.1.map (min · capture.2.2)).getD capture.2.2),
          max bounds.2 (capture.2.2 + 1))
      else bounds) (none, 0)
  match bounds with
  | (none, _) => (0, 0)
  | (some lower, upper) => (lower, upper)

end CaptureMetadata

mutual

/-- A bound on the work that the compiler's stacks still have to do for a
term. -/
def Ast.Term.cost : Term → Nat
  | .lookAroundAssertion _ _ body => 6 + disjunctionCost body
  | .quantifier _ _ _ _ body => 6 + body.cost
  | .capturingGroup _ _ body => 4 + disjunctionCost body
  | .ignoreGroup _ _ body => 2 + disjunctionCost body
  | _ => 2

def alternativeCost : Alternative → Nat
  | [] => 1
  | term :: terms => term.cost + alternativeCost terms

def disjunctionCost : Disjunction → Nat
  | [] => 3
  | alternative :: alternatives =>
      alternativeCost alternative + 4 + disjunctionCost alternatives

end

theorem Ast.Term.cost_pos (term : Term) : 0 < term.cost := by
  cases term <;> simp only [Term.cost] <;> omega

inductive Visit where
  | disjunction (body : Disjunction) (depth : Nat)
  | term (visited : Term) (depth : Nat)

def Visit.cost : Visit → Nat
  | .disjunction body _ => disjunctionCost body
  | .term visited _ => visited.cost

theorem alternativeCost_eq (alternative : Alternative) :
    alternativeCost alternative = 1 + (alternative.map Term.cost).sum := by
  induction alternative with
  | nil => rfl
  | cons term terms induction =>
      simp only [alternativeCost, induction, List.map_cons, List.sum_cons]
      omega

private theorem visits_cost_lt (body : Disjunction) (depth : Nat) :
    ((body.flatten.map (Visit.term · depth)).map Visit.cost).sum <
      disjunctionCost body := by
  induction body with
  | nil => simp [disjunctionCost]
  | cons alternative alternatives induction =>
      have head : ((alternative.map (Visit.term · depth)).map Visit.cost).sum =
          (alternative.map Term.cost).sum := by
        rw [List.map_map]
        rfl
      simp only [List.flatten_cons, List.map_append, List.sum_append, head,
        disjunctionCost, alternativeCost_eq]
      omega

def collectCaptures (limits : CompileLimits) (stack : List Visit)
    (captures : CaptureMetadata) : Except CompileError CaptureMetadata :=
  match stack with
  | [] => .ok captures
  | .disjunction body depth :: stack =>
      if limits.maxNesting < depth then .error (.resourceLimit "nesting")
      else
        collectCaptures limits
          (body.flatten.map (.term · depth) ++ stack) captures
  | .term (.capturingGroup span name body) depth :: stack =>
      if limits.maxCaptures < captures.spans.length + 1 then
        .error (.resourceLimit "capture count")
      else
        collectCaptures limits (.disjunction body (depth + 1) :: stack)
          (captures.push span name)
  | .term (.ignoreGroup _ _ body) depth :: stack
  | .term (.lookAroundAssertion _ _ body) depth :: stack =>
      collectCaptures limits (.disjunction body (depth + 1) :: stack) captures
  | .term (.quantifier _ _ _ _ body) depth :: stack =>
      collectCaptures limits (.term body (depth + 1) :: stack) captures
  | .term _ _ :: stack => collectCaptures limits stack captures
termination_by (stack.map Visit.cost).sum
decreasing_by
  · have fewer := visits_cost_lt body depth
    simp only [List.map_cons, List.map_append, List.sum_cons, List.sum_append,
      Visit.cost]
    simp only [List.map_map] at fewer ⊢
    omega
  all_goals
    simp only [List.map_cons, List.sum_cons, Visit.cost, Term.cost]
    try have positive := Term.cost_pos ‹Term›
    omega

/-- Assembly in which the target fields of an instruction hold labels. -/
inductive Assembly where
  | label (label : Nat)
  | instruction (unresolved : Instruction)

inductive Action where
  | disjunction (body : Disjunction) (mode : MatchMode)
      (direction : Direction)
  | alternative (body : Alternative) (mode : MatchMode)
      (direction : Direction)
  | term (scheduled : Term) (mode : MatchMode) (direction : Direction)
  | emit (unresolved : Instruction)
  | mark (label : Nat)

def Action.cost : Action → Nat
  | .disjunction body _ _ => disjunctionCost body
  | .alternative body _ _ => alternativeCost body
  | .term scheduled _ _ => scheduled.cost
  | .emit _ | .mark _ => 1

structure Compiler where
  flags : RegExpFlags
  limits : CompileLimits
  captures : CaptureMetadata
  assembly : List Assembly
  instructionCount : Nat
  nextLabel : Nat
  repeatCount : Nat

namespace Compiler

def emit (compiler : Compiler) (unresolved : Instruction) :
    Except CompileError Compiler :=
  if compiler.limits.maxInstructions < compiler.instructionCount + 1 then
    .error (.resourceLimit "instruction count")
  else .ok { compiler with
    instructionCount := compiler.instructionCount + 1
    assembly := compiler.assembly ++ [.instruction unresolved] }

def mark (compiler : Compiler) (label : Nat) : Compiler :=
  { compiler with assembly := compiler.assembly ++ [.label label] }

/-- The sequence that `schedule_disjunction` pushes after it has taken the
label `stop`, with labels from `label` on. -/
def alternativesSequence (mode : MatchMode) (direction : Direction)
    (stop : Nat) : Disjunction → Nat → List Action × Nat
  | [], label => ([.mark stop], label)
  | [last], label => ([.alternative last mode direction, .mark stop], label)
  | alternative :: alternatives, label =>
      let branch := label
      let next := label + 1
      let (rest, label) :=
        alternativesSequence mode direction stop alternatives (label + 2)
      (.emit (.split branch next) :: .mark branch ::
        .alternative alternative mode direction :: .emit (.jump stop) ::
        .mark next :: rest, label)

def scheduleDisjunction (compiler : Compiler) (body : Disjunction)
    (mode : MatchMode) (direction : Direction) : Compiler × List Action :=
  match body with
  | [alternative] => (compiler, [.alternative alternative mode direction])
  | body =>
      let (sequence, label) := alternativesSequence mode direction
        compiler.nextLabel body (compiler.nextLabel + 1)
      ({ compiler with nextLabel := label }, sequence)

def applyModifier (value enabled disabled : Bool) : Bool :=
  if disabled then false else if enabled then true else value

def applyModifiers (mode : MatchMode) : Option Modifiers → MatchMode
  | none => mode
  | some modifiers => { mode with
      ignoreCase := applyModifier mode.ignoreCase modifiers.enabling.i
        modifiers.disabling.i
      multiline := applyModifier mode.multiline modifiers.enabling.m
        modifiers.disabling.m
      dotAll := applyModifier mode.dotAll modifiers.enabling.s
        modifiers.disabling.s }

def boundaryKind : BoundaryAssertionKind → BoundaryKind
  | .start => .start
  | .stop => .stop
  | .boundary => .word
  | .negativeBoundary => .notWord

def lookaroundKind : LookAroundAssertionKind → LookaroundKind
  | .lookahead => .ahead
  | .negativeLookahead => .negativeAhead
  | .lookbehind => .behind
  | .negativeLookbehind => .negativeBehind

def scheduleTerm (compiler : Compiler) (scheduled : Term) (mode : MatchMode)
    (direction : Direction) : Except CompileError (Compiler × List Action) :=
  match scheduled with
  | .boundaryAssertion _ kind =>
      .ok (compiler, [.emit (.boundary (boundaryKind kind) mode)])
  | .lookAroundAssertion _ kind body =>
      let kind := lookaroundKind kind
      let bodyLabel := compiler.nextLabel
      let exitLabel := compiler.nextLabel + 1
      .ok ({ compiler with nextLabel := compiler.nextLabel + 2 },
        [.emit (.lookaround kind bodyLabel exitLabel), .mark bodyLabel,
          .disjunction body mode kind.direction,
          .emit (.lookaroundAccept kind), .mark exitLabel])
  | .quantifier _ min max greedy body =>
      let slot := compiler.repeatCount
      let head := compiler.nextLabel
      let bodyLabel := compiler.nextLabel + 1
      let exitLabel := compiler.nextLabel + 2
      let (captureStart, captureEnd) :=
        compiler.captures.within body.span.start body.span.stop
      .ok ({ compiler with
          nextLabel := compiler.nextLabel + 3
          repeatCount := compiler.repeatCount + 1 },
        [.mark head,
          .emit (.repeatHead slot min max greedy bodyLabel exitLabel
            captureStart captureEnd),
          .mark bodyLabel, .term body mode direction,
          .emit (.repeatEnd slot head), .mark exitLabel])
  | .character _ value => .ok (compiler, [.emit (.character value mode)])
  | .dot _ => .ok (compiler, [.emit (.dot mode)])
  | .characterClassEscape _ kind =>
      .ok (compiler, [.emit (.characterClass
        (.mk false .union [classEscape kind] [] false) mode)])
  | .unicodePropertyEscape _ property => do
      let lowered ← lowerUnicodeProperty property
      pure (compiler, [.emit (.characterClass
        (.mk false .union [.unicodeProperty lowered] [] property.strings)
        mode)])
  | .characterClass _ characters => do
      let lowered ← lowerCharacterClass characters 0 compiler.limits.maxNesting
      pure (compiler, [.emit (.characterClass lowered mode)])
  | .capturingGroup span _ body =>
      match compiler.captures.byStart.lookup span.start with
      | none => .error (.resourceLimit "capture metadata")
      | some index =>
          match direction with
          | .forward => .ok (compiler, [.emit (.saveStart index),
              .disjunction body mode direction, .emit (.saveEnd index)])
          | .backward => .ok (compiler, [.emit (.saveEnd index),
              .disjunction body mode direction, .emit (.saveStart index)])
  | .ignoreGroup _ modifiers body =>
      .ok (compiler, [.disjunction body (applyModifiers mode modifiers) direction])
  | .indexedReference _ index =>
      .ok (compiler, [.emit (.backReference [index] mode)])
  | .namedReference _ name =>
      match compiler.captures.byName.lookup name with
      | none => .error (.syntaxError "unknown named capture")
      | some captures =>
          .ok (compiler, [.emit (.backReference captures mode)])

def alternativeSequence (body : Alternative) (mode : MatchMode)
    (direction : Direction) : List Action :=
  match direction with
  | .forward => body.map (.term · mode direction)
  | .backward => body.reverse.map (.term · mode direction)

theorem sequence_cost_le (mode : MatchMode) (direction : Direction)
    (stop : Nat) (body : Disjunction) (label : Nat) :
    ((alternativesSequence mode direction stop body label).1.map
      Action.cost).sum < disjunctionCost body := by
  induction body generalizing label with
  | nil => simp [alternativesSequence, disjunctionCost, Action.cost]
  | cons alternative alternatives induction =>
      cases alternatives with
      | nil =>
          simp [alternativesSequence, disjunctionCost, Action.cost]
      | cons second rest =>
          have fewer := induction (label + 2)
          simp only [alternativesSequence, disjunctionCost, Action.cost,
            List.map_cons, List.sum_cons] at fewer ⊢
          omega

theorem scheduleDisjunction_cost_lt (compiler : Compiler)
    (body : Disjunction) (mode : MatchMode) (direction : Direction) :
    ((compiler.scheduleDisjunction body mode direction).2.map
      Action.cost).sum < disjunctionCost body := by
  unfold scheduleDisjunction
  split
  · simp [disjunctionCost, Action.cost]
    omega
  · exact sequence_cost_le mode direction _ _ _

theorem scheduleTerm_cost_lt {compiler scheduler : Compiler}
    {scheduled : Term} {mode : MatchMode} {direction : Direction}
    {sequence : List Action}
    (result : compiler.scheduleTerm scheduled mode direction =
      .ok (scheduler, sequence)) :
    (sequence.map Action.cost).sum < scheduled.cost := by
  cases scheduled
  case capturingGroup span name body =>
      simp only [scheduleTerm] at result
      split at result
      · cases result
      · cases direction
        all_goals
          cases result
          simp [Action.cost, Term.cost]
          omega
  case unicodePropertyEscape span property =>
      simp only [scheduleTerm, bind, Except.bind] at result
      split at result
      · cases result
      · cases result
        simp [Action.cost, Term.cost]
  case characterClass span characters =>
      simp only [scheduleTerm, bind, Except.bind] at result
      split at result
      · cases result
      · cases result
        simp [Action.cost, Term.cost]
  case namedReference span name =>
      simp only [scheduleTerm] at result
      split at result
      · cases result
      · cases result
        simp [Action.cost, Term.cost]
  all_goals
    cases result
    simp [Action.cost, Term.cost]
    try omega

theorem alternativeSequence_cost_lt (body : Alternative) (mode : MatchMode)
    (direction : Direction) :
    ((alternativeSequence body mode direction).map Action.cost).sum <
      alternativeCost body := by
  have plain : ∀ terms : List Term,
      ((terms.map (Action.term · mode direction)).map Action.cost).sum =
        (terms.map Term.cost).sum := by
    intro terms
    rw [List.map_map]
    rfl
  rw [alternativeCost_eq]
  cases direction
  · simp only [alternativeSequence, plain]
    omega
  · simp only [alternativeSequence, plain, List.map_reverse, List.sum_reverse]
    omega

/-- The action loop of `build`. -/
def runActions (actions : List Action) (compiler : Compiler) :
    Except CompileError Compiler :=
  match actions with
  | [] => .ok compiler
  | .disjunction body mode direction :: actions =>
      runActions ((compiler.scheduleDisjunction body mode direction).2 ++ actions)
        (compiler.scheduleDisjunction body mode direction).1
  | .alternative body mode direction :: actions =>
      runActions (alternativeSequence body mode direction ++ actions) compiler
  | .term scheduled mode direction :: actions =>
      match _scheduled : compiler.scheduleTerm scheduled mode direction with
      | .error error => .error error
      | .ok (compiler, sequence) => runActions (sequence ++ actions) compiler
  | .emit unresolved :: actions =>
      match compiler.emit unresolved with
      | .error error => .error error
      | .ok compiler => runActions actions compiler
  | .mark label :: actions => runActions actions (compiler.mark label)
termination_by (actions.map Action.cost).sum
decreasing_by
  · have fewer := compiler.scheduleDisjunction_cost_lt body mode direction
    simp only [List.map_append, List.sum_append, List.map_cons, List.sum_cons,
      Action.cost]
    omega
  · have fewer := alternativeSequence_cost_lt body mode direction
    simp only [List.map_append, List.sum_append, List.map_cons, List.sum_cons,
      Action.cost]
    omega
  · have fewer := scheduleTerm_cost_lt (by assumption)
    simp only [List.map_append, List.sum_append, List.map_cons, List.sum_cons,
      Action.cost]
    omega
  all_goals simp [Action.cost]

/-- The label table that `resolve` fills in its first pass. -/
def labelPositions :
    List Assembly → Nat → List (Option Nat) → List (Option Nat)
  | [], _, labels => labels
  | .label label :: entries, pc, labels =>
      labelPositions entries pc (labels.set label (some pc))
  | .instruction _ :: entries, pc, labels =>
      labelPositions entries (pc + 1) labels

def target (labels : List (Option Nat)) (label : Nat) :
    Except CompileError Nat :=
  match labels[label]? with
  | some (some pc) => .ok pc
  | _ => .error (.resourceLimit "unresolved instruction label")

def resolveInstruction (labels : List (Option Nat)) :
    Instruction → Except CompileError Instruction
  | .lookaround kind body exit => do
      let body ← target labels body
      let exit ← target labels exit
      pure (.lookaround kind body exit)
  | .split first second => do
      let first ← target labels first
      let second ← target labels second
      pure (.split first second)
  | .jump label => do
      let pc ← target labels label
      pure (.jump pc)
  | .repeatHead slot min max greedy body exit captureStart captureEnd => do
      let body ← target labels body
      let exit ← target labels exit
      pure (.repeatHead slot min max greedy body exit captureStart captureEnd)
  | .repeatEnd slot head => do
      let head ← target labels head
      pure (.repeatEnd slot head)
  | instruction => .ok instruction

def resolveEntries (labels : List (Option Nat)) :
    List Assembly → Except CompileError (List Instruction)
  | [] => .ok []
  | .label _ :: entries => resolveEntries labels entries
  | .instruction unresolved :: entries => do
      let instruction ← resolveInstruction labels unresolved
      let instructions ← resolveEntries labels entries
      pure (instruction :: instructions)

def resolve (compiler : Compiler) : Except CompileError (List Instruction) :=
  resolveEntries
    (labelPositions compiler.assembly 0
      (List.replicate compiler.nextLabel none))
    compiler.assembly

def build (compiler : Compiler) (pattern : Pattern) :
    Except CompileError Program := do
  let compiler ← compiler.runActions
    [.emit (.saveStart 0),
      .disjunction pattern.body compiler.flags.initialMode .forward,
      .emit (.saveEnd 0), .emit .matched]
  let instructions ← compiler.resolve
  pure {
    instructions := instructions
    captureCount := compiler.captures.spans.length + 1
    captureNames := none :: compiler.captures.names
    repeatCount := compiler.repeatCount
    flags := compiler.flags }

end Compiler

/-- The part of `compile` that follows parsing. -/
def compilePattern (flags : RegExpFlags) (limits : CompileLimits)
    (pattern : Pattern) : Except CompileError Program := do
  let captures ← collectCaptures limits [.disjunction pattern.body 0] {}
  Compiler.build {
    flags := flags
    limits := limits
    captures := captures
    assembly := []
    instructionCount := 0
    nextLabel := 0
    repeatCount := 0 } pattern

end Fusor.RegExp
