import Fusor.Graph.Topological
import Fusor.Support.Result

/-!
# The topology of a function graph

A compiled unit is a flat list of functions whose constant pools name nested
functions.  The verifier orders the functions topologically, measures how
deeply they are nested below the root and refuses functions that the root does
not reach.  Of a function only the constants and their declared number are
modelled, and of the record checks those of the constants.
-/

namespace Fusor.Verifier

open Fusor.Graph

/-- Dense identity of one function template in a compiler graph. -/
abbrev FunctionTemplateId := UInt32

inductive CompilerConstant where
  | value
  | function (target : FunctionTemplateId)
  deriving DecidableEq

structure UnverifiedCompilerFunction where
  constantPoolLen : UInt32
  constants : List CompilerConstant
  deriving DecidableEq

structure FunctionGraphVerificationLimits where
  maxFunctions : UInt32
  maxNestingDepth : UInt32
  deriving DecidableEq

inductive FunctionGraphResource where
  | functions
  | nestingDepth
  | topologyEntries
  deriving DecidableEq

inductive FunctionGraphVerificationErrorKind where
  | emptyGraph
  | rootOutOfBounds (root : FunctionTemplateId) (functions : Nat)
  | limitExceeded (resource : FunctionGraphResource) (limit observed : Nat)
  | constantCountMismatch (declared : UInt32) (entries : Nat)
  | functionConstantOutOfBounds (index : Nat) (target : FunctionTemplateId)
      (functions : Nat)
  | cycle (function : FunctionTemplateId)
  | unreachableFunction (function : FunctionTemplateId)
  deriving DecidableEq

/-- A failure, with the function it was found at. -/
structure FunctionGraphVerificationError where
  function : Option FunctionTemplateId
  kind : FunctionGraphVerificationErrorKind
  deriving DecidableEq

abbrev GraphResult := Except FunctionGraphVerificationError

def enforceLimit (resource : FunctionGraphResource) (limit observed : Nat)
    (function : Option FunctionTemplateId) : GraphResult Unit :=
  if observed ≤ limit then .ok ()
  else .error ⟨function, .limitExceeded resource limit observed⟩

def functionId (index : Nat) : GraphResult FunctionTemplateId :=
  if index < 2 ^ 32 then .ok (UInt32.ofNat index)
  else .error ⟨none, .limitExceeded .functions (2 ^ 32 - 1) (index + 1)⟩

/-- The nested functions that a constant pool names, with their places. -/
def functionConstantTargets (constants : List CompilerConstant) :
    List (Nat × FunctionTemplateId) :=
  constants.zipIdx.filterMap fun entry =>
    match entry.1 with
    | .function target => some (entry.2, target)
    | .value => none

def constantTargetIndex (parent : FunctionTemplateId)
    (constant : Nat × FunctionTemplateId) (functionCount : Nat) :
    GraphResult Nat :=
  if constant.2.toNat < functionCount then .ok constant.2.toNat
  else .error ⟨some parent,
    .functionConstantOutOfBounds constant.1 constant.2 functionCount⟩

section Graph

variable (functions : List UnverifiedCompilerFunction)

def targetsAt (index : Nat) : List (Nat × FunctionTemplateId) :=
  ((functions[index]?).map fun function =>
    functionConstantTargets function.constants).getD []

/-- The checks of the constants of one record. -/
def validateFunctionRecord (index : Nat)
    (function : UnverifiedCompilerFunction) : GraphResult Unit := do
  let id ← functionId index
  if function.constants.length ≠ function.constantPoolLen.toNat then
    .error ⟨some id, .constantCountMismatch function.constantPoolLen
      function.constants.length⟩
  else
    (functionConstantTargets function.constants).forM fun constant => do
      let _ ← constantTargetIndex id constant functions.length
      .ok ()

def validateFunctionRecords : GraphResult Unit :=
  functions.zipIdx.forM fun entry =>
    validateFunctionRecord functions entry.2 entry.1

/-- Counts one more edge to a function. -/
def countEdge (parent : FunctionTemplateId) (indegrees : List Nat)
    (constant : Nat × FunctionTemplateId) : GraphResult (List Nat) := do
  let index ← constantTargetIndex parent constant functions.length
  let count := indegrees.getD index 0 + 1
  if count < 2 ^ 64 then .ok (indegrees.set index count)
  else .error ⟨none,
    .limitExceeded .topologyEntries (2 ^ 64 - 1) (2 ^ 64 - 1)⟩

def countEdges (indegrees : List Nat) (parentIndex : Nat) :
    GraphResult (List Nat) := do
  let parent ← functionId parentIndex
  (targetsAt functions parentIndex).foldlM (countEdge functions parent)
    indegrees

/-- Takes one edge from the count of its target, and queues the target with
the last. -/
def releaseEdge (parent : FunctionTemplateId) (tables : List Nat × List Nat)
    (constant : Nat × FunctionTemplateId) :
    GraphResult (List Nat × List Nat) := do
  let index ← constantTargetIndex parent constant functions.length
  .ok (Multigraph.release tables index)

def releaseEdges (parentIndex : Nat) (tables : List Nat × List Nat) :
    GraphResult (List Nat × List Nat) := do
  let parent ← functionId parentIndex
  (targetsAt functions parentIndex).foldlM (releaseEdge functions parent)
    tables

/-- Takes functions from the queue until it is empty; nothing when the steps
do not suffice. -/
def drainReady : Nat → List Nat × List Nat → List Nat →
    Option (GraphResult (List Nat × List Nat))
  | _, (indegrees, []), order => some (.ok (indegrees, order))
  | 0, (_, _ :: _), _ => none
  | steps + 1, (indegrees, parent :: ready), order =>
      match releaseEdges functions parent (indegrees, ready) with
      | .error error => some (.error error)
      | .ok tables => drainReady steps tables (order ++ [parent])

def cycleError (indegrees : List Nat) (root : FunctionTemplateId) :
    FunctionGraphVerificationError :=
  ⟨none, .cycle ((((indegrees.findIdx? (· ≠ 0)).filter
    (· < 2 ^ 32)).map UInt32.ofNat).getD root)⟩

def buildTopologicalOrder (steps : Nat) (root : FunctionTemplateId) :
    Option (GraphResult (List Nat)) :=
  match (List.range functions.length).foldlM (countEdges functions)
      (List.replicate functions.length 0) with
  | .error error => some (.error error)
  | .ok indegrees =>
      let ready := (List.range functions.length).filter fun index =>
        indegrees.getD index 0 == 0
      (drainReady functions steps (indegrees, ready) []).map fun drained => do
        let (indegrees, order) ← drained
        if order.length ≠ functions.length then
          .error (cycleError indegrees root)
        else .ok order

/-- Relaxes the edge to a child, whose depth is given. -/
def deepenChild (limits : FunctionGraphVerificationLimits)
    (parent : FunctionTemplateId) (depth : Nat) (tables : List Nat × Nat)
    (constant : Nat × FunctionTemplateId) : GraphResult (List Nat × Nat) := do
  let index ← constantTargetIndex parent constant functions.length
  if tables.1.getD index 0 < depth then
    enforceLimit .nestingDepth limits.maxNestingDepth.toNat depth
      (some constant.2)
  .ok (Multigraph.relax depth tables index)

def deepenChildren (limits : FunctionGraphVerificationLimits)
    (tables : List Nat × Nat) (parentIndex : Nat) :
    GraphResult (List Nat × Nat) := do
  let parent ← functionId parentIndex
  let depth := tables.1.getD parentIndex 0
  if depth = 0 ∨ targetsAt functions parentIndex = [] then .ok tables
  else if depth + 1 < 2 ^ 32 then
    (targetsAt functions parentIndex).foldlM
      (deepenChild functions limits parent (depth + 1)) tables
  else .error ⟨some parent, .limitExceeded .nestingDepth
    limits.maxNestingDepth.toNat (2 ^ 32)⟩

def validateNestingDepth (rootIndex : Nat) (order : List Nat)
    (limits : FunctionGraphVerificationLimits) : GraphResult Nat := do
  let (depths, maximum) ← order.foldlM (deepenChildren functions limits)
    ((List.replicate functions.length 0).set rootIndex 1, 1)
  match depths.findIdx? (· == 0) with
  | some index =>
      let function ← functionId index
      .error ⟨none, .unreachableFunction function⟩
  | none => .ok maximum

/-- The stages of the verification that look at the shape of the graph.  The
result is the greatest nesting depth. -/
def verifyTopology (steps : Nat) (root : FunctionTemplateId)
    (limits : FunctionGraphVerificationLimits) : Option (GraphResult Nat) :=
  let checked : GraphResult Unit := do
    if functions = [] then .error ⟨none, .emptyGraph⟩
    enforceLimit .functions limits.maxFunctions.toNat functions.length none
    if functions.length ≤ root.toNat then
      .error ⟨none, .rootOutOfBounds root functions.length⟩
    enforceLimit .nestingDepth limits.maxNestingDepth.toNat 1 (some root)
    validateFunctionRecords functions
  match checked with
  | .error error => some (.error error)
  | .ok () =>
      (buildTopologicalOrder functions steps root).map fun ordered => do
        let order ← ordered
        validateNestingDepth functions root.toNat order limits

end Graph

end Fusor.Verifier
