import Fusor.Runtime.MapState

/-!
# The records of the heap

Functions, objects and binding cells live in arenas and name each other by
identity.  Realms, modules, jobs and suspended activations hold identities
too.  The fields are those that hold identities or that a collection counts;
code, texts, numbers and flags that no collection reads are left out.
-/

namespace Fusor.Gc

open Fusor.Runtime

abbrev FunctionId := ArenaId
abbrev ObjectId := ArenaId
abbrev BindingCellId := ArenaId
abbrev RealmGlobalBindingId := ArenaId
abbrev InstalledCodeId := ArenaId

inductive HeapReference where
  | function (id : FunctionId)
  | object (id : ObjectId)
  deriving DecidableEq

inductive GraphNode where
  | function (id : FunctionId)
  | object (id : ObjectId)
  | cell (id : BindingCellId)
  deriving DecidableEq

inductive SlotValue where
  | uninitialized
  | value (value : StoredValue)

/-- A cell that forwards stands for the cell of an exporting module. -/
structure BindingCell where
  value : SlotValue
  forward : Option BindingCellId

inductive EnvironmentBinding where
  | captured (cell : BindingCellId)
  | realmGlobal (binding : RealmGlobalBindingId)

/-- The bindings of a scope and of the scopes around it, innermost first. -/
abbrev EvalVariableEnvironment := List (List BindingCellId)

structure EvalBindingShadow where
  head : EvalVariableEnvironment
  boundary : Option EvalVariableEnvironment

inductive PropertySlot where
  | data (value : StoredValue)
  | accessor (getter setter : Option FunctionId)

structure ObjectRecord where
  prototype : Option HeapReference
  slots : List PropertySlot

structure PromiseCapability where
  promise : StoredValue
  resolve : FunctionId
  reject : FunctionId

inductive PromiseReactionTarget where
  | then_ (handler : Option FunctionId) (capability : PromiseCapability)
  | asyncFunction (activation : ObjectId)
  | asyncGenerator (generator : ObjectId)
  | arrayFromAsync (operation : ObjectId)
  | asyncModule
  | finishDynamicImport (promise : ObjectId)
  | importDeferDeps (promise : ObjectId)

inductive PromiseState where
  | pending (fulfillReactions rejectReactions : List PromiseReactionTarget)
  | fulfilled (value : StoredValue)
  | rejected (reason : StoredValue)

inductive PromiseJob where
  | reaction (target : PromiseReactionTarget) (argument : StoredValue)
  | thenable (promise : ObjectId) (thenable : StoredValue)
      (then_ : FunctionId)
  | hostCallback (function : FunctionId)

/-- The target and the handler of a proxy, until it is revoked. -/
structure ProxyState where
  target : Option HeapReference
  handler : Option HeapReference

structure BytecodeFunction where
  code : InstalledCodeId
  template : Nat
  environment : List EnvironmentBinding
  environmentEvalShadows : List (Option EvalBindingShadow)
  evalEnvironment : Option EvalVariableEnvironment
  lexicalReceiver : Option StoredValue
  lexicalNewTarget : Option FunctionId
  lexicalDerivedConstructor : Option FunctionId
  lexicalDerivedThis : Option BindingCellId
  homeObject : Option HeapReference

structure BoundFunction where
  target : FunctionId
  boundThis : StoredValue
  boundArguments : List StoredValue

inductive PromiseFinallyFunction where
  | handler (onFinally constructor : FunctionId)
  | thunk (completion : StoredValue)

/-- A native function may be backed by a slot of the host's callbacks. -/
inductive FunctionImplementation where
  | bytecode (function : BytecodeFunction)
  | native (host : Option Nat)
  | bound (function : BoundFunction)
  | promiseResolving (promise : ObjectId)
  | promiseCapabilityExecutor (resolve reject : Option StoredValue)
  | promiseFinally (function : PromiseFinallyFunction)
  | promiseCombinatorElement (capability : PromiseCapability)
      (values : List (Option StoredValue))
  | proxy (state : ProxyState)
  | proxyRevoker (proxy : HeapReference)

structure HeapFunction where
  implementation : FunctionImplementation
  object : ObjectRecord
  publicRoots : Nat

inductive InstalledConstant where
  | templateObject (object : Option ObjectId)
  | other

structure InstalledTemplate where
  atoms : Nat
  constants : List InstalledConstant

structure InstalledCode where
  templates : List InstalledTemplate
  liveFunctions : Nat

inductive WeakKey where
  | symbol (symbol : Nat)
  | function (function : FunctionId)
  | object (object : ObjectId)
  deriving DecidableEq

structure FinalizationCell where
  target : Option WeakKey
  heldValue : StoredValue
  unregisterToken : Option WeakKey

structure FinalizationRegistryState where
  cleanupCallback : FunctionId
  cells : List FinalizationCell
  cleanupPending : Bool

inductive NamespaceExport where
  | binding (cell : BindingCellId)
  | reexport

structure IteratorConcatIterable where
  iterable : StoredValue
  openMethod : FunctionId

structure IteratorZipRecord where
  iterator : StoredValue
  nextMethod : StoredValue

structure IteratorHelperState where
  callback : Option FunctionId
  innerIterator : Option StoredValue
  innerNextMethod : Option StoredValue
  concatIterables : List IteratorConcatIterable
  zipRecords : List IteratorZipRecord
  zipPadding : List StoredValue
  chunkBuffer : List StoredValue

structure IteratorRecord where
  iterator : StoredValue
  nextMethod : StoredValue
  helper : Option IteratorHelperState

inductive ArrayStorage where
  | dense (elements : List (Option StoredValue)) (present : Nat)
  | sparse

inductive HeapObjectKind where
  | ordinary
  | proxy (state : ProxyState)
  | arguments (parameterMap : List (Option BindingCellId))
  | rawJson
  | array (storage : ArrayStorage)
  | error
  | promise (state : PromiseState)
  | boxedPrimitive
  | forInIterator (current : Option HeapReference) (entries : Nat)
  | arrayIterator (iterated : Option StoredValue)
  | iteratorWrapper (record : IteratorRecord)
  | stringIterator
  | regExpStringIterator (matcher : Option StoredValue)
  | regExp
  | date
  | intlLocale
  | intlCollator (boundCompare : Option FunctionId)
  | intlNumberFormat (boundFormat : Option FunctionId)
  | intlDateTimeFormat (boundFormat : Option FunctionId)
  | intlPluralRules
  | intlRelativeTimeFormat
  | intlListFormat
  | intlDisplayNames
  | intlDurationFormat
  | intlSegmenter
  | intlSegments (segmenter : ObjectId)
  | intlSegmentIterator (segments : ObjectId)
  | arrayBuffer (accountedByteLength : Nat)
  | dataView (buffer : ObjectId)
  | typedArray (buffer : ObjectId)
  | temporalInstant
  | temporalDuration
  | temporalPlainDate
  | temporalPlainDateTime
  | temporalPlainTime
  | temporalPlainMonthDay
  | temporalPlainYearMonth
  | temporalZonedDateTime
  | map (state : MapState)
  | mapIterator (iterated : Option ObjectId)
  | set (data : MapState)
  | setIterator (iterated : Option ObjectId)
  | weakMap (entries : List (WeakKey × StoredValue))
  | weakSet (entries : List WeakKey)
  | weakRef (target : Option WeakKey)
  | finalizationRegistry (state : FinalizationRegistryState)
  | moduleNamespace (exports : List NamespaceExport)

structure HeapObject where
  kind : HeapObjectKind
  record : ObjectRecord
  publicRoots : Nat

inductive FrameBinding where
  | direct (value : SlotValue)
  | captured (cell : BindingCellId)

/-- A reference to a global that the frame keeps while it is assigned: the
global object, and the binding of an `eval` scope that shadows it. -/
structure RetainedRealmGlobalReference where
  object : ObjectId
  evalBinding : Option (EvalVariableEnvironment × BindingCellId)

inductive OperandStackEntry where
  | javaScript (value : StoredValue)
  | capturedReference (cell : BindingCellId)
  | realmGlobalReference (reference : RetainedRealmGlobalReference)
  | capturedReferenceAnchor
  | catch_
  | forOfCatch
  | finallyReturn

inductive PendingException where
  | engineError
  | thrownValue (value : StoredValue)

inductive PendingAsyncIteratorClose where
  | normal
  | abrupt (exception : PendingException)

inductive RealmGlobalBindingState where
  | unresolved
  | object
  | lexical (cell : BindingCellId)

/-- The environment of a script whose declarations are not committed yet. -/
structure RootEnvironment where
  bindings : List EnvironmentBinding
  updatedGlobals : List RealmGlobalBindingState
  insertedCells : List BindingCellId
  updatedGlobalProperties : List PropertySlot

structure DynamicFunctionReturn where
  rootFunction : FunctionId
  pendingEnvironment : Option RootEnvironment
  construction : Option FunctionId

/-- What a native operation keeps while a call it made runs.  The kinds of
these records are many; of each the nodes its trace visits are told from the
other nodes it stores. -/
structure NativeContinuation where
  visited : List GraphNode
  unvisited : List GraphNode

structure Frame where
  function : FunctionId
  evalEnvironment : Option EvalVariableEnvironment
  evalDeclarationEnvironment : Option EvalVariableEnvironment
  bodyEvalEnvironment : Option EvalVariableEnvironment
  inheritedEvalEnvironment : Option EvalVariableEnvironment
  parameterEvalBoundary : Option EvalVariableEnvironment
  receiver : StoredValue
  newTarget : Option FunctionId
  dynamicReturn : Option DynamicFunctionReturn
  nativeReturns : List NativeContinuation
  derivedConstructor : Option FunctionId
  derivedThisCell : Option BindingCellId
  generatorResume : Option ObjectId
  generatorResult : Option ObjectId
  resumeAbrupt : Option PendingException
  pendingTailCompletion : Option StoredValue
  pendingAsyncIteratorClose : Option PendingAsyncIteratorClose
  argumentsSnapshot : Option (List StoredValue)
  constructorArguments : Option (List StoredValue)
  arguments : List FrameBinding
  locals : List FrameBinding
  ownCells : List (Option BindingCellId)
  environment : List EnvironmentBinding
  environmentEvalShadows : List (Option EvalBindingShadow)
  stack : List OperandStackEntry

structure AsyncFunctionRecord where
  frame : Frame
  awaiting : ObjectId

structure GeneratorRecord where
  frame : Option Frame

structure AsyncGeneratorRequest where
  value : StoredValue
  capability : PromiseCapability

structure AsyncGeneratorRecord where
  frame : Option Frame
  queue : List AsyncGeneratorRequest
  awaiting : Option ObjectId

structure ArrayFromAsyncRecord where
  constructor : StoredValue
  source : StoredValue
  mapper : Option FunctionId
  thisArg : StoredValue
  capability : PromiseCapability
  target : Option StoredValue
  iterator : Option StoredValue
  next : Option StoredValue
  result : Option StoredValue
  originalReason : Option StoredValue
  awaiting : Option ObjectId

/-- The fields of a module record that hold identities. -/
structure SourceTextModuleRecord where
  environment : List BindingCellId
  rootFunction : Option FunctionId
  namespaceObject : Option ObjectId
  deferredNamespace : Option ObjectId
  metaObject : Option ObjectId
  topLevelCapability : Option ObjectId

end Fusor.Gc
