import Fusor.Gc.Intrinsics

/-!
# What a record holds and what the collector traces

Of every record that names nodes of the heap the nodes it stores strongly are
listed, and the nodes that the collector visits when it traces the record.
What is stored and not visited is listed too, and the three lists are related
once for each kind of record.
-/

namespace Fusor.Gc

open Fusor.Runtime

def HeapReference.node : HeapReference → GraphNode
  | .function id => .function id
  | .object id => .object id

def heapReference : StoredValue → Option HeapReference
  | .function id => some (.function id)
  | .object id => some (.object id)
  | _ => none

def valueNodes (value : StoredValue) : List GraphNode :=
  ((heapReference value).map HeapReference.node).toList

def valuesNodes (values : List StoredValue) : List GraphNode :=
  values.flatMap valueNodes

def functionNodes (functions : List FunctionId) : List GraphNode :=
  functions.map .function

def cellNodes (cells : List BindingCellId) : List GraphNode :=
  cells.map .cell

def referenceNodes (references : List HeapReference) : List GraphNode :=
  references.map HeapReference.node

namespace SlotValue

def nodes : SlotValue → List GraphNode
  | uninitialized => []
  | value stored => valueNodes stored

end SlotValue

namespace BindingCell

def strong (cell : BindingCell) : List GraphNode :=
  cell.value.nodes ++ cellNodes cell.forward.toList

def traced (cell : BindingCell) : List GraphNode :=
  match cell.forward with
  | some forward => [.cell forward]
  | none => cell.value.nodes

/-- The value of a cell that forwards. -/
def untraced (cell : BindingCell) : List GraphNode :=
  match cell.forward with
  | some _ => cell.value.nodes
  | none => []

theorem mem_strong (cell : BindingCell) (node : GraphNode) :
    node ∈ cell.strong ↔ node ∈ cell.traced ∨ node ∈ cell.untraced := by
  unfold strong traced untraced
  cases cell.forward with
  | none => simp [cellNodes]
  | some forward => simp [cellNodes, or_comm]

end BindingCell

namespace EnvironmentBinding

def nodes : EnvironmentBinding → List GraphNode
  | captured cell => [.cell cell]
  | realmGlobal _ => []

end EnvironmentBinding

/-- The cells of a scope and of the scopes around it. -/
def EvalVariableEnvironment.traceCells (environment : EvalVariableEnvironment) :
    List GraphNode :=
  cellNodes environment.flatten

def environmentNodes (environment : Option EvalVariableEnvironment) :
    List GraphNode :=
  environment.toList.flatMap EvalVariableEnvironment.traceCells

def EvalBindingShadow.nodes (shadow : EvalBindingShadow) : List GraphNode :=
  EvalVariableEnvironment.traceCells shadow.head ++
    environmentNodes shadow.boundary

def shadowNodes (shadows : List (Option EvalBindingShadow)) :
    List GraphNode :=
  shadows.flatMap fun shadow => shadow.toList.flatMap EvalBindingShadow.nodes

namespace PropertySlot

def nodes : PropertySlot → List GraphNode
  | data value => valueNodes value
  | accessor getter setter =>
      functionNodes (getter.toList ++ setter.toList)

end PropertySlot

namespace ObjectRecord

def nodes (record : ObjectRecord) : List GraphNode :=
  referenceNodes record.prototype.toList ++
    record.slots.flatMap PropertySlot.nodes

def propertyCount (record : ObjectRecord) : Nat :=
  record.slots.length

end ObjectRecord

namespace PromiseCapability

def nodes (capability : PromiseCapability) : List GraphNode :=
  valueNodes capability.promise ++
    functionNodes [capability.resolve, capability.reject]

end PromiseCapability

namespace PromiseReactionTarget

def nodes : PromiseReactionTarget → List GraphNode
  | then_ handler capability =>
      functionNodes handler.toList ++ capability.nodes
  | asyncFunction activation => [.object activation]
  | asyncGenerator generator => [.object generator]
  | arrayFromAsync operation => [.object operation]
  | asyncModule => []
  | finishDynamicImport promise => [.object promise]
  | importDeferDeps promise => [.object promise]

end PromiseReactionTarget

namespace PromiseState

def nodes : PromiseState → List GraphNode
  | pending fulfillReactions rejectReactions =>
      (fulfillReactions ++ rejectReactions).flatMap
        PromiseReactionTarget.nodes
  | fulfilled value => valueNodes value
  | rejected reason => valueNodes reason

end PromiseState

namespace PromiseJob

def nodes : PromiseJob → List GraphNode
  | reaction target argument => target.nodes ++ valueNodes argument
  | thenable promise value then_ =>
      .object promise :: valueNodes value ++ [.function then_]
  | hostCallback function => [.function function]

end PromiseJob

namespace ProxyState

def nodes (state : ProxyState) : List GraphNode :=
  referenceNodes (state.target.toList ++ state.handler.toList)

end ProxyState

namespace BytecodeFunction

def traced (function : BytecodeFunction) : List GraphNode :=
  valuesNodes function.lexicalReceiver.toList ++
    functionNodes function.lexicalNewTarget.toList ++
    functionNodes function.lexicalDerivedConstructor.toList ++
    cellNodes function.lexicalDerivedThis.toList ++
    referenceNodes function.homeObject.toList ++
    function.environment.flatMap EnvironmentBinding.nodes ++
    environmentNodes function.evalEnvironment

/-- The scopes that may shadow captured bindings. -/
def untraced (function : BytecodeFunction) : List GraphNode :=
  shadowNodes function.environmentEvalShadows

def strong (function : BytecodeFunction) : List GraphNode :=
  function.environment.flatMap EnvironmentBinding.nodes ++
    shadowNodes function.environmentEvalShadows ++
    environmentNodes function.evalEnvironment ++
    valuesNodes function.lexicalReceiver.toList ++
    functionNodes function.lexicalNewTarget.toList ++
    functionNodes function.lexicalDerivedConstructor.toList ++
    cellNodes function.lexicalDerivedThis.toList ++
    referenceNodes function.homeObject.toList

theorem mem_strong (function : BytecodeFunction) (node : GraphNode) :
    node ∈ function.strong ↔
      node ∈ function.traced ∨ node ∈ function.untraced := by
  simp only [strong, traced, untraced, List.mem_append]
  grind

end BytecodeFunction

namespace BoundFunction

def nodes (function : BoundFunction) : List GraphNode :=
  .function function.target :: valueNodes function.boundThis ++
    valuesNodes function.boundArguments

end BoundFunction

namespace PromiseFinallyFunction

def nodes : PromiseFinallyFunction → List GraphNode
  | handler onFinally constructor => functionNodes [onFinally, constructor]
  | thunk completion => valueNodes completion

end PromiseFinallyFunction

namespace FunctionImplementation

/-- The nodes of the kinds whose every field is traced. -/
def nodes : FunctionImplementation → List GraphNode
  | bytecode _ | native _ => []
  | bound function => function.nodes
  | promiseResolving promise => [.object promise]
  | promiseCapabilityExecutor resolve reject =>
      valuesNodes (resolve.toList ++ reject.toList)
  | promiseFinally function => function.nodes
  | promiseCombinatorElement capability values =>
      capability.nodes ++ valuesNodes (values.filterMap id)
  | proxy state => state.nodes
  | proxyRevoker reference => [reference.node]

def strong : FunctionImplementation → List GraphNode
  | bytecode function => function.strong
  | implementation => implementation.nodes

def traced : FunctionImplementation → List GraphNode
  | bytecode function => function.traced
  | implementation => implementation.nodes

def untraced : FunctionImplementation → List GraphNode
  | bytecode function => function.untraced
  | _ => []

theorem mem_strong (implementation : FunctionImplementation)
    (node : GraphNode) :
    node ∈ implementation.strong ↔
      node ∈ implementation.traced ∨ node ∈ implementation.untraced := by
  cases implementation with
  | bytecode function => exact function.mem_strong node
  | _ => simp [strong, traced, untraced]

/-- The code that a bytecode function was made from and its template. -/
def template : FunctionImplementation → Option (InstalledCodeId × Nat)
  | bytecode function => some (function.code, function.template)
  | _ => none

end FunctionImplementation

namespace HeapFunction

def strong (function : HeapFunction) : List GraphNode :=
  function.implementation.strong ++ function.object.nodes

def traced (function : HeapFunction) : List GraphNode :=
  function.implementation.traced ++ function.object.nodes

def untraced (function : HeapFunction) : List GraphNode :=
  function.implementation.untraced

theorem mem_strong (function : HeapFunction) (node : GraphNode) :
    node ∈ function.strong ↔
      node ∈ function.traced ∨ node ∈ function.untraced := by
  simp only [strong, traced, untraced, List.mem_append,
    FunctionImplementation.mem_strong]
  grind

end HeapFunction

namespace InstalledTemplate

/-- The template objects that the code of a function has made. -/
def objects (template : InstalledTemplate) : List GraphNode :=
  template.constants.flatMap fun constant =>
    match constant with
    | .templateObject object => object.toList.map .object
    | .other => []

end InstalledTemplate

namespace IteratorHelperState

def nodes (helper : IteratorHelperState) : List GraphNode :=
  functionNodes helper.callback.toList ++
    valuesNodes (helper.innerIterator.toList ++
      helper.innerNextMethod.toList) ++
    helper.concatIterables.flatMap (fun iterable =>
      valueNodes iterable.iterable ++
        [GraphNode.function iterable.openMethod]) ++
    helper.zipRecords.flatMap (fun record =>
      valuesNodes [record.iterator, record.nextMethod]) ++
    valuesNodes helper.zipPadding ++ valuesNodes helper.chunkBuffer

end IteratorHelperState

namespace IteratorRecord

def nodes (record : IteratorRecord) : List GraphNode :=
  valuesNodes [record.iterator, record.nextMethod] ++
    record.helper.toList.flatMap IteratorHelperState.nodes

end IteratorRecord

namespace ArrayStorage

def denseValues : ArrayStorage → List StoredValue
  | dense elements _ => elements.filterMap id
  | sparse => []

def densePropertyCount : ArrayStorage → Nat
  | dense _ present => present
  | sparse => 0

end ArrayStorage

def NamespaceExport.nodes : NamespaceExport → List GraphNode
  | .binding cell => [.cell cell]
  | .reexport => []

def MapEntry.nodes (entry : MapEntry) : List GraphNode :=
  valuesNodes [entry.key, entry.value]

namespace FinalizationRegistryState

def nodes (state : FinalizationRegistryState) : List GraphNode :=
  .function state.cleanupCallback ::
    valuesNodes (state.cells.map FinalizationCell.heldValue)

end FinalizationRegistryState

namespace HeapObjectKind

/-- The nodes of the kinds whose every field is traced.  What is held weakly,
and the values of a `WeakMap`, are not among them. -/
def nodes : HeapObjectKind → List GraphNode
  | proxy state => state.nodes
  | arguments parameterMap => cellNodes (parameterMap.filterMap id)
  | array storage => valuesNodes storage.denseValues
  | promise state => state.nodes
  | forInIterator current _ => referenceNodes current.toList
  | arrayIterator iterated => valuesNodes iterated.toList
  | iteratorWrapper record => record.nodes
  | regExpStringIterator matcher => valuesNodes matcher.toList
  | intlCollator boundCompare => functionNodes boundCompare.toList
  | intlNumberFormat boundFormat => functionNodes boundFormat.toList
  | intlDateTimeFormat boundFormat => functionNodes boundFormat.toList
  | intlSegments segmenter => [.object segmenter]
  | intlSegmentIterator segments => [.object segments]
  | dataView buffer => [.object buffer]
  | typedArray buffer => [.object buffer]
  | map state => state.entries.flatMap MapEntry.nodes
  | mapIterator iterated => iterated.toList.map .object
  | setIterator iterated => iterated.toList.map .object
  | finalizationRegistry state => state.nodes
  | ordinary | rawJson | error | boxedPrimitive | stringIterator | regExp
  | date | intlLocale | intlPluralRules | intlRelativeTimeFormat
  | intlListFormat | intlDisplayNames | intlDurationFormat | intlSegmenter
  | arrayBuffer _ | temporalInstant | temporalDuration | temporalPlainDate
  | temporalPlainDateTime | temporalPlainTime | temporalPlainMonthDay
  | temporalPlainYearMonth | temporalZonedDateTime | set _ | weakMap _
  | weakSet _ | weakRef _ | moduleNamespace _ => []

def strong : HeapObjectKind → List GraphNode
  | set data => data.entries.flatMap MapEntry.nodes
  | moduleNamespace exports => exports.flatMap NamespaceExport.nodes
  | kind => kind.nodes

/-- Of a `Set` the live keys are visited, and of a module namespace
nothing. -/
def traced : HeapObjectKind → List GraphNode
  | set data =>
      valuesNodes ((data.entries.filter MapEntry.live).map MapEntry.key)
  | kind => kind.nodes

def untraced : HeapObjectKind → List GraphNode
  | set data =>
      valuesNodes ((data.entries.filter (!·.live)).map MapEntry.key) ++
        valuesNodes (data.entries.map MapEntry.value)
  | moduleNamespace exports => exports.flatMap NamespaceExport.nodes
  | _ => []

theorem mem_entries (entries : List MapEntry) (node : GraphNode) :
    node ∈ entries.flatMap MapEntry.nodes ↔
      node ∈ valuesNodes ((entries.filter MapEntry.live).map MapEntry.key) ∨
        node ∈ valuesNodes
          ((entries.filter (!·.live)).map MapEntry.key) ++
          valuesNodes (entries.map MapEntry.value) := by
  induction entries with
  | nil => simp [valuesNodes]
  | cons first rest induction =>
      rw [List.flatMap_cons, List.mem_append, induction]
      cases live : first.live
      · simp only [live, List.filter_cons, valuesNodes, MapEntry.nodes,
          List.flatMap_cons, List.flatMap_nil, List.map_cons,
          List.mem_append, List.append_nil, Bool.not_false, if_true,
          Bool.false_eq_true, if_false]
        grind
      · simp only [live, List.filter_cons, valuesNodes, MapEntry.nodes,
          List.flatMap_cons, List.flatMap_nil, List.map_cons,
          List.mem_append, List.append_nil, Bool.not_true, if_true,
          Bool.false_eq_true, if_false]
        grind

theorem mem_strong (kind : HeapObjectKind) (node : GraphNode) :
    node ∈ kind.strong ↔ node ∈ kind.traced ∨ node ∈ kind.untraced := by
  cases kind with
  | set data => exact mem_entries data.entries node
  | moduleNamespace exports => simp [strong, traced, untraced, nodes]
  | _ => simp [strong, traced, untraced]

end HeapObjectKind

namespace HeapObject

def strong (object : HeapObject) : List GraphNode :=
  object.kind.strong ++ object.record.nodes

def traced (object : HeapObject) : List GraphNode :=
  object.kind.traced ++ object.record.nodes

def untraced (object : HeapObject) : List GraphNode :=
  object.kind.untraced

theorem mem_strong (object : HeapObject) (node : GraphNode) :
    node ∈ object.strong ↔ node ∈ object.traced ∨ node ∈ object.untraced := by
  simp only [strong, traced, untraced, List.mem_append,
    HeapObjectKind.mem_strong]
  grind

end HeapObject

namespace FrameBinding

def nodes : FrameBinding → List GraphNode
  | direct value => value.nodes
  | captured cell => [.cell cell]

end FrameBinding

namespace RetainedRealmGlobalReference

def traced (reference : RetainedRealmGlobalReference) : List GraphNode :=
  .object reference.object ::
    cellNodes (reference.evalBinding.toList.map Prod.snd)

/-- The scope of the shadowing binding. -/
def untraced (reference : RetainedRealmGlobalReference) : List GraphNode :=
  reference.evalBinding.toList.flatMap fun binding =>
    EvalVariableEnvironment.traceCells binding.1

end RetainedRealmGlobalReference

namespace OperandStackEntry

def traced : OperandStackEntry → List GraphNode
  | javaScript value => valueNodes value
  | capturedReference cell => [.cell cell]
  | realmGlobalReference reference => reference.traced
  | capturedReferenceAnchor | catch_ | forOfCatch | finallyReturn => []

def untraced : OperandStackEntry → List GraphNode
  | realmGlobalReference reference => reference.untraced
  | _ => []

def strong : OperandStackEntry → List GraphNode
  | javaScript value => valueNodes value
  | capturedReference cell => [.cell cell]
  | realmGlobalReference reference =>
      .object reference.object ::
        reference.evalBinding.toList.flatMap fun binding =>
          .cell binding.2 :: EvalVariableEnvironment.traceCells binding.1
  | capturedReferenceAnchor | catch_ | forOfCatch | finallyReturn => []

theorem mem_strong (entry : OperandStackEntry) (node : GraphNode) :
    node ∈ entry.strong ↔ node ∈ entry.traced ∨ node ∈ entry.untraced := by
  cases entry with
  | realmGlobalReference reference =>
      cases binding : reference.evalBinding with
      | none =>
          simp [strong, traced, untraced, binding, cellNodes,
            RetainedRealmGlobalReference.traced,
            RetainedRealmGlobalReference.untraced]
      | some binding' =>
          simp [strong, traced, untraced, binding, cellNodes,
            RetainedRealmGlobalReference.traced,
            RetainedRealmGlobalReference.untraced, or_assoc]
  | _ => simp [strong, traced, untraced]

end OperandStackEntry

namespace PendingException

def nodes : PendingException → List GraphNode
  | engineError => []
  | thrownValue value => valueNodes value

end PendingException

namespace PendingAsyncIteratorClose

def nodes : PendingAsyncIteratorClose → List GraphNode
  | normal => []
  | abrupt exception => exception.nodes

end PendingAsyncIteratorClose

def RealmGlobalBindingState.nodes : RealmGlobalBindingState → List GraphNode
  | .unresolved | .object => []
  | .lexical cell => [.cell cell]

namespace RootEnvironment

def nodes (environment : RootEnvironment) : List GraphNode :=
  environment.bindings.flatMap EnvironmentBinding.nodes ++
    environment.updatedGlobals.flatMap RealmGlobalBindingState.nodes ++
    cellNodes environment.insertedCells ++
    environment.updatedGlobalProperties.flatMap PropertySlot.nodes

end RootEnvironment

namespace DynamicFunctionReturn

def traced (dynamic : DynamicFunctionReturn) : List GraphNode :=
  .function dynamic.rootFunction :: functionNodes dynamic.construction.toList

/-- The environment of a script that is not committed yet. -/
def untraced (dynamic : DynamicFunctionReturn) : List GraphNode :=
  dynamic.pendingEnvironment.toList.flatMap RootEnvironment.nodes

def strong (dynamic : DynamicFunctionReturn) : List GraphNode :=
  .function dynamic.rootFunction ::
    dynamic.pendingEnvironment.toList.flatMap RootEnvironment.nodes ++
    functionNodes dynamic.construction.toList

end DynamicFunctionReturn

namespace NativeContinuation

def strong (continuation : NativeContinuation) : List GraphNode :=
  continuation.visited ++ continuation.unvisited

end NativeContinuation

namespace Frame

/-- The fields that are traced whole. -/
def nodes (frame : Frame) : List GraphNode :=
  .function frame.function :: valueNodes frame.receiver ++
    functionNodes frame.newTarget.toList ++
    functionNodes frame.derivedConstructor.toList ++
    cellNodes frame.derivedThisCell.toList ++
    valuesNodes (frame.argumentsSnapshot.toList.flatten) ++
    (frame.arguments ++ frame.locals).flatMap FrameBinding.nodes ++
    cellNodes (frame.ownCells.filterMap id) ++
    frame.environment.flatMap EnvironmentBinding.nodes ++
    environmentNodes frame.evalEnvironment ++
    environmentNodes frame.bodyEvalEnvironment ++
    frame.generatorResume.toList.map .object ++
    frame.generatorResult.toList.map .object ++
    frame.resumeAbrupt.toList.flatMap PendingException.nodes ++
    valuesNodes frame.pendingTailCompletion.toList ++
    frame.pendingAsyncIteratorClose.toList.flatMap
      PendingAsyncIteratorClose.nodes

def traced (frame : Frame) : List GraphNode :=
  frame.nodes ++ frame.stack.flatMap OperandStackEntry.traced ++
    frame.nativeReturns.flatMap NativeContinuation.visited ++
    frame.dynamicReturn.toList.flatMap DynamicFunctionReturn.traced

/-- The scopes of `eval` that are kept aside, and the arguments forwarded by a
default derived constructor. -/
def aside (frame : Frame) : List GraphNode :=
  environmentNodes frame.evalDeclarationEnvironment ++
    environmentNodes frame.inheritedEvalEnvironment ++
    environmentNodes frame.parameterEvalBoundary ++
    valuesNodes (frame.constructorArguments.toList.flatten) ++
    shadowNodes frame.environmentEvalShadows

def untraced (frame : Frame) : List GraphNode :=
  frame.aside ++ frame.stack.flatMap OperandStackEntry.untraced ++
    frame.nativeReturns.flatMap NativeContinuation.unvisited ++
    frame.dynamicReturn.toList.flatMap DynamicFunctionReturn.untraced

def strong (frame : Frame) : List GraphNode :=
  frame.nodes ++ frame.aside ++
    frame.stack.flatMap OperandStackEntry.strong ++
    frame.nativeReturns.flatMap NativeContinuation.strong ++
    frame.dynamicReturn.toList.flatMap DynamicFunctionReturn.strong

theorem mem_stack (stack : List OperandStackEntry) (node : GraphNode) :
    node ∈ stack.flatMap OperandStackEntry.strong ↔
      node ∈ stack.flatMap OperandStackEntry.traced ∨
        node ∈ stack.flatMap OperandStackEntry.untraced := by
  simp only [List.mem_flatMap, OperandStackEntry.mem_strong]
  constructor
  · rintro ⟨entry, member, visited | missed⟩
    · exact .inl ⟨entry, member, visited⟩
    · exact .inr ⟨entry, member, missed⟩
  · rintro (⟨entry, member, visited⟩ | ⟨entry, member, missed⟩)
    · exact ⟨entry, member, .inl visited⟩
    · exact ⟨entry, member, .inr missed⟩

theorem mem_nativeReturns (continuations : List NativeContinuation)
    (node : GraphNode) :
    node ∈ continuations.flatMap NativeContinuation.strong ↔
      node ∈ continuations.flatMap NativeContinuation.visited ∨
        node ∈ continuations.flatMap NativeContinuation.unvisited := by
  simp only [List.mem_flatMap, NativeContinuation.strong, List.mem_append]
  constructor
  · rintro ⟨continuation, member, visited | missed⟩
    · exact .inl ⟨continuation, member, visited⟩
    · exact .inr ⟨continuation, member, missed⟩
  · rintro (⟨continuation, member, visited⟩ | ⟨continuation, member, missed⟩)
    · exact ⟨continuation, member, .inl visited⟩
    · exact ⟨continuation, member, .inr missed⟩

theorem mem_dynamicReturn (dynamic : Option DynamicFunctionReturn)
    (node : GraphNode) :
    node ∈ dynamic.toList.flatMap DynamicFunctionReturn.strong ↔
      node ∈ dynamic.toList.flatMap DynamicFunctionReturn.traced ∨
        node ∈ dynamic.toList.flatMap DynamicFunctionReturn.untraced := by
  cases dynamic with
  | none => simp
  | some dynamic =>
      simp only [Option.toList_some, List.flatMap_cons, List.flatMap_nil,
        List.append_nil, DynamicFunctionReturn.strong,
        DynamicFunctionReturn.traced, DynamicFunctionReturn.untraced,
        List.mem_append, List.mem_cons]
      grind

theorem mem_strong (frame : Frame) (node : GraphNode) :
    node ∈ frame.strong ↔ node ∈ frame.traced ∨ node ∈ frame.untraced := by
  simp only [strong, traced, untraced, List.mem_append, mem_stack,
    mem_nativeReturns, mem_dynamicReturn]
  grind

end Frame

def frameTraced (frame : Option Frame) : List GraphNode :=
  frame.toList.flatMap Frame.traced

def frameUntraced (frame : Option Frame) : List GraphNode :=
  frame.toList.flatMap Frame.untraced

def frameStrong (frame : Option Frame) : List GraphNode :=
  frame.toList.flatMap Frame.strong

theorem mem_frameStrong (frame : Option Frame) (node : GraphNode) :
    node ∈ frameStrong frame ↔
      node ∈ frameTraced frame ∨ node ∈ frameUntraced frame := by
  cases frame with
  | none => simp [frameStrong, frameTraced, frameUntraced]
  | some frame =>
      simpa [frameStrong, frameTraced, frameUntraced] using
        frame.mem_strong node

def AsyncGeneratorRequest.nodes (request : AsyncGeneratorRequest) :
    List GraphNode :=
  valueNodes request.value ++ request.capability.nodes

namespace ArrayFromAsyncRecord

def nodes (record : ArrayFromAsyncRecord) : List GraphNode :=
  valuesNodes [record.constructor, record.source, record.thisArg] ++
    record.capability.nodes ++ functionNodes record.mapper.toList ++
    valuesNodes (record.target.toList ++ record.iterator.toList ++
      record.next.toList ++ record.result.toList ++
      record.originalReason.toList) ++
    record.awaiting.toList.map .object

end ArrayFromAsyncRecord

namespace SourceTextModuleRecord

def strong (module : SourceTextModuleRecord) : List GraphNode :=
  cellNodes module.environment ++
    functionNodes module.rootFunction.toList ++
    module.namespaceObject.toList.map .object ++
    module.deferredNamespace.toList.map .object ++
    module.metaObject.toList.map .object ++
    module.topLevelCapability.toList.map .object

def traced (module : SourceTextModuleRecord) : List GraphNode :=
  cellNodes module.environment ++
    functionNodes module.rootFunction.toList ++
    module.namespaceObject.toList.map .object ++
    module.metaObject.toList.map .object ++
    module.topLevelCapability.toList.map .object

/-- The cached namespace of a deferred import. -/
def untraced (module : SourceTextModuleRecord) : List GraphNode :=
  module.deferredNamespace.toList.map .object

theorem mem_strong (module : SourceTextModuleRecord) (node : GraphNode) :
    node ∈ module.strong ↔ node ∈ module.traced ∨ node ∈ module.untraced := by
  simp only [strong, traced, untraced, List.mem_append]
  grind

end SourceTextModuleRecord

end Fusor.Gc
