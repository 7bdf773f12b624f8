import Fusor.Gc.Heap

/-!
# The intrinsics of a realm

A realm keeps the identities of its intrinsic objects and functions.  The
collector marks a part of them as roots; the others it expects to reach
through the properties of the marked ones.
-/

namespace Fusor.Gc

/-- The intrinsics of a constructor: `Boolean`, `Number`, `Array` and the
others that have a constructor and a prototype only. -/
structure ConstructorIntrinsics where
  prototype : ObjectId
  constructor : FunctionId

/-- The intrinsics of `Map` and `Set`. -/
structure CollectionIntrinsics where
  prototype : ObjectId
  constructor : FunctionId
  iteratorPrototype : ObjectId

structure ErrorIntrinsics where
  entries : List ConstructorIntrinsics
  toString : FunctionId
  stackGetter : FunctionId
  stackSetter : FunctionId
  isError : FunctionId

structure TypedArrayIntrinsics where
  prototype : ObjectId
  instancePrototypes : List ObjectId
  constructors : List FunctionId

structure IntlIntrinsics where
  namespaceObject : ObjectId
  collator : ConstructorIntrinsics
  collatorCompare : FunctionId
  numberFormat : ConstructorIntrinsics
  numberFormatFormat : FunctionId
  dateTimeFormat : ConstructorIntrinsics
  dateTimeFormatFormat : FunctionId
  pluralRules : ConstructorIntrinsics
  relativeTimeFormat : ConstructorIntrinsics
  listFormat : ConstructorIntrinsics
  displayNames : ConstructorIntrinsics
  durationFormat : ConstructorIntrinsics
  segmenter : ConstructorIntrinsics
  segmentsPrototype : ObjectId
  segmentIteratorPrototype : ObjectId
  locale : ConstructorIntrinsics

structure TemporalIntrinsics where
  namespaceObject : ObjectId
  now : ObjectId
  duration : ConstructorIntrinsics
  instant : ConstructorIntrinsics
  plainDate : ConstructorIntrinsics
  plainDateTime : ConstructorIntrinsics
  plainTime : ConstructorIntrinsics
  plainMonthDay : ConstructorIntrinsics
  plainYearMonth : ConstructorIntrinsics
  zonedDateTime : ConstructorIntrinsics

structure IteratorIntrinsics where
  constructor : FunctionId
  iteratorPrototype : ObjectId
  helperPrototype : ObjectId
  wrapperPrototype : ObjectId
  asyncIteratorPrototype : ObjectId
  asyncFromSyncIteratorPrototype : ObjectId
  asyncFromSyncIteratorNext : FunctionId
  arrayIteratorPrototype : ObjectId
  stringIteratorPrototype : ObjectId
  regexpStringIteratorPrototype : ObjectId
  arrayValues : FunctionId

structure GeneratorIntrinsics where
  functionConstructor : FunctionId
  functionPrototype : ObjectId
  generatorPrototype : ObjectId

structure AsyncFunctionIntrinsics where
  functionConstructor : FunctionId
  functionPrototype : ObjectId

structure ReadyIntrinsics where
  functionPrototype : FunctionId
  throwTypeError : FunctionId
  functionConstructor : FunctionId
  errors : ErrorIntrinsics
  boolean : ConstructorIntrinsics
  number : ConstructorIntrinsics
  bigint : ConstructorIntrinsics
  string : ConstructorIntrinsics
  array : ConstructorIntrinsics
  arrayBuffer : ConstructorIntrinsics
  sharedArrayBuffer : ConstructorIntrinsics
  dataView : ConstructorIntrinsics
  typedArray : TypedArrayIntrinsics
  date : ConstructorIntrinsics
  intl : IntlIntrinsics
  temporal : TemporalIntrinsics
  map : CollectionIntrinsics
  set : CollectionIntrinsics
  weakMap : ConstructorIntrinsics
  weakSet : ConstructorIntrinsics
  weakRef : ConstructorIntrinsics
  finalizationRegistry : ConstructorIntrinsics
  promise : ConstructorIntrinsics
  regexp : ConstructorIntrinsics
  symbol : ConstructorIntrinsics
  iterators : IteratorIntrinsics
  generators : GeneratorIntrinsics
  asyncFunctions : AsyncFunctionIntrinsics
  asyncGenerators : GeneratorIntrinsics

inductive RealmIntrinsics where
  | initializing
  | ready (intrinsics : ReadyIntrinsics)

structure RealmState where
  objectPrototype : ObjectId
  globalObject : ObjectId
  intrinsics : RealmIntrinsics
  globalBindings : List RealmGlobalBindingId

namespace ConstructorIntrinsics

def nodes (intrinsics : ConstructorIntrinsics) : List GraphNode :=
  [.object intrinsics.prototype, .function intrinsics.constructor]

end ConstructorIntrinsics

namespace CollectionIntrinsics

def nodes (intrinsics : CollectionIntrinsics) : List GraphNode :=
  [.object intrinsics.prototype, .object intrinsics.iteratorPrototype,
    .function intrinsics.constructor]

end CollectionIntrinsics

namespace ErrorIntrinsics

def nodes (intrinsics : ErrorIntrinsics) : List GraphNode :=
  intrinsics.entries.flatMap ConstructorIntrinsics.nodes ++
    [GraphNode.function intrinsics.toString, .function intrinsics.stackGetter,
      .function intrinsics.stackSetter, .function intrinsics.isError]

end ErrorIntrinsics

namespace TypedArrayIntrinsics

def nodes (intrinsics : TypedArrayIntrinsics) : List GraphNode :=
  .object intrinsics.prototype ::
    intrinsics.instancePrototypes.map .object ++
    intrinsics.constructors.map .function

end TypedArrayIntrinsics

namespace IntlIntrinsics

def strong (intrinsics : IntlIntrinsics) : List GraphNode :=
  .object intrinsics.namespaceObject ::
    [intrinsics.collator, intrinsics.numberFormat, intrinsics.dateTimeFormat,
      intrinsics.pluralRules, intrinsics.relativeTimeFormat,
      intrinsics.listFormat, intrinsics.displayNames,
      intrinsics.durationFormat, intrinsics.segmenter,
      intrinsics.locale].flatMap ConstructorIntrinsics.nodes ++
    [GraphNode.function intrinsics.collatorCompare,
      .function intrinsics.numberFormatFormat,
      .function intrinsics.dateTimeFormatFormat,
      .object intrinsics.segmentsPrototype,
      .object intrinsics.segmentIteratorPrototype]

def traced (intrinsics : IntlIntrinsics) : List GraphNode :=
  [.object intrinsics.namespaceObject,
    .object intrinsics.collator.prototype,
    .function intrinsics.collator.constructor,
    .function intrinsics.collatorCompare,
    .object intrinsics.numberFormat.prototype,
    .function intrinsics.numberFormat.constructor,
    .function intrinsics.numberFormatFormat,
    .object intrinsics.dateTimeFormat.prototype,
    .function intrinsics.dateTimeFormat.constructor,
    .function intrinsics.dateTimeFormatFormat,
    .object intrinsics.pluralRules.prototype,
    .function intrinsics.pluralRules.constructor,
    .object intrinsics.locale.prototype,
    .function intrinsics.locale.constructor,
    .object intrinsics.segmenter.prototype,
    .object intrinsics.segmentsPrototype,
    .object intrinsics.segmentIteratorPrototype,
    .function intrinsics.segmenter.constructor]

def untraced (intrinsics : IntlIntrinsics) : List GraphNode :=
  [intrinsics.relativeTimeFormat, intrinsics.listFormat,
    intrinsics.displayNames, intrinsics.durationFormat].flatMap
    ConstructorIntrinsics.nodes

theorem mem_strong (intrinsics : IntlIntrinsics) (node : GraphNode) :
    node ∈ intrinsics.strong ↔
      node ∈ intrinsics.traced ∨ node ∈ intrinsics.untraced := by
  simp only [strong, traced, untraced, ConstructorIntrinsics.nodes,
    List.flatMap_cons, List.flatMap_nil, List.mem_append, List.mem_cons,
    List.not_mem_nil]
  grind

end IntlIntrinsics

namespace TemporalIntrinsics

def strong (intrinsics : TemporalIntrinsics) : List GraphNode :=
  .object intrinsics.namespaceObject :: .object intrinsics.now ::
    [intrinsics.duration, intrinsics.instant, intrinsics.plainDate,
      intrinsics.plainDateTime, intrinsics.plainTime,
      intrinsics.plainMonthDay, intrinsics.plainYearMonth,
      intrinsics.zonedDateTime].flatMap ConstructorIntrinsics.nodes

def traced (intrinsics : TemporalIntrinsics) : List GraphNode :=
  [.object intrinsics.namespaceObject,
    .object intrinsics.duration.prototype,
    .function intrinsics.duration.constructor,
    .object intrinsics.instant.prototype,
    .function intrinsics.instant.constructor]

def untraced (intrinsics : TemporalIntrinsics) : List GraphNode :=
  .object intrinsics.now ::
    [intrinsics.plainDate, intrinsics.plainDateTime, intrinsics.plainTime,
      intrinsics.plainMonthDay, intrinsics.plainYearMonth,
      intrinsics.zonedDateTime].flatMap ConstructorIntrinsics.nodes

theorem mem_strong (intrinsics : TemporalIntrinsics) (node : GraphNode) :
    node ∈ intrinsics.strong ↔
      node ∈ intrinsics.traced ∨ node ∈ intrinsics.untraced := by
  simp only [strong, traced, untraced, ConstructorIntrinsics.nodes,
    List.flatMap_cons, List.flatMap_nil, List.mem_append, List.mem_cons,
    List.not_mem_nil]
  grind

end TemporalIntrinsics

namespace IteratorIntrinsics

def prototypes (intrinsics : IteratorIntrinsics) : List GraphNode :=
  [.object intrinsics.iteratorPrototype, .object intrinsics.helperPrototype,
    .object intrinsics.wrapperPrototype,
    .object intrinsics.asyncIteratorPrototype,
    .object intrinsics.asyncFromSyncIteratorPrototype,
    .object intrinsics.arrayIteratorPrototype,
    .object intrinsics.stringIteratorPrototype,
    .object intrinsics.regexpStringIteratorPrototype]

def strong (intrinsics : IteratorIntrinsics) : List GraphNode :=
  .function intrinsics.constructor :: intrinsics.prototypes ++
    [GraphNode.function intrinsics.asyncFromSyncIteratorNext,
      .function intrinsics.arrayValues]

def traced (intrinsics : IteratorIntrinsics) : List GraphNode :=
  intrinsics.prototypes ++ [GraphNode.function intrinsics.constructor]

def untraced (intrinsics : IteratorIntrinsics) : List GraphNode :=
  [.function intrinsics.asyncFromSyncIteratorNext,
    .function intrinsics.arrayValues]

theorem mem_strong (intrinsics : IteratorIntrinsics) (node : GraphNode) :
    node ∈ intrinsics.strong ↔
      node ∈ intrinsics.traced ∨ node ∈ intrinsics.untraced := by
  simp only [strong, traced, untraced, List.mem_append, List.mem_cons,
    List.not_mem_nil]
  grind

end IteratorIntrinsics

namespace GeneratorIntrinsics

def nodes (intrinsics : GeneratorIntrinsics) : List GraphNode :=
  [.object intrinsics.functionPrototype,
    .object intrinsics.generatorPrototype,
    .function intrinsics.functionConstructor]

end GeneratorIntrinsics

namespace AsyncFunctionIntrinsics

def nodes (intrinsics : AsyncFunctionIntrinsics) : List GraphNode :=
  [.object intrinsics.functionPrototype,
    .function intrinsics.functionConstructor]

end AsyncFunctionIntrinsics

namespace ReadyIntrinsics

/-- The intrinsics of which every identity is a root. -/
def plain (intrinsics : ReadyIntrinsics) : List GraphNode :=
  [GraphNode.function intrinsics.functionPrototype,
    .function intrinsics.throwTypeError,
    .function intrinsics.functionConstructor] ++
    intrinsics.date.nodes ++ intrinsics.errors.nodes ++
    intrinsics.boolean.nodes ++ intrinsics.number.nodes ++
    intrinsics.bigint.nodes ++ intrinsics.string.nodes ++
    intrinsics.array.nodes ++ intrinsics.arrayBuffer.nodes ++
    intrinsics.sharedArrayBuffer.nodes ++ intrinsics.dataView.nodes ++
    intrinsics.typedArray.nodes ++ intrinsics.map.nodes ++
    intrinsics.weakMap.nodes ++ intrinsics.weakSet.nodes ++
    intrinsics.weakRef.nodes ++ intrinsics.finalizationRegistry.nodes ++
    intrinsics.set.nodes ++ intrinsics.promise.nodes ++
    intrinsics.regexp.nodes ++ intrinsics.symbol.nodes ++
    intrinsics.generators.nodes ++ intrinsics.asyncFunctions.nodes ++
    intrinsics.asyncGenerators.nodes

def strong (intrinsics : ReadyIntrinsics) : List GraphNode :=
  intrinsics.plain ++ intrinsics.intl.strong ++ intrinsics.temporal.strong ++
    intrinsics.iterators.strong

def traced (intrinsics : ReadyIntrinsics) : List GraphNode :=
  intrinsics.plain ++ intrinsics.intl.traced ++ intrinsics.temporal.traced ++
    intrinsics.iterators.traced

def untraced (intrinsics : ReadyIntrinsics) : List GraphNode :=
  intrinsics.intl.untraced ++ intrinsics.temporal.untraced ++
    intrinsics.iterators.untraced

theorem mem_strong (intrinsics : ReadyIntrinsics) (node : GraphNode) :
    node ∈ intrinsics.strong ↔
      node ∈ intrinsics.traced ∨ node ∈ intrinsics.untraced := by
  simp only [strong, traced, untraced, List.mem_append,
    IntlIntrinsics.mem_strong, TemporalIntrinsics.mem_strong,
    IteratorIntrinsics.mem_strong]
  grind

end ReadyIntrinsics

namespace RealmIntrinsics

def strong : RealmIntrinsics → List GraphNode
  | initializing => []
  | ready intrinsics => intrinsics.strong

def traced : RealmIntrinsics → List GraphNode
  | initializing => []
  | ready intrinsics => intrinsics.traced

def untraced : RealmIntrinsics → List GraphNode
  | initializing => []
  | ready intrinsics => intrinsics.untraced

theorem mem_strong (intrinsics : RealmIntrinsics) (node : GraphNode) :
    node ∈ intrinsics.strong ↔
      node ∈ intrinsics.traced ∨ node ∈ intrinsics.untraced := by
  cases intrinsics with
  | initializing => simp [strong, traced, untraced]
  | ready intrinsics => exact intrinsics.mem_strong node

end RealmIntrinsics

end Fusor.Gc
