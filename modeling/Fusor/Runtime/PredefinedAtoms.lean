import Fusor.Runtime.JsString
import Mathlib.Data.Nat.Bitwise

/-!
# The predefined atoms

The vocabulary that every table starts with, in the order of the ordinals:
strings, one private name, and the well-known symbols.
-/

namespace Fusor.Runtime

inductive PredefinedAtomKind where
  | string
  | privateName
  | symbol
  deriving DecidableEq

structure PredefinedAtomSpec where
  text : String
  kind : PredefinedAtomKind

def predefinedStrings : List String :=
  ["null", "false", "true", "if", "else", "return", "var", "this", "delete",
   "void", "typeof", "new", "in", "instanceof", "do", "while", "for", "break",
   "continue", "switch", "case", "default", "throw", "try", "catch",
   "finally", "function", "debugger", "with", "class", "const", "enum",
   "export", "extends", "import", "super", "implements", "interface", "let",
   "package", "private", "protected", "public", "static", "yield", "await",
   "", "keys", "size", "length", "fileName", "lineNumber", "columnNumber",
   "message", "cause", "errors", "stack", "name", "toString",
   "toLocaleString", "valueOf", "eval", "prototype", "constructor",
   "configurable", "writable", "enumerable", "value", "get", "set", "of",
   "__proto__", "undefined", "number", "boolean", "string", "object",
   "symbol", "integer", "unknown", "arguments", "callee", "caller", "<eval>",
   "<ret>", "<var>", "<arg_var>", "<with>", "lastIndex", "target", "index",
   "input", "defineProperties", "apply", "join", "concat", "split",
   "construct", "getPrototypeOf", "setPrototypeOf", "isExtensible",
   "preventExtensions", "has", "deleteProperty", "defineProperty",
   "getOwnPropertyDescriptor", "ownKeys", "add", "done", "next", "values",
   "source", "flags", "global", "unicode", "raw", "rawJSON", "new.target",
   "this.active_func", "<home_object>", "<computed_field>",
   "<static_computed_field>", "<class_fields_init>", "<brand>",
   "#constructor", "as", "from", "meta", "*default*", "*", "Module", "then",
   "resolve", "reject", "promise", "proxy", "revoke", "async", "exec",
   "groups", "indices", "status", "reason", "globalThis", "bigint", "-0",
   "Infinity", "-Infinity", "NaN", "hasIndices", "ignoreCase", "multiline",
   "dotAll", "sticky", "unicodeSets", "not-equal", "timed-out", "ok",
   "toISOString", "alphabet", "lastChunkHandling", "omitPadding", "toJSON",
   "maxByteLength", "Object", "Array", "Error", "Number", "String", "Boolean",
   "Symbol", "Arguments", "Math", "JSON", "Date", "Function",
   "GeneratorFunction", "ForInIterator", "RegExp", "ArrayBuffer",
   "SharedArrayBuffer", "Uint8ClampedArray", "Int8Array", "Uint8Array",
   "Int16Array", "Uint16Array", "Int32Array", "Uint32Array", "BigInt64Array",
   "BigUint64Array", "Float16Array", "Float32Array", "Float64Array",
   "DataView", "BigInt", "WeakRef", "FinalizationRegistry", "Map", "Set",
   "WeakMap", "WeakSet", "Iterator", "Iterator Helper", "Iterator Concat",
   "Iterator Wrap", "Map Iterator", "Set Iterator", "Array Iterator",
   "String Iterator", "RegExp String Iterator", "Generator", "Proxy",
   "Promise", "PromiseResolveFunction", "PromiseRejectFunction",
   "AsyncFunction", "AsyncFunctionResolve", "AsyncFunctionReject",
   "AsyncGeneratorFunction", "AsyncGenerator", "EvalError", "RangeError",
   "ReferenceError", "SyntaxError", "TypeError", "URIError", "InternalError",
   "AggregateError"]

def predefinedSymbols : List String :=
  ["Symbol.toPrimitive", "Symbol.iterator", "Symbol.match", "Symbol.matchAll",
   "Symbol.replace", "Symbol.search", "Symbol.split", "Symbol.toStringTag",
   "Symbol.isConcatSpreadable", "Symbol.hasInstance", "Symbol.species",
   "Symbol.unscopables", "Symbol.asyncIterator", "Symbol.dispose",
   "IntlLegacyConstructedSymbol"]

def predefinedAtomSpecs : List PredefinedAtomSpec :=
  predefinedStrings.map (PredefinedAtomSpec.mk · .string) ++
    PredefinedAtomSpec.mk "<brand>" .privateName ::
      predefinedSymbols.map (PredefinedAtomSpec.mk · .symbol)

namespace PredefinedAtomSpec

/-- The code units of the text. -/
def description (spec : PredefinedAtomSpec) : List UInt16 :=
  JsString.encodeUtf16 spec.text.toList

end PredefinedAtomSpec

/-- The units of a text in one number. -/
def packUnits (units : List UInt16) : Nat :=
  units.foldl (fun packed unit => packed * 65536 + unit.toNat) 1

/-- No number of the list is a bit of `seen` or comes twice. -/
def freshFrom (seen : Nat) : List Nat → Bool
  | [] => true
  | number :: rest =>
    !seen.testBit number && freshFrom (seen ||| 2 ^ number) rest

theorem freshFrom_sound (numbers : List Nat) :
    ∀ seen, freshFrom seen numbers →
      numbers.Nodup ∧ ∀ number ∈ numbers, seen.testBit number = false := by
  induction numbers with
  | nil => exact fun _ _ => ⟨.nil, by simp⟩
  | cons number rest ih =>
    intro seen fresh
    simp only [freshFrom, Bool.and_eq_true, Bool.not_eq_true'] at fresh
    obtain ⟨nodup, apart⟩ := ih _ fresh.2
    simp only [Nat.testBit_or, Nat.testBit_two_pow, Bool.or_eq_false_iff,
      decide_eq_false_iff_not] at apart
    exact ⟨nodup.cons fun member => (apart _ member).2 rfl,
      List.forall_mem_cons.mpr
        ⟨fresh.1, fun other member => (apart other member).1⟩⟩

theorem spelled_cons {text : String} {texts : List String}
    {spelling : List Char} {spellings : List (List Char)}
    (first : text = String.ofList spelling)
    (rest : texts = spellings.map String.ofList) :
    text :: texts = (spelling :: spellings).map String.ofList := by
  rw [first, rest, List.map_cons]

-- 2947 is the least modulus that keeps the texts apart.
theorem spelled_predefinedStrings : ∃ spellings : List (List Char),
    predefinedStrings = spellings.map String.ofList ∧
      freshFrom 0 (spellings.map fun spelling =>
        packUnits (JsString.encodeUtf16 spelling) % 2947) ∧
      (spellings.map fun spelling =>
        (JsString.encodeUtf16 spelling).length).sum = 1859 := by
  apply Exists.intro
  refine ⟨?_, ?_, ?_⟩
  · dsimp only [predefinedStrings]
    repeat apply spelled_cons rfl
    exact List.map_nil.symm
  all_goals decide +kernel

/-- No two predefined strings have the same text. -/
theorem nodup_predefinedStrings :
    (predefinedStrings.map fun text =>
      JsString.encodeUtf16 text.toList).Nodup := by
  obtain ⟨spellings, spelled, fresh, -⟩ := spelled_predefinedStrings
  apply List.Nodup.of_map (packUnits · % 2947)
  simpa [spelled, Function.comp_def] using (freshFrom_sound _ _ fresh).1

theorem spelled_predefinedSymbols : ∃ spellings : List (List Char),
    "<brand>" :: predefinedSymbols = spellings.map String.ofList ∧
      (spellings.map fun spelling =>
        (JsString.encodeUtf16 spelling).length).sum = 260 := by
  apply Exists.intro
  refine ⟨?_, ?_⟩
  · dsimp only [predefinedSymbols]
    repeat apply spelled_cons rfl
    exact List.map_nil.symm
  · decide +kernel

theorem sum_predefinedAtomSpecs :
    (predefinedAtomSpecs.map (·.description.length)).sum = 2119 := by
  obtain ⟨strings, spelledStrings, -, sumStrings⟩ := spelled_predefinedStrings
  obtain ⟨others, spelledOthers, sumOthers⟩ := spelled_predefinedSymbols
  have texts : predefinedAtomSpecs.map (·.description.length) =
      (predefinedStrings ++ "<brand>" :: predefinedSymbols).map fun text =>
        (JsString.encodeUtf16 text.toList).length := by
    simp [predefinedAtomSpecs, PredefinedAtomSpec.description,
      Function.comp_def]
  rw [texts, spelledStrings, spelledOthers, List.map_append, List.sum_append,
    List.map_map, List.map_map]
  simp [Function.comp_def, sumStrings, sumOthers]

end Fusor.Runtime
