import Fusor.Json.Grammar
import Fusor.Runtime.StringOperations

/-!
# Assembling JSON texts

The text of a value is put together from the inside out: strings are quoted,
members get their names, and the finished parts of a container are joined
between its brackets.  Reservations are taken to succeed, so that the only
failures left are those of the strings and the lost code unit of the quoting
loop.
-/

namespace Fusor.Json

open Fusor.Runtime

inductive NativeFailure where
  | string (failure : StringFailure)
  | runtimeInvariant (message : String)
  deriving DecidableEq

/-- The conversion of a string failure at a question mark. -/
def native {α : Type} (result : Except StringFailure α) :
    Except NativeFailure α :=
  result.mapError .string

/-- A text of the source: its size hint counts three bytes for a unit. -/
def literal (text : List Char) : Except NativeFailure JsString :=
  native (JsString.fromUtf8 ((text.length + 2) / 3) text)

def isHighSurrogate (unit : UInt16) : Bool :=
  decide (0xd800 ≤ unit) && decide (unit ≤ 0xdbff)

def isLowSurrogate (unit : UInt16) : Bool :=
  decide (0xdc00 ≤ unit) && decide (unit ≤ 0xdfff)

def isLoneJsonSurrogate (value : JsString) (index : Nat) (unit : UInt16) :
    Bool :=
  if isHighSurrogate unit then
    !(value.codeUnitAt (index + 1)).any isLowSurrogate
  else if isLowSurrogate unit then
    index == 0 || !(value.codeUnitAt (index - 1)).any isHighSurrogate
  else false

/-- The digit of a nibble, in lower case. -/
def hexadecimalUnit (digit : UInt8) : UInt16 :=
  (if digit < 10 then 0x30 + digit else 0x61 + digit - 10).toUInt16

def pushUnicodeEscape (output : List UInt16) (unit : UInt16) : List UInt16 :=
  ([12, 8, 4, 0] : List UInt16).foldl
    (fun output shift =>
      output ++ [hexadecimalUnit ((unit >>> shift) &&& 0x000f).toUInt8])
    (output ++ [ascii '\\', ascii 'u'])

def shortEscape (unit : UInt16) : Option UInt16 :=
  if unit = 0x0008 then some (ascii 'b')
  else if unit = 0x0009 then some (ascii 't')
  else if unit = 0x000a then some (ascii 'n')
  else if unit = 0x000c then some (ascii 'f')
  else if unit = 0x000d then some (ascii 'r')
  else if unit = 0x0022 then some (ascii '"')
  else if unit = 0x005c then some (ascii '\\')
  else none

def pushQuotedUnit (value : JsString) (index : Nat) (unit : UInt16)
    (output : List UInt16) : List UInt16 :=
  match shortEscape unit with
  | some escape => output ++ [ascii '\\', escape]
  | none =>
      if unit < 0x0020 || isLoneJsonSurrogate value index unit then
        pushUnicodeEscape output unit
      else output ++ [unit]

/-- The loop of `quote_json_string` from an index on. -/
def quoteUnitsFrom (value : JsString) (index : Nat) (output : List UInt16) :
    Except NativeFailure (List UInt16) :=
  if index < value.len then
    match value.codeUnitAt index with
    | none =>
        .error (.runtimeInvariant "JSON string quoting lost a code unit")
    | some unit =>
        quoteUnitsFrom value (index + 1)
          (pushQuotedUnit value index unit output)
  else .ok output
termination_by value.len - index

def quoteJsonString (value : JsString) : Except NativeFailure JsString := do
  let output ← quoteUnitsFrom value 0 [ascii '"']
  let output := output ++ [ascii '"']
  native (JsString.fromCodeUnits output.length output)

def concatJsonStrings (values : List JsString) :
    Except NativeFailure JsString :=
  values.foldlM (fun output value => native (output.concat value)) .empty

def joinJsonStrings (values : List JsString) (separator : JsString) :
    Except NativeFailure JsString :=
  match values with
  | [] => .ok .empty
  | first :: rest =>
      rest.foldlM
        (fun output value => do
          let output ← native (output.concat separator)
          native (output.concat value))
        first

def jsonObjectMember (name value : JsString) (spaced : Bool) :
    Except NativeFailure JsString := do
  let quoted ← quoteJsonString name
  let colon ← literal (if spaced then [':', ' '] else [':'])
  concatJsonStrings [quoted, colon, value]

def jsonContainerText (array : Bool) (parts : List JsString)
    (indent stepBack gap : JsString) : Except NativeFailure JsString :=
  let opening := if array then '[' else '{'
  let closing := if array then ']' else '}'
  if parts.isEmpty then literal [opening, closing]
  else if gap.isEmpty then do
    let separator ← literal [',']
    let body ← joinJsonStrings parts separator
    let first ← literal [opening]
    let last ← literal [closing]
    concatJsonStrings [first, body, last]
  else do
    let newline ← literal ['\n']
    let comma ← literal [',', '\n']
    let separator ← concatJsonStrings [comma, indent]
    let body ← joinJsonStrings parts separator
    let first ← literal [opening]
    let last ← literal [closing]
    concatJsonStrings [first, newline, indent, body, newline, stepBack, last]

/-- A string of the runtime. -/
structure JsonString where
  string : JsString
  formed : string.WellFormed

/-- The text of a number, in the form of a JSON number. -/
structure JsonNumeral extends JsonString where
  numeral : Numeral string.content

/-- An indentation step made of white space. -/
structure JsonGap extends JsonString where
  blank : Blank string.content

/-- What is left of a value once its properties have been read. -/
inductive JsonValue where
  | null
  | boolean (value : Bool)
  | number (text : JsonNumeral)
  | string (value : JsonString)
  | array (elements : List JsonValue)
  | object (members : List (JsonString × JsonValue))

mutual

/-- The text of a value at an indentation, where `begin_json_container` keeps
the indentation to step back to and adds the gap. -/
def assemble (gap indent : JsString) :
    JsonValue → Except NativeFailure JsString
  | .null => literal ['n', 'u', 'l', 'l']
  | .boolean false => literal ['f', 'a', 'l', 's', 'e']
  | .boolean true => literal ['t', 'r', 'u', 'e']
  | .number text => .ok text.string
  | .string value => quoteJsonString value.string
  | .array elements => do
      let inner ← native (indent.concat gap)
      let parts ← assembleElements gap inner elements
      jsonContainerText true parts inner indent gap
  | .object members => do
      let inner ← native (indent.concat gap)
      let parts ← assembleMembers gap inner members
      jsonContainerText false parts inner indent gap

def assembleElements (gap indent : JsString) :
    List JsonValue → Except NativeFailure (List JsString)
  | [] => .ok []
  | element :: elements => do
      let first ← assemble gap indent element
      let others ← assembleElements gap indent elements
      .ok (first :: others)

def assembleMembers (gap indent : JsString) :
    List (JsonString × JsonValue) → Except NativeFailure (List JsString)
  | [] => .ok []
  | (name, value) :: members => do
      let text ← assemble gap indent value
      let first ← jsonObjectMember name.string text (!gap.isEmpty)
      let others ← assembleMembers gap indent members
      .ok (first :: others)

end

/-- A value without its spans. -/
inductive JsonData where
  | null
  | boolean (value : Bool)
  | number (value : JsNumber)
  | string (units : List UInt16)
  | array (elements : List JsonData)
  | object (members : List (List UInt16 × JsonData))

mutual

def JsonTree.data : JsonTree → JsonData
  | .null _ => .null
  | .boolean _ value => .boolean value
  | .number _ value => .number value
  | .string _ units => .string units
  | .array _ elements => .array (JsonTree.elementsData elements)
  | .object _ members => .object (JsonTree.membersData members)

def JsonTree.elementsData : List JsonTree → List JsonData
  | [] => []
  | element :: elements =>
      JsonTree.data element :: JsonTree.elementsData elements

def JsonTree.membersData :
    List (List UInt16 × JsonTree) → List (List UInt16 × JsonData)
  | [] => []
  | (key, tree) :: members =>
      (key, JsonTree.data tree) :: JsonTree.membersData members

end

mutual

def JsonValue.data (stringToNumber : List UInt16 → JsNumber) :
    JsonValue → JsonData
  | .null => .null
  | .boolean value => .boolean value
  | .number text => .number (stringToNumber text.string.content)
  | .string value => .string value.string.content
  | .array elements =>
      .array (JsonValue.elementsData stringToNumber elements)
  | .object members =>
      .object (JsonValue.membersData stringToNumber members)

def JsonValue.elementsData (stringToNumber : List UInt16 → JsNumber) :
    List JsonValue → List JsonData
  | [] => []
  | element :: elements =>
      JsonValue.data stringToNumber element ::
        JsonValue.elementsData stringToNumber elements

def JsonValue.membersData (stringToNumber : List UInt16 → JsNumber) :
    List (JsonString × JsonValue) → List (List UInt16 × JsonData)
  | [] => []
  | (name, value) :: members =>
      (name.string.content, JsonValue.data stringToNumber value) ::
        JsonValue.membersData stringToNumber members

end

end Fusor.Json
