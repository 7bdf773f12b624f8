import Fusor.Runtime.Value

/-!
# JSON texts

The grammar of ECMA-404 over UTF-16 code units.  A derivation carries the
offset of its text, so that every value of the tree knows its span.  Sequences
are derived from the left: a longer one extends a shorter one at its end.
-/

namespace Fusor.Json

open Fusor.Runtime

/-- The code unit of an ASCII character. -/
def ascii (character : Char) : UInt16 :=
  UInt16.ofNat character.toNat

def asciiText (characters : List Char) : List UInt16 :=
  characters.map ascii

structure JsonSpan where
  start : Nat
  stop : Nat
  deriving DecidableEq

inductive JsonTree where
  | null (span : JsonSpan)
  | boolean (span : JsonSpan) (value : Bool)
  | number (span : JsonSpan) (value : JsNumber)
  | string (span : JsonSpan) (units : List UInt16)
  | array (span : JsonSpan) (elements : List JsonTree)
  | object (span : JsonSpan) (members : List (List UInt16 × JsonTree))

def JsonTree.span : JsonTree → JsonSpan
  | null span => span
  | boolean span _ => span
  | number span _ => span
  | string span _ => span
  | array span _ => span
  | object span _ => span

/-- Tab, line feed, carriage return and space. -/
def Blank (text : List UInt16) : Prop :=
  ∀ unit ∈ text, unit = 0x09 ∨ unit = 0x0a ∨ unit = 0x0d ∨ unit = 0x20

def Digit (unit : UInt16) : Prop :=
  ascii '0' ≤ unit ∧ unit ≤ ascii '9'

/-- One or more digits. -/
def Digits (text : List UInt16) : Prop :=
  text ≠ [] ∧ ∀ unit ∈ text, Digit unit

inductive IntegerPart : List UInt16 → Prop where
  | zero : IntegerPart [ascii '0']
  | nonzero {first : UInt16} {others : List UInt16}
      (leading : Digit first) (positive : first ≠ ascii '0')
      (digits : ∀ unit ∈ others, Digit unit) : IntegerPart (first :: others)

inductive FractionPart : List UInt16 → Prop where
  | none : FractionPart []
  | some {digits : List UInt16} (formed : Digits digits) :
      FractionPart (ascii '.' :: digits)

inductive ExponentPart : List UInt16 → Prop where
  | none : ExponentPart []
  | some {marker : UInt16} {sign digits : List UInt16}
      (marked : marker = ascii 'e' ∨ marker = ascii 'E')
      (signed : sign = [] ∨ sign = [ascii '+'] ∨ sign = [ascii '-'])
      (formed : Digits digits) : ExponentPart (marker :: (sign ++ digits))

/-- A numeral: an optional minus sign, an integer without leading zeros, and
an optional fraction and exponent. -/
structure Numeral (text : List UInt16) : Prop where
  parts : ∃ sign integer fraction exponent,
    text = sign ++ (integer ++ (fraction ++ exponent)) ∧
      (sign = [] ∨ sign = [ascii '-']) ∧ IntegerPart integer ∧
        FractionPart fraction ∧ ExponentPart exponent

/-- The unit a two-character escape stands for. -/
inductive Escape : UInt16 → UInt16 → Prop where
  | quote : Escape (ascii '"') (ascii '"')
  | backslash : Escape (ascii '\\') (ascii '\\')
  | slash : Escape (ascii '/') (ascii '/')
  | backspace : Escape (ascii 'b') 0x08
  | formFeed : Escape (ascii 'f') 0x0c
  | lineFeed : Escape (ascii 'n') 0x0a
  | carriageReturn : Escape (ascii 'r') 0x0d
  | tab : Escape (ascii 't') 0x09

inductive HexDigit : UInt16 → Nat → Prop where
  | decimal {unit : UInt16} (low : ascii '0' ≤ unit) (high : unit ≤ ascii '9') :
      HexDigit unit (unit.toNat - (ascii '0').toNat)
  | lower {unit : UInt16} (low : ascii 'a' ≤ unit) (high : unit ≤ ascii 'f') :
      HexDigit unit (unit.toNat - (ascii 'a').toNat + 10)
  | upper {unit : UInt16} (low : ascii 'A' ≤ unit) (high : unit ≤ ascii 'F') :
      HexDigit unit (unit.toNat - (ascii 'A').toNat + 10)

/-- The inside of a string beside the units it stands for. -/
inductive Characters : List UInt16 → List UInt16 → Prop where
  | nil : Characters [] []
  | plain {unit : UInt16} {text decoded : List UInt16}
      (visible : 0x20 ≤ unit) (noQuote : unit ≠ ascii '"')
      (noBackslash : unit ≠ ascii '\\') (rest : Characters text decoded) :
      Characters (unit :: text) (unit :: decoded)
  | escape {escaped unit : UInt16} {text decoded : List UInt16}
      (stands : Escape escaped unit) (rest : Characters text decoded) :
      Characters (ascii '\\' :: escaped :: text) (unit :: decoded)
  | unicode {a b c d : UInt16} {w x y z : Nat} {text decoded : List UInt16}
      (first : HexDigit a w) (second : HexDigit b x) (third : HexDigit c y)
      (fourth : HexDigit d z) (rest : Characters text decoded) :
      Characters (ascii '\\' :: ascii 'u' :: a :: b :: c :: d :: text)
        (UInt16.ofNat (((w * 16 + x) * 16 + y) * 16 + z) :: decoded)

/-- A string in its quotes. -/
def Quoted (text decoded : List UInt16) : Prop :=
  ∃ inside, text = ascii '"' :: (inside ++ [ascii '"']) ∧
    Characters inside decoded

inductive JsonPhrase where
  | value (tree : JsonTree)
  | element (tree : JsonTree)
  | elements (trees : List JsonTree)
  | member (key : List UInt16) (tree : JsonTree)
  | members (entries : List (List UInt16 × JsonTree))

/-- A phrase at an offset with its text.  The text of a value has no white
space around it, that of an element or a member has all of it. -/
inductive Derives (stringToNumber : List UInt16 → JsNumber) :
    JsonPhrase → Nat → List UInt16 → Prop where
  | null {start : Nat} :
      Derives stringToNumber (.value (.null ⟨start, start + 4⟩)) start
        (asciiText ['n', 'u', 'l', 'l'])
  | true {start : Nat} :
      Derives stringToNumber (.value (.boolean ⟨start, start + 4⟩ .true)) start
        (asciiText ['t', 'r', 'u', 'e'])
  | false {start : Nat} :
      Derives stringToNumber (.value (.boolean ⟨start, start + 5⟩ .false))
        start (asciiText ['f', 'a', 'l', 's', 'e'])
  | number {start : Nat} {text : List UInt16} (numeral : Numeral text) :
      Derives stringToNumber (.value
        (.number ⟨start, start + text.length⟩ (stringToNumber text))) start text
  | string {start : Nat} {text decoded : List UInt16}
      (quoted : Quoted text decoded) :
      Derives stringToNumber (.value
        (.string ⟨start, start + text.length⟩ decoded)) start text
  | emptyArray {start : Nat} {blank : List UInt16} (space : Blank blank) :
      Derives stringToNumber (.value
        (.array ⟨start, start + (blank.length + 2)⟩ [])) start
          (ascii '[' :: (blank ++ [ascii ']']))
  | array {start : Nat} {text : List UInt16} {trees : List JsonTree}
      (inside : Derives stringToNumber (.elements trees) (start + 1) text) :
      Derives stringToNumber (.value
        (.array ⟨start, start + (text.length + 2)⟩ trees)) start
          (ascii '[' :: (text ++ [ascii ']']))
  | emptyObject {start : Nat} {blank : List UInt16} (space : Blank blank) :
      Derives stringToNumber (.value
        (.object ⟨start, start + (blank.length + 2)⟩ [])) start
          (ascii '{' :: (blank ++ [ascii '}']))
  | object {start : Nat} {text : List UInt16}
      {entries : List (List UInt16 × JsonTree)}
      (inside : Derives stringToNumber (.members entries) (start + 1) text) :
      Derives stringToNumber (.value
        (.object ⟨start, start + (text.length + 2)⟩ entries)) start
          (ascii '{' :: (text ++ [ascii '}']))
  | element {start : Nat} {left text right : List UInt16} {tree : JsonTree}
      (before : Blank left)
      (value : Derives stringToNumber (.value tree) (start + left.length) text)
      (after : Blank right) :
      Derives stringToNumber (.element tree) start (left ++ (text ++ right))
  | firstElement {start : Nat} {text : List UInt16} {tree : JsonTree}
      (only : Derives stringToNumber (.element tree) start text) :
      Derives stringToNumber (.elements [tree]) start text
  | nextElement {start : Nat} {text next : List UInt16}
      {trees : List JsonTree} {tree : JsonTree}
      (first : Derives stringToNumber (.elements trees) start text)
      (last : Derives stringToNumber (.element tree)
        (start + (text.length + 1)) next) :
      Derives stringToNumber (.elements (trees ++ [tree])) start
        (text ++ ascii ',' :: next)
  | member {start : Nat} {left name middle text key : List UInt16}
      {tree : JsonTree} (before : Blank left) (quoted : Quoted name key)
      (between : Blank middle)
      (value : Derives stringToNumber (.element tree)
        (start + (left.length + name.length + middle.length + 1)) text) :
      Derives stringToNumber (.member key tree) start
        (left ++ (name ++ (middle ++ ascii ':' :: text)))
  | firstMember {start : Nat} {text key : List UInt16} {tree : JsonTree}
      (only : Derives stringToNumber (.member key tree) start text) :
      Derives stringToNumber (.members [(key, tree)]) start text
  | nextMember {start : Nat} {text next key : List UInt16}
      {entries : List (List UInt16 × JsonTree)} {tree : JsonTree}
      (first : Derives stringToNumber (.members entries) start text)
      (last : Derives stringToNumber (.member key tree)
        (start + (text.length + 1)) next) :
      Derives stringToNumber (.members (entries ++ [(key, tree)])) start
        (text ++ ascii ',' :: next)

/-- A whole text with the tree of its value. -/
def JsonText (stringToNumber : List UInt16 → JsNumber) (text : List UInt16)
    (tree : JsonTree) : Prop :=
  Derives stringToNumber (.element tree) 0 text

end Fusor.Json
