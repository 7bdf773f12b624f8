import Mathlib.Data.List.Basic

/-!
# Regular-expression programs

The flat instruction form that the compiler emits and the executor runs:
flags, match modes, lowered character classes and instructions.  Code points
are natural numbers; repetition bounds keep their 64-bit width.
-/

namespace Fusor.RegExp

structure MatchMode where
  ignoreCase : Bool
  multiline : Bool
  dotAll : Bool
  unicode : Bool
  unicodeSets : Bool
  deriving DecidableEq

structure RegExpFlags where
  hasIndices : Bool := false
  global : Bool := false
  ignoreCase : Bool := false
  multiline : Bool := false
  dotAll : Bool := false
  unicode : Bool := false
  unicodeSets : Bool := false
  sticky : Bool := false
  deriving DecidableEq

namespace RegExpFlags

def unicodeMode (flags : RegExpFlags) : Bool :=
  flags.unicode || flags.unicodeSets

def initialMode (flags : RegExpFlags) : MatchMode where
  ignoreCase := flags.ignoreCase
  multiline := flags.multiline
  dotAll := flags.dotAll
  unicode := flags.unicodeMode
  unicodeSets := flags.unicodeSets

end RegExpFlags

inductive BoundaryKind where
  | start
  | stop
  | word
  | notWord
  deriving DecidableEq

inductive Direction where
  | forward
  | backward
  deriving DecidableEq

inductive LookaroundKind where
  | ahead
  | negativeAhead
  | behind
  | negativeBehind
  deriving DecidableEq

namespace LookaroundKind

def negative : LookaroundKind → Bool
  | .negativeAhead | .negativeBehind => true
  | .ahead | .behind => false

def direction : LookaroundKind → Direction
  | .ahead | .negativeAhead => .forward
  | .behind | .negativeBehind => .backward

end LookaroundKind

/-- A `\p` property as it is compiled.  Its membership test belongs to the
Unicode data and is a parameter of the executor. -/
structure UnicodeProperty where
  negative : Bool
  strings : Bool
  name : String
  value : Option String
  deriving DecidableEq

inductive CharacterClassKind where
  | union
  | intersection
  | subtraction
  deriving DecidableEq

mutual

inductive CharacterClass where
  | mk (negative : Bool) (kind : CharacterClassKind)
      (items : List CharacterClassItem) (strings : List (List Nat))
      (hasStringProperties : Bool)

inductive CharacterClassItem where
  | range (start stop : Nat)
  | digit (negative : Bool)
  | space (negative : Bool)
  | word (negative : Bool)
  | unicodeProperty (property : UnicodeProperty)
  | nested (nestedClass : CharacterClass)
  | string (value : List Nat)

end

namespace CharacterClass

def strings : CharacterClass → List (List Nat)
  | .mk _ _ _ strings _ => strings

def hasStringProperties : CharacterClass → Bool
  | .mk _ _ _ _ hasStringProperties => hasStringProperties

end CharacterClass

inductive Instruction where
  | character (value : Nat) (mode : MatchMode)
  | dot (mode : MatchMode)
  | characterClass (characters : CharacterClass) (mode : MatchMode)
  | boundary (kind : BoundaryKind) (mode : MatchMode)
  | saveStart (index : Nat)
  | saveEnd (index : Nat)
  | backReference (captures : List Nat) (mode : MatchMode)
  | lookaround (kind : LookaroundKind) (body exit : Nat)
  | lookaroundAccept (kind : LookaroundKind)
  | split (first second : Nat)
  | jump (target : Nat)
  | repeatHead (slot : Nat) (min : UInt64) (max : Option UInt64) (greedy : Bool)
      (body exit captureStart captureEnd : Nat)
  | repeatEnd (slot head : Nat)
  | matched

structure Program where
  instructions : List Instruction
  captureCount : Nat
  captureNames : List (Option String)
  repeatCount : Nat
  flags : RegExpFlags

end Fusor.RegExp
