import Fusor.RegExp.Program

/-!
# Pattern syntax trees

The syntax tree that the parser hands to the compiler, restricted to the
fields the compiler reads.  A disjunction is the list of its alternatives and
an alternative is the list of its terms.
-/

namespace Fusor.RegExp

structure Span where
  start : Nat
  stop : Nat
  deriving DecidableEq

namespace Ast

inductive BoundaryAssertionKind where
  | start
  | stop
  | boundary
  | negativeBoundary
  deriving DecidableEq

inductive LookAroundAssertionKind where
  | lookahead
  | negativeLookahead
  | lookbehind
  | negativeLookbehind
  deriving DecidableEq

inductive CharacterClassEscapeKind where
  | d
  | negativeD
  | s
  | negativeS
  | w
  | negativeW
  deriving DecidableEq

/-- The modifier bit set `ims`. -/
structure Modifier where
  i : Bool := false
  m : Bool := false
  s : Bool := false
  deriving DecidableEq

structure Modifiers where
  enabling : Modifier
  disabling : Modifier
  deriving DecidableEq

mutual

inductive CharacterClass where
  | mk (negative : Bool) (kind : CharacterClassKind)
      (body : List CharacterClassContents)

inductive CharacterClassContents where
  | characterClassRange (min max : Nat)
  | characterClassEscape (kind : CharacterClassEscapeKind)
  | character (value : Nat)
  | unicodePropertyEscape (property : UnicodeProperty)
  | nestedCharacterClass (nested : CharacterClass)
  | classStringDisjunction (body : List (List Nat))

end

inductive Term where
  | boundaryAssertion (span : Span) (kind : BoundaryAssertionKind)
  | lookAroundAssertion (span : Span) (kind : LookAroundAssertionKind)
      (body : List (List Term))
  | quantifier (span : Span) (min : UInt64) (max : Option UInt64)
      (greedy : Bool) (body : Term)
  | character (span : Span) (value : Nat)
  | dot (span : Span)
  | characterClassEscape (span : Span) (kind : CharacterClassEscapeKind)
  | unicodePropertyEscape (span : Span) (property : UnicodeProperty)
  | characterClass (span : Span) (characters : CharacterClass)
  | capturingGroup (span : Span) (name : Option String)
      (body : List (List Term))
  | ignoreGroup (span : Span) (modifiers : Option Modifiers)
      (body : List (List Term))
  | indexedReference (span : Span) (index : Nat)
  | namedReference (span : Span) (name : String)

abbrev Alternative := List Term

abbrev Disjunction := List Alternative

structure Pattern where
  body : Disjunction

def Term.span : Term → Span
  | .boundaryAssertion span _ | .lookAroundAssertion span _ _
  | .quantifier span _ _ _ _ | .character span _ | .dot span
  | .characterClassEscape span _ | .unicodePropertyEscape span _
  | .characterClass span _ | .capturingGroup span _ _
  | .ignoreGroup span _ _ | .indexedReference span _
  | .namedReference span _ => span

end Ast

end Fusor.RegExp
