import Fusor.RegExp.Captures

/-!
# Continuation semantics of patterns

The matchers of ECMA-262 for patterns without quantifiers.  A matcher takes a
state and a continuation and answers the first success; groups are numbered
by the left parentheses before them.  Reading one character, matching a class
and canonicalization are given.
-/

namespace Fusor.RegExp

namespace Spec

open Ast

/-- The states of the specification; `captures` starts with group one. -/
structure MatchState where
  endIndex : Nat
  captures : List (Option (Nat × Nat))
  deriving DecidableEq

abbrev Continuation := MatchState → Option MatchState

abbrev Matcher := MatchState → Continuation → Option MatchState

section Characters

variable (data : UnicodeData) (input : Input)

/-- The character next to a position and the position behind it. -/
def readCharacter (direction : Direction) (unicode : Bool)
    (position : Nat) : Option (Nat × Nat) :=
  match decodeInDirection input position unicode direction with
  | .ok character => character
  | .error _ => none

def characterSatisfies (direction : Direction) (unicode : Bool)
    (position : Nat) (holds : Nat → Bool) : Bool :=
  (readCharacter input direction unicode position).any fun read =>
    holds read.1

def isBoundary (kind : BoundaryAssertionKind) (mode : MatchMode)
    (position : Nat) : Bool :=
  let atWord (direction : Direction) :=
    characterSatisfies input direction mode.unicode position
      (isWord data · mode)
  match kind with
  | .start => position = 0 ∨ mode.multiline ∧
      characterSatisfies input .backward mode.unicode position isLineTerminator
  | .stop => position = input.length ∨ mode.multiline ∧
      characterSatisfies input .forward mode.unicode position isLineTerminator
  | .boundary => atWord .backward ≠ atWord .forward
  | .negativeBoundary => atWord .backward = atWord .forward

/-- The characters from one end of a range to the other, in the order in which
the direction meets them. -/
def textBetween (unicode : Bool) (direction : Direction) :
    (fuel start stop : Nat) → Option (List Nat)
  | 0, start, stop => if stop ≤ start then some [] else none
  | fuel + 1, start, stop =>
      if stop ≤ start then some []
      else
        match direction with
        | .forward =>
            (readCharacter input .forward unicode start).bind fun read =>
              if stop < read.2 then none
              else (textBetween unicode direction fuel read.2 stop).map
                (read.1 :: ·)
        | .backward =>
            (readCharacter input .backward unicode stop).bind fun read =>
              if read.2 < start then none
              else (textBetween unicode direction fuel start read.2).map
                (read.1 :: ·)

def readCharacters (unicode : Bool) (direction : Direction) :
    (count position : Nat) → Option (List Nat × Nat)
  | 0, position => some ([], position)
  | count + 1, position =>
      (readCharacter input direction unicode position).bind
        fun (value, next) =>
          (readCharacters unicode direction count next).map
            fun (values, final) => (value :: values, final)

/-- The number of a group leads to its value; there is no group zero. -/
def captured (captures : List (Option (Nat × Nat))) (index : Nat) :
    Option (Nat × Nat) :=
  (none :: captures)[index]?.join

/-- The position behind as many characters as the text has, if they are
canonically the same. -/
def matchText (mode : MatchMode) (direction : Direction) (position : Nat)
    (text : List Nat) : Option Nat :=
  (readCharacters input mode.unicode direction text.length position).bind
    fun (actual, next) =>
      if text.map (canonicalize data · mode) =
          actual.map (canonicalize data · mode) then some next
      else none

/-- BackreferenceMatcher: an unset group matches empty, a set one matches the
text it has captured. -/
def backreferenceMatcher (mode : MatchMode) (direction : Direction)
    (indices : List Nat) : Matcher :=
  fun state continuation =>
    match indices.findSome? (captured state.captures) with
    | none => continuation state
    | some (start, stop) =>
        (textBetween input mode.unicode direction (stop - start) start
            stop).bind fun text =>
          (matchText data input mode direction state.endIndex text).bind
            fun next => continuation { state with endIndex := next }

end Characters

/-- The range of a group that was entered and left at two positions. -/
def captureRange (direction : Direction) (entered left : Nat) : Nat × Nat :=
  match direction with
  | .forward => (entered, left)
  | .backward => (left, entered)

/-- A lookaround asks its body for one success; a positive one keeps the
captures of that success and the position of the state. -/
def lookaroundMatcher (kind : LookAroundAssertionKind)
    (body : Direction → Matcher) : Matcher :=
  fun state continuation =>
    match kind with
    | .lookahead => (body .forward state some).bind fun final =>
        continuation { state with captures := final.captures }
    | .lookbehind => (body .backward state some).bind fun final =>
        continuation { state with captures := final.captures }
    | .negativeLookahead =>
        if (body .forward state some).isSome then none else continuation state
    | .negativeLookbehind =>
        if (body .backward state some).isSome then none else continuation state

/-- UpdateModifiers. -/
def updateModifiers (mode : MatchMode) : Option Modifiers → MatchMode
  | none => mode
  | some ⟨add, remove⟩ => { mode with
      ignoreCase := !remove.i && (add.i || mode.ignoreCase)
      multiline := !remove.m && (add.m || mode.multiline)
      dotAll := !remove.s && (add.s || mode.dotAll) }

/-- The given single-character and class matchers. -/
def tokenOf (maxNesting : Nat) (mode : MatchMode) : Term → Option Token
  | .character _ value => some (.character value mode)
  | .dot _ => some (.dot mode)
  | .characterClassEscape _ kind => some (.characterClass
      (.mk false .union [classEscape kind] [] false) mode)
  | .unicodePropertyEscape _ property =>
      (lowerUnicodeProperty property).toOption.map fun lowered =>
        .characterClass (.mk false .union [.unicodeProperty lowered] []
          property.strings) mode
  | .characterClass _ characters =>
      (lowerCharacterClass characters 0 maxNesting).toOption.map fun lowered =>
        .characterClass lowered mode
  | _ => none

mutual

def termQuantifierFree : Term → Prop
  | .quantifier .. => False
  | .lookAroundAssertion _ _ body | .capturingGroup _ _ body
  | .ignoreGroup _ _ body => disjunctionQuantifierFree body
  | _ => True

def alternativeQuantifierFree : Alternative → Prop
  | [] => True
  | term :: terms => termQuantifierFree term ∧ alternativeQuantifierFree terms

def disjunctionQuantifierFree : Disjunction → Prop
  | [] => True
  | alternative :: alternatives =>
      alternativeQuantifierFree alternative ∧
        disjunctionQuantifierFree alternatives

end

section Compilation

variable (data : UnicodeData) (input : Input) (groups : List Group)
  (maxNesting : Nat)

mutual

/-- The matcher of a term behind `before` left parentheses.  A quantifier is
outside this semantics and fails. -/
def compileTerm (mode : MatchMode) (direction : Direction) (before : Nat) :
    Term → Matcher
  | .boundaryAssertion _ kind => fun state continuation =>
      if isBoundary data input kind mode state.endIndex then continuation state
      else none
  | .lookAroundAssertion _ kind body =>
      lookaroundMatcher kind
        fun direction => compileDisjunction mode direction before body
  | .capturingGroup _ _ body => fun state continuation =>
      compileDisjunction mode direction (before + 1) body state fun final =>
        continuation { final with
          captures := final.captures.set before
            (some (captureRange direction state.endIndex final.endIndex)) }
  | .ignoreGroup _ modifiers body =>
      compileDisjunction (updateModifiers mode modifiers) direction before body
  | .indexedReference _ index =>
      backreferenceMatcher data input mode direction [index]
  | .namedReference _ name =>
      backreferenceMatcher data input mode direction (namedGroups groups name)
  | .quantifier .. => fun _ _ => none
  | term => fun state continuation =>
      (tokenOf maxNesting mode term).bind fun token =>
        (token.positions data input direction state.endIndex).findSome?
          fun next => continuation { state with endIndex := next }

/-- A sequence of terms: from left to right, or from right to left. -/
def compileAlternative (mode : MatchMode) (direction : Direction)
    (before : Nat) : Alternative → Matcher
  | [] => fun state continuation => continuation state
  | term :: terms => fun state continuation =>
      let first := compileTerm mode direction before term
      let rest := compileAlternative mode direction
        (before + term.groups.length) terms
      match direction with
      | .forward => first state fun middle => rest middle continuation
      | .backward => rest state fun middle => first middle continuation

/-- The leftmost alternative that leads to a success. -/
def compileDisjunction (mode : MatchMode) (direction : Direction)
    (before : Nat) : Disjunction → Matcher
  | [] => fun state continuation => continuation state
  | [alternative] => compileAlternative mode direction before alternative
  | alternative :: alternatives => fun state continuation =>
      (compileAlternative mode direction before alternative state
        continuation).or
        (compileDisjunction mode direction
          (before + (alternativeGroups alternative).length) alternatives state
          continuation)

end

end Compilation

/-- The match of a whole pattern at a position. -/
def matchPattern (data : UnicodeData) (input : Input) (maxNesting : Nat)
    (flags : RegExpFlags) (pattern : Pattern) (candidate : Nat) :
    Option Match :=
  let groups := disjunctionGroups pattern.body
  (compileDisjunction data input groups maxNesting flags.initialMode .forward 0
      pattern.body ⟨candidate, List.replicate groups.length none⟩ some).map
    fun final => ⟨some (candidate, final.endIndex) :: final.captures⟩

end Spec

end Fusor.RegExp
