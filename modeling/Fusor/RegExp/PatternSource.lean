import Fusor.RegExp.Compiler
import Fusor.RegExp.Text
import Fusor.Support.Result

/-!
# The source text of a pattern

The constructor gets its pattern as UTF-16 code units, and the parser reads
Unicode scalar values.  A surrogate that belongs to no pair is written as an
escape, and the parity of the backslashes before it tells whether it was
escaped itself.  A text is the list of its characters.
-/

namespace Fusor.RegExp

/-- An error value of the source, or an assertion of it that failed. -/
inductive SourceFault where
  | failed (error : CompileError)
  | notScalar
  | notBackslash
  deriving DecidableEq

def isSurrogate (unit : Nat) : Bool :=
  0xd800 ≤ unit && unit ≤ 0xdfff

/-- `char::from_u32`, where the source expects a character. -/
def expectChar (value : Nat) : Except SourceFault Char :=
  if valid : value.isValidChar then .ok (Char.ofNatAux value valid)
  else .error .notScalar

def usizeMax : Nat := 2 ^ 64 - 1

def escapedSurrogate : SourceFault :=
  .failed (.syntaxError "invalid identity escape in Unicode mode")

def hexDigit (digit : Fin 16) : Char :=
  ['0', '1', '2', '3', '4', '5', '6', '7', '8', '9', 'A', 'B', 'C', 'D', 'E',
    'F'].get digit

def pushUnicodeEscape (source : List Char) (unit : UInt16) : List Char :=
  source ++ ['\\', 'u'] ++ [12, 8, 4, 0].map fun shift =>
    hexDigit (Fin.ofNat 16 (unit.toNat >>> shift))

def backslash : Nat := 0x5c

def letterU : Nat := 0x75

/-- How the text for the parser spells a surrogate. -/
def escapeOf (unit : Nat) : List Nat :=
  [backslash, letterU] ++ [12, 8, 4, 0].map fun shift =>
    (hexDigit (Fin.ofNat 16 (unit >>> shift))).toNat

/-- Whether two units are read as one character. -/
def isPair (unicodeMode : Bool) (first second : UInt16) : Bool :=
  unicodeMode && isHighSurrogate first.toNat && isLowSurrogate second.toNat

/-- The bytes of a unit alone, and the run of backslashes after it. -/
def unitBytes (unicodeMode : Bool) (first : UInt16) (slashRun : Nat) :
    Except SourceFault (Nat × Nat) :=
  if isSurrogate first.toNat then
    if unicodeMode ∧ slashRun % 2 = 1 then .error escapedSurrogate
    else .ok (if slashRun % 2 = 1 then 5 else 6, 0)
  else do
    let character ← expectChar first.toNat
    .ok (character.utf8Size, if character = '\\' then slashRun + 1 else 0)

def addBytes (bytes additional : Nat) : Except SourceFault Nat :=
  if bytes + additional ≤ usizeMax then .ok (bytes + additional)
  else .error (.failed (.resourceLimit "source length"))

/-- The loop of `parser_pattern_source_bytes`. -/
def bytesLoop (unicodeMode : Bool) :
    List UInt16 → Nat → Nat → Except SourceFault Nat
  | [], _, bytes => .ok bytes
  | [first], slashRun, bytes => do
      let (additional, _) ← unitBytes unicodeMode first slashRun
      addBytes bytes additional
  | first :: second :: rest, slashRun, bytes =>
      if isPair unicodeMode first second then do
        let bytes ← addBytes bytes 4
        bytesLoop unicodeMode rest 0 bytes
      else do
        let (additional, slashRun) ← unitBytes unicodeMode first slashRun
        let bytes ← addBytes bytes additional
        bytesLoop unicodeMode (second :: rest) slashRun bytes

def parserPatternSourceBytes (pattern : List UInt16) (unicodeMode : Bool) :
    Except SourceFault Nat :=
  bytesLoop unicodeMode pattern 0 0

/-- The text after a unit alone, and the run of backslashes at its end. -/
def pushUnit (unicodeMode : Bool) (first : UInt16) (slashRun : Nat)
    (source : List Char) : Except SourceFault (Nat × List Char) :=
  if isSurrogate first.toNat then
    if slashRun % 2 = 1 then
      if unicodeMode then .error escapedSurrogate
      else if source.getLast? = some '\\' then
        .ok (0, pushUnicodeEscape source.dropLast first)
      else .error .notBackslash
    else .ok (0, pushUnicodeEscape source first)
  else do
    let character ← expectChar first.toNat
    .ok (if character = '\\' then slashRun + 1 else 0, source ++ [character])

/-- The loop of `parser_pattern_source`. -/
def sourceLoop (unicodeMode : Bool) :
    List UInt16 → Nat → List Char → Except SourceFault (List Char)
  | [], _, source => .ok source
  | [first], slashRun, source => do
      let (_, source) ← pushUnit unicodeMode first slashRun source
      .ok source
  | first :: second :: rest, slashRun, source =>
      if isPair unicodeMode first second then do
        let character ← expectChar (surrogatePair first.toNat second.toNat)
        sourceLoop unicodeMode rest 0 (source ++ [character])
      else do
        let (slashRun, source) ← pushUnit unicodeMode first slashRun source
        sourceLoop unicodeMode (second :: rest) slashRun source

def parserPatternSource (pattern : List UInt16) (unicodeMode : Bool)
    (limits : CompileLimits) : Except SourceFault (List Char) := do
  let outputBytes ← parserPatternSourceBytes pattern unicodeMode
  if outputBytes > limits.maxPatternBytes then
    .error (.failed (.resourceLimit "source length"))
  else sourceLoop unicodeMode pattern 0 []

end Fusor.RegExp
