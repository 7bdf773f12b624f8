import Fusor.Diagnostics.Lines
import Fusor.Support.Result

/-!
# Byte offsets and positions of a source text

The line index holds the byte offset at which every line begins.  A text is
a list of scalar values, measured in UTF-8 bytes.  A slice between offsets
that are not scalar boundaries, an index out of range and a subtraction
below zero panic in the source, and are a distinct outcome here.
-/

namespace Fusor.Diagnostics

open Fusor.Support

def u32Max : Nat :=
  2 ^ 32 - 1

def usizeMax : Nat :=
  2 ^ 64 - 1

inductive SourceError where
  | emptySourceName
  | duplicateSourceName (name : String)
  | tooManySources
  | sourceTooLarge (bytes : Nat)
  | foreignSourceId
  | unknownSourceId (index : Nat)
  | invalidRange (start finish sourceLength : Nat)
  | invalidUtf8Boundary (offset : Nat)
  | invalidSourceMapPosition (line column : Nat)
  deriving DecidableEq

inductive Abort (ε : Type) where
  | failed (error : ε)
  | panicked
  deriving DecidableEq

abbrev Checked (α : Type) := Except (Abort SourceError) α

def fail {α : Type} (error : SourceError) : Checked α :=
  .error (.failed error)

def checkedSub (minuend subtrahend : Nat) : Checked Nat :=
  if subtrahend ≤ minuend then
    .ok (minuend - subtrahend)
  else
    .error .panicked

def elementAt {α : Type} (list : List α) (index : Nat) : Checked α :=
  match list[index]? with
  | some element => .ok element
  | none => .error .panicked

/-- A conversion to 32 bits, with the error of a value that does not fit. -/
def u32TryFrom (value : Nat) (error : SourceError) : Checked Nat :=
  if value ≤ u32Max then .ok value else fail error

def u32SaturatingAdd (left right : Nat) : Nat :=
  min (left + right) u32Max

def usizeSaturatingAdd (left right : Nat) : Nat :=
  min (left + right) usizeMax

def lenUtf16 (character : Char) : Nat :=
  if character.toNat < 0x10000 then 1 else 2

abbrev Text := List Char

def Text.byteLength (source : Text) : Nat :=
  extent Char.utf8Size source

def Text.isCharBoundary (source : Text) (offset : Nat) : Bool :=
  (splitAtExtent Char.utf8Size source offset).isSome

/-- The text between two byte offsets. -/
def Text.slice (source : Text) (start finish : Nat) : Checked Text :=
  match sliceExtent Char.utf8Size source start finish with
  | some text => .ok text
  | none => .error .panicked

structure ByteSpan where
  start : Nat
  finish : Nat
  deriving DecidableEq

def ByteSpan.new (source : Text) (start finish : Nat) : Checked ByteSpan :=
  if u32Max < source.byteLength then
    fail (.sourceTooLarge source.byteLength)
  else if finish < start ∨ source.byteLength < finish then
    fail (.invalidRange start finish source.byteLength)
  else if ¬ source.isCharBoundary start then
    fail (.invalidUtf8Boundary start)
  else if ¬ source.isCharBoundary finish then
    fail (.invalidUtf8Boundary finish)
  else do
    let start ← u32TryFrom start (.sourceTooLarge source.byteLength)
    let finish ← u32TryFrom finish (.sourceTooLarge source.byteLength)
    return ⟨start, finish⟩

structure LineColumn where
  line : Nat
  column : Nat
  deriving DecidableEq

inductive ColumnEncoding where
  | utf8Byte
  | unicodeScalar
  | utf16CodeUnit
  deriving DecidableEq

def ColumnEncoding.columns : ColumnEncoding → Text → Nat
  | .utf8Byte, front => front.byteLength
  | .unicodeScalar, front => front.length
  | .utf16CodeUnit, front => extent lenUtf16 front

structure LineIndex where
  starts : List Nat
  deriving DecidableEq

/-- The loop over the text, with the text that remains and its offset. -/
def scanLines (sourceBytes : Nat) : Text → Nat → List Nat → Checked (List Nat)
  | [], _, starts => .ok starts
  | '\r' :: '\n' :: rest, offset, starts => do
      let start ← u32TryFrom (offset + 2) (.sourceTooLarge sourceBytes)
      scanLines sourceBytes rest (offset + 2) (starts ++ [start])
  | character :: rest, offset, starts =>
      if isLineTerminator character then do
        let start ← u32TryFrom (offset + character.utf8Size)
          (.sourceTooLarge sourceBytes)
        scanLines sourceBytes rest (offset + character.utf8Size)
          (starts ++ [start])
      else
        scanLines sourceBytes rest (offset + character.utf8Size) starts

def LineIndex.new (source : Text) : Checked LineIndex := do
  let _ ← u32TryFrom source.byteLength (.sourceTooLarge source.byteLength)
  let starts ← scanLines source.byteLength source 0 [0]
  return ⟨starts⟩

def validateOffset (source : Text) (offset : Nat) : Checked Unit :=
  if source.byteLength < offset then
    fail (.invalidRange offset offset source.byteLength)
  else if ¬ source.isCharBoundary offset then
    fail (.invalidUtf8Boundary offset)
  else
    .ok ()

namespace LineIndex

def lineIndexAt (index : LineIndex) (byteOffset : Nat) : Nat :=
  partitionPoint index.starts (fun start => start ≤ byteOffset) - 1

def position (index : LineIndex) (source : Text) (byteOffset : Nat)
    (encoding : ColumnEncoding) : Checked LineColumn := do
  validateOffset source byteOffset
  let lineIndex := index.lineIndexAt byteOffset
  let lineStart ← elementAt index.starts lineIndex
  let front ← source.slice lineStart byteOffset
  return ⟨lineIndex + 1, encoding.columns front + 1⟩

def nextStart (index : LineIndex) (source : Text) (lineIndex : Nat) : Nat :=
  match index.starts[lineIndex + 1]? with
  | some start => start
  | none => source.byteLength

def lineContentEnd (index : LineIndex) (source : Text) (lineIndex : Nat) :
    Checked Nat := do
  let nextStart := index.nextStart source lineIndex
  let lineStart ← elementAt index.starts lineIndex
  let line ← source.slice lineStart nextStart
  if ['\r', '\n'].isSuffixOf line then
    checkedSub nextStart 2
  else if ['\r'].isSuffixOf line || ['\n'].isSuffixOf line then
    checkedSub nextStart 1
  else if ['\u2028'].isSuffixOf line || ['\u2029'].isSuffixOf line then
    checkedSub nextStart (Char.utf8Size '\u2028')
  else
    .ok nextStart

/-- The loop over the characters of a line, with their offset in the line
and the column reached. -/
def findColumn (line column lineStart lineEnd : Nat) :
    Text → Nat → Nat → Checked Nat
  | [], _, utf16Column =>
      if utf16Column = column then
        .ok lineEnd
      else
        fail (.invalidSourceMapPosition line column)
  | character :: rest, relative, utf16Column =>
      if utf16Column = column then
        .ok (lineStart + relative)
      else
        let width := if lenUtf16 character = 1 then 1 else 2
        if column < u32SaturatingAdd utf16Column width then
          fail (.invalidSourceMapPosition line column)
        else
          findColumn line column lineStart lineEnd rest
            (relative + character.utf8Size) (u32SaturatingAdd utf16Column width)

def byteOffsetForSourceMapPosition (index : LineIndex) (source : Text)
    (line column : Nat) : Checked Nat :=
  match index.starts[line]? with
  | none => fail (.invalidSourceMapPosition line column)
  | some lineStart => do
      let lineEnd ← index.lineContentEnd source line
      let content ← source.slice lineStart lineEnd
      findColumn line column lineStart lineEnd content 0 0

end LineIndex

end Fusor.Diagnostics
