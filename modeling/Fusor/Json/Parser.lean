import Fusor.Json.Scanner
import Fusor.Support.Result

/-!
# The JSON text parser

The parser keeps the open containers as a stack of frames, the innermost one
first, and hands each finished value on as the pending node.  Reservations are
taken to succeed, and `StringToNumber` is a parameter.
-/

namespace Fusor.Json

open Fusor.Runtime

inductive JsonNodeKind where
  | null
  | boolean (value : Bool)
  | number (value : JsNumber)
  | string (value : JsString)
  | array (elements : List Nat)
  | object (entries : List (JsString × Nat))

structure JsonNode where
  span : JsonSpan
  kind : JsonNodeKind

/-- The tree of a node, given those of the nodes before it. -/
def JsonNode.tree (trees : List JsonTree) (node : JsonNode) : Option JsonTree :=
  match node.kind with
  | .null => some (.null node.span)
  | .boolean value => some (.boolean node.span value)
  | .number value => some (.number node.span value)
  | .string value => some (.string node.span value.content)
  | .array elements =>
      (elements.mapM fun element => trees[element]?).map (.array node.span)
  | .object entries =>
      (entries.mapM fun entry =>
        trees[entry.2]?.map fun tree => (entry.1.content, tree)).map
          (.object node.span)

/-- The trees of all nodes, where each one refers to earlier ones. -/
def forest (nodes : List JsonNode) : Option (List JsonTree) :=
  nodes.foldlM (fun trees node =>
    (node.tree trees).map fun tree => trees ++ [tree]) []

def JsonNode.children (node : JsonNode) : List Nat :=
  match node.kind with
  | .array elements => elements
  | .object entries => entries.map Prod.snd
  | _ => []

structure JsonDocument where
  text : Text
  nodes : List JsonNode
  root : Nat

/-- The tree below the root. -/
def JsonDocument.tree (document : JsonDocument) : Option JsonTree := do
  let trees ← forest document.nodes
  trees[document.root]?

inductive JsonObjectState where
  | keyOrEnd (allowEnd : Bool)
  | value (key : JsString)
  | commaOrEnd

inductive JsonFrame where
  | array (start : Nat) (elements : List Nat) (expectingValue allowEnd : Bool)
  | object (start : Nat) (entries : List (JsString × Nat))
      (state : JsonObjectState)

structure JsonTextParser where
  text : Text
  cursor : JsonCursor
  nodes : List JsonNode
  frames : List JsonFrame

namespace JsonFrame

def start : JsonFrame → Nat
  | array start _ _ _ => start
  | object start _ _ => start

def opener : JsonFrame → UInt16
  | array _ _ _ _ => ascii '['
  | object _ _ _ => ascii '{'

def closer : JsonFrame → UInt16
  | array _ _ _ _ => ascii ']'
  | object _ _ _ => ascii '}'

def kind : JsonFrame → JsonNodeKind
  | array _ elements _ _ => .array elements
  | object _ entries _ => .object entries

/-- The next thing in the frame is a value. -/
def wantsValue : JsonFrame → Bool
  | array _ _ expectingValue _ => expectingValue
  | object _ _ (.value _) => true
  | object _ _ _ => false

/-- The frame may end here. -/
def mayClose : JsonFrame → Bool
  | array _ _ expectingValue allowEnd => !expectingValue || allowEnd
  | object _ _ (.keyOrEnd allowEnd) => allowEnd
  | object _ _ (.value _) => false
  | object _ _ .commaOrEnd => true

/-- The frame behind a comma. -/
def afterComma : JsonFrame → Option JsonFrame
  | array start elements false _ => some (array start elements true false)
  | object start entries .commaOrEnd =>
      some (object start entries (.keyOrEnd false))
  | _ => none

/-- The frame with a value handed to it. -/
def attached : JsonFrame → Nat → Option JsonFrame
  | array start elements true allowEnd, node =>
      some (array start (elements ++ [node]) false allowEnd)
  | object start entries (.value key), node =>
      some (object start (entries ++ [(key, node)]) .commaOrEnd)
  | _, _ => none

end JsonFrame

/-- What an iteration of the parser's loop leaves. -/
inductive JsonProgress where
  | more (parser : JsonTextParser) (pending : Option Nat)
  | done (document : JsonDocument)

namespace JsonTextParser

def new (text : Text) : JsonTextParser :=
  ⟨text, ⟨0, text.codeUnits⟩, [], []⟩

def skipWhitespace (parser : JsonTextParser) : JsonTextParser :=
  { parser with cursor := parser.cursor.skipWhitespace }

def pushNode (parser : JsonTextParser) (start stop : Nat)
    (kind : JsonNodeKind) :
    Except JsonTextFailure (JsonTextParser × Option Nat) := do
  let span ← JsonCursor.span start stop
  .ok ({ parser with nodes := parser.nodes ++ [⟨span, kind⟩] },
    some parser.nodes.length)

def finishContainer (parser : JsonTextParser) :
    Except JsonTextFailure (JsonTextParser × Option Nat) :=
  match parser.frames with
  | [] => .error .syntaxError
  | .array start elements _ _ :: frames =>
      { parser with frames }.pushNode start parser.cursor.index
        (.array elements)
  | .object start entries _ :: frames =>
      { parser with frames }.pushNode start parser.cursor.index
        (.object entries)

section Conversion

variable (stringToNumber : List UInt16 → JsNumber)

/-- The literal and its node. -/
def literalValue (parser : JsonTextParser) (literal : List UInt16)
    (kind : JsonNodeKind) :
    Except JsonTextFailure (JsonTextParser × Option Nat) := do
  let next ← JsonCursor.parseLiteral literal parser.cursor
  { parser with cursor := next }.pushNode parser.cursor.index next.index kind

def stringValue (parser : JsonTextParser) :
    Except JsonTextFailure (JsonTextParser × Option Nat) := do
  let (value, span, next) ← parser.cursor.parseString
  { parser with cursor := next }.pushNode span.start span.stop (.string value)

def numberValue (parser : JsonTextParser) :
    Except JsonTextFailure (JsonTextParser × Option Nat) := do
  let (number, next) ← parser.cursor.parseNumber stringToNumber
  { parser with cursor := next }.pushNode parser.cursor.index next.index
    (.number number)

def openFrame (parser : JsonTextParser) (frame : JsonFrame) :
    JsonTextParser × Option Nat :=
  ({ parser with
    cursor := parser.cursor.advance
    frames := frame :: parser.frames }, none)

/-- A value whose first unit is the next one. -/
def valueAt (parser : JsonTextParser) :
    Except JsonTextFailure (JsonTextParser × Option Nat) :=
  match parser.cursor.peek with
  | none => .error .syntaxError
  | some unit =>
      if unit = ascii '[' then
        .ok (parser.openFrame (.array parser.cursor.index [] true true))
      else if unit = ascii '{' then
        .ok (parser.openFrame
          (.object parser.cursor.index [] (.keyOrEnd true)))
      else if unit = ascii '"' then parser.stringValue
      else if unit = ascii 't' then
        parser.literalValue (asciiText ['t', 'r', 'u', 'e']) (.boolean true)
      else if unit = ascii 'f' then
        parser.literalValue (asciiText ['f', 'a', 'l', 's', 'e'])
          (.boolean false)
      else if unit = ascii 'n' then
        parser.literalValue (asciiText ['n', 'u', 'l', 'l']) .null
      else if unit = ascii '-' ∨ isAsciiDigit unit then
        parser.numberValue stringToNumber
      else .error .syntaxError

def parseValueStart (parser : JsonTextParser) :
    Except JsonTextFailure (JsonTextParser × Option Nat) :=
  parser.skipWhitespace.valueAt stringToNumber

/-- The innermost frame is an array, and white space has been skipped. -/
def arrayFrame (parser : JsonTextParser) (start : Nat) (elements : List Nat)
    (expectingValue allowEnd : Bool) (frames : List JsonFrame) :
    Except JsonTextFailure (JsonTextParser × Option Nat) :=
  let closing := parser.cursor.consume (ascii ']')
  if expectingValue then
    if allowEnd && closing.1 then
      { parser with cursor := closing.2 }.finishContainer
    else parser.parseValueStart stringToNumber
  else
    match parser.cursor.consume (ascii ',') with
    | (true, next) =>
        .ok ({ parser with
          cursor := next
          frames := .array start elements true false :: frames }, none)
    | (false, _) =>
        if closing.1 then { parser with cursor := closing.2 }.finishContainer
        else .error .syntaxError

/-- The member name and its colon. -/
def memberName (parser : JsonTextParser) (start : Nat)
    (entries : List (JsString × Nat)) (frames : List JsonFrame) :
    Except JsonTextFailure (JsonTextParser × Option Nat) :=
  if parser.cursor.peek ≠ some (ascii '"') then .error .syntaxError
  else do
    let (key, _, next) ← parser.cursor.parseString
    match next.skipWhitespace.consume (ascii ':') with
    | (false, _) => .error .syntaxError
    | (true, after) =>
        .ok ({ parser with
          cursor := after
          frames := .object start entries (.value key) :: frames }, none)

/-- The innermost frame is an object, and white space has been skipped. -/
def objectFrame (parser : JsonTextParser) (start : Nat)
    (entries : List (JsString × Nat)) (state : JsonObjectState)
    (frames : List JsonFrame) :
    Except JsonTextFailure (JsonTextParser × Option Nat) :=
  let closing := parser.cursor.consume (ascii '}')
  match state with
  | .keyOrEnd allowEnd =>
      if allowEnd && closing.1 then
        { parser with cursor := closing.2 }.finishContainer
      else parser.memberName start entries frames
  | .value _ => parser.parseValueStart stringToNumber
  | .commaOrEnd =>
      match parser.cursor.consume (ascii ',') with
      | (true, next) =>
          .ok ({ parser with
            cursor := next
            frames := .object start entries (.keyOrEnd false) :: frames }, none)
      | (false, _) =>
          if closing.1 then { parser with cursor := closing.2 }.finishContainer
          else .error .syntaxError

def advanceFrame (parser : JsonTextParser) :
    Except JsonTextFailure (JsonTextParser × Option Nat) :=
  match parser.frames with
  | [] => .error .syntaxError
  | .array start elements expectingValue allowEnd :: frames =>
      parser.skipWhitespace.arrayFrame stringToNumber start elements
        expectingValue allowEnd frames
  | .object start entries state :: frames =>
      parser.skipWhitespace.objectFrame stringToNumber start entries state
        frames

/-- Hands a finished value to the innermost frame. -/
def attach (parser : JsonTextParser) (node : Nat) :
    Except JsonTextFailure JsonProgress :=
  match parser.frames with
  | .array start elements expectingValue allowEnd :: frames =>
      if expectingValue then
        .ok (.more { parser with
          frames := .array start (elements ++ [node]) false allowEnd ::
            frames } none)
      else .error .syntaxError
  | .object start entries (.value key) :: frames =>
      .ok (.more { parser with
        frames := .object start (entries ++ [(key, node)]) .commaOrEnd ::
          frames } none)
  | .object _ _ _ :: _ => .error .syntaxError
  | [] =>
      let final := parser.skipWhitespace
      if final.cursor.rest = [] then
        .ok (.done ⟨final.text, final.nodes, node⟩)
      else .error .syntaxError

def step (parser : JsonTextParser) :
    Option Nat → Except JsonTextFailure JsonProgress
  | some node => parser.attach node
  | none => do
      let (next, pending) ← parser.advanceFrame stringToNumber
      .ok (.more next pending)

/-- What the innermost frame does next: it closes, passes a comma, reads the
name of a member, or starts a value. -/
inductive Advances (parser : JsonTextParser) :
    JsonTextParser → Option Nat → Prop where
  | close {frame : JsonFrame} {frames : List JsonFrame}
      {blank : List UInt16} {cursor : JsonCursor}
      (innermost : parser.frames = frame :: frames) (space : Blank blank)
      (passes : JsonCursor.Passes parser.cursor (blank ++ [frame.closer])
        cursor) (allowed : frame.mayClose = true) :
      Advances parser
        { parser with
          cursor
          frames
          nodes := parser.nodes ++ [⟨⟨frame.start, cursor.index⟩, frame.kind⟩] }
        (some parser.nodes.length)
  | comma {frame after : JsonFrame} {frames : List JsonFrame}
      {blank : List UInt16} {cursor : JsonCursor}
      (innermost : parser.frames = frame :: frames) (space : Blank blank)
      (passes : JsonCursor.Passes parser.cursor (blank ++ [ascii ',']) cursor)
      (allowed : frame.afterComma = some after) :
      Advances parser { parser with cursor, frames := after :: frames } none
  | name {start : Nat} {entries : List (JsString × Nat)} {allowEnd : Bool}
      {frames : List JsonFrame} {key : JsString}
      {blank name gap : List UInt16} {cursor : JsonCursor}
      (innermost : parser.frames =
        .object start entries (.keyOrEnd allowEnd) :: frames)
      (space : Blank blank) (quoted : Quoted name key.content)
      (between : Blank gap)
      (passes : JsonCursor.Passes parser.cursor
        (blank ++ (name ++ (gap ++ [ascii ':']))) cursor) :
      Advances parser { parser with
        cursor
        frames := .object start entries (.value key) :: frames } none
  | value {frame : JsonFrame} {frames : List JsonFrame}
      {blank : List UInt16} {cursor : JsonCursor} {next : JsonTextParser}
      {pending : Option Nat} (innermost : parser.frames = frame :: frames)
      (space : Blank blank)
      (passes : JsonCursor.Passes parser.cursor blank cursor)
      (allowed : frame.wantsValue = true)
      (started : { parser with cursor }.valueAt stringToNumber =
        .ok (next, pending)) : Advances parser next pending

end Conversion

section Moves

variable {stringToNumber : List UInt16 → JsNumber} {parser : JsonTextParser}

theorem pushNode_eq_ok {start stop : Nat} {kind : JsonNodeKind}
    {result : JsonTextParser × Option Nat}
    (pushed : parser.pushNode start stop kind = .ok result) :
    result = ({ parser with nodes := parser.nodes ++ [⟨⟨start, stop⟩, kind⟩] },
      some parser.nodes.length) := by
  rw [pushNode, Support.bind_eq_ok_iff] at pushed
  obtain ⟨range, spanned, finished⟩ := pushed
  cases finished
  rw [(JsonCursor.span_eq_ok_iff.mp spanned).2.2]

theorem finishContainer_eq_ok {frame : JsonFrame} {frames : List JsonFrame}
    (innermost : parser.frames = frame :: frames)
    {result : JsonTextParser × Option Nat}
    (finished : parser.finishContainer = .ok result) :
    result = ({ parser with
      frames
      nodes := parser.nodes ++
        [⟨⟨frame.start, parser.cursor.index⟩, frame.kind⟩] },
      some parser.nodes.length) := by
  unfold finishContainer at finished
  rw [innermost] at finished
  cases frame with
  | array start elements expectingValue allowEnd =>
      exact pushNode_eq_ok finished
  | object start entries state => exact pushNode_eq_ok finished

/-- Skipping white space and then closing. -/
theorem advances_close {frame : JsonFrame} {frames : List JsonFrame}
    {closed : JsonCursor} {next : JsonTextParser} {pending : Option Nat}
    (innermost : parser.frames = frame :: frames)
    (allowed : frame.mayClose = true)
    (consumed : parser.skipWhitespace.cursor.consume frame.closer =
      (true, closed))
    (finished : { parser with cursor := closed }.finishContainer =
      .ok (next, pending)) : Advances stringToNumber parser next pending := by
  obtain ⟨blank, space, passes⟩ :=
    JsonCursor.skipWhitespace_passes parser.cursor
  have result := @finishContainer_eq_ok { parser with cursor := closed } frame
    frames innermost _ finished
  cases result
  exact .close innermost space
    (passes.trans (JsonCursor.consume_passes consumed)) allowed

theorem advances_comma {frame after : JsonFrame} {frames : List JsonFrame}
    {passed : JsonCursor} (innermost : parser.frames = frame :: frames)
    (allowed : frame.afterComma = some after)
    (consumed : parser.skipWhitespace.cursor.consume (ascii ',') =
      (true, passed)) :
    Advances stringToNumber parser
      { parser with cursor := passed, frames := after :: frames } none := by
  obtain ⟨blank, space, passes⟩ :=
    JsonCursor.skipWhitespace_passes parser.cursor
  exact .comma innermost space
    (passes.trans (JsonCursor.consume_passes consumed)) allowed

theorem advances_value {frame : JsonFrame} {frames : List JsonFrame}
    {next : JsonTextParser} {pending : Option Nat}
    (innermost : parser.frames = frame :: frames)
    (allowed : frame.wantsValue = true)
    (started : parser.skipWhitespace.parseValueStart stringToNumber =
      .ok (next, pending)) : Advances stringToNumber parser next pending := by
  obtain ⟨blank, space, passes⟩ :=
    JsonCursor.skipWhitespace_passes parser.cursor
  obtain ⟨more, moreSpace, morePasses⟩ :=
    JsonCursor.skipWhitespace_passes parser.cursor.skipWhitespace
  refine .value innermost ?_ (passes.trans morePasses) allowed started
  intro unit member
  rcases List.mem_append.mp member with first | second
  · exact space unit first
  · exact moreSpace unit second

theorem advances_name {start : Nat} {entries : List (JsString × Nat)}
    {allowEnd : Bool} {frames : List JsonFrame} {next : JsonTextParser}
    {pending : Option Nat}
    (innermost : parser.frames =
      .object start entries (.keyOrEnd allowEnd) :: frames)
    (named : parser.skipWhitespace.memberName start entries frames =
      .ok (next, pending)) : Advances stringToNumber parser next pending := by
  obtain ⟨blank, space, passes⟩ :=
    JsonCursor.skipWhitespace_passes parser.cursor
  unfold memberName at named
  split at named
  · cases named
  · rw [Support.bind_eq_ok_iff] at named
    obtain ⟨⟨key, range, after⟩, parsed, named⟩ := named
    obtain ⟨text, textPasses, quoted, _⟩ :=
      JsonCursor.parseString_passes parsed
    obtain ⟨gap, between, gapPasses⟩ := JsonCursor.skipWhitespace_passes after
    simp only at named
    split at named
    · cases named
    · rename_i colon
      cases named
      exact .name innermost space quoted between (passes.trans
        (textPasses.trans (gapPasses.trans
          (JsonCursor.consume_passes colon))))

theorem advanceFrame_advances {next : JsonTextParser} {pending : Option Nat}
    (advanced : parser.advanceFrame stringToNumber = .ok (next, pending)) :
    Advances stringToNumber parser next pending := by
  unfold advanceFrame at advanced
  split at advanced
  · cases advanced
  · rename_i start elements expectingValue allowEnd frames innermost
    unfold arrayFrame at advanced
    cases expectingValue with
    | true =>
        simp only [↓reduceIte] at advanced
        split at advanced
        · rename_i ending
          rw [Bool.and_eq_true] at ending
          exact advances_close innermost (by simp [JsonFrame.mayClose, ending.1])
            (Prod.ext ending.2 rfl) advanced
        · exact advances_value innermost rfl advanced
    | false =>
        simp only [Bool.false_eq_true, ↓reduceIte] at advanced
        split at advanced
        · rename_i comma
          cases advanced
          exact advances_comma innermost rfl comma
        · split at advanced
          · rename_i ending
            exact advances_close innermost rfl (Prod.ext ending rfl) advanced
          · cases advanced
  · rename_i start entries state frames innermost
    unfold objectFrame at advanced
    cases state with
    | keyOrEnd allowEnd =>
        simp only at advanced
        split at advanced
        · rename_i ending
          rw [Bool.and_eq_true] at ending
          exact advances_close innermost ending.1 (Prod.ext ending.2 rfl)
            advanced
        · exact advances_name innermost advanced
    | value key => exact advances_value innermost rfl advanced
    | commaOrEnd =>
        simp only at advanced
        split at advanced
        · rename_i comma
          cases advanced
          exact advances_comma innermost rfl comma
        · split at advanced
          · rename_i ending
            exact advances_close innermost rfl (Prod.ext ending rfl) advanced
          · cases advanced

/-- A finished value goes to the innermost frame, or ends the text. -/
theorem attach_eq_ok {node : Nat} {progress : JsonProgress}
    (attached : parser.attach node = .ok progress) :
    (∃ frame after frames, parser.frames = frame :: frames ∧
        frame.attached node = some after ∧
        progress = .more { parser with frames := after :: frames } none) ∨
      (parser.frames = [] ∧ parser.skipWhitespace.cursor.rest = [] ∧
        progress = .done ⟨parser.text, parser.nodes, node⟩) := by
  unfold attach at attached
  split at attached
  · rename_i innermost
    split at attached
    · rename_i expecting
      subst expecting
      cases attached
      exact .inl ⟨_, _, _, innermost, rfl, rfl⟩
    · cases attached
  · rename_i innermost
    cases attached
    exact .inl ⟨_, _, _, innermost, rfl, rfl⟩
  · cases attached
  · rename_i none
    simp only at attached
    split at attached
    · rename_i ended
      cases attached
      exact .inr ⟨none, ended, rfl⟩
    · cases attached

/-- How a value starts: a container opens its frame, and anything else is a
node at once. -/
inductive ValueStarts (stringToNumber : List UInt16 → JsNumber)
    (parser : JsonTextParser) : JsonTextParser → Option Nat → Prop where
  | frame {frame : JsonFrame}
      (present : parser.cursor.peek = some frame.opener)
      (fresh : frame = .array parser.cursor.index [] true true ∨
        frame = .object parser.cursor.index [] (.keyOrEnd true)) :
      ValueStarts stringToNumber parser
        (parser.openFrame frame).1 (parser.openFrame frame).2
  | scalar {text : List UInt16} {cursor : JsonCursor} {tree : JsonTree}
      {node : JsonNode}
      (passes : JsonCursor.Passes parser.cursor text cursor)
      (derives : Derives stringToNumber (.value tree) parser.cursor.index text)
      (leaf : node.children = [])
      (stands : ∀ trees, node.tree trees = some tree) :
      ValueStarts stringToNumber parser
        { parser with cursor, nodes := parser.nodes ++ [node] }
        (some parser.nodes.length)

theorem literalValue_starts {literal : List UInt16} {kind : JsonNodeKind}
    {next : JsonTextParser} {pending : Option Nat} {tree : JsonTree}
    (parsed : parser.literalValue literal kind = .ok (next, pending))
    (derives : Derives stringToNumber (.value tree) parser.cursor.index literal)
    (leaf : ∀ span, JsonNode.children ⟨span, kind⟩ = [])
    (stands : ∀ trees, JsonNode.tree trees
      ⟨⟨parser.cursor.index, parser.cursor.index + literal.length⟩, kind⟩ =
        some tree) : ValueStarts stringToNumber parser next pending := by
  rw [literalValue, Support.bind_eq_ok_iff] at parsed
  obtain ⟨cursor, matched, pushed⟩ := parsed
  have passes := JsonCursor.parseLiteral_passes matched
  cases pushNode_eq_ok pushed
  refine .scalar passes derives (leaf _) ?_
  rw [passes.index]
  exact stands

theorem valueAt_starts {next : JsonTextParser} {pending : Option Nat}
    (started : parser.valueAt stringToNumber = .ok (next, pending)) :
    ValueStarts stringToNumber parser next pending := by
  unfold valueAt at started
  split at started
  · cases started
  · rename_i unit present
    repeat' split at started
    all_goals rename_i same
    all_goals try subst same
    · cases started
      exact .frame present (.inl rfl)
    · cases started
      exact .frame present (.inr rfl)
    · rw [stringValue, Support.bind_eq_ok_iff] at started
      obtain ⟨⟨value, range, after⟩, parsed, pushed⟩ := started
      obtain ⟨text, passes, quoted, rfl⟩ :=
        JsonCursor.parseString_passes parsed
      cases pushNode_eq_ok pushed
      refine .scalar passes (.string quoted) rfl ?_
      intro trees
      rw [← passes.index]
      rfl
    · exact literalValue_starts started .true (fun _ => rfl) (fun _ => rfl)
    · exact literalValue_starts started .false (fun _ => rfl) (fun _ => rfl)
    · exact literalValue_starts started .null (fun _ => rfl) (fun _ => rfl)
    · rw [numberValue, Support.bind_eq_ok_iff] at started
      obtain ⟨⟨number, after⟩, parsed, pushed⟩ := started
      obtain ⟨text, passes, numeral, rfl⟩ :=
        JsonCursor.parseNumber_passes parsed
      cases pushNode_eq_ok pushed
      refine .scalar passes (.number numeral) rfl ?_
      intro trees
      rw [← passes.index]
      rfl
    · cases started

theorem valueAt_shorter {next : JsonTextParser} {pending : Option Nat}
    (started : parser.valueAt stringToNumber = .ok (next, pending)) :
    next.cursor.rest.length < parser.cursor.rest.length := by
  cases valueAt_starts started with
  | frame present _ =>
      exact (JsonCursor.advance_passes present).shorter (by simp)
  | scalar passes derives _ _ =>
      obtain ⟨head, rest, rfl, _⟩ := JsonCursor.derives_head derives
      exact passes.shorter (by simp)

theorem advanceFrame_shorter {next : JsonTextParser} {pending : Option Nat}
    (advanced : parser.advanceFrame stringToNumber = .ok (next, pending)) :
    next.cursor.rest.length < parser.cursor.rest.length := by
  cases advanceFrame_advances advanced with
  | close _ _ passes _ => exact passes.shorter (by simp)
  | comma _ _ passes _ => exact passes.shorter (by simp)
  | name _ _ _ _ passes => exact passes.shorter (by simp)
  | value _ _ passes _ started =>
      have shorter := valueAt_shorter started
      have whole := congrArg List.length passes.rest
      rw [List.length_append] at whole
      simp only at shorter
      omega

/-- The units ahead, and the value at hand. -/
def measure (parser : JsonTextParser) (pending : Option Nat) : Nat :=
  2 * parser.cursor.rest.length + pending.toList.length

theorem step_measure {pending pendingNext : Option Nat}
    {next : JsonTextParser}
    (stepped : parser.step stringToNumber pending =
      .ok (.more next pendingNext)) :
    next.measure pendingNext < parser.measure pending := by
  cases pending with
  | some node =>
      rcases attach_eq_ok stepped with ⟨_, _, _, _, _, same⟩ | ⟨_, _, same⟩
      · cases same
        simp [measure]
      · cases same
  | none =>
      rw [step, Support.bind_eq_ok_iff] at stepped
      obtain ⟨⟨advanced, pendingAdvanced⟩, moved, same⟩ := stepped
      cases same
      have shorter := advanceFrame_shorter moved
      have single : pendingNext.toList.length ≤ 1 := by
        cases pendingNext <;> simp
      simp only [measure, Option.toList_none, List.length_nil]
      omega

end Moves

section Parsing

variable (stringToNumber : List UInt16 → JsNumber)

/-- The loop of `parse`. -/
def run (parser : JsonTextParser) (pending : Option Nat) :
    Except JsonTextFailure JsonDocument :=
  match stepped : parser.step stringToNumber pending with
  | .error failure => .error failure
  | .ok (.done document) => .ok document
  | .ok (.more next pendingNext) => run next pendingNext
termination_by parser.measure pending
decreasing_by exact step_measure stepped

def parse (text : Text) : Except JsonTextFailure JsonDocument := do
  let (parser, pending) ← (new text).parseValueStart stringToNumber
  run stringToNumber parser pending

end Parsing

end JsonTextParser

end Fusor.Json
