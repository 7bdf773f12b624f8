import Fusor.Json.Soundness

/-!
# Every JSON text is parsed

A derivation drives the parser: from the start of its text to its end, with
the nodes of its tree added and the frames below left as they are.  White
space at the end of an element is left to the next move.
-/

namespace Fusor.Json

open Fusor.Runtime

namespace JsonTextParser

/-- The parser further on, with more nodes. -/
def moved (parser : JsonTextParser) (cursor : JsonCursor)
    (more : List JsonNode) (frames : List JsonFrame) : JsonTextParser :=
  { parser with cursor, nodes := parser.nodes ++ more, frames }

@[simp]
theorem moved_moved (parser : JsonTextParser) (first second : JsonCursor)
    (some more : List JsonNode) (inner outer : List JsonFrame) :
    (parser.moved first some inner).moved second more outer =
      parser.moved second (some ++ more) outer := by
  simp [moved]

variable {stringToNumber : List UInt16 → JsNumber}

/-- Some iterations of the parser's loop. -/
inductive Runs (stringToNumber : List UInt16 → JsNumber) :
    JsonTextParser → Option Nat → JsonTextParser → Option Nat → Prop where
  | refl (parser : JsonTextParser) (pending : Option Nat) :
      Runs stringToNumber parser pending parser pending
  | step {parser next last : JsonTextParser}
      {pending pendingNext pendingLast : Option Nat}
      (stepped : parser.step stringToNumber pending =
        .ok (.more next pendingNext))
      (rest : Runs stringToNumber next pendingNext last pendingLast) :
      Runs stringToNumber parser pending last pendingLast

namespace Runs

theorem trans {first second third : JsonTextParser}
    {pendingFirst pendingSecond pendingThird : Option Nat}
    (before : Runs stringToNumber first pendingFirst second pendingSecond)
    (after : Runs stringToNumber second pendingSecond third pendingThird) :
    Runs stringToNumber first pendingFirst third pendingThird := by
  induction before with
  | refl => exact after
  | step stepped _ induction => exact .step stepped (induction after)

theorem run_eq {first last : JsonTextParser}
    {pendingFirst pendingLast : Option Nat}
    (runs : Runs stringToNumber first pendingFirst last pendingLast) :
    first.run stringToNumber pendingFirst =
      last.run stringToNumber pendingLast := by
  induction runs with
  | refl => rfl
  | step stepped _ induction =>
      rw [run]
      split
      · rename_i failed
        rw [stepped] at failed
        cases failed
      · rename_i ended
        rw [stepped] at ended
        cases ended
      · rename_i moved
        rw [stepped] at moved
        cases moved
        exact induction

end Runs

theorem pushNode_eq {parser : JsonTextParser} {start stop : Nat}
    (low : start < 2 ^ 32) (high : stop < 2 ^ 32) (kind : JsonNodeKind) :
    parser.pushNode start stop kind =
      .ok ({ parser with nodes := parser.nodes ++ [⟨⟨start, stop⟩, kind⟩] },
        some parser.nodes.length) := by
  rw [pushNode, Support.bind_eq_ok_iff]
  exact ⟨_, JsonCursor.span_eq_ok_iff.mpr ⟨low, high, rfl⟩, rfl⟩

theorem step_none {parser next : JsonTextParser} {pending : Option Nat}
    (advanced : parser.advanceFrame stringToNumber = .ok (next, pending)) :
    parser.step stringToNumber none = .ok (.more next pending) := by
  rw [step, Support.bind_eq_ok_iff]
  exact ⟨_, advanced, rfl⟩

section Moves

variable {parser : JsonTextParser} {frame : JsonFrame}
  {frames : List JsonFrame} {index : Nat} {blank tail : List UInt16}

theorem finishContainer_eq (innermost : parser.frames = frame :: frames)
    (low : frame.start < 2 ^ 32) (high : parser.cursor.index < 2 ^ 32) :
    parser.finishContainer =
      .ok ({ parser with
        frames
        nodes := parser.nodes ++
          [⟨⟨frame.start, parser.cursor.index⟩, frame.kind⟩] },
        some parser.nodes.length) := by
  unfold finishContainer
  rw [innermost]
  cases frame with
  | array start elements expectingValue allowEnd =>
      exact pushNode_eq low high _
  | object start entries state => exact pushNode_eq low high _

theorem step_close (innermost : parser.frames = frame :: frames)
    (position : parser.cursor = ⟨index, blank ++ frame.closer :: tail⟩)
    (space : Blank blank) (allowed : frame.mayClose = true)
    (low : frame.start < 2 ^ 32) (high : index + blank.length + 1 < 2 ^ 32) :
    parser.step stringToNumber none =
      .ok (.more (parser.moved ⟨index + blank.length + 1, tail⟩
        [⟨⟨frame.start, index + blank.length + 1⟩, frame.kind⟩] frames)
        (some parser.nodes.length)) := by
  apply step_none
  have skipped : parser.cursor.skipWhitespace =
      ⟨index + blank.length, frame.closer :: tail⟩ := by
    rw [position]
    apply JsonCursor.skipWhitespace_append space
    cases frame <;> rfl
  have finished := @finishContainer_eq { parser with
    cursor := ⟨index + blank.length + 1, tail⟩ } frame frames innermost low high
  unfold advanceFrame
  rw [innermost]
  cases frame with
  | array start elements expectingValue allowEnd =>
      cases expectingValue with
      | true =>
          have ending : allowEnd = true := by simpa [JsonFrame.mayClose] using allowed
          simp only [arrayFrame, skipWhitespace, skipped, JsonFrame.closer,
            JsonCursor.consume_cons, ending, Bool.and_self, ↓reduceIte]
          exact finished
      | false =>
          have noComma : ascii ']' ≠ ascii ',' := by decide
          simp only [arrayFrame, skipWhitespace, skipped, JsonFrame.closer,
            JsonCursor.consume_cons, JsonCursor.consume_other noComma,
            Bool.false_eq_true, ↓reduceIte]
          exact finished
  | object start entries state =>
      have noComma : ascii '}' ≠ ascii ',' := by decide
      cases state with
      | keyOrEnd allowEnd =>
          have ending : allowEnd = true := allowed
          simp only [objectFrame, skipWhitespace, skipped, JsonFrame.closer,
            JsonCursor.consume_cons, ending, Bool.and_self, ↓reduceIte]
          exact finished
      | value key => cases allowed
      | commaOrEnd =>
          simp only [objectFrame, skipWhitespace, skipped, JsonFrame.closer,
            JsonCursor.consume_cons, JsonCursor.consume_other noComma,
            ↓reduceIte]
          exact finished

theorem step_comma {after : JsonFrame}
    (innermost : parser.frames = frame :: frames)
    (position : parser.cursor = ⟨index, blank ++ ascii ',' :: tail⟩)
    (space : Blank blank) (allowed : frame.afterComma = some after) :
    parser.step stringToNumber none =
      .ok (.more (parser.moved ⟨index + blank.length + 1, tail⟩ []
        (after :: frames)) none) := by
  apply step_none
  have skipped : parser.cursor.skipWhitespace =
      ⟨index + blank.length, ascii ',' :: tail⟩ := by
    rw [position]
    exact JsonCursor.skipWhitespace_append space rfl index
  unfold advanceFrame
  rw [innermost]
  cases frame with
  | array start elements expectingValue allowEnd =>
      cases expectingValue with
      | true => cases allowed
      | false =>
          cases allowed
          simp only [arrayFrame, skipWhitespace, skipped,
            JsonCursor.consume_cons, Bool.false_eq_true, ↓reduceIte, moved,
            List.append_nil]
  | object start entries state =>
      cases state with
      | commaOrEnd =>
          cases allowed
          simp only [objectFrame, skipWhitespace, skipped,
            JsonCursor.consume_cons, moved, List.append_nil]
      | _ => cases allowed

/-- A frame that takes a value starts one at a unit that closes nothing. -/
theorem advanceFrame_eq {head : UInt16}
    (innermost : parser.frames = frame :: frames)
    (position : parser.cursor = ⟨index, blank ++ head :: tail⟩)
    (space : Blank blank) (visible : isJsonWhitespace head = false)
    (opens : head ≠ ascii ']') (allowed : frame.wantsValue = true) :
    parser.advanceFrame stringToNumber =
      parser.parseValueStart stringToNumber := by
  have skipped : parser.cursor.skipWhitespace =
      ⟨index + blank.length, head :: tail⟩ := by
    rw [position]
    exact JsonCursor.skipWhitespace_append space (by simpa using visible) index
  have again : parser.skipWhitespace.parseValueStart stringToNumber =
      parser.parseValueStart stringToNumber := by
    have stays : parser.cursor.skipWhitespace.skipWhitespace =
        parser.cursor.skipWhitespace := by
      rw [skipped]
      exact JsonCursor.skipWhitespace_eq (by simpa [JsonCursor.peek] using visible)
    simp only [parseValueStart, skipWhitespace, stays]
  rw [← again]
  unfold advanceFrame
  rw [innermost]
  cases frame with
  | array start elements expectingValue allowEnd =>
      have expecting : expectingValue = true := allowed
      simp only [arrayFrame, expecting, ↓reduceIte]
      rw [if_neg]
      simp only [skipWhitespace, skipped, JsonCursor.consume_other opens,
        Bool.and_false, Bool.false_eq_true, not_false_eq_true]
  | object start entries state =>
      cases state with
      | value key => rfl
      | _ => cases allowed

theorem step_attach {after : JsonFrame} {node : Nat}
    (innermost : parser.frames = frame :: frames)
    (allowed : frame.attached node = some after) :
    parser.step stringToNumber (some node) =
      .ok (.more { parser with frames := after :: frames } none) := by
  rw [step]
  unfold attach
  rw [innermost]
  cases frame with
  | array start elements expectingValue allowEnd =>
      cases expectingValue with
      | false => cases allowed
      | true =>
          cases allowed
          rfl
  | object start entries state =>
      cases state with
      | value key =>
          cases allowed
          rfl
      | _ => cases allowed

theorem step_name {start : Nat} {entries : List (JsString × Nat)}
    {allowEnd : Bool} {name gap decoded : List UInt16}
    (innermost : parser.frames =
      .object start entries (.keyOrEnd allowEnd) :: frames)
    (position : parser.cursor =
      ⟨index, blank ++ (name ++ (gap ++ ascii ':' :: tail))⟩)
    (space : Blank blank) (quoted : Quoted name decoded) (between : Blank gap)
    (bounded : index + (blank.length + name.length) ≤ maxStringCodeUnits) :
    ∃ key, key.content = decoded ∧ parser.step stringToNumber none =
      .ok (.more (parser.moved
        ⟨index + (blank.length + name.length + gap.length + 1), tail⟩ []
          (.object start entries (.value key) :: frames)) none) := by
  obtain ⟨value, parsed, content⟩ := @JsonCursor.parseString_append name decoded
    quoted (index + blank.length) (by omega) (gap ++ ascii ':' :: tail)
  refine ⟨value, content, step_none ?_⟩
  have afterName : JsonCursor.skipWhitespace
      ⟨index + blank.length + name.length, gap ++ ascii ':' :: tail⟩ =
        ⟨index + blank.length + name.length + gap.length,
          ascii ':' :: tail⟩ :=
    JsonCursor.skipWhitespace_append between rfl _
  obtain ⟨inside, rfl, characters⟩ := quoted
  have skipped : parser.cursor.skipWhitespace = ⟨index + blank.length,
      ascii '"' :: (inside ++ [ascii '"']) ++ (gap ++ ascii ':' :: tail)⟩ := by
    rw [position]
    exact JsonCursor.skipWhitespace_append space rfl index
  have noClose : ascii '"' ≠ ascii '}' := by decide
  have offset : index + blank.length +
      (ascii '"' :: (inside ++ [ascii '"'])).length + gap.length + 1 =
        index + (blank.length + (ascii '"' :: (inside ++ [ascii '"'])).length +
          gap.length + 1) := by
    omega
  have named : parser.skipWhitespace.memberName start entries frames =
      .ok (parser.moved ⟨index + (blank.length +
        (ascii '"' :: (inside ++ [ascii '"'])).length + gap.length + 1), tail⟩
          [] (.object start entries (.value value) :: frames), none) := by
    rw [memberName, if_neg (by simp [skipWhitespace, skipped, JsonCursor.peek]),
      Support.bind_eq_ok_iff]
    refine ⟨_, by rw [skipWhitespace, skipped]; exact parsed, ?_⟩
    simp only [afterName, JsonCursor.consume_cons, offset, moved,
      List.append_nil, skipWhitespace]
  unfold advanceFrame
  rw [innermost]
  simp only [objectFrame]
  rw [if_neg]
  · exact named
  · simp only [skipWhitespace, skipped, List.cons_append,
      JsonCursor.consume_other noClose, Bool.and_false, Bool.false_eq_true,
      not_false_eq_true]

end Moves

end JsonTextParser

open JsonTextParser

variable {stringToNumber : List UInt16 → JsNumber}

/-- What follows an element: a comma, a closing bracket, or nothing. -/
def ends (tail : List UInt16) : Bool :=
  tail.head?.all fun unit =>
    unit == ascii ',' || unit == ascii ']' || unit == ascii '}'

theorem boundary_of_ends {right tail : List UInt16} (space : Blank right)
    (ended : ends tail = true) :
    JsonCursor.boundary (right ++ tail) = true := by
  cases right with
  | cons head right =>
      rcases space head List.mem_cons_self with rfl | rfl | rfl | rfl <;> rfl
  | nil =>
      cases tail with
      | nil => rfl
      | cons head tail =>
          have which : (head = ascii ',' ∨ head = ascii ']') ∨
              head = ascii '}' := by
            simpa [ends] using ended
          rcases which with (rfl | rfl) | rfl <;> rfl

/-- New nodes behind the old ones, and the trees they stand for. -/
structure Grows (nodes more : List JsonNode)
    (trees results : List JsonTree) : Prop where
  before : forest nodes = some trees
  after : forest (nodes ++ more) = some (trees ++ results)

theorem Grows.trans {nodes first second : List JsonNode}
    {trees results others : List JsonTree}
    (one : Grows nodes first trees results)
    (two : Grows (nodes ++ first) second (trees ++ results) others) :
    Grows nodes (first ++ second) trees (results ++ others) := by
  refine ⟨one.before, ?_⟩
  rw [← List.append_assoc, ← List.append_assoc]
  exact two.after

/-- The moves of the parser over a value that it stands at. -/
def CompletesValue (stringToNumber : List UInt16 → JsNumber) (tree : JsonTree)
    (start : Nat) (text : List UInt16) : Prop :=
  ∀ (parser : JsonTextParser) (tail : List UInt16) (trees : List JsonTree),
    parser.cursor = ⟨start, text ++ tail⟩ →
    JsonCursor.boundary tail = true →
    start + text.length ≤ maxStringCodeUnits →
    forest parser.nodes = some trees →
    ∃ first pending more results node,
      parser.valueAt stringToNumber = .ok (first, pending) ∧
      Runs stringToNumber first pending
        (parser.moved ⟨start + text.length, tail⟩ more parser.frames)
        (some node) ∧
      Grows parser.nodes more trees results ∧
      (trees ++ results)[node]? = some tree

/-- The moves over an element: up to white space that is left. -/
def CompletesElement (stringToNumber : List UInt16 → JsNumber)
    (tree : JsonTree) (start : Nat) (text : List UInt16) : Prop :=
  ∀ (parser : JsonTextParser) (tail : List UInt16) (trees : List JsonTree),
    parser.cursor = ⟨start, text ++ tail⟩ → ends tail = true →
    start + text.length ≤ maxStringCodeUnits →
    forest parser.nodes = some trees →
    ∃ first pending more results node stop right,
      parser.parseValueStart stringToNumber = .ok (first, pending) ∧
      Blank right ∧ stop + right.length = start + text.length ∧
      Runs stringToNumber first pending
        (parser.moved ⟨stop, right ++ tail⟩ more parser.frames)
        (some node) ∧
      Grows parser.nodes more trees results ∧
      (trees ++ results)[node]? = some tree

/-- The moves over the elements of an array whose frame is new. -/
def CompletesElements (stringToNumber : List UInt16 → JsNumber)
    (elements : List JsonTree) (start : Nat) (text : List UInt16) : Prop :=
  ∀ (parser : JsonTextParser) (frames : List JsonFrame) (position : Nat)
    (tail : List UInt16) (trees : List JsonTree),
    parser.frames = .array position [] true true :: frames →
    parser.cursor = ⟨start, text ++ tail⟩ → ends tail = true →
    start + text.length ≤ maxStringCodeUnits →
    forest parser.nodes = some trees →
    ∃ more results nodes allowEnd stop right,
      Blank right ∧ stop + right.length = start + text.length ∧
      Runs stringToNumber parser none
        (parser.moved ⟨stop, right ++ tail⟩ more
          (.array position nodes false allowEnd :: frames)) none ∧
      Grows parser.nodes more trees results ∧
      ElementTrees (trees ++ results) nodes elements

def CompletesMember (stringToNumber : List UInt16 → JsNumber)
    (key : List UInt16) (tree : JsonTree) (start : Nat)
    (text : List UInt16) : Prop :=
  ∀ (parser : JsonTextParser) (frames : List JsonFrame) (position : Nat)
    (entries : List (JsString × Nat)) (allowEnd : Bool) (tail : List UInt16)
    (trees : List JsonTree),
    parser.frames = .object position entries (.keyOrEnd allowEnd) :: frames →
    parser.cursor = ⟨start, text ++ tail⟩ → ends tail = true →
    start + text.length ≤ maxStringCodeUnits →
    forest parser.nodes = some trees →
    ∃ more results name node stop right,
      Blank right ∧ stop + right.length = start + text.length ∧
      Runs stringToNumber parser none
        (parser.moved ⟨stop, right ++ tail⟩ more
          (.object position (entries ++ [(name, node)]) .commaOrEnd ::
            frames)) none ∧
      Grows parser.nodes more trees results ∧
      JsString.content name = key ∧ (trees ++ results)[node]? = some tree

/-- The moves over the members of an object whose frame is new. -/
def CompletesMembers (stringToNumber : List UInt16 → JsNumber)
    (members : List (List UInt16 × JsonTree)) (start : Nat)
    (text : List UInt16) : Prop :=
  ∀ (parser : JsonTextParser) (frames : List JsonFrame) (position : Nat)
    (tail : List UInt16) (trees : List JsonTree),
    parser.frames = .object position [] (.keyOrEnd true) :: frames →
    parser.cursor = ⟨start, text ++ tail⟩ → ends tail = true →
    start + text.length ≤ maxStringCodeUnits →
    forest parser.nodes = some trees →
    ∃ more results entries stop right,
      Blank right ∧ stop + right.length = start + text.length ∧
      Runs stringToNumber parser none
        (parser.moved ⟨stop, right ++ tail⟩ more
          (.object position entries .commaOrEnd :: frames)) none ∧
      Grows parser.nodes more trees results ∧
      EntryTrees (trees ++ results) entries members

/-- A value that is a node at once. -/
theorem completes_scalar {tree : JsonTree} {start : Nat} {text : List UInt16}
    (started : ∀ (parser : JsonTextParser) (tail : List UInt16),
      parser.cursor = ⟨start, text ++ tail⟩ →
        JsonCursor.boundary tail = true →
        start + text.length ≤ maxStringCodeUnits →
        ∃ kind, (∀ trees, JsonNode.tree trees
            ⟨⟨start, start + text.length⟩, kind⟩ = some tree) ∧
          parser.valueAt stringToNumber =
            { parser with cursor := ⟨start + text.length, tail⟩ }.pushNode
              start (start + text.length) kind) :
    CompletesValue stringToNumber tree start text := by
  intro parser tail trees position ended bounded known
  have low : start + text.length < 2 ^ 32 := by
    rw [maxStringCodeUnits] at bounded
    omega
  obtain ⟨kind, stands, pushed⟩ := started parser tail position ended bounded
  rw [pushNode_eq (by omega) low] at pushed
  obtain ⟨grown, found⟩ := forest_concat known (stands trees)
  exact ⟨_, _, _, [tree], _, pushed, .refl _ _, ⟨known, grown⟩, found⟩

theorem literalValue_eq {parser : JsonTextParser} {start : Nat}
    {literal tail : List UInt16}
    (position : parser.cursor = ⟨start, literal ++ tail⟩)
    (kind : JsonNodeKind) :
    parser.literalValue literal kind =
      { parser with cursor := ⟨start + literal.length, tail⟩ }.pushNode start
        (start + literal.length) kind := by
  rw [literalValue, position, JsonCursor.parseLiteral_append]
  rfl

/-- A literal is recognized by its first unit. -/
theorem completes_literal {tree : JsonTree} {start : Nat}
    {first : UInt16} {others : List UInt16} (kind : JsonNodeKind)
    (stands : ∀ trees, JsonNode.tree trees
      ⟨⟨start, start + (first :: others).length⟩, kind⟩ = some tree)
    (chosen : ∀ parser : JsonTextParser, parser.cursor.peek = some first →
      parser.valueAt stringToNumber =
        parser.literalValue (first :: others) kind) :
    CompletesValue stringToNumber tree start (first :: others) := by
  apply completes_scalar
  intro parser tail position _ _
  refine ⟨kind, stands, ?_⟩
  rw [chosen parser (by rw [position]; rfl), literalValue_eq position]

theorem completes_null {start : Nat} :
    CompletesValue stringToNumber (.null ⟨start, start + 4⟩) start
      (asciiText ['n', 'u', 'l', 'l']) := by
  apply completes_literal .null (fun _ => rfl)
  intro parser present
  rw [valueAt, present]
  rfl

theorem completes_true {start : Nat} :
    CompletesValue stringToNumber (.boolean ⟨start, start + 4⟩ true) start
      (asciiText ['t', 'r', 'u', 'e']) := by
  apply completes_literal (.boolean true) (fun _ => rfl)
  intro parser present
  rw [valueAt, present]
  rfl

theorem completes_false {start : Nat} :
    CompletesValue stringToNumber (.boolean ⟨start, start + 5⟩ false) start
      (asciiText ['f', 'a', 'l', 's', 'e']) := by
  apply completes_literal (.boolean false) (fun _ => rfl)
  intro parser present
  rw [valueAt, present]
  rfl

theorem completes_number {start : Nat} {text : List UInt16}
    (numeral : Numeral text) :
    CompletesValue stringToNumber
      (.number ⟨start, start + text.length⟩ (stringToNumber text)) start
        text := by
  apply completes_scalar
  intro parser tail position ended bounded
  refine ⟨.number (stringToNumber text), fun _ => rfl, ?_⟩
  have parsed := @JsonCursor.parseNumber_append stringToNumber text tail numeral
    ended start bounded
  obtain ⟨head, rest, rfl, leading⟩ := JsonCursor.numeral_head numeral
  have present : parser.cursor.peek = some head := by
    rw [position]
    rfl
  have other : ∀ unit, unit ≠ ascii '-' → isAsciiDigit unit = false →
      head ≠ unit := by
    rintro unit noMinus noDigit rfl
    rcases leading with minus | digit
    · exact noMinus minus
    · rw [noDigit] at digit
      cases digit
  rw [valueAt, present]
  simp only [other (ascii '[') (by decide) rfl,
    other (ascii '{') (by decide) rfl, other (ascii '"') (by decide) rfl,
    other (ascii 't') (by decide) rfl, other (ascii 'f') (by decide) rfl,
    other (ascii 'n') (by decide) rfl, leading, ↓reduceIte]
  rw [numberValue, position, parsed]
  rfl

theorem completes_string {start : Nat} {text decoded : List UInt16}
    (quoted : Quoted text decoded) :
    CompletesValue stringToNumber
      (.string ⟨start, start + text.length⟩ decoded) start text := by
  apply completes_scalar
  intro parser tail position _ bounded
  obtain ⟨value, parsed, content⟩ :=
    @JsonCursor.parseString_append text decoded quoted start bounded tail
  refine ⟨.string value, fun _ => by rw [← content]; rfl, ?_⟩
  obtain ⟨inside, rfl, _⟩ := quoted
  have present : parser.cursor.peek = some (ascii '"') := by
    rw [position]
    rfl
  rw [valueAt, present]
  have chosen : parser.stringValue =
      { parser with cursor := ⟨start +
        (ascii '"' :: (inside ++ [ascii '"'])).length, tail⟩ }.pushNode start
          (start + (ascii '"' :: (inside ++ [ascii '"'])).length)
            (.string value) := by
    rw [stringValue, position, parsed]
    rfl
  rw [← chosen]
  rfl

/-- A container whose inside has been read is closed. -/
theorem completes_container {parser : JsonTextParser} {fresh frame : JsonFrame}
    {trees results : List JsonTree} {more : List JsonNode} {tree : JsonTree}
    {stop finish : Nat} {right tail : List UInt16}
    (opened : parser.valueAt stringToNumber = .ok (parser.openFrame fresh))
    (runs : Runs stringToNumber (parser.openFrame fresh).1 none
      (parser.moved ⟨stop, right ++ frame.closer :: tail⟩ more
        (frame :: parser.frames)) none)
    (space : Blank right) (allowed : frame.mayClose = true)
    (length : stop + right.length + 1 = finish)
    (low : frame.start < 2 ^ 32) (high : finish < 2 ^ 32)
    (grows : Grows parser.nodes more trees results)
    (stands : JsonNode.tree (trees ++ results)
      ⟨⟨frame.start, finish⟩, frame.kind⟩ = some tree) :
    ∃ first pending more results node,
      parser.valueAt stringToNumber = .ok (first, pending) ∧
      Runs stringToNumber first pending
        (parser.moved ⟨finish, tail⟩ more parser.frames) (some node) ∧
      Grows parser.nodes more trees results ∧
      (trees ++ results)[node]? = some tree := by
  subst length
  have stepped := @step_close stringToNumber (parser.moved
      ⟨stop, right ++ frame.closer :: tail⟩ more (frame :: parser.frames)) frame
    parser.frames _ _ tail rfl rfl space allowed low high
  obtain ⟨grown, found⟩ := forest_concat grows.after stands
  rw [moved_moved] at stepped
  refine ⟨_, _, more ++ [_], results ++ [tree], _, opened,
    runs.trans (.step stepped (.refl _ _)), ⟨grows.before, ?_⟩, ?_⟩
  · rw [← List.append_assoc, ← List.append_assoc]
    exact grown
  · rw [← List.append_assoc]
    exact found

theorem valueAt_array {parser : JsonTextParser} {start : Nat}
    {rest : List UInt16} (position : parser.cursor = ⟨start, ascii '[' :: rest⟩) :
    parser.valueAt stringToNumber =
      .ok (parser.openFrame (.array start [] true true)) := by
  rw [valueAt, position]
  rfl

theorem valueAt_object {parser : JsonTextParser} {start : Nat}
    {rest : List UInt16} (position : parser.cursor = ⟨start, ascii '{' :: rest⟩) :
    parser.valueAt stringToNumber =
      .ok (parser.openFrame (.object start [] (.keyOrEnd true))) := by
  rw [valueAt, position]
  rfl

theorem openFrame_eq {parser : JsonTextParser} {start : Nat} {unit : UInt16}
    {rest : List UInt16} (position : parser.cursor = ⟨start, unit :: rest⟩)
    (frame : JsonFrame) :
    (parser.openFrame frame).1 =
      parser.moved ⟨start + 1, rest⟩ [] (frame :: parser.frames) := by
  simp [openFrame, moved, position, JsonCursor.advance]

theorem completes_emptyArray {start : Nat} {blank : List UInt16}
    (space : Blank blank) :
    CompletesValue stringToNumber
      (.array ⟨start, start + (blank.length + 2)⟩ []) start
        (ascii '[' :: (blank ++ [ascii ']'])) := by
  intro parser tail trees position _ bounded known
  simp only [List.cons_append, List.append_assoc, List.nil_append] at position
  simp only [List.length_cons, List.length_append, List.length_nil,
    maxStringCodeUnits] at bounded ⊢
  apply @completes_container stringToNumber parser (.array start [] true true)
    (.array start [] true true) trees [] [] _ (start + 1) _ blank tail
    (valueAt_array position)
  · rw [openFrame_eq position]
    exact .refl _ _
  · exact space
  · rfl
  · omega
  · simp only [JsonFrame.start]
    omega
  · omega
  · exact ⟨known, by simpa using known⟩
  · rfl

theorem completes_emptyObject {start : Nat} {blank : List UInt16}
    (space : Blank blank) :
    CompletesValue stringToNumber
      (.object ⟨start, start + (blank.length + 2)⟩ []) start
        (ascii '{' :: (blank ++ [ascii '}'])) := by
  intro parser tail trees position _ bounded known
  simp only [List.cons_append, List.append_assoc, List.nil_append] at position
  simp only [List.length_cons, List.length_append, List.length_nil,
    maxStringCodeUnits] at bounded ⊢
  apply @completes_container stringToNumber parser
    (.object start [] (.keyOrEnd true)) (.object start [] (.keyOrEnd true))
    trees [] [] _ (start + 1) _ blank tail (valueAt_object position)
  · rw [openFrame_eq position]
    exact .refl _ _
  · exact space
  · rfl
  · omega
  · simp only [JsonFrame.start]
    omega
  · omega
  · exact ⟨known, by simpa using known⟩
  · rfl

theorem completes_array {start : Nat} {text : List UInt16}
    {elements : List JsonTree}
    (inside : CompletesElements stringToNumber elements (start + 1) text) :
    CompletesValue stringToNumber
      (.array ⟨start, start + (text.length + 2)⟩ elements) start
        (ascii '[' :: (text ++ [ascii ']'])) := by
  intro parser tail trees position _ bounded known
  simp only [List.cons_append, List.append_assoc, List.nil_append] at position
  simp only [List.length_cons, List.length_append, List.length_nil] at bounded ⊢
  have opened := openFrame_eq position (.array start [] true true)
  obtain ⟨more, results, nodes, allowEnd, stop, right, space, length, runs,
    grows, stand⟩ := inside (parser.moved _ [] _) parser.frames start
      (ascii ']' :: tail) trees rfl rfl rfl (by omega)
      (by simpa [moved] using known)
  rw [maxStringCodeUnits] at bounded
  rw [moved_moved, ← opened] at runs
  apply @completes_container stringToNumber parser (.array start [] true true)
    (.array start nodes false allowEnd) trees results more _ stop _ right tail
    (valueAt_array position) runs space rfl
  · omega
  · simp only [JsonFrame.start]
    omega
  · omega
  · simpa [moved] using grows
  · simp only [JsonNode.tree, JsonFrame.kind]
    rw [Support.mapM_eq_some_iff.mpr stand]
    rfl

theorem completes_object {start : Nat} {text : List UInt16}
    {members : List (List UInt16 × JsonTree)}
    (inside : CompletesMembers stringToNumber members (start + 1) text) :
    CompletesValue stringToNumber
      (.object ⟨start, start + (text.length + 2)⟩ members) start
        (ascii '{' :: (text ++ [ascii '}'])) := by
  intro parser tail trees position _ bounded known
  simp only [List.cons_append, List.append_assoc, List.nil_append] at position
  simp only [List.length_cons, List.length_append, List.length_nil] at bounded ⊢
  have opened := openFrame_eq position (.object start [] (.keyOrEnd true))
  obtain ⟨more, results, entries, stop, right, space, length, runs, grows,
    stand⟩ := inside (parser.moved _ [] _) parser.frames start
      (ascii '}' :: tail) trees rfl rfl rfl (by omega)
      (by simpa [moved] using known)
  rw [maxStringCodeUnits] at bounded
  rw [moved_moved, ← opened] at runs
  apply @completes_container stringToNumber parser
    (.object start [] (.keyOrEnd true)) (.object start entries .commaOrEnd)
    trees results more _ stop _ right tail (valueAt_object position) runs space
    rfl
  · omega
  · simp only [JsonFrame.start]
    omega
  · omega
  · simpa [moved] using grows
  · simp only [JsonNode.tree, JsonFrame.kind]
    rw [stand.mapM_eq]
    rfl

theorem completes_element {tree : JsonTree} {start : Nat}
    {left text right : List UInt16} (before : Blank left)
    (derives : Derives stringToNumber (.value tree) (start + left.length) text)
    (value : CompletesValue stringToNumber tree (start + left.length) text)
    (after : Blank right) :
    CompletesElement stringToNumber tree start (left ++ (text ++ right)) := by
  intro parser tail trees position ended bounded known
  have skipped : parser.cursor.skipWhitespace =
      ⟨start + left.length, text ++ (right ++ tail)⟩ := by
    obtain ⟨head, rest, rfl, visible, _⟩ := JsonCursor.derives_head derives
    rw [position, List.append_assoc, List.append_assoc]
    exact JsonCursor.skipWhitespace_append before (by simpa using visible) start
  simp only [List.length_append] at bounded ⊢
  obtain ⟨first, pending, more, results, node, started, runs, grows, found⟩ :=
    value parser.skipWhitespace (right ++ tail) trees skipped
      (boundary_of_ends after ended) (by omega) known
  exact ⟨first, pending, more, results, node, start + left.length + text.length,
    right, started, after, by omega, runs, grows, found⟩

/-- The innermost frame reads an element and keeps its node. -/
theorem attach_element {parser : JsonTextParser} {frame : JsonFrame}
    {frames : List JsonFrame} {tree : JsonTree} {start : Nat}
    {text tail : List UInt16} {trees : List JsonTree}
    (derives : Derives stringToNumber (.element tree) start text)
    (element : CompletesElement stringToNumber tree start text)
    (innermost : parser.frames = frame :: frames)
    (allowed : frame.wantsValue = true)
    (position : parser.cursor = ⟨start, text ++ tail⟩)
    (ended : ends tail = true)
    (bounded : start + text.length ≤ maxStringCodeUnits)
    (known : forest parser.nodes = some trees) :
    ∃ more results node after stop right, frame.attached node = some after ∧
      Blank right ∧ stop + right.length = start + text.length ∧
      Runs stringToNumber parser none
        (parser.moved ⟨stop, right ++ tail⟩ more (after :: frames)) none ∧
      Grows parser.nodes more trees results ∧
      (trees ++ results)[node]? = some tree := by
  obtain ⟨first, pending, more, results, node, stop, right, started, space,
    length, runs, grows, found⟩ :=
      element parser tail trees position ended bounded known
  have advanced : parser.advanceFrame stringToNumber =
      .ok (first, pending) := by
    cases derives with
    | element before value after =>
        obtain ⟨head, rest, rfl, visible, opens⟩ :=
          JsonCursor.derives_head value
        simp only [List.append_assoc, List.cons_append] at position
        rw [advanceFrame_eq innermost position before visible opens allowed]
        exact started
  have attached : ∃ after, frame.attached node = some after := by
    unfold JsonFrame.wantsValue at allowed
    split at allowed
    · subst allowed
      exact ⟨_, rfl⟩
    · exact ⟨_, rfl⟩
    · cases allowed
  obtain ⟨after, kept⟩ := attached
  refine ⟨more, results, node, after, stop, right, kept, space, length, ?_,
    grows, found⟩
  have handed := @step_attach stringToNumber (parser.moved
    ⟨stop, right ++ tail⟩ more parser.frames) frame frames after node innermost
    kept
  exact .step (step_none advanced) (runs.trans (.step handed (.refl _ _)))

theorem completes_firstElement {tree : JsonTree} {start : Nat}
    {text : List UInt16}
    (derives : Derives stringToNumber (.element tree) start text)
    (only : CompletesElement stringToNumber tree start text) :
    CompletesElements stringToNumber [tree] start text := by
  intro parser frames position tail trees innermost here ended bounded known
  obtain ⟨more, results, node, after, stop, right, kept, space, length, runs,
    grows, found⟩ :=
      attach_element derives only innermost rfl here ended bounded known
  cases kept
  exact ⟨more, results, [node], true, stop, right, space, length, runs, grows,
    .cons found .nil⟩

theorem completes_nextElement {trees : List JsonTree} {tree : JsonTree}
    {start : Nat} {text next : List UInt16}
    (first : CompletesElements stringToNumber trees start text)
    (derives : Derives stringToNumber (.element tree)
      (start + (text.length + 1)) next)
    (last : CompletesElement stringToNumber tree
      (start + (text.length + 1)) next) :
    CompletesElements stringToNumber (trees ++ [tree]) start
      (text ++ ascii ',' :: next) := by
  intro parser frames position tail known innermost here ended bounded forested
  simp only [List.append_assoc, List.cons_append] at here
  simp only [List.length_append, List.length_cons] at bounded ⊢
  obtain ⟨more, results, nodes, allowEnd, stop, right, space, length, runs,
    grows, stand⟩ := first parser frames position
      (ascii ',' :: (next ++ tail)) known innermost here rfl (by omega) forested
  have comma := @step_comma stringToNumber (parser.moved
    ⟨stop, right ++ ascii ',' :: (next ++ tail)⟩ more
      (.array position nodes false allowEnd :: frames)) _ frames _ _ _ _ rfl rfl
      space rfl
  rw [moved_moved, List.append_nil] at comma
  have offset : stop + right.length + 1 = start + (text.length + 1) := by
    omega
  rw [offset] at comma
  obtain ⟨others, extra, node, after, finish, rest, kept, restSpace,
    restLength, restRuns, restGrows, found⟩ := @attach_element stringToNumber
      (parser.moved ⟨start + (text.length + 1), next ++ tail⟩ more
        (.array position nodes true false :: frames)) _ _ _ _ _ _ _ derives last
      rfl rfl rfl ended (by omega) grows.after
  cases kept
  rw [moved_moved] at restRuns
  refine ⟨more ++ others, results ++ extra, nodes ++ [node], false, finish,
    rest, restSpace, by omega, runs.trans (.step comma restRuns),
    grows.trans restGrows, ?_⟩
  rw [← List.append_assoc]
  exact List.rel_append stand.append (.cons found .nil)

theorem completes_member {key : List UInt16} {tree : JsonTree} {start : Nat}
    {left name middle text : List UInt16} (before : Blank left)
    (quoted : Quoted name key) (between : Blank middle)
    (derives : Derives stringToNumber (.element tree)
      (start + (left.length + name.length + middle.length + 1)) text)
    (value : CompletesElement stringToNumber tree
      (start + (left.length + name.length + middle.length + 1)) text) :
    CompletesMember stringToNumber key tree start
      (left ++ (name ++ (middle ++ ascii ':' :: text))) := by
  intro parser frames position entries allowEnd tail trees innermost here ended
    bounded known
  simp only [List.append_assoc, List.cons_append] at here
  simp only [List.length_append, List.length_cons] at bounded ⊢
  obtain ⟨stored, content, named⟩ := @step_name stringToNumber parser frames
    start left (text ++ tail) position entries allowEnd name middle key
    innermost here before quoted between (by omega)
  obtain ⟨more, results, node, after, stop, right, kept, space, length, runs,
    grows, found⟩ := @attach_element stringToNumber (parser.moved
        ⟨start + (left.length + name.length + middle.length + 1), text ++ tail⟩
          [] (.object position entries (.value stored) :: frames)) _ _ _ _ _ _
      trees derives value rfl rfl rfl ended (by omega)
      (by simpa [moved] using known)
  cases kept
  rw [moved_moved, List.nil_append] at runs
  exact ⟨more, results, stored, node, stop, right, space, by omega,
    .step named runs, by simpa [moved] using grows, content, found⟩

theorem completes_firstMember {key : List UInt16} {tree : JsonTree}
    {start : Nat} {text : List UInt16}
    (only : CompletesMember stringToNumber key tree start text) :
    CompletesMembers stringToNumber [(key, tree)] start text := by
  intro parser frames position tail trees innermost here ended bounded known
  obtain ⟨more, results, name, node, stop, right, space, length, runs, grows,
    content, found⟩ := only parser frames position [] true tail trees innermost
      here ended bounded known
  exact ⟨more, results, [(name, node)], stop, right, space, length, runs, grows,
    .cons ⟨content, found⟩ .nil⟩

theorem completes_nextMember {members : List (List UInt16 × JsonTree)}
    {key : List UInt16} {tree : JsonTree} {start : Nat}
    {text next : List UInt16}
    (first : CompletesMembers stringToNumber members start text)
    (last : CompletesMember stringToNumber key tree
      (start + (text.length + 1)) next) :
    CompletesMembers stringToNumber (members ++ [(key, tree)]) start
      (text ++ ascii ',' :: next) := by
  intro parser frames position tail known innermost here ended bounded forested
  simp only [List.append_assoc, List.cons_append] at here
  simp only [List.length_append, List.length_cons] at bounded ⊢
  obtain ⟨more, results, entries, stop, right, space, length, runs, grows,
    stand⟩ := first parser frames position (ascii ',' :: (next ++ tail)) known
      innermost here rfl (by omega) forested
  have comma := @step_comma stringToNumber (parser.moved
    ⟨stop, right ++ ascii ',' :: (next ++ tail)⟩ more
      (.object position entries .commaOrEnd :: frames)) _ frames _ _ _ _ rfl rfl
      space rfl
  rw [moved_moved, List.append_nil] at comma
  have offset : stop + right.length + 1 = start + (text.length + 1) := by
    omega
  rw [offset] at comma
  obtain ⟨others, extra, name, node, finish, rest, restSpace, restLength,
    restRuns, restGrows, content, found⟩ := last (parser.moved
      ⟨start + (text.length + 1), next ++ tail⟩ more
        (.object position entries (.keyOrEnd false) :: frames)) frames position
      entries false tail (known ++ results) rfl rfl ended (by omega) grows.after
  rw [moved_moved] at restRuns
  refine ⟨more ++ others, results ++ extra, entries ++ [(name, node)], finish,
    rest, restSpace, by omega, runs.trans (.step comma restRuns),
    grows.trans restGrows, ?_⟩
  rw [← List.append_assoc]
  exact List.rel_append stand.append (.cons ⟨content, found⟩ .nil)

/-- What the parser does over a phrase. -/
def Completes (stringToNumber : List UInt16 → JsNumber) :
    JsonPhrase → Nat → List UInt16 → Prop
  | .value tree => CompletesValue stringToNumber tree
  | .element tree => CompletesElement stringToNumber tree
  | .elements trees => CompletesElements stringToNumber trees
  | .member key tree => CompletesMember stringToNumber key tree
  | .members entries => CompletesMembers stringToNumber entries

theorem completes_of_derives {phrase : JsonPhrase} {start : Nat}
    {text : List UInt16} (derives : Derives stringToNumber phrase start text) :
    Completes stringToNumber phrase start text := by
  induction derives with
  | null => exact completes_null
  | true => exact completes_true
  | false => exact completes_false
  | number numeral => exact completes_number numeral
  | string quoted => exact completes_string quoted
  | emptyArray space => exact completes_emptyArray space
  | array inside induction => exact completes_array induction
  | emptyObject space => exact completes_emptyObject space
  | object inside induction => exact completes_object induction
  | element before value after induction =>
      exact completes_element before value induction after
  | firstElement only induction => exact completes_firstElement only induction
  | nextElement first last firstInduction lastInduction =>
      exact completes_nextElement firstInduction last lastInduction
  | member before quoted between value induction =>
      exact completes_member before quoted between value induction
  | firstMember only induction => exact completes_firstMember induction
  | nextMember first last firstInduction lastInduction =>
      exact completes_nextMember firstInduction lastInduction

/-- A finished value with only white space behind it is the document. -/
theorem run_done {parser : JsonTextParser} {node index : Nat}
    {blank : List UInt16} (outermost : parser.frames = [])
    (position : parser.cursor = ⟨index, blank⟩) (space : Blank blank) :
    parser.run stringToNumber (some node) =
      .ok ⟨parser.text, parser.nodes, node⟩ := by
  have skipped := @JsonCursor.skipWhitespace_append blank [] space rfl index
  rw [List.append_nil] at skipped
  have stepped : parser.step stringToNumber (some node) =
      .ok (.done ⟨parser.text, parser.nodes, node⟩) := by
    rw [step]
    unfold attach
    rw [outermost]
    simp only [skipWhitespace, position, skipped, ↓reduceIte]
  rw [run]
  split
  · rename_i failed
    rw [stepped] at failed
    cases failed
  · rename_i ended
    rw [stepped] at ended
    cases ended
    rfl
  · rename_i continued
    rw [stepped] at continued
    cases continued

theorem parse_complete {text : Text} {tree : JsonTree}
    (json : JsonText stringToNumber text.codeUnits tree) :
    ∃ document, parse stringToNumber text = .ok document ∧
      document.tree = some tree := by
  have bounded : 0 + text.codeUnits.length ≤ maxStringCodeUnits := by
    rw [Nat.zero_add, text.codeUnits_eq, ← text.formed.len_eq]
    exact text.formed.len_le
  have element : CompletesElement stringToNumber tree 0 text.codeUnits :=
    completes_of_derives json
  obtain ⟨first, pending, more, results, node, stop, right, started, space, _,
    runs, grows, found⟩ := element (new text) [] [] (by simp [new]) rfl bounded
      rfl
  refine ⟨⟨text, more, node⟩, ?_, ?_⟩
  · rw [parse, started]
    have finished := @run_done stringToNumber ((new text).moved
      ⟨stop, right ++ []⟩ more []) node stop right rfl (by simp [moved]) space
    exact runs.run_eq.trans finished
  · rw [JsonDocument.tree, Option.bind_eq_bind, Option.bind_eq_some_iff]
    exact ⟨results, grows.after, found⟩

theorem span_of_derives {tree : JsonTree} {start : Nat} {text : List UInt16}
    (derives : Derives stringToNumber (.value tree) start text) :
    tree.span = ⟨start, start + text.length⟩ := by
  cases derives with
  | emptyArray space => simp [JsonTree.span]
  | array inside => simp [JsonTree.span]
  | emptyObject space => simp [JsonTree.span]
  | object inside => simp [JsonTree.span]
  | _ => rfl

theorem span_of_tree {trees : List JsonTree} {node : JsonNode}
    {tree : JsonTree} (stands : node.tree trees = some tree) :
    tree.span = node.span := by
  obtain ⟨span, kind⟩ := node
  cases kind with
  | array elements =>
      obtain ⟨_, _, rfl⟩ := Option.map_eq_some_iff.mp stands
      rfl
  | object entries =>
      obtain ⟨_, _, rfl⟩ := Option.map_eq_some_iff.mp stands
      rfl
  | _ =>
      cases stands
      rfl

theorem tree_of_forest {nodes : List JsonNode} {trees : List JsonTree}
    (known : forest nodes = some trees) {index : Nat} {node : JsonNode}
    (found : nodes[index]? = some node) :
    ∃ tree, trees[index]? = some tree ∧
      node.tree (trees.take index) = some tree := by
  induction nodes using List.reverseRecOn generalizing trees with
  | nil => cases found
  | append_singleton nodes last induction =>
      obtain ⟨earlier, tree, knownEarlier, stands, rfl⟩ :=
        forest_concat_iff.mp known
      have sized := length_forest knownEarlier
      have bound := (List.getElem?_eq_some_iff.mp found).1
      rw [List.length_append, List.length_singleton] at bound
      by_cases inside : index < nodes.length
      · rw [List.getElem?_append_left inside] at found
        obtain ⟨result, here, rest⟩ := induction knownEarlier found
        refine ⟨result, ?_, ?_⟩
        · rw [List.getElem?_append_left (sized ▸ inside)]
          exact here
        · rw [List.take_append_of_le_length (by omega)]
          exact rest
      · have last : index = nodes.length := by omega
        subst last
        rw [List.getElem?_concat_length, Option.some.injEq] at found
        subst found
        refine ⟨tree, ?_, ?_⟩
        · rw [← sized, List.getElem?_concat_length]
        · rw [← sized, List.take_left]
          exact stands

/-- The document is the parse tree of the text: the only one, with each node
spanning the source of its own tree and referring to earlier nodes. -/
structure ParseTree (stringToNumber : List UInt16 → JsNumber) (text : Text)
    (document : JsonDocument) (tree : JsonTree) : Prop where
  root : document.tree = some tree
  grammar : JsonText stringToNumber text.codeUnits tree
  unique : ∀ other, JsonText stringToNumber text.codeUnits other →
    other = tree
  earlier : ∀ (index : Nat) (node : JsonNode),
    document.nodes[index]? = some node → ∀ child ∈ node.children, child < index
  spans : ∃ trees, forest document.nodes = some trees ∧
    ∀ (index : Nat) (node : JsonNode), document.nodes[index]? = some node →
      ∃ before source after value,
        text.codeUnits = before ++ (source ++ after) ∧
          node.span = ⟨before.length, before.length + source.length⟩ ∧
          trees[index]? = some value ∧
          node.tree (trees.take index) = some value ∧
          Derives stringToNumber (.value value) before.length source

/-- The parser accepts the JSON texts, and builds their parse trees. -/
theorem parse_grammar (stringToNumber : List UInt16 → JsNumber) (text : Text) :
    ((∃ document, parse stringToNumber text = .ok document) ↔
        ∃ tree, JsonText stringToNumber text.codeUnits tree) ∧
      ∀ document, parse stringToNumber text = .ok document →
        ∃ tree, ParseTree stringToNumber text document tree := by
  have built : ∀ document, parse stringToNumber text = .ok document →
      ∃ tree, ParseTree stringToNumber text document tree := by
    intro document parsed
    obtain ⟨trees, tree, accepted⟩ := parse_sound parsed
    have root : document.tree = some tree := by
      rw [JsonDocument.tree, Option.bind_eq_bind, Option.bind_eq_some_iff]
      exact ⟨trees, accepted.known, accepted.root⟩
    refine ⟨tree, root, accepted.text, ?_, ?_, ?_⟩
    · intro other json
      obtain ⟨again, parsedAgain, otherRoot⟩ := parse_complete json
      rw [parsed] at parsedAgain
      cases parsedAgain
      rw [root] at otherRoot
      exact (Option.some.inj otherRoot).symm
    · intro index node found child member
      exact children_lt_of_forest accepted.known found member
    · refine ⟨trees, accepted.known, fun index node found => ?_⟩
      obtain ⟨value, here, stands⟩ := tree_of_forest accepted.known found
      obtain ⟨before, source, after, whole, derives⟩ :=
        accepted.located value (List.mem_of_getElem? here)
      refine ⟨before, source, after, value, whole, ?_, here, stands, derives⟩
      rw [← span_of_tree stands, span_of_derives derives]
  refine ⟨⟨?_, ?_⟩, built⟩
  · rintro ⟨document, parsed⟩
    obtain ⟨tree, parseTree⟩ := built document parsed
    exact ⟨tree, parseTree.grammar⟩
  · rintro ⟨tree, json⟩
    obtain ⟨document, parsed, _⟩ := parse_complete json
    exact ⟨document, parsed⟩

end Fusor.Json
