import Fusor.Json.Parser

/-!
# What the parser accepts is a JSON text

The units behind the cursor are cut at the opening brackets of the frames.
What a frame has seen since its bracket is a part of a derivation, and every
node stands for the tree of the text its span covers.
-/

namespace Fusor.Json

open Fusor.Runtime

variable {stringToNumber : List UInt16 → JsNumber}

theorem blank_append {left right : List UInt16} (first : Blank left)
    (second : Blank right) : Blank (left ++ right) := by
  intro unit member
  rcases List.mem_append.mp member with found | found
  · exact first unit found
  · exact second unit found

theorem blank_nil : Blank [] := by
  intro unit member
  cases member

/-- White space may be added behind an element. -/
theorem Derives.element_blank {tree : JsonTree} {start : Nat}
    {text blank : List UInt16}
    (derives : Derives stringToNumber (.element tree) start text)
    (space : Blank blank) :
    Derives stringToNumber (.element tree) start (text ++ blank) := by
  cases derives with
  | element before value after =>
      rw [List.append_assoc, List.append_assoc]
      exact .element before value (blank_append after space)

theorem Derives.elements_blank {trees : List JsonTree} {start : Nat}
    {text blank : List UInt16}
    (derives : Derives stringToNumber (.elements trees) start text)
    (space : Blank blank) :
    Derives stringToNumber (.elements trees) start (text ++ blank) := by
  cases derives with
  | firstElement only => exact .firstElement (only.element_blank space)
  | nextElement first last =>
      rw [List.append_assoc, List.cons_append]
      exact .nextElement first (last.element_blank space)

theorem Derives.member_blank {key : List UInt16} {tree : JsonTree}
    {start : Nat} {text blank : List UInt16}
    (derives : Derives stringToNumber (.member key tree) start text)
    (space : Blank blank) :
    Derives stringToNumber (.member key tree) start (text ++ blank) := by
  cases derives with
  | member before quoted between value =>
      simp only [List.append_assoc, List.cons_append]
      exact .member before quoted between (value.element_blank space)

theorem Derives.members_blank {entries : List (List UInt16 × JsonTree)}
    {start : Nat} {text blank : List UInt16}
    (derives : Derives stringToNumber (.members entries) start text)
    (space : Blank blank) :
    Derives stringToNumber (.members entries) start (text ++ blank) := by
  cases derives with
  | firstMember only => exact .firstMember (only.member_blank space)
  | nextMember first last =>
      rw [List.append_assoc, List.cons_append]
      exact .nextMember first (last.member_blank space)

/-- The nodes of the elements stand for the trees. -/
def ElementTrees (trees : List JsonTree) (elements : List Nat)
    (results : List JsonTree) : Prop :=
  List.Forall₂ (fun element tree => trees[element]? = some tree) elements
    results

/-- The nodes of the entries stand for the trees under their keys. -/
def EntryTrees (trees : List JsonTree) (entries : List (JsString × Nat))
    (results : List (List UInt16 × JsonTree)) : Prop :=
  List.Forall₂ (fun entry member => entry.1.content = member.1 ∧
    trees[entry.2]? = some member.2) entries results

theorem getElem?_append_some {trees more : List JsonTree} {index : Nat}
    {tree : JsonTree} (found : trees[index]? = some tree) :
    (trees ++ more)[index]? = some tree := by
  obtain ⟨inside, _⟩ := List.getElem?_eq_some_iff.mp found
  rw [List.getElem?_append_left inside]
  exact found

theorem ElementTrees.append {trees more results : List JsonTree}
    {elements : List Nat} (stand : ElementTrees trees elements results) :
    ElementTrees (trees ++ more) elements results :=
  stand.imp fun _ _ found => getElem?_append_some found

theorem EntryTrees.append {trees more : List JsonTree}
    {entries : List (JsString × Nat)}
    {results : List (List UInt16 × JsonTree)}
    (stand : EntryTrees trees entries results) :
    EntryTrees (trees ++ more) entries results :=
  stand.imp fun _ _ found => ⟨found.1, getElem?_append_some found.2⟩

theorem EntryTrees.mapM_eq {trees : List JsonTree}
    {entries : List (JsString × Nat)}
    {results : List (List UInt16 × JsonTree)}
    (stand : EntryTrees trees entries results) :
    (entries.mapM fun entry =>
      trees[entry.2]?.map fun tree => (entry.1.content, tree)) =
        some results := by
  rw [Support.mapM_eq_some_iff]
  refine stand.imp fun entry member found => ?_
  rw [found.2, found.1]
  rfl

theorem forest_concat_iff {nodes : List JsonNode} {node : JsonNode}
    {results : List JsonTree} :
    forest (nodes ++ [node]) = some results ↔
      ∃ trees tree, forest nodes = some trees ∧
        node.tree trees = some tree ∧ results = trees ++ [tree] := by
  rw [forest, List.foldlM_append, ← forest]
  simp only [Option.bind_eq_bind, Option.bind_eq_some_iff, List.foldlM_cons,
    List.foldlM_nil, Option.map_eq_some_iff]
  constructor
  · rintro ⟨trees, known, extended, ⟨tree, stands, rfl⟩, finished⟩
    cases finished
    exact ⟨trees, tree, known, stands, rfl⟩
  · rintro ⟨trees, tree, known, stands, rfl⟩
    exact ⟨trees, known, _, ⟨tree, stands, rfl⟩, rfl⟩

theorem length_forest {nodes : List JsonNode} {trees : List JsonTree}
    (known : forest nodes = some trees) : trees.length = nodes.length := by
  induction nodes using List.reverseRecOn generalizing trees with
  | nil =>
      cases known
      rfl
  | append_singleton nodes node induction =>
      obtain ⟨earlier, tree, knownEarlier, _, rfl⟩ :=
        forest_concat_iff.mp known
      rw [List.length_append, List.length_append, induction knownEarlier]
      rfl

theorem forest_concat {nodes : List JsonNode} {node : JsonNode}
    {trees : List JsonTree} {tree : JsonTree}
    (known : forest nodes = some trees)
    (stands : node.tree trees = some tree) :
    forest (nodes ++ [node]) = some (trees ++ [tree]) ∧
      (trees ++ [tree])[nodes.length]? = some tree := by
  refine ⟨forest_concat_iff.mpr ⟨trees, tree, known, stands, rfl⟩, ?_⟩
  rw [← length_forest known, List.getElem?_append_right (Nat.le_refl _)]
  simp

/-- A sequence of elements that another one may follow. -/
def ElementsReady (stringToNumber : List UInt16 → JsNumber)
    (trees : List JsonTree) (elements : List Nat) (start : Nat)
    (before : List UInt16) : Prop :=
  (before = [] ∧ elements = []) ∨
    ∃ text results, before = text ++ [ascii ','] ∧
      Derives stringToNumber (.elements results) start text ∧
        ElementTrees trees elements results

def MembersReady (stringToNumber : List UInt16 → JsNumber)
    (trees : List JsonTree) (entries : List (JsString × Nat)) (start : Nat)
    (before : List UInt16) : Prop :=
  (before = [] ∧ entries = []) ∨
    ∃ text results, before = text ++ [ascii ','] ∧
      Derives stringToNumber (.members results) start text ∧
        EntryTrees trees entries results

theorem ElementsReady.extend {trees : List JsonTree} {elements : List Nat}
    {start node : Nat} {before text : List UInt16} {tree : JsonTree}
    (ready : ElementsReady stringToNumber trees elements start before)
    (derives : Derives stringToNumber (.element tree)
      (start + before.length) text) (found : trees[node]? = some tree) :
    ∃ results, Derives stringToNumber (.elements results) start
        (before ++ text) ∧
      ElementTrees trees (elements ++ [node]) results := by
  rcases ready with ⟨rfl, rfl⟩ | ⟨earlier, results, rfl, first, stand⟩
  · exact ⟨[tree], .firstElement derives, .cons found .nil⟩
  · refine ⟨results ++ [tree], ?_, List.rel_append stand (.cons found .nil)⟩
    rw [List.append_assoc]
    apply Derives.nextElement first
    simpa using derives

theorem MembersReady.extend {trees : List JsonTree}
    {entries : List (JsString × Nat)} {start node : Nat} {key : JsString}
    {before text : List UInt16} {tree : JsonTree}
    (ready : MembersReady stringToNumber trees entries start before)
    (derives : Derives stringToNumber (.member key.content tree)
      (start + before.length) text) (found : trees[node]? = some tree) :
    ∃ results, Derives stringToNumber (.members results) start
        (before ++ text) ∧
      EntryTrees trees (entries ++ [(key, node)]) results := by
  rcases ready with ⟨rfl, rfl⟩ | ⟨earlier, results, rfl, first, stand⟩
  · exact ⟨[(key.content, tree)], .firstMember derives,
      .cons ⟨rfl, found⟩ .nil⟩
  · refine ⟨results ++ [(key.content, tree)], ?_,
      List.rel_append stand (.cons ⟨rfl, found⟩ .nil)⟩
    rw [List.append_assoc]
    apply Derives.nextMember first
    simpa using derives

/-- What a frame has seen since its opening bracket. -/
def JsonFrame.Holds (stringToNumber : List UInt16 → JsNumber)
    (trees : List JsonTree) : JsonFrame → List UInt16 → Prop
  | .array start elements true allowEnd, inside =>
      ∃ before blank, inside = before ++ blank ∧ Blank blank ∧
        ElementsReady stringToNumber trees elements (start + 1) before ∧
          (allowEnd = true → before = [])
  | .array start elements false _, inside =>
      ∃ results, Derives stringToNumber (.elements results) (start + 1)
        inside ∧ ElementTrees trees elements results
  | .object start entries (.keyOrEnd allowEnd), inside =>
      ∃ before blank, inside = before ++ blank ∧ Blank blank ∧
        MembersReady stringToNumber trees entries (start + 1) before ∧
          (allowEnd = true → before = [])
  | .object start entries (.value key), inside =>
      ∃ before left name middle blank,
        inside = before ++ (left ++ (name ++ (middle ++
          ascii ':' :: blank))) ∧
          MembersReady stringToNumber trees entries (start + 1) before ∧
            Blank left ∧ Quoted name key.content ∧ Blank middle ∧ Blank blank
  | .object start entries .commaOrEnd, inside =>
      ∃ results, Derives stringToNumber (.members results) (start + 1)
        inside ∧ EntryTrees trees entries results

namespace JsonFrame.Holds

variable {trees : List JsonTree} {frame : JsonFrame} {inside : List UInt16}

theorem blank {space : List UInt16}
    (holds : frame.Holds stringToNumber trees inside) (blank : Blank space) :
    frame.Holds stringToNumber trees (inside ++ space) := by
  cases frame with
  | array start elements expectingValue allowEnd =>
      cases expectingValue with
      | true =>
          obtain ⟨before, earlier, rfl, wide, ready, first⟩ := holds
          exact ⟨before, earlier ++ space, List.append_assoc _ _ _,
            blank_append wide blank, ready, first⟩
      | false =>
          obtain ⟨results, derives, stand⟩ := holds
          exact ⟨results, derives.elements_blank blank, stand⟩
  | object start entries state =>
      cases state with
      | keyOrEnd allowEnd =>
          obtain ⟨before, earlier, rfl, wide, ready, first⟩ := holds
          exact ⟨before, earlier ++ space, List.append_assoc _ _ _,
            blank_append wide blank, ready, first⟩
      | value key =>
          obtain ⟨before, left, name, middle, earlier, rfl, ready, leftBlank,
            quoted, middleBlank, wide⟩ := holds
          refine ⟨before, left, name, middle, earlier ++ space, ?_, ready,
            leftBlank, quoted, middleBlank, blank_append wide blank⟩
          simp only [List.append_assoc, List.cons_append]
      | commaOrEnd =>
          obtain ⟨results, derives, stand⟩ := holds
          exact ⟨results, derives.members_blank blank, stand⟩

theorem more {others : List JsonTree}
    (holds : frame.Holds stringToNumber trees inside) :
    frame.Holds stringToNumber (trees ++ others) inside := by
  have elementsReady : ∀ {elements start before},
      ElementsReady stringToNumber trees elements start before →
        ElementsReady stringToNumber (trees ++ others) elements start
          before := by
    rintro elements start before (fresh | ⟨text, results, same, derives, stand⟩)
    · exact .inl fresh
    · exact .inr ⟨text, results, same, derives, stand.append⟩
  have membersReady : ∀ {entries start before},
      MembersReady stringToNumber trees entries start before →
        MembersReady stringToNumber (trees ++ others) entries start
          before := by
    rintro entries start before (fresh | ⟨text, results, same, derives, stand⟩)
    · exact .inl fresh
    · exact .inr ⟨text, results, same, derives, stand.append⟩
  cases frame with
  | array start elements expectingValue allowEnd =>
      cases expectingValue with
      | true =>
          obtain ⟨before, earlier, same, wide, ready, first⟩ := holds
          exact ⟨before, earlier, same, wide, elementsReady ready, first⟩
      | false =>
          obtain ⟨results, derives, stand⟩ := holds
          exact ⟨results, derives, stand.append⟩
  | object start entries state =>
      cases state with
      | keyOrEnd allowEnd =>
          obtain ⟨before, earlier, same, wide, ready, first⟩ := holds
          exact ⟨before, earlier, same, wide, membersReady ready, first⟩
      | value key =>
          obtain ⟨before, left, name, middle, earlier, same, ready, rest⟩ :=
            holds
          exact ⟨before, left, name, middle, earlier, same,
            membersReady ready, rest⟩
      | commaOrEnd =>
          obtain ⟨results, derives, stand⟩ := holds
          exact ⟨results, derives, stand.append⟩

theorem comma {after : JsonFrame}
    (holds : frame.Holds stringToNumber trees inside)
    (allowed : frame.afterComma = some after) :
    after.Holds stringToNumber trees (inside ++ [ascii ',']) := by
  cases frame with
  | array start elements expectingValue allowEnd =>
      cases expectingValue with
      | true => cases allowed
      | false =>
          cases allowed
          obtain ⟨results, derives, stand⟩ := holds
          exact ⟨inside ++ [ascii ','], [], (List.append_nil _).symm, blank_nil,
            .inr ⟨inside, results, rfl, derives, stand⟩, fun no => by cases no⟩
  | object start entries state =>
      cases state with
      | commaOrEnd =>
          cases allowed
          obtain ⟨results, derives, stand⟩ := holds
          exact ⟨inside ++ [ascii ','], [], (List.append_nil _).symm, blank_nil,
            .inr ⟨inside, results, rfl, derives, stand⟩, fun no => by cases no⟩
      | _ => cases allowed

theorem name {start : Nat} {entries : List (JsString × Nat)}
    {allowEnd : Bool} {key : JsString} {text gap : List UInt16}
    (holds : (JsonFrame.object start entries (.keyOrEnd allowEnd)).Holds
      stringToNumber trees inside) (quoted : Quoted text key.content)
    (between : Blank gap) :
    (JsonFrame.object start entries (.value key)).Holds stringToNumber trees
      (inside ++ (text ++ (gap ++ [ascii ':']))) := by
  obtain ⟨before, space, rfl, wide, ready, _⟩ := holds
  refine ⟨before, space, text, gap, [], ?_, ready, wide, quoted, between,
    blank_nil⟩
  rw [List.append_assoc]

/-- A value that ends here is handed to the frame. -/
theorem attach {after : JsonFrame} {node : Nat} {tree : JsonTree}
    {text : List UInt16}
    (holds : frame.Holds stringToNumber trees inside)
    (allowed : frame.attached node = some after)
    (found : trees[node]? = some tree)
    (derives : Derives stringToNumber (.value tree)
      (frame.start + 1 + inside.length) text) :
    after.Holds stringToNumber trees (inside ++ text) := by
  cases frame with
  | array start elements expectingValue allowEnd =>
      cases expectingValue with
      | false => cases allowed
      | true =>
          cases allowed
          obtain ⟨before, space, rfl, wide, ready, _⟩ := holds
          have element : Derives stringToNumber (.element tree)
              (start + 1 + before.length) (space ++ (text ++ [])) := by
            refine .element wide ?_ blank_nil
            simpa [JsonFrame.start, Nat.add_assoc] using derives
          rw [List.append_nil] at element
          rw [List.append_assoc]
          exact ready.extend element found
  | object start entries state =>
      cases state with
      | value key =>
          cases allowed
          obtain ⟨before, left, quotedText, middle, space, rfl, ready,
            leftBlank, quoted, middleBlank, wide⟩ := holds
          have element : Derives stringToNumber (.element tree)
              (start + 1 + before.length + (left.length + quotedText.length +
                middle.length + 1)) (space ++ (text ++ [])) := by
            refine .element wide ?_ blank_nil
            have position : start + 1 + before.length + (left.length +
                quotedText.length + middle.length + 1) + space.length =
                  (JsonFrame.object start entries (.value key)).start + 1 +
                    (before ++ (left ++ (quotedText ++ (middle ++
                      ascii ':' :: space)))).length := by
              simp [JsonFrame.start]
              omega
            rw [position]
            exact derives
          rw [List.append_nil] at element
          have member := Derives.member leftBlank quoted middleBlank element
          simp only [List.append_assoc, List.cons_append]
          exact ready.extend member found
      | _ => cases allowed

/-- A frame that may close stands for the tree of its text. -/
theorem close (holds : frame.Holds stringToNumber trees inside)
    (allowed : frame.mayClose = true) :
    ∃ tree, JsonNode.tree trees ⟨⟨frame.start, frame.start +
        (inside.length + 2)⟩, frame.kind⟩ = some tree ∧
      Derives stringToNumber (.value tree) frame.start
        (frame.opener :: (inside ++ [frame.closer])) := by
  cases frame with
  | array start elements expectingValue allowEnd =>
      cases expectingValue with
      | true =>
          simp only [JsonFrame.mayClose, Bool.not_true, Bool.false_or] at allowed
          obtain ⟨before, space, rfl, wide, ready, first⟩ := holds
          obtain rfl := first allowed
          rcases ready with ⟨_, rfl⟩ | ⟨text, _, same, _⟩
          · exact ⟨_, rfl, .emptyArray wide⟩
          · simp at same
      | false =>
          obtain ⟨results, derives, stand⟩ := holds
          refine ⟨_, ?_, .array derives⟩
          simp only [JsonNode.tree, JsonFrame.kind]
          rw [Support.mapM_eq_some_iff.mpr stand]
          rfl
  | object start entries state =>
      cases state with
      | keyOrEnd allowEnd =>
          obtain ⟨before, space, rfl, wide, ready, first⟩ := holds
          obtain rfl := first allowed
          rcases ready with ⟨_, rfl⟩ | ⟨text, _, same, _⟩
          · exact ⟨_, rfl, .emptyObject wide⟩
          · simp at same
      | value key => cases allowed
      | commaOrEnd =>
          obtain ⟨results, derives, stand⟩ := holds
          refine ⟨_, ?_, .object derives⟩
          simp only [JsonNode.tree, JsonFrame.kind]
          rw [stand.mapM_eq]
          rfl

end JsonFrame.Holds

theorem JsonFrame.afterComma_shape {frame after : JsonFrame}
    (allowed : frame.afterComma = some after) :
    after.opener = frame.opener ∧ after.start = frame.start := by
  unfold JsonFrame.afterComma at allowed
  split at allowed
  · cases allowed
    exact ⟨rfl, rfl⟩
  · cases allowed
    exact ⟨rfl, rfl⟩
  · cases allowed

theorem JsonFrame.attached_shape {frame after : JsonFrame} {node : Nat}
    (allowed : frame.attached node = some after) :
    after.opener = frame.opener ∧ after.start = frame.start := by
  unfold JsonFrame.attached at allowed
  split at allowed
  · cases allowed
    exact ⟨rfl, rfl⟩
  · cases allowed
    exact ⟨rfl, rfl⟩
  · cases allowed

/-- The innermost frame, if there is one, takes a value next. -/
def Expecting : List JsonFrame → Prop
  | [] => True
  | frame :: _ => frame.wantsValue = true

/-- The units behind the cursor, cut at the opening brackets. -/
def Stacked (stringToNumber : List UInt16 → JsNumber) (trees : List JsonTree) :
    List JsonFrame → List UInt16 → Prop
  | [], behind => Blank behind
  | frame :: frames, behind =>
      ∃ outside inside, behind = outside ++ frame.opener :: inside ∧
        frame.start = outside.length ∧
        frame.Holds stringToNumber trees inside ∧ Expecting frames ∧
        Stacked stringToNumber trees frames outside

theorem Stacked.blank {trees : List JsonTree} {frames : List JsonFrame}
    {behind space : List UInt16}
    (stacked : Stacked stringToNumber trees frames behind)
    (blank : Blank space) :
    Stacked stringToNumber trees frames (behind ++ space) := by
  cases frames with
  | nil => exact blank_append stacked blank
  | cons frame frames =>
      obtain ⟨outside, inside, rfl, start, holds, rest⟩ := stacked
      refine ⟨outside, inside ++ space, ?_, start, holds.blank blank, rest⟩
      rw [List.append_assoc, List.cons_append]

theorem Stacked.more {trees others : List JsonTree} {frames : List JsonFrame}
    {behind : List UInt16}
    (stacked : Stacked stringToNumber trees frames behind) :
    Stacked stringToNumber (trees ++ others) frames behind := by
  induction frames generalizing behind with
  | nil => exact stacked
  | cons frame frames induction =>
      obtain ⟨outside, inside, same, start, holds, expecting, rest⟩ := stacked
      exact ⟨outside, inside, same, start, holds.more, expecting,
        induction rest⟩

/-- The tree is that of a value in the text. -/
def Located (stringToNumber : List UInt16 → JsNumber) (units : List UInt16)
    (tree : JsonTree) : Prop :=
  ∃ before text after, units = before ++ (text ++ after) ∧
    Derives stringToNumber (.value tree) before.length text

/-- What is left open behind the cursor: frames, and a finished value for the
innermost one if there is one pending. -/
def Open (stringToNumber : List UInt16 → JsNumber) (trees : List JsonTree)
    (frames : List JsonFrame) (behind : List UInt16) : Option Nat → Prop
  | none => Stacked stringToNumber trees frames behind
  | some node =>
      ∃ outside text tree, behind = outside ++ text ∧
        Expecting frames ∧ Stacked stringToNumber trees frames outside ∧
        trees[node]? = some tree ∧
        Derives stringToNumber (.value tree) outside.length text

/-- The parser is somewhere in the units, with trees for its nodes. -/
structure Parsing (stringToNumber : List UInt16 → JsNumber)
    (units : List UInt16) (trees : List JsonTree) (behind : List UInt16)
    (parser : JsonTextParser) : Prop where
  whole : units = behind ++ parser.cursor.rest
  index : parser.cursor.index = behind.length
  known : forest parser.nodes = some trees
  located : ∀ tree ∈ trees, Located stringToNumber units tree

namespace Parsing

variable {units behind : List UInt16} {trees : List JsonTree}
  {parser : JsonTextParser}

theorem pass {text : List UInt16} {cursor : JsonCursor}
    (parsing : Parsing stringToNumber units trees behind parser)
    (passes : JsonCursor.Passes parser.cursor text cursor)
    (frames : List JsonFrame) :
    Parsing stringToNumber units trees (behind ++ text)
      { parser with cursor, frames } := by
  refine ⟨?_, ?_, parsing.known, parsing.located⟩
  · rw [List.append_assoc, ← passes.rest]
    exact parsing.whole
  · simp only
    rw [passes.index, parsing.index, List.length_append]

/-- A node for a value that ends at the cursor. -/
theorem push {text : List UInt16} {node : JsonNode} {tree : JsonTree}
    (parsing : Parsing stringToNumber units trees (behind ++ text) parser)
    (stands : node.tree trees = some tree)
    (derives : Derives stringToNumber (.value tree) behind.length text) :
    Parsing stringToNumber units (trees ++ [tree]) (behind ++ text)
        { parser with nodes := parser.nodes ++ [node] } ∧
      (trees ++ [tree])[parser.nodes.length]? = some tree := by
  obtain ⟨known, found⟩ := forest_concat parsing.known stands
  refine ⟨⟨parsing.whole, parsing.index, known, ?_⟩, found⟩
  intro other member
  rcases List.mem_append.mp member with old | new
  · exact parsing.located other old
  · rw [List.mem_singleton] at new
    subst new
    refine ⟨behind, text, parser.cursor.rest, ?_, derives⟩
    rw [← List.append_assoc]
    exact parsing.whole

end Parsing

/-- The parser is in the units with something left open. -/
def Sound (stringToNumber : List UInt16 → JsNumber) (units : List UInt16)
    (parser : JsonTextParser) (pending : Option Nat) : Prop :=
  ∃ trees behind, Parsing stringToNumber units trees behind parser ∧
    Open stringToNumber trees parser.frames behind pending

namespace JsonTextParser

variable {units : List UInt16} {parser next : JsonTextParser}
  {pending : Option Nat}

theorem valueAt_sound {trees : List JsonTree} {behind : List UInt16}
    (parsing : Parsing stringToNumber units trees behind parser)
    (stacked : Stacked stringToNumber trees parser.frames behind)
    (expecting : Expecting parser.frames)
    (started : parser.valueAt stringToNumber = .ok (next, pending)) :
    Sound stringToNumber units next pending := by
  cases valueAt_starts started with
  | frame present fresh =>
      rename_i frame
      have passes := JsonCursor.advance_passes present
      refine ⟨trees, _, parsing.pass passes (frame :: parser.frames), ?_⟩
      have holds : frame.start = behind.length ∧
          frame.Holds stringToNumber trees [] := by
        rcases fresh with rfl | rfl
        · exact ⟨parsing.index, [], [], rfl, blank_nil, .inl ⟨rfl, rfl⟩,
            fun _ => rfl⟩
        · exact ⟨parsing.index, [], [], rfl, blank_nil, .inl ⟨rfl, rfl⟩,
            fun _ => rfl⟩
      exact ⟨behind, [], rfl, holds.1, holds.2, expecting, stacked⟩
  | scalar passes derives leaf stands =>
      rename_i text cursor tree node
      rw [parsing.index] at derives
      obtain ⟨pushed, found⟩ :=
        (parsing.pass passes parser.frames).push (stands trees) derives
      exact ⟨trees ++ [tree], behind ++ text, pushed, behind, text, tree, rfl,
        expecting, stacked.more, found, derives⟩

theorem advanceFrame_sound {trees : List JsonTree} {behind : List UInt16}
    (parsing : Parsing stringToNumber units trees behind parser)
    (stacked : Stacked stringToNumber trees parser.frames behind)
    (advanced : parser.advanceFrame stringToNumber = .ok (next, pending)) :
    Sound stringToNumber units next pending := by
  cases advanceFrame_advances advanced with
  | close innermost space passes allowed =>
      rename_i frame frames blank cursor
      rw [innermost] at stacked
      obtain ⟨outside, inside, same, start, holds, expecting, rest⟩ :=
        stacked.blank space
      obtain ⟨tree, stands, derives⟩ := holds.close allowed
      have passed := parsing.pass passes frames
      have text : behind ++ (blank ++ [frame.closer]) =
          outside ++ frame.opener :: (inside ++ [frame.closer]) := by
        rw [← List.append_assoc, same, List.append_assoc, List.cons_append]
      rw [text] at passed
      have stop : cursor.index = frame.start + (inside.length + 2) := by
        have index := passed.index
        simp only [List.length_append, List.length_cons, List.length_nil,
          Nat.zero_add] at index
        omega
      rw [start] at derives
      rw [← stop] at stands
      obtain ⟨pushed, found⟩ := passed.push stands derives
      exact ⟨_, _, pushed, outside, _, tree, rfl, expecting, rest.more, found,
        derives⟩
  | comma innermost space passes allowed =>
      rename_i frame after frames blank cursor
      rw [innermost] at stacked
      obtain ⟨outside, inside, same, start, holds, rest⟩ :=
        stacked.blank space
      refine ⟨trees, _, parsing.pass passes (after :: frames), outside,
        inside ++ [ascii ','], ?_, ?_, holds.comma allowed, rest⟩
      · rw [← List.append_assoc, same, List.append_assoc, List.cons_append,
          (JsonFrame.afterComma_shape allowed).1]
      · rw [(JsonFrame.afterComma_shape allowed).2]
        exact start
  | name innermost space quoted between passes =>
      rename_i start entries allowEnd frames key blank text gap cursor
      rw [innermost] at stacked
      obtain ⟨outside, inside, same, position, holds, rest⟩ :=
        stacked.blank space
      refine ⟨trees, _, parsing.pass passes _, outside,
        inside ++ (text ++ (gap ++ [ascii ':'])), ?_, position,
        holds.name quoted between, rest⟩
      rw [← List.append_assoc, same, List.append_assoc, List.cons_append]
      rfl
  | value innermost space passes allowed started =>
      rename_i frame frames blank cursor
      have stackedHere := stacked.blank space
      apply valueAt_sound (parsing.pass passes parser.frames) stackedHere _
        started
      rw [innermost]
      exact allowed

theorem step_sound {pendingNext : Option Nat}
    (sound : Sound stringToNumber units parser pending)
    (stepped : parser.step stringToNumber pending =
      .ok (.more next pendingNext)) :
    Sound stringToNumber units next pendingNext := by
  obtain ⟨trees, behind, parsing, left⟩ := sound
  cases pending with
  | none =>
      rw [step, Support.bind_eq_ok_iff] at stepped
      obtain ⟨⟨advanced, pendingAdvanced⟩, moved, same⟩ := stepped
      cases same
      exact advanceFrame_sound parsing left moved
  | some node =>
      obtain ⟨outside, text, tree, rfl, _, stacked, found, derives⟩ := left
      rcases attach_eq_ok stepped with
        ⟨frame, after, frames, innermost, allowed, same⟩ | ⟨_, _, same⟩
      · cases same
        rw [innermost] at stacked
        obtain ⟨before, inside, rfl, start, holds, rest⟩ := stacked
        obtain ⟨opener, position⟩ := JsonFrame.attached_shape allowed
        refine ⟨trees, _, ⟨parsing.whole, parsing.index, parsing.known,
          parsing.located⟩, before, inside ++ text, ?_, ?_, ?_, rest⟩
        · rw [List.append_assoc, List.cons_append, opener]
        · rw [position]
          exact start
        · refine holds.attach allowed found ?_
          have offset : frame.start + 1 + inside.length =
              (before ++ frame.opener :: inside).length := by
            rw [start, List.length_append, List.length_cons]
            omega
          rw [offset]
          exact derives
      · cases same

/-- The document holds the tree of the units, and all its nodes lie in them. -/
structure Accepted (stringToNumber : List UInt16 → JsNumber)
    (units : List UInt16) (document : JsonDocument) (trees : List JsonTree)
    (tree : JsonTree) : Prop where
  known : forest document.nodes = some trees
  root : trees[document.root]? = some tree
  located : ∀ other ∈ trees, Located stringToNumber units other
  text : JsonText stringToNumber units tree

theorem step_done {document : JsonDocument}
    (sound : Sound stringToNumber units parser pending)
    (stepped : parser.step stringToNumber pending = .ok (.done document)) :
    ∃ trees tree, Accepted stringToNumber units document trees tree := by
  obtain ⟨trees, behind, parsing, left⟩ := sound
  cases pending with
  | none =>
      rw [step, Support.bind_eq_ok_iff] at stepped
      obtain ⟨_, _, same⟩ := stepped
      cases same
  | some node =>
      obtain ⟨outside, text, tree, rfl, _, stacked, found, derives⟩ := left
      rcases attach_eq_ok stepped with
        ⟨_, _, _, _, _, same⟩ | ⟨outermost, ended, same⟩
      · cases same
      · cases same
        rw [outermost] at stacked
        obtain ⟨blank, space, passes⟩ :=
          JsonCursor.skipWhitespace_passes parser.cursor
        refine ⟨trees, tree, parsing.known, found, parsing.located, ?_⟩
        have rest : parser.cursor.rest = blank := by
          rw [passes.rest]
          simp only [skipWhitespace] at ended
          rw [ended, List.append_nil]
        rw [JsonText, parsing.whole, rest, List.append_assoc]
        refine .element stacked ?_ space
        rw [Nat.zero_add]
        exact derives

theorem run_sound {document : JsonDocument}
    (sound : Sound stringToNumber units parser pending)
    (finished : parser.run stringToNumber pending = .ok document) :
    ∃ trees tree, Accepted stringToNumber units document trees tree := by
  fun_induction run stringToNumber parser pending with
  | case1 => cases finished
  | case2 parser pending ended stepped =>
      cases finished
      exact step_done sound stepped
  | case3 parser pending next pendingNext stepped induction =>
      exact induction (step_sound sound stepped) finished

theorem parse_sound {text : Text} {document : JsonDocument}
    (parsed : parse stringToNumber text = .ok document) :
    ∃ trees tree,
      Accepted stringToNumber text.codeUnits document trees tree := by
  rw [parse, Support.bind_eq_ok_iff] at parsed
  obtain ⟨⟨parser, pending⟩, started, finished⟩ := parsed
  have parsing : Parsing stringToNumber text.codeUnits [] [] (new text) :=
    ⟨rfl, rfl, rfl, fun _ member => by cases member⟩
  obtain ⟨blank, space, passes⟩ :=
    JsonCursor.skipWhitespace_passes (new text).cursor
  exact run_sound (valueAt_sound (parsing.pass passes (new text).frames) space
    trivial started) finished

end JsonTextParser

theorem child_lt_of_tree {trees : List JsonTree} {node : JsonNode}
    {tree : JsonTree} (stands : node.tree trees = some tree) {child : Nat}
    (member : child ∈ node.children) : child < trees.length := by
  obtain ⟨span, kind⟩ := node
  cases kind with
  | array elements =>
      obtain ⟨results, mapped, _⟩ := Option.map_eq_some_iff.mp stands
      have related := Support.mapM_eq_some_iff.mp mapped
      have inside : List.Forall₂ (fun element result =>
          element < trees.length ∧ trees[element]? = some result)
            elements results :=
        related.imp fun _ _ found =>
          ⟨(List.getElem?_eq_some_iff.mp found).1, found⟩
      exact ((List.forall₂_and_left _ _).mp inside).1 child member
  | object entries =>
      obtain ⟨results, mapped, _⟩ := Option.map_eq_some_iff.mp stands
      have related := Support.mapM_eq_some_iff.mp mapped
      obtain ⟨entry, entryMember, rfl⟩ := List.mem_map.mp member
      have inside : List.Forall₂ (fun (entry : JsString × Nat) _ =>
          entry.2 < trees.length ∧ True) entries results := by
        refine related.imp fun entry _ found => ⟨?_, trivial⟩
        obtain ⟨_, reached, _⟩ := Option.map_eq_some_iff.mp found
        exact (List.getElem?_eq_some_iff.mp reached).1
      exact ((List.forall₂_and_left _ _).mp inside).1 entry entryMember
  | _ => cases member

/-- A node refers only to nodes before it. -/
theorem children_lt_of_forest {nodes : List JsonNode} {trees : List JsonTree}
    (known : forest nodes = some trees) {index : Nat} {node : JsonNode}
    (found : nodes[index]? = some node) {child : Nat}
    (member : child ∈ node.children) : child < index := by
  induction nodes using List.reverseRecOn generalizing trees with
  | nil => cases found
  | append_singleton nodes last induction =>
      obtain ⟨earlier, tree, knownEarlier, stands, rfl⟩ :=
        forest_concat_iff.mp known
      by_cases inside : index < nodes.length
      · rw [List.getElem?_append_left inside] at found
        exact induction knownEarlier found
      · have here : index = nodes.length := by
          have bound := (List.getElem?_eq_some_iff.mp found).1
          rw [List.length_append, List.length_singleton] at bound
          omega
        subst here
        rw [List.getElem?_concat_length, Option.some.injEq] at found
        subst found
        rw [← length_forest knownEarlier]
        exact child_lt_of_tree stands member

end Fusor.Json
