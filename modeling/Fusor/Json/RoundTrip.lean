import Fusor.Json.Completeness
import Fusor.Json.Quoting

/-!
# Assembled texts parse back

The strings put together by the serializer spell a text that is defined over
lists of units.  That text is derived by the grammar at every offset, with the
data of the value as its tree, so the parser gives the value back.
-/

namespace Fusor.Json

open Fusor.Runtime

/-- Some string would have had more units than a string may have. -/
def TooLong (failure : NativeFailure) : Prop :=
  ∃ requested, maxStringCodeUnits < requested ∧
    failure = .string (.tooLong requested maxStringCodeUnits)

/-- The result has the property, unless some string was too long. -/
def Gives {α : Type} (computation : Except NativeFailure α)
    (property : α → Prop) : Prop :=
  match computation with
  | .ok result => property result
  | .error failure => TooLong failure

theorem Gives.bind {α β : Type} {computation : Except NativeFailure α}
    {rest : α → Except NativeFailure β} {property : α → Prop}
    {goal : β → Prop} (first : Gives computation property)
    (following : ∀ result, property result → Gives (rest result) goal) :
    Gives (computation >>= rest) goal := by
  cases computation with
  | ok result => exact following result first
  | error failure => exact first

theorem Gives.imp {α : Type} {computation : Except NativeFailure α}
    {property goal : α → Prop} (gives : Gives computation property)
    (weaker : ∀ result, property result → goal result) :
    Gives computation goal := by
  cases computation with
  | ok result => exact weaker result gives
  | error failure => exact gives

/-- A string of the runtime with the units. -/
def Spells (units : List UInt16) (string : JsString) : Prop :=
  string.WellFormed ∧ string.content = units

section Strings

theorem gives_concat {left right : JsString} {first second : List UInt16}
    (leftSpells : Spells first left) (rightSpells : Spells second right) :
    Gives (native (left.concat right)) (Spells (first ++ second)) := by
  obtain ⟨leftFormed, rfl⟩ := leftSpells
  obtain ⟨rightFormed, rfl⟩ := rightSpells
  by_cases bounded : left.len + right.len ≤ maxStringCodeUnits
  · obtain ⟨string, joined, formed, content⟩ :=
      JsString.concat_spec leftFormed rightFormed bounded
    rw [joined]
    exact ⟨formed, content⟩
  · have long := Nat.lt_of_not_le bounded
    rw [JsString.concat_too_long long]
    exact ⟨_, long, rfl⟩

theorem collectCodeUnits_eq_error {units : List UInt16} {narrow : List UInt8}
    {buffer : Option (List UInt16)} {failure : StringFailure}
    (failed : JsString.collectCodeUnits units narrow buffer = .error failure) :
    failure = .tooLong (maxStringCodeUnits + 1) maxStringCodeUnits := by
  induction units generalizing narrow buffer with
  | nil =>
      cases buffer with
      | none =>
          rw [JsString.collectCodeUnits] at failed
          split at failed <;> cases failed
      | some wide => cases failed
  | cons unit units induction =>
      unfold JsString.collectCodeUnits at failed
      split at failed
      · cases failed
        rfl
      · cases buffer with
        | some wide => exact induction failed
        | none =>
            simp only at failed
            split at failed
            · exact induction failed
            · exact induction failed

theorem gives_fromCodeUnits {lowerBound : Nat} {units : List UInt16}
    (hint : lowerBound ≤ units.length) :
    Gives (native (JsString.fromCodeUnits lowerBound units))
      (Spells units) := by
  cases result : JsString.fromCodeUnits lowerBound units with
  | ok string =>
      obtain ⟨formed, _, content⟩ :=
        JsString.fromCodeUnits_wellFormed hint result
      exact ⟨formed, content⟩
  | error failure =>
      rw [JsString.fromCodeUnits] at result
      split at result
      · rename_i long
        cases result
        exact ⟨_, long, rfl⟩
      · rw [collectCodeUnits_eq_error result]
        exact ⟨_, Nat.lt_succ_self _, rfl⟩

theorem encodeUtf16_eq {text : List Char}
    (basic : ∀ character ∈ text, character.toNat < 0x10000) :
    JsString.encodeUtf16 text = asciiText text := by
  induction text with
  | nil => rfl
  | cons character rest induction =>
      have here := basic character List.mem_cons_self
      have others := induction fun other member => basic other (.tail _ member)
      rw [JsString.encodeUtf16] at others ⊢
      rw [List.flatMap_cons, others, if_pos here]
      rfl

theorem gives_literal {text : List Char}
    (basic : text.all (fun character => character.toNat < 0x10000) = true) :
    Gives (literal text) (Spells (asciiText text)) := by
  have plain : ∀ character ∈ text, character.toNat < 0x10000 := by
    simpa using basic
  rw [literal, JsString.fromUtf8, encodeUtf16_eq plain]
  apply gives_fromCodeUnits
  rw [asciiText, List.length_map]
  omega

theorem gives_quoteJsonString {value : JsString} (formed : value.WellFormed) :
    Gives (quoteJsonString value) (Spells (quotedText value.content)) := by
  rw [quoteJsonString, quoteUnitsFrom_eq formed]
  exact gives_fromCodeUnits (Nat.le_refl _)

theorem gives_concatenation {values : List JsString}
    {texts : List (List UInt16)} {output : JsString} {before : List UInt16}
    (started : Spells before output) (spell : List.Forall₂ Spells texts values) :
    Gives (values.foldlM
      (fun output value => native (output.concat value)) output)
      (Spells (before ++ texts.flatten)) := by
  induction spell generalizing before output with
  | nil =>
      rw [List.flatten_nil, List.append_nil]
      exact started
  | @cons text value texts values first others induction =>
      rw [List.foldlM_cons, List.flatten_cons, ← List.append_assoc]
      exact (gives_concat started first).bind fun next spells =>
        induction spells

theorem gives_concatJsonStrings {values : List JsString}
    {texts : List (List UInt16)} (spell : List.Forall₂ Spells texts values) :
    Gives (concatJsonStrings values) (Spells texts.flatten) :=
  gives_concatenation ⟨.empty, rfl⟩ spell

def joinText (separator : List UInt16) : List (List UInt16) → List UInt16
  | [] => []
  | first :: rest => first ++ rest.flatMap (separator ++ ·)

theorem gives_joinJsonStrings {values : List JsString}
    {texts : List (List UInt16)} {separator : JsString} {between : List UInt16}
    (separates : Spells between separator)
    (spell : List.Forall₂ Spells texts values) :
    Gives (joinJsonStrings values separator)
      (Spells (joinText between texts)) := by
  have step : ∀ {texts : List (List UInt16)} {values : List JsString}
      {output : JsString} {before : List UInt16}, Spells before output →
      List.Forall₂ Spells texts values →
      Gives (values.foldlM (fun output value => do
        let output ← native (output.concat separator)
        native (output.concat value)) output)
        (Spells (before ++ texts.flatMap (between ++ ·))) := by
    intro texts values output before started spell
    induction spell generalizing before output with
    | nil =>
        rw [List.flatMap_nil, List.append_nil]
        exact started
    | @cons text value texts values first others induction =>
        rw [List.foldlM_cons, List.flatMap_cons, ← List.append_assoc,
          ← List.append_assoc]
        refine Gives.bind ?_ fun next spells => induction spells
        exact (gives_concat started separates).bind fun next spells =>
          gives_concat spells first
  cases spell with
  | nil => exact ⟨.empty, rfl⟩
  | cons first others => exact step first others

end Strings

section Texts

/-- The text of a member. -/
def memberText (name value : List UInt16) (spaced : Bool) : List UInt16 :=
  quotedText name ++ (asciiText (if spaced then [':', ' '] else [':']) ++ value)

/-- What stands before a part: a new line with its indentation, when there is
a gap. -/
def lead (gap indent : List UInt16) : List UInt16 :=
  if gap = [] then [] else ascii '\n' :: indent

def containerText (array : Bool) (parts : List (List UInt16))
    (indent stepBack gap : List UInt16) : List UInt16 :=
  let opening := if array then '[' else '{'
  let closing := if array then ']' else '}'
  if parts = [] then [ascii opening, ascii closing]
  else ascii opening :: (lead gap indent ++
    joinText (ascii ',' :: lead gap indent) parts ++
      (lead gap stepBack ++ [ascii closing]))

mutual

def valueText (gap indent : List UInt16) : JsonValue → List UInt16
  | .null => asciiText ['n', 'u', 'l', 'l']
  | .boolean false => asciiText ['f', 'a', 'l', 's', 'e']
  | .boolean true => asciiText ['t', 'r', 'u', 'e']
  | .number text => text.string.content
  | .string value => quotedText value.string.content
  | .array elements =>
      containerText true (elementTexts gap (indent ++ gap) elements)
        (indent ++ gap) indent gap
  | .object members =>
      containerText false (memberTexts gap (indent ++ gap) members)
        (indent ++ gap) indent gap

def elementTexts (gap indent : List UInt16) :
    List JsonValue → List (List UInt16)
  | [] => []
  | element :: elements =>
      valueText gap indent element :: elementTexts gap indent elements

def memberTexts (gap indent : List UInt16) :
    List (JsonString × JsonValue) → List (List UInt16)
  | [] => []
  | (name, value) :: members =>
      memberText name.string.content (valueText gap indent value)
        (!gap.isEmpty) :: memberTexts gap indent members

end

theorem gives_jsonObjectMember {name value : JsString} {text : List UInt16}
    (formed : name.WellFormed) (spells : Spells text value) (spaced : Bool) :
    Gives (jsonObjectMember name value spaced)
      (Spells (memberText name.content text spaced)) := by
  refine (gives_quoteJsonString formed).bind fun quoted quotes => ?_
  have basic : (if spaced then [':', ' '] else [':'] : List Char).all
      (fun character => character.toNat < 0x10000) = true := by
    cases spaced <;> decide
  refine (gives_literal basic).bind fun colon colons => ?_
  have joined := gives_concatJsonStrings
    (.cons quotes (.cons colons (.cons spells .nil)))
  rw [List.flatten_cons, List.flatten_cons, List.flatten_singleton] at joined
  exact joined

theorem isEmpty_eq {string : JsString} (formed : string.WellFormed) :
    string.isEmpty = decide (string.content = []) := by
  rw [JsString.isEmpty, formed.len_eq]
  cases string.content with
  | nil => rfl
  | cons unit rest => rfl

theorem gives_jsonContainerText {parts : List JsString}
    {texts : List (List UInt16)} {indent stepBack gap : JsString}
    {inner outer step : List UInt16} (array : Bool)
    (spell : List.Forall₂ Spells texts parts) (indents : Spells inner indent)
    (steps : Spells outer stepBack) (gaps : Spells step gap) :
    Gives (jsonContainerText array parts indent stepBack gap)
      (Spells (containerText array texts inner outer step)) := by
  have opens : Gives (literal [if array then '[' else '{'])
      (Spells [ascii (if array then '[' else '{')]) := by
    apply gives_literal
    cases array <;> decide
  have closes : Gives (literal [if array then ']' else '}'])
      (Spells [ascii (if array then ']' else '}')]) := by
    apply gives_literal
    cases array <;> decide
  rw [jsonContainerText, containerText]
  cases spell with
  | nil =>
      rw [List.isEmpty_nil, if_pos rfl]
      apply gives_literal
      cases array <;> decide
  | @cons text part texts parts first others =>
      have spell : List.Forall₂ Spells (text :: texts) (part :: parts) :=
        .cons first others
      rw [List.isEmpty_cons, if_neg Bool.false_ne_true,
        if_neg (List.cons_ne_nil _ _), isEmpty_eq gaps.1, gaps.2, lead, lead]
      by_cases flat : step = []
      · simp only [flat, decide_true, ↓reduceIte, List.nil_append]
        refine (gives_literal (by decide)).bind fun separator separates => ?_
        refine (gives_joinJsonStrings separates spell).bind fun body bodies => ?_
        refine opens.bind fun opening opened => ?_
        refine closes.bind fun closing closed => ?_
        have joined := gives_concatJsonStrings
          (.cons opened (.cons bodies (.cons closed .nil)))
        simpa [asciiText] using joined
      · simp only [flat, decide_false, Bool.false_eq_true, ↓reduceIte]
        refine (gives_literal (by decide)).bind fun newline newlines => ?_
        refine (gives_literal (by decide)).bind fun comma commas => ?_
        refine (gives_concatJsonStrings
          (.cons commas (.cons indents .nil))).bind fun separator separates => ?_
        refine (gives_joinJsonStrings separates spell).bind fun body bodies => ?_
        refine opens.bind fun opening opened => ?_
        refine closes.bind fun closing closed => ?_
        have joined := gives_concatJsonStrings (.cons opened (.cons newlines
          (.cons indents (.cons bodies (.cons newlines (.cons steps
            (.cons closed .nil)))))))
        simpa [asciiText] using joined

mutual

theorem gives_assemble {gap indent : JsString} {step inner : List UInt16}
    (gaps : Spells step gap) (indents : Spells inner indent) :
    (value : JsonValue) →
      Gives (assemble gap indent value) (Spells (valueText step inner value))
  | .null => gives_literal (by decide)
  | .boolean false => gives_literal (by decide)
  | .boolean true => gives_literal (by decide)
  | .number text => ⟨text.formed, rfl⟩
  | .string value => gives_quoteJsonString value.formed
  | .array elements => by
      rw [assemble, valueText]
      refine (gives_concat indents gaps).bind fun deeper deep => ?_
      refine (gives_assembleElements gaps deep elements).bind
        fun parts spell => ?_
      exact gives_jsonContainerText true spell deep indents gaps
  | .object members => by
      rw [assemble, valueText]
      refine (gives_concat indents gaps).bind fun deeper deep => ?_
      refine (gives_assembleMembers gaps deep members).bind
        fun parts spell => ?_
      exact gives_jsonContainerText false spell deep indents gaps

theorem gives_assembleElements {gap indent : JsString}
    {step inner : List UInt16} (gaps : Spells step gap)
    (indents : Spells inner indent) : (elements : List JsonValue) →
      Gives (assembleElements gap indent elements)
        (List.Forall₂ Spells (elementTexts step inner elements))
  | [] => .nil
  | element :: elements => by
      rw [assembleElements, elementTexts]
      refine (gives_assemble gaps indents element).bind fun first spells => ?_
      refine (gives_assembleElements gaps indents elements).bind
        fun others spell => ?_
      exact .cons spells spell

theorem gives_assembleMembers {gap indent : JsString}
    {step inner : List UInt16} (gaps : Spells step gap)
    (indents : Spells inner indent) :
    (members : List (JsonString × JsonValue)) →
      Gives (assembleMembers gap indent members)
        (List.Forall₂ Spells (memberTexts step inner members))
  | [] => .nil
  | (name, value) :: members => by
      have spaced : step.isEmpty = gap.isEmpty := by
        rw [isEmpty_eq gaps.1, gaps.2]
        cases step <;> rfl
      rw [assembleMembers, memberTexts, spaced]
      refine (gives_assemble gaps indents value).bind fun text spells => ?_
      refine (gives_jsonObjectMember name.formed spells _).bind
        fun first named => ?_
      refine (gives_assembleMembers gaps indents members).bind
        fun others spell => ?_
      exact .cons named spell

end

end Texts

section Derivations

variable {stringToNumber : List UInt16 → JsNumber}

/-- The text is that of a value with the data, wherever it stands. -/
structure Denotes (stringToNumber : List UInt16 → JsNumber)
    (text : List UInt16) (data : JsonData) : Prop where
  paired : WellFormedUtf16 text
  derives : ∀ start, ∃ tree,
    Derives stringToNumber (.value tree) start text ∧ tree.data = data

/-- The text is that of a member with the data, behind any white space. -/
structure DenotesMember (stringToNumber : List UInt16 → JsNumber)
    (text : List UInt16) (member : List UInt16 × JsonData) : Prop where
  paired : WellFormedUtf16 text
  derives : ∀ start blank, Blank blank → ∃ tree,
    Derives stringToNumber (.member member.1 tree) start (blank ++ text) ∧
      tree.data = member.2

theorem low_asciiText {text : List Char}
    (small : text.all (fun character => ascii character < 0xd800) = true) :
    Low (asciiText text) := by
  intro unit member
  obtain ⟨character, inside, rfl⟩ := List.mem_map.mp member
  exact of_decide_eq_true (List.all_eq_true.mp small character inside)

theorem Low.append {left right : List UInt16} (first : Low left)
    (second : Low right) : Low (left ++ right) := by
  intro unit member
  rcases List.mem_append.mp member with found | found
  · exact first unit found
  · exact second unit found

theorem low_cons {unit : UInt16} {rest : List UInt16} (here : unit < 0xd800)
    (others : Low rest) : Low (unit :: rest) := by
  intro other member
  rcases List.mem_cons.mp member with rfl | found
  · exact here
  · exact others other found

theorem low_nil : Low [] := by
  intro unit member
  cases member

theorem Digit.lt {unit : UInt16} (digit : Digit unit) : unit < 0xd800 := by
  have high := digit.2
  rw [UInt16.le_iff_toNat_le] at high
  rw [UInt16.lt_iff_toNat_lt]
  exact Nat.lt_of_le_of_lt high (by decide)

theorem low_digits {digits : List UInt16}
    (every : ∀ unit ∈ digits, Digit unit) : Low digits :=
  fun unit member => (every unit member).lt

theorem Numeral.low {text : List UInt16} (numeral : Numeral text) :
    Low text := by
  obtain ⟨sign, integer, fraction, exponent, rfl, signed, whole, part, power⟩ :=
    numeral.parts
  have lowSign : Low sign := by
    rcases signed with rfl | rfl
    · exact low_nil
    · exact low_cons (by decide) low_nil
  have lowInteger : Low integer := by
    cases whole with
    | zero => exact low_cons (by decide) low_nil
    | nonzero leading _ digits => exact low_cons leading.lt (low_digits digits)
  have lowFraction : Low fraction := by
    cases part with
    | none => exact low_nil
    | some formed => exact low_cons (by decide) (low_digits formed.2)
  have lowExponent : Low exponent := by
    cases power with
    | none => exact low_nil
    | @some marker sign digits marked signed formed =>
        have lowMarker : marker < 0xd800 := by
          rcases marked with rfl | rfl <;> decide
        have lowPower : Low sign := by
          rcases signed with rfl | rfl | rfl
          · exact low_nil
          · exact low_cons (by decide) low_nil
          · exact low_cons (by decide) low_nil
        exact low_cons lowMarker (lowPower.append (low_digits formed.2))
  exact lowSign.append (lowInteger.append (lowFraction.append lowExponent))

theorem Blank.low {text : List UInt16} (blank : Blank text) : Low text := by
  intro unit member
  rcases blank unit member with rfl | rfl | rfl | rfl <;> decide

theorem elementsData_append (first second : List JsonTree) :
    JsonTree.elementsData (first ++ second) =
      JsonTree.elementsData first ++ JsonTree.elementsData second := by
  induction first with
  | nil => rfl
  | cons tree trees induction =>
      rw [List.cons_append, JsonTree.elementsData, induction]
      rfl

theorem membersData_append (first second : List (List UInt16 × JsonTree)) :
    JsonTree.membersData (first ++ second) =
      JsonTree.membersData first ++ JsonTree.membersData second := by
  induction first with
  | nil => rfl
  | cons member members induction =>
      obtain ⟨key, tree⟩ := member
      rw [List.cons_append, JsonTree.membersData, induction]
      rfl

theorem derives_nextElements {texts : List (List UInt16)}
    {datas : List JsonData} {blank text : List UInt16} {start : Nat}
    {trees : List JsonTree} (space : Blank blank)
    (denote : List.Forall₂ (Denotes stringToNumber) texts datas)
    (derived : Derives stringToNumber (.elements trees) start text) :
    ∃ results, Derives stringToNumber (.elements results) start
        (text ++ texts.flatMap (ascii ',' :: blank ++ ·)) ∧
      JsonTree.elementsData results =
        JsonTree.elementsData trees ++ datas := by
  induction denote generalizing text trees with
  | nil => exact ⟨trees, by simpa using derived, by simp⟩
  | @cons next data texts datas first others induction =>
      obtain ⟨tree, derives, here⟩ :=
        first.derives (start + (text.length + 1) + blank.length)
      have element := Derives.element space derives blank_nil
      rw [List.append_nil] at element
      obtain ⟨results, following, datas⟩ :=
        induction (derived.nextElement element)
      refine ⟨results, ?_, ?_⟩
      · simpa using following
      · rw [datas, elementsData_append]
        simp [JsonTree.elementsData, here]

theorem derives_elements {texts : List (List UInt16)}
    {datas : List JsonData} {blank : List UInt16} (space : Blank blank)
    (denote : List.Forall₂ (Denotes stringToNumber) texts datas)
    (some : texts ≠ []) (start : Nat) :
    ∃ trees, Derives stringToNumber (.elements trees) start
        (blank ++ joinText (ascii ',' :: blank) texts) ∧
      JsonTree.elementsData trees = datas := by
  cases denote with
  | nil => exact absurd rfl some
  | @cons text data texts datas first others =>
      obtain ⟨tree, derives, here⟩ := first.derives (start + blank.length)
      have element := Derives.element space derives blank_nil
      rw [List.append_nil] at element
      obtain ⟨results, following, datas⟩ :=
        derives_nextElements space others element.firstElement
      refine ⟨results, ?_, ?_⟩
      · rw [joinText, ← List.append_assoc]
        exact following
      · rw [datas]
        simp [JsonTree.elementsData, here]

theorem derives_nextMembers {texts : List (List UInt16)}
    {datas : List (List UInt16 × JsonData)} {blank text : List UInt16}
    {start : Nat} {entries : List (List UInt16 × JsonTree)}
    (space : Blank blank)
    (denote : List.Forall₂ (DenotesMember stringToNumber) texts datas)
    (derived : Derives stringToNumber (.members entries) start text) :
    ∃ results, Derives stringToNumber (.members results) start
        (text ++ texts.flatMap (ascii ',' :: blank ++ ·)) ∧
      JsonTree.membersData results =
        JsonTree.membersData entries ++ datas := by
  induction denote generalizing text entries with
  | nil => exact ⟨entries, by simpa using derived, by simp⟩
  | @cons next data texts datas first others induction =>
      obtain ⟨tree, derives, here⟩ :=
        first.derives (start + (text.length + 1)) blank space
      obtain ⟨results, following, datas⟩ :=
        induction (derived.nextMember derives)
      refine ⟨results, ?_, ?_⟩
      · simpa using following
      · rw [datas, membersData_append]
        simp [JsonTree.membersData, here]

theorem derives_members {texts : List (List UInt16)}
    {datas : List (List UInt16 × JsonData)} {blank : List UInt16}
    (space : Blank blank)
    (denote : List.Forall₂ (DenotesMember stringToNumber) texts datas)
    (some : texts ≠ []) (start : Nat) :
    ∃ entries, Derives stringToNumber (.members entries) start
        (blank ++ joinText (ascii ',' :: blank) texts) ∧
      JsonTree.membersData entries = datas := by
  cases denote with
  | nil => exact absurd rfl some
  | @cons text data texts datas first others =>
      obtain ⟨tree, derives, here⟩ := first.derives start blank space
      obtain ⟨results, following, datas⟩ :=
        derives_nextMembers space others derives.firstMember
      refine ⟨results, ?_, ?_⟩
      · rw [joinText, ← List.append_assoc]
        exact following
      · rw [datas]
        simp [JsonTree.membersData, here]

theorem wellFormedUtf16_joinText {separator : List UInt16}
    {texts : List (List UInt16)} (separated : WellFormedUtf16 separator)
    (paired : ∀ text ∈ texts, WellFormedUtf16 text) :
    WellFormedUtf16 (joinText separator texts) := by
  have rest : ∀ texts : List (List UInt16),
      (∀ text ∈ texts, WellFormedUtf16 text) →
        WellFormedUtf16 (texts.flatMap (separator ++ ·)) := by
    intro texts every
    induction texts with
    | nil => exact .nil
    | cons text texts induction =>
        rw [List.flatMap_cons]
        exact (separated.append (every text List.mem_cons_self)).append
          (induction fun other member => every other (.tail _ member))
  cases texts with
  | nil => exact .nil
  | cons text texts =>
      exact (paired text List.mem_cons_self).append
        (rest texts fun other member => paired other (.tail _ member))

theorem blank_lead {gap indent : List UInt16} (space : Blank indent) :
    Blank (lead gap indent) := by
  rw [lead]
  split
  · exact blank_nil
  · intro unit member
    rcases List.mem_cons.mp member with rfl | found
    · exact .inr (.inl rfl)
    · exact space unit found

theorem wellFormedUtf16_containerText {array : Bool}
    {texts : List (List UInt16)} {indent stepBack gap : List UInt16}
    (inner : Blank indent) (outer : Blank stepBack)
    (paired : ∀ text ∈ texts, WellFormedUtf16 text) :
    WellFormedUtf16 (containerText array texts indent stepBack gap) := by
  have opening : Low [ascii (if array then '[' else '{')] :=
    low_cons (by cases array <;> decide) low_nil
  have closing : Low [ascii (if array then ']' else '}')] :=
    low_cons (by cases array <;> decide) low_nil
  have leading : Low (lead gap indent) := (blank_lead inner).low
  have comma : Low (ascii ',' :: lead gap indent) :=
    low_cons (by decide) leading
  have trailing : Low (lead gap stepBack ++ [ascii (if array then ']' else '}')]) :=
    (blank_lead outer).low.append closing
  rw [containerText]
  split
  · exact (opening.append closing).wellFormedUtf16
  · have body := wellFormedUtf16_joinText comma.wellFormedUtf16 paired
    exact opening.wellFormedUtf16.append
      ((leading.wellFormedUtf16.append body).append trailing.wellFormedUtf16)

theorem paired_of_denote {texts : List (List UInt16)} {datas : List JsonData}
    (denote : List.Forall₂ (Denotes stringToNumber) texts datas) :
    ∀ text ∈ texts, WellFormedUtf16 text := by
  induction denote with
  | nil => simp
  | cons first others induction =>
      exact List.forall_mem_cons.mpr ⟨first.paired, induction⟩

theorem paired_of_denoteMembers {texts : List (List UInt16)}
    {datas : List (List UInt16 × JsonData)}
    (denote : List.Forall₂ (DenotesMember stringToNumber) texts datas) :
    ∀ text ∈ texts, WellFormedUtf16 text := by
  induction denote with
  | nil => simp
  | cons first others induction =>
      exact List.forall_mem_cons.mpr ⟨first.paired, induction⟩

theorem denotes_array {texts : List (List UInt16)} {datas : List JsonData}
    {indent stepBack gap : List UInt16} (inner : Blank indent)
    (outer : Blank stepBack)
    (denote : List.Forall₂ (Denotes stringToNumber) texts datas) :
    Denotes stringToNumber (containerText true texts indent stepBack gap)
      (.array datas) := by
  refine ⟨wellFormedUtf16_containerText inner outer (paired_of_denote denote),
    fun start => ?_⟩
  rw [containerText]
  split
  · rename_i none
    subst none
    cases denote
    exact ⟨_, .emptyArray blank_nil, rfl⟩
  · rename_i some
    obtain ⟨trees, derives, datas⟩ := derives_elements
      (@blank_lead gap indent inner) denote some (start + 1)
    have array := Derives.array
      (derives.elements_blank (@blank_lead gap stepBack outer))
    rw [List.append_assoc _ (lead gap stepBack)] at array
    refine ⟨_, array, ?_⟩
    exact congrArg JsonData.array datas

theorem denotes_object {texts : List (List UInt16)}
    {datas : List (List UInt16 × JsonData)}
    {indent stepBack gap : List UInt16} (inner : Blank indent)
    (outer : Blank stepBack)
    (denote : List.Forall₂ (DenotesMember stringToNumber) texts datas) :
    Denotes stringToNumber (containerText false texts indent stepBack gap)
      (.object datas) := by
  refine ⟨wellFormedUtf16_containerText inner outer
    (paired_of_denoteMembers denote), fun start => ?_⟩
  rw [containerText]
  split
  · rename_i none
    subst none
    cases denote
    exact ⟨_, .emptyObject blank_nil, rfl⟩
  · rename_i some
    obtain ⟨entries, derives, datas⟩ := derives_members
      (@blank_lead gap indent inner) denote some (start + 1)
    have object := Derives.object
      (derives.members_blank (@blank_lead gap stepBack outer))
    rw [List.append_assoc _ (lead gap stepBack)] at object
    refine ⟨_, object, ?_⟩
    exact congrArg JsonData.object datas

theorem denotesMember {name text : List UInt16} {data : JsonData}
    (denotes : Denotes stringToNumber text data) (spaced : Bool) :
    DenotesMember stringToNumber (memberText name text spaced)
      (name, data) := by
  have colon : Low (asciiText (if spaced then [':', ' '] else [':'])) := by
    cases spaced with
    | false => exact low_asciiText (by decide)
    | true => exact low_asciiText (by decide)
  refine ⟨(wellFormedUtf16_quotedText name).append
    (colon.wellFormedUtf16.append denotes.paired), ?_⟩
  intro start blank space
  obtain ⟨separator, wide, written⟩ : ∃ separator, Blank separator ∧
      asciiText (if spaced then [':', ' '] else [':']) =
        ascii ':' :: separator := by
    cases spaced with
    | false => exact ⟨[], blank_nil, rfl⟩
    | true => exact ⟨[ascii ' '], by simp [Blank, ascii], rfl⟩
  obtain ⟨tree, derives, here⟩ := denotes.derives (start +
    (blank.length + (quotedText name).length + 0 + 1) + separator.length)
  refine ⟨tree, ?_, here⟩
  have element := Derives.element wide derives blank_nil
  have member := Derives.member space (quoted_quotedText name) blank_nil element
  rw [memberText, written]
  simpa using member

mutual

theorem denotes_valueText {gap indent : List UInt16} (step : Blank gap)
    (space : Blank indent) : (value : JsonValue) →
      Denotes stringToNumber (valueText gap indent value)
        (value.data stringToNumber)
  | .null => ⟨(low_asciiText (by decide)).wellFormedUtf16,
      fun _ => ⟨_, .null, rfl⟩⟩
  | .boolean false => ⟨(low_asciiText (by decide)).wellFormedUtf16,
      fun _ => ⟨_, .false, rfl⟩⟩
  | .boolean true => ⟨(low_asciiText (by decide)).wellFormedUtf16,
      fun _ => ⟨_, .true, rfl⟩⟩
  | .number text => ⟨text.numeral.low.wellFormedUtf16,
      fun _ => ⟨_, .number text.numeral, rfl⟩⟩
  | .string value => ⟨wellFormedUtf16_quotedText _,
      fun _ => ⟨_, .string (quoted_quotedText _), rfl⟩⟩
  | .array elements => by
      rw [valueText, JsonValue.data]
      exact denotes_array (blank_append space step) space
        (denotes_elementTexts step (blank_append space step) elements)
  | .object members => by
      rw [valueText, JsonValue.data]
      exact denotes_object (blank_append space step) space
        (denotes_memberTexts step (blank_append space step) members)

theorem denotes_elementTexts {gap indent : List UInt16} (step : Blank gap)
    (space : Blank indent) : (elements : List JsonValue) →
      List.Forall₂ (Denotes stringToNumber) (elementTexts gap indent elements)
        (JsonValue.elementsData stringToNumber elements)
  | [] => .nil
  | element :: elements => by
      rw [elementTexts, JsonValue.elementsData]
      exact .cons (denotes_valueText step space element)
        (denotes_elementTexts step space elements)

theorem denotes_memberTexts {gap indent : List UInt16} (step : Blank gap)
    (space : Blank indent) : (members : List (JsonString × JsonValue)) →
      List.Forall₂ (DenotesMember stringToNumber)
        (memberTexts gap indent members)
        (JsonValue.membersData stringToNumber members)
  | [] => .nil
  | (name, value) :: members => by
      rw [memberTexts, JsonValue.membersData]
      exact .cons (denotesMember (denotes_valueText step space value) _)
        (denotes_memberTexts step space members)

end

end Derivations

section Parsing

variable {stringToNumber : List UInt16 → JsNumber}

/-- The units are a well-formed text that can be read, and reading it gives
the data. -/
structure ParsesTo (stringToNumber : List UInt16 → JsNumber)
    (units : List UInt16) (data : JsonData) : Prop where
  paired : WellFormedUtf16 units
  readable : ∃ text : Text, text.codeUnits = units
  accepted : ∀ text : Text, text.codeUnits = units → ∃ document tree,
    JsonTextParser.parse stringToNumber text = .ok document ∧
      document.tree = some tree ∧ tree.data = data

theorem text_of_content {string : JsString} (formed : string.WellFormed) :
    ∃ text : Text, text.codeUnits = string.content := by
  have bounded : string.content.length ≤ maxStringCodeUnits := by
    rw [← formed.len_eq]
    exact formed.len_le
  obtain ⟨flat, _, flatFormed, leaf, content⟩ :=
    JsString.fromCodeUnits_eq_ok (Nat.le_refl _) bounded
  have readable : flat.codeUnits = .ok flat.content := by
    apply JsString.codeUnits_eq flatFormed
    rw [JsString.pending_of_isLeaf leaf]
    exact Nat.zero_le _
  refine ⟨⟨flat, flatFormed, readable⟩, ?_⟩
  rw [Text.codeUnits_eq]
  exact content

theorem parsesTo_of_denotes {string : JsString} {data : JsonData}
    (formed : string.WellFormed)
    (denotes : Denotes stringToNumber string.content data) :
    ParsesTo stringToNumber string.content data := by
  refine ⟨denotes.paired, text_of_content formed, ?_⟩
  intro text same
  obtain ⟨tree, derives, here⟩ := denotes.derives 0
  have element := Derives.element blank_nil derives blank_nil
  rw [List.nil_append, List.append_nil, ← same] at element
  obtain ⟨document, parsed, root⟩ := parse_complete element
  exact ⟨document, tree, parsed, root, here⟩

theorem ParsesTo.of_pending {string : JsString} {data : JsonData}
    (parses : ParsesTo stringToNumber string.content data)
    (formed : string.WellFormed)
    (shallow : string.pending ≤ ropeIterStackCapacity) :
    ∃ text : Text, text.string = string ∧ ∃ document tree,
      JsonTextParser.parse stringToNumber text = .ok document ∧
        document.tree = some tree ∧ tree.data = data := by
  have readable := JsString.codeUnits_eq formed shallow
  exact ⟨⟨string, formed, readable⟩, rfl,
    parses.accepted ⟨string, formed, readable⟩ (Text.codeUnits_eq _)⟩

/-- The very string that was put together is accepted, as long as the iterator
can postpone the right parts of its ropes. -/
theorem gives_accepted (gap : JsonGap) (value : JsonValue) :
    Gives (assemble gap.string .empty value) fun string =>
      string.pending ≤ ropeIterStackCapacity →
        ∃ text : Text, text.string = string ∧ ∃ document tree,
          JsonTextParser.parse stringToNumber text = .ok document ∧
            document.tree = some tree ∧
            tree.data = value.data stringToNumber := by
  refine (gives_assemble ⟨gap.formed, rfl⟩ ⟨.empty, rfl⟩ value).imp ?_
  rintro string ⟨formed, content⟩ shallow
  refine (parsesTo_of_denotes formed ?_).of_pending formed shallow
  rw [content]
  exact denotes_valueText gap.blank blank_nil value

/-- The text of every value parses back to it under every indentation, and a
quoted string to the string: nothing but the length of a string can stop the
serializer, and its text never has a surrogate alone. -/
theorem assemble_parses (stringToNumber : List UInt16 → JsNumber)
    (gap : JsonGap) (value : JsonValue) (string : JsonString) :
    Gives (assemble gap.string .empty value) (fun text =>
        ParsesTo stringToNumber text.content (value.data stringToNumber)) ∧
      Gives (quoteJsonString string.string) (fun text =>
        ParsesTo stringToNumber text.content
          (.string string.string.content)) := by
  constructor
  · refine (gives_assemble ⟨gap.formed, rfl⟩ ⟨.empty, rfl⟩ value).imp ?_
    rintro text ⟨formed, content⟩
    apply parsesTo_of_denotes formed
    rw [content]
    exact denotes_valueText gap.blank blank_nil value
  · refine (gives_quoteJsonString string.formed).imp ?_
    rintro text ⟨formed, content⟩
    apply parsesTo_of_denotes formed
    rw [content]
    exact @denotes_valueText stringToNumber [] [] blank_nil blank_nil
      (.string string)

/-- A string of one surrogate. -/
def strayName : JsonString where
  string := .utf16 [0xd800]
  formed := .utf16 (by decide) (by decide)

def twelve : JsonNumeral where
  string := .latin1 [0x31, 0x32]
  formed := .latin1 (by decide)
  numeral := ⟨[], [ascii '1', ascii '2'], [], [], rfl, .inl rfl,
    .nonzero ⟨by decide, by decide⟩ (by decide)
      (List.forall_mem_singleton.mpr ⟨by decide, by decide⟩), .none, .none⟩

def oneSpace : JsonGap where
  string := .latin1 [0x20]
  formed := .latin1 (by decide)
  blank := List.forall_mem_singleton.mpr (.inr (.inr (.inr rfl)))

/-- An object around an array, with a name that cannot be written plainly. -/
def nestedValue : JsonValue :=
  .object [(strayName, .array [.number twelve, .object []])]

/-- The value of a run of decimal digits. -/
def digitsToNumber (units : List UInt16) : JsNumber :=
  .int (.ofNat 32
    (units.foldl (fun value unit => 10 * value + (unit.toNat - 48)) 0))

def nestedText : List Char :=
  ['{', '\n', ' ', '"', '\\', 'u', 'd', '8', '0', '0', '"', ':', ' ', '[', '\n',
    ' ', ' ', '1', '2', ',', '\n', ' ', ' ', '{', '}', '\n', ' ', ']', '\n',
    '}']

theorem assemble_parses_nested : ∃ text : Text,
    assemble oneSpace.string .empty nestedValue = .ok text.string ∧
      text.codeUnits = asciiText nestedText ∧
      ∃ document tree,
        JsonTextParser.parse digitsToNumber text = .ok document ∧
          document.tree = some tree ∧
          tree.data = .object
            [([0xd800], .array [.number (.int 12), .object []])] := by
  have parses := (assemble_parses digitsToNumber oneSpace nestedValue
    strayName).1
  have assembled : assemble oneSpace.string .empty nestedValue =
      .ok (.latin1 (nestedText.map fun character => .ofNat character.toNat)) := by
    decide +kernel
  rw [assembled] at parses
  obtain ⟨text, spelled, document, tree, parsed, root, data⟩ :=
    parses.of_pending (.latin1 (by decide)) (Nat.zero_le _)
  refine ⟨text, assembled.trans (congrArg Except.ok spelled.symm), ?_,
    document, tree, parsed, root, data.trans ?_⟩
  · rw [Text.codeUnits_eq, spelled]
    decide
  · simp only [nestedValue, JsonValue.data, JsonValue.membersData,
      JsonValue.elementsData]
    rfl

end Parsing

end Fusor.Json
