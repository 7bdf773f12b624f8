import Fusor.RegExp.Safety
import Fusor.RegExp.Specification

/-!
# Adequacy of the compiled code

The outcome list of a lowered term without quantifiers answers every
continuation as the matcher of the specification does.  Together with the
search theorem this makes the compiled program return the match of the
specification.
-/

namespace Fusor.RegExp

open Ast Support

section Readers

variable (data : UnicodeData) {input : Input}

theorem readCharacter_forward (unicode : Bool) (position : Nat) :
    Spec.readCharacter input .forward unicode position =
      decodeAt input position unicode := rfl

theorem readCharacter_backward {position : Nat} (unicode : Bool)
    (inside : position ≤ input.length) :
    decodeBefore input position unicode =
      .ok (Spec.readCharacter input .backward unicode position) := by
  obtain ⟨character, decoded⟩ := decodeBefore_of_le inside unicode
  simp only [Spec.readCharacter, decodeInDirection, decoded]

theorem boundaryPositions_eq (kind : BoundaryAssertionKind)
    (mode : MatchMode) {position : Nat} (inside : position ≤ input.length) :
    boundaryPositions data input (Compiler.boundaryKind kind) mode position =
      if Spec.isBoundary data input kind mode position then [position]
      else [] := by
  have before := readCharacter_backward mode.unicode inside
  cases kind with
  | start =>
      by_cases begins : position = 0
      · simp [boundaryPositions, boundaryMatches, Compiler.boundaryKind,
          Spec.isBoundary, begins, pure, Except.pure]
      · cases multiline : mode.multiline
        · simp [boundaryPositions, boundaryMatches, Compiler.boundaryKind,
            Spec.isBoundary, begins, multiline, pure, Except.pure]
        · cases read : Spec.readCharacter input .backward mode.unicode
              position with
          | none =>
              simp [boundaryPositions, boundaryMatches, Compiler.boundaryKind,
                Spec.isBoundary, Spec.characterSatisfies, begins, multiline,
                before, read, bind, Except.bind, pure, Except.pure]
          | some pair =>
              cases ends : isLineTerminator pair.1 <;>
                simp [boundaryPositions, boundaryMatches,
                  Compiler.boundaryKind, Spec.isBoundary,
                  Spec.characterSatisfies, begins, multiline, before, read,
                  ends, bind, Except.bind, pure, Except.pure]
  | stop =>
      by_cases finishes : position = input.length
      · simp [boundaryPositions, boundaryMatches, Compiler.boundaryKind,
          Spec.isBoundary, finishes, pure, Except.pure]
      · cases multiline : mode.multiline
        · simp [boundaryPositions, boundaryMatches, Compiler.boundaryKind,
            Spec.isBoundary, finishes, multiline, pure, Except.pure]
        · cases read : decodeAt input position mode.unicode with
          | none =>
              simp [boundaryPositions, boundaryMatches, Compiler.boundaryKind,
                Spec.isBoundary, Spec.characterSatisfies, finishes, multiline,
                readCharacter_forward, read, pure, Except.pure]
          | some pair =>
              cases ends : isLineTerminator pair.1 <;>
                simp [boundaryPositions, boundaryMatches,
                  Compiler.boundaryKind, Spec.isBoundary,
                  Spec.characterSatisfies, finishes, multiline,
                  readCharacter_forward, read, ends, pure, Except.pure]
  | boundary =>
      simp only [boundaryPositions, boundaryMatches, Compiler.boundaryKind,
        Spec.isBoundary, Spec.characterSatisfies, before,
        readCharacter_forward, bind, Except.bind]
      by_cases same :
          (Spec.readCharacter input .backward mode.unicode position).any
              (fun read => isWord data read.1 mode) =
            (decodeAt input position mode.unicode).any
              (fun read => isWord data read.1 mode)
      · simp [same, pure, Except.pure]
      · have differ := bne_iff_ne.mpr same
        simp [differ, same, pure, Except.pure]
  | negativeBoundary =>
      simp only [boundaryPositions, boundaryMatches, Compiler.boundaryKind,
        Spec.isBoundary, Spec.characterSatisfies, before,
        readCharacter_forward, bind, Except.bind]
      by_cases same :
          (Spec.readCharacter input .backward mode.unicode position).any
              (fun read => isWord data read.1 mode) =
            (decodeAt input position mode.unicode).any
              (fun read => isWord data read.1 mode)
      · simp [same, pure, Except.pure]
      · simp [same, pure, Except.pure]

theorem matchText_nil (mode : MatchMode) (direction : Direction)
    (position : Nat) :
    Spec.matchText data input mode direction position [] = some position := by
  simp [Spec.matchText, Spec.readCharacters]

theorem matchText_cons (mode : MatchMode) (direction : Direction)
    (position expected : Nat) (text : List Nat) :
    Spec.matchText data input mode direction position (expected :: text) =
      (Spec.readCharacter input direction mode.unicode position).bind
        fun read =>
          if canonicalize data expected mode = canonicalize data read.1 mode
          then Spec.matchText data input mode direction read.2 text
          else none := by
  cases read : Spec.readCharacter input direction mode.unicode position with
  | none => simp [Spec.matchText, Spec.readCharacters, read]
  | some pair =>
      obtain ⟨actual, next⟩ := pair
      cases rest : Spec.readCharacters input mode.unicode direction text.length
          next with
      | none => simp [Spec.matchText, Spec.readCharacters, read, rest]
      | some final =>
          by_cases same : canonicalize data expected mode =
              canonicalize data actual mode
          · simp [Spec.matchText, Spec.readCharacters, read, rest, same]
          · simp [Spec.matchText, Spec.readCharacters, read, rest, same]

theorem matchBackReferenceForward_eq (mode : MatchMode) (stop start : Nat)
    (fuel : Nat) (enough : stop - start ≤ fuel) (position : Nat) :
    matchBackReferenceForward data input mode stop start position =
      (Spec.textBetween input mode.unicode .forward fuel start stop).bind
        (Spec.matchText data input mode .forward position) := by
  induction fuel generalizing start position with
  | zero =>
      rw [matchBackReferenceForward, if_neg (by omega), Spec.textBetween,
        if_pos (by omega), Option.bind_some, matchText_nil]
  | succ fuel induction =>
      rw [matchBackReferenceForward, Spec.textBetween]
      by_cases finished : stop ≤ start
      · rw [if_neg (by omega), if_pos finished, Option.bind_some,
          matchText_nil]
      · rw [if_pos (by omega), if_neg finished]
        simp only [readCharacter_forward]
        split
        · rename_i nothing
          simp [nothing]
        · rename_i expected next decoded
          have moved := (decodeAt_bounds decoded).1
          simp only [decoded, Option.bind_some]
          by_cases passed : stop < next
          · rw [if_pos passed, if_pos passed, Option.bind_none]
          · rw [if_neg passed, if_neg passed]
            have step := induction next (by omega)
            cases text : Spec.textBetween input mode.unicode .forward fuel next
                stop with
            | none =>
                simp only [text, Option.bind_none] at step
                simp only [Option.map_none, Option.bind_none]
                split
                · rfl
                · split
                  · rfl
                  · exact step _
            | some characters =>
                simp only [text, Option.bind_some] at step
                simp only [Option.map_some, Option.bind_some, matchText_cons,
                  readCharacter_forward]
                split
                · rename_i nothing
                  simp [nothing]
                · rename_i actual further read
                  simp only [read, Option.bind_some]
                  split
                  · rfl
                  · rename_i same
                    rw [if_pos (not_not.mp same)]
                    exact step _

theorem matchBackReferenceBackward_eq (mode : MatchMode) (start stop : Nat)
    (fuel : Nat) (enough : stop - start ≤ fuel)
    (capturedInside : stop ≤ input.length) (position : Nat)
    (inside : position ≤ input.length) :
    matchBackReferenceBackward data input mode start stop position =
      .ok ((Spec.textBetween input mode.unicode .backward fuel start stop).bind
        (Spec.matchText data input mode .backward position)) := by
  induction fuel generalizing stop position with
  | zero =>
      rw [matchBackReferenceBackward, if_neg (by omega), Spec.textBetween,
        if_pos (by omega), Option.bind_some, matchText_nil]
  | succ fuel induction =>
      rw [matchBackReferenceBackward, Spec.textBetween]
      by_cases finished : stop ≤ start
      · rw [if_neg (by omega), if_pos finished, Option.bind_some,
          matchText_nil]
      · rw [if_pos (by omega), if_neg finished]
        have expects := readCharacter_backward mode.unicode capturedInside
        have reads := readCharacter_backward mode.unicode inside
        split
        · rename_i abort failed
          rw [expects] at failed
          cases failed
        · rename_i nothing
          rw [expects] at nothing
          simp [Except.ok.inj nothing]
        · rename_i expected next decoded
          have moved := decodeBefore_next_lt decoded
          rw [expects] at decoded
          simp only [Except.ok.inj decoded, reads, Option.bind_some]
          by_cases passed : next < start
          · rw [if_pos passed, if_pos passed, Option.bind_none]
          · rw [if_neg passed, if_neg passed]
            have step := induction next (by omega) (by omega)
            cases read : Spec.readCharacter input .backward mode.unicode
                position with
            | none =>
                cases Spec.textBetween input mode.unicode .backward fuel start
                  next with
                | none => rfl
                | some text => simp [matchText_cons, read]
            | some pair =>
                obtain ⟨actual, further⟩ := pair
                have shorter : further ≤ input.length := by
                  rw [read] at reads
                  have less := decodeBefore_next_lt reads
                  omega
                have following := step further shorter
                simp only
                cases text : Spec.textBetween input mode.unicode .backward
                    fuel start next with
                | none =>
                    rw [text] at following
                    split
                    · rfl
                    · exact following
                | some characters =>
                    rw [text] at following
                    simp only [Option.map_some, Option.bind_some,
                      matchText_cons, read]
                    split
                    · rfl
                    · rename_i same
                      rw [if_pos (not_not.mp same)]
                      exact following

theorem matchBackReference_eq (mode : MatchMode) (direction : Direction)
    {range : Nat × Nat} (capturedInside : range.2 ≤ input.length)
    {position : Nat} (inside : position ≤ input.length) :
    matchBackReference data input position range mode direction =
      .ok ((Spec.textBetween input mode.unicode direction
          (range.2 - range.1) range.1 range.2).bind
        (Spec.matchText data input mode direction position)) := by
  cases direction with
  | forward =>
      rw [matchBackReference,
        matchBackReferenceForward_eq data mode range.2 range.1 _ le_rfl]
  | backward =>
      rw [matchBackReference, matchBackReferenceBackward_eq data mode range.1
        range.2 _ le_rfl capturedInside position inside]

end Readers

theorem findSome?_flatMap {α β γ : Type*} (list : List α)
    (further : α → List β) (search : β → Option γ) :
    (list.flatMap further).findSome? search =
      list.findSome? fun element => (further element).findSome? search := by
  induction list with
  | nil => rfl
  | cons element elements induction =>
      rw [List.flatMap_cons, List.findSome?_append, List.findSome?_cons,
        induction]
      cases (further element).findSome? search <;> rfl

theorem findSome?_congr {α β : Type*} {list : List α}
    {search other : α → Option β}
    (same : ∀ element ∈ list, search element = other element) :
    list.findSome? search = list.findSome? other := by
  induction list with
  | nil => rfl
  | cons element elements induction =>
      rw [List.findSome?_cons, List.findSome?_cons, same element (by simp),
        induction fun later found => same later (by simp [found])]

/-- What the specification sees of a state of the code. -/
def MatchState.specified (state : MatchState) : Spec.MatchState :=
  ⟨state.position, (state.captures.drop 1).map CaptureSlot.range⟩

/-- A state in which the groups from `before` on, `count` of them, have not
been entered, and the whole match has not been left. -/
structure Entering (input : Input) (groupCount before count : Nat)
    (state : MatchState) : Prop where
  inside : state.Inside input (groupCount + 1)
  unset : ∀ index slot, before < index → index ≤ before + count →
    state.captures[index]? = some slot → slot = {}
  whole : state.captures[0]?.bind CaptureSlot.range = none

/-- The slots outside the groups from `before` on are the same. -/
def Keeps (before count : Nat) (captures later : List CaptureSlot) : Prop :=
  ∀ index, index ≤ before ∨ before + count < index →
    later[index]? = captures[index]?

section Simulation

variable (data : UnicodeData) (recognize : TerminalRecognizer)
  (input : Input) (groupCount : Nat)

/-- The outcomes of the node answer every continuation as the matcher of the
specification does. -/
structure Agrees (node : Node) (direction : Direction) (before count : Nat)
    (matcher : Spec.Matcher) : Prop where
  answers : ∀ address slot start continuation,
    Entering input groupCount before count start →
    matcher start.specified continuation =
      ((node.matcher data recognize input direction address
        slot).run start).findSome? fun outcome =>
          continuation outcome.specified
  keeps : ∀ address slot start, ∀ outcome ∈
    (node.matcher data recognize input direction address slot).run start,
    Keeps before count start.captures outcome.captures

variable {data recognize input groupCount}

theorem Entering.narrow {before count inner innerCount : Nat}
    {state : MatchState} (entering : Entering input groupCount before count state)
    (lower : before ≤ inner) (upper : inner + innerCount ≤ before + count) :
    Entering input groupCount inner innerCount state :=
  ⟨entering.inside, fun index slot above below =>
    entering.unset index slot (by omega) (by omega), entering.whole⟩

theorem Entering.after {before count other otherCount : Nat}
    {start outcome : MatchState}
    (entering : Entering input groupCount other otherCount start)
    (keeps : Keeps before count start.captures outcome.captures)
    (inside : outcome.Inside input (groupCount + 1))
    (apart : before + count ≤ other ∨ other + otherCount ≤ before) :
    Entering input groupCount other otherCount outcome where
  inside := inside
  unset index slot above below found := by
    rw [keeps index (by omega)] at found
    exact entering.unset index slot above below found
  whole := by
    rw [keeps 0 (.inl (Nat.zero_le _))]
    exact entering.whole

theorem captured_specified {start : MatchState}
    (whole : start.captures[0]?.bind CaptureSlot.range = none) (index : Nat) :
    Spec.captured start.specified.captures index =
      start.captures[index]?.bind CaptureSlot.range := by
  cases index with
  | zero =>
      rw [whole]
      rfl
  | succ index =>
      simp only [Spec.captured, MatchState.specified, List.getElem?_cons_succ,
        List.getElem?_map, List.getElem?_drop, Nat.add_comm 1 index]
      cases start.captures[index + 1]? <;> rfl

/-- Entering an unset group is invisible to the specification. -/
theorem specified_enter (direction : Direction) {before : Nat}
    {start : MatchState} (unset : start.captures[before + 1]? = some {}) :
    MatchState.specified
        { start with captures := enterCapture direction (before + 1) start } =
      start.specified := by
  simp only [MatchState.specified]
  congr 1
  refine List.ext_getElem? ?_
  intro index
  simp only [List.getElem?_map, List.getElem?_drop, Nat.add_comm 1 index]
  by_cases same : index = before
  · subst same
    rw [unset]
    cases direction <;>
      simp [enterCapture, saveStart, saveEnd, unset, CaptureSlot.range]
  · rw [enterCapture_other direction (by omega)]

/-- Leaving a group records the range between its two positions. -/
theorem specified_leave (direction : Direction) {before : Nat}
    {start middle : MatchState}
    (unset : start.captures[before + 1]? = some {})
    (kept : middle.captures[before + 1]? =
      (enterCapture direction (before + 1) start)[before + 1]?) :
    MatchState.specified
        { middle with
          captures := leaveCapture direction (before + 1) middle } =
      { middle.specified with
        captures := middle.specified.captures.set before (some
          (Spec.captureRange direction start.position middle.position)) } := by
  simp only [MatchState.specified]
  congr 1
  refine List.ext_getElem? ?_
  intro index
  simp only [List.getElem?_map, List.getElem?_drop, Nat.add_comm 1 index,
    List.getElem?_set]
  by_cases same : index = before
  · subst same
    have length : index + 1 < middle.captures.length := by
      cases direction
      all_goals
        simp only [enterCapture, saveStart, saveEnd, List.getElem?_modify,
          unset] at kept
        exact (List.getElem?_eq_some_iff.mp kept).1
    cases direction
    all_goals
      simp only [enterCapture, saveStart, saveEnd, List.getElem?_modify,
        unset] at kept
      simp [leaveCapture, saveStart, saveEnd, kept, CaptureSlot.range, Spec.captureRange]
      omega
  · rw [leaveCapture_other direction (by omega), if_neg (Ne.symm same)]

namespace Agrees

variable {direction : Direction} {before count : Nat}

theorem widen {node : Node} {matcher : Spec.Matcher} {inner innerCount : Nat}
    (agrees : Agrees data recognize input groupCount node direction inner
      innerCount matcher) (lower : before ≤ inner)
    (upper : inner + innerCount ≤ before + count) :
    Agrees data recognize input groupCount node direction before count
      matcher where
  answers address slot start continuation entering :=
    agrees.answers address slot start continuation
      (entering.narrow lower upper)
  keeps address slot start outcome found index outside :=
    agrees.keeps address slot start outcome found index (by omega)

theorem empty : Agrees data recognize input groupCount .empty direction before
    count (fun state continuation => continuation state) where
  answers address slot start continuation _ := by
    simp [Node.matcher, Matcher.empty]
  keeps address slot start outcome found index _ := by
    cases List.mem_singleton.mp found
    rfl

theorem token (read : Token) :
    Agrees data recognize input groupCount (.token read) direction before count
      (fun state continuation =>
        (read.positions data input direction state.endIndex).findSome?
          fun next => continuation { state with endIndex := next }) where
  answers address slot start continuation _ := by
    simp only [Node.matcher, Matcher.reading, List.findSome?_map]
    rfl
  keeps address slot start outcome found index _ := by
    obtain ⟨next, _, rfl⟩ := List.mem_map.mp found
    rfl

theorem boundary (kind : BoundaryAssertionKind) (mode : MatchMode) :
    Agrees data recognize input groupCount
      (.boundary (Compiler.boundaryKind kind) mode) direction before count
      (fun state continuation =>
        if Spec.isBoundary data input kind mode state.endIndex then
          continuation state
        else none) where
  answers address slot start continuation entering := by
    simp only [Node.matcher, Matcher.reading, List.findSome?_map,
      boundaryPositions_eq data kind mode entering.inside.position]
    by_cases holds : Spec.isBoundary data input kind mode start.position
    · simp [holds, MatchState.specified]
    · simp [holds, MatchState.specified]
  keeps address slot start outcome found index _ := by
    obtain ⟨next, _, rfl⟩ := List.mem_map.mp found
    rfl

theorem backReference (indices : List Nat) (mode : MatchMode) :
    Agrees data recognize input groupCount (.backReference indices mode)
      direction before count
      (Spec.backreferenceMatcher data input mode direction indices) where
  answers address slot start continuation entering := by
    have same : indices.findSome? (Spec.captured start.specified.captures) =
        capturedRange indices start.captures := by
      rw [capturedRange]
      congr 1
      funext index
      exact captured_specified entering.whole index
    simp only [Spec.backreferenceMatcher, same, Node.matcher, Matcher.reading,
      List.findSome?_map, backReferencePositions]
    cases found : capturedRange indices start.captures with
    | none => simp
    | some range =>
        have inside := entering.inside.capturedRange_le found
        simp only [matchBackReference_eq data mode direction inside
          entering.inside.position]
        cases Spec.textBetween input mode.unicode direction (range.2 - range.1)
          range.1 range.2 with
        | none => rfl
        | some text =>
            simp only [Option.bind_some]
            cases matched : Spec.matchText data input mode direction
                start.position text with
            | none => simp [MatchState.specified, matched]
            | some next => simp [MatchState.specified, matched]
  keeps address slot start outcome found index _ := by
    obtain ⟨next, _, rfl⟩ := List.mem_map.mp found
    rfl

/-- Two pieces that own different groups, in the order of their code. -/
theorem seq {first second : Node} {firstMatcher secondMatcher : Spec.Matcher}
    {lower lowerCount upper upperCount : Nat}
    (agreesFirst : Agrees data recognize input groupCount first direction
      lower lowerCount firstMatcher)
    (agreesSecond : Agrees data recognize input groupCount second direction
      upper upperCount secondMatcher)
    (apart : lower + lowerCount ≤ upper ∨ upper + upperCount ≤ lower)
    (lowerInside : before ≤ lower ∧ lower + lowerCount ≤ before + count)
    (upperInside : before ≤ upper ∧ upper + upperCount ≤ before + count) :
    Agrees data recognize input groupCount (.seq first second) direction
      before count (fun state continuation =>
        firstMatcher state fun middle =>
          secondMatcher middle continuation) where
  answers address slot start continuation entering := by
    rw [agreesFirst.answers address slot start _
      (entering.narrow lowerInside.1 lowerInside.2)]
    simp only [Node.matcher, Matcher.seq, findSome?_flatMap]
    refine findSome?_congr ?_
    intro middle found
    have inside := first.matcher_inside data recognize input direction address
      slot entering.inside middle found
    exact agreesSecond.answers _ _ middle continuation
      ((entering.narrow upperInside.1 upperInside.2).after
        (agreesFirst.keeps _ _ start middle found) inside apart)
  keeps address slot start outcome found index outside := by
    obtain ⟨middle, foundFirst, foundSecond⟩ := List.mem_flatMap.mp found
    rw [agreesSecond.keeps _ _ middle outcome foundSecond index (by omega),
      agreesFirst.keeps _ _ start middle foundFirst index (by omega)]

theorem alt {first second : Node} {firstMatcher secondMatcher : Spec.Matcher}
    (agreesFirst : Agrees data recognize input groupCount first direction
      before count firstMatcher)
    (agreesSecond : Agrees data recognize input groupCount second direction
      before count secondMatcher) :
    Agrees data recognize input groupCount (.alt first second) direction
      before count (fun state continuation =>
        (firstMatcher state continuation).or
          (secondMatcher state continuation)) where
  answers address slot start continuation entering := by
    rw [agreesFirst.answers (address + 1) slot start _ entering,
      agreesSecond.answers (address + first.size + 2) (slot + first.slots)
        start _ entering]
    simp only [Node.matcher, Matcher.alt, List.findSome?_append]
  keeps address slot start outcome found index outside := by
    rcases List.mem_append.mp found with left | right
    · exact agreesFirst.keeps _ _ start outcome left index outside
    · exact agreesSecond.keeps _ _ start outcome right index outside

theorem capture {body : Node} {matcher : Spec.Matcher}
    (agrees : Agrees data recognize input groupCount body direction
      (before + 1) count matcher) (known : before < groupCount) :
    Agrees data recognize input groupCount (.capture (before + 1) body)
      direction before (count + 1) (fun state continuation =>
        matcher state fun final =>
          continuation { final with
            captures := final.captures.set before (some
              (Spec.captureRange direction state.endIndex
                final.endIndex)) }) where
  answers address slot start continuation entering := by
    have present : before + 1 < start.captures.length := by
      rw [entering.inside.length]
      omega
    have unset : start.captures[before + 1]? = some {} := by
      rw [List.getElem?_eq_getElem present]
      exact congrArg some (entering.unset (before + 1) _ (by omega) (by omega)
        (List.getElem?_eq_getElem present))
    have unseen := specified_enter direction unset
    have entered : Entering input groupCount (before + 1) count
        { start with captures := enterCapture direction (before + 1) start } :=
      { inside := entering.inside.enterCapture_inside direction (before + 1)
        unset := by
          intro index slot above below found
          rw [enterCapture_other direction (by omega)] at found
          exact entering.unset index slot (by omega) (by omega) found
        whole := by
          rw [enterCapture_other direction (by omega)]
          exact entering.whole }
    have inner := agrees.answers (address + 1) slot
      { start with captures := enterCapture direction (before + 1) start }
    rw [unseen] at inner
    rw [inner _ entered]
    simp only [Node.matcher, Matcher.bracket, List.findSome?_map]
    refine findSome?_congr ?_
    intro middle found
    have kept := agrees.keeps (address + 1) slot _ middle found (before + 1)
      (.inl le_rfl)
    exact congrArg continuation (specified_leave direction unset kept).symm
  keeps address slot start outcome found index outside := by
    obtain ⟨middle, foundMiddle, rfl⟩ := List.mem_map.mp found
    have different : index ≠ before + 1 := by omega
    have kept := agrees.keeps (address + 1) slot _ middle foundMiddle index
      (by omega)
    simp only [leaveCapture_other direction different, kept,
      enterCapture_other direction different]

theorem lookaround {body : Node} (matcher : Direction → Spec.Matcher)
    (kind : LookAroundAssertionKind)
    (agrees : Agrees data recognize input groupCount body
      (Compiler.lookaroundKind kind).direction before count
      (matcher (Compiler.lookaroundKind kind).direction)) :
    Agrees data recognize input groupCount
      (.lookaround (Compiler.lookaroundKind kind) body) direction before count
      (Spec.lookaroundMatcher kind matcher) where
  answers address slot start continuation entering := by
    have inner := agrees.answers (address + 1) slot start some entering
    obtain ⟨outcomes, listed⟩ : ∃ outcomes,
        (body.matcher data recognize input
          (Compiler.lookaroundKind kind).direction (address + 1) slot).run
            start = outcomes := ⟨_, rfl⟩
    rw [listed] at inner
    cases kind
    all_goals
      simp only [Compiler.lookaroundKind, LookaroundKind.direction]
        at inner listed
      simp only [Node.matcher, Matcher.look, Compiler.lookaroundKind,
        LookaroundKind.direction, LookaroundKind.negative,
        Spec.lookaroundMatcher, inner, listed]
      cases outcomes with
      | nil => simp
      | cons outcome rest => simp [MatchState.specified]
  keeps address slot start outcome found index outside := by
    simp only [Node.matcher, Matcher.look] at found
    split at found
    · split at found
      · cases List.mem_singleton.mp found
        rfl
      · simp at found
    · obtain ⟨middle, foundMiddle, rfl⟩ := List.mem_map.mp found
      have member := List.mem_of_mem_head? (Option.mem_toList.mp foundMiddle)
      exact agrees.keeps (address + 1) slot start middle member index outside

end Agrees

end Simulation

/-- The listed groups are the ones that follow `before` others. -/
def NumberedFrom (groups : List Group) (before : Nat) (own : List Group) :
    Prop :=
  ∀ position group, own[position]? = some group →
    (groupMetadata groups).byStart.lookup group.span.start =
      some (before + position + 1)

theorem numberedFrom_append {groups first second : List Group} {before : Nat}
    (numbered : NumberedFrom groups before (first ++ second)) :
    NumberedFrom groups before first ∧
      NumberedFrom groups (before + first.length) second := by
  constructor
  · intro position group found
    have inside := (List.getElem?_eq_some_iff.mp found).1
    refine numbered position group ?_
    rw [List.getElem?_append_left inside]
    exact found
  · intro position group found
    have place : before + first.length + position + 1 =
        before + (first.length + position) + 1 := by
      omega
    rw [place]
    refine numbered (first.length + position) group ?_
    rw [List.getElem?_append_right (Nat.le_add_right _ _),
      Nat.add_sub_cancel_left]
    exact found

theorem applyModifiers_eq (mode : MatchMode) (modifiers : Option Modifiers) :
    Compiler.applyModifiers mode modifiers =
      Spec.updateModifiers mode modifiers := by
  have single : ∀ value enabled disabled : Bool,
      Compiler.applyModifier value enabled disabled =
        (!disabled && (enabled || value)) := by
    decide
  cases modifiers with
  | none => rfl
  | some modifiers =>
      simp only [Compiler.applyModifiers, Spec.updateModifiers, single]

section Terms

variable (data : UnicodeData) (recognize : TerminalRecognizer)
  (input : Input) (groups : List Group) (maxNesting : Nat)

mutual

/-- The lowered tree of a term agrees with its matcher. -/
theorem agrees_term {mode : MatchMode} {direction : Direction}
    {before : Nat} {node : Node} (term : Term)
    (free : Spec.termQuantifierFree term)
    (numbered : NumberedFrom groups before term.groups)
    (lowered : lowerTerm (groupMetadata groups) maxNesting mode direction
      term = .ok node) :
    Agrees data recognize input groups.length node direction before
      term.groups.length
      (Spec.compileTerm data input groups maxNesting mode direction before
        term) := by
  match term with
  | .boundaryAssertion _ kind =>
      rw [lowerTerm] at lowered
      cases lowered
      simp only [Spec.compileTerm]
      exact .boundary kind mode
  | .character _ value =>
      rw [lowerTerm] at lowered
      cases lowered
      simp only [Spec.compileTerm, Spec.tokenOf, Option.bind_some]
      exact .token _
  | .dot _ =>
      rw [lowerTerm] at lowered
      cases lowered
      simp only [Spec.compileTerm, Spec.tokenOf, Option.bind_some]
      exact .token _
  | .characterClassEscape _ kind =>
      rw [lowerTerm] at lowered
      cases lowered
      simp only [Spec.compileTerm, Spec.tokenOf, Option.bind_some]
      exact .token _
  | .unicodePropertyEscape _ property =>
      rw [lowerTerm, bind_eq_ok_iff] at lowered
      obtain ⟨resolved, result, lowered⟩ := lowered
      cases lowered
      simp only [Spec.compileTerm, Spec.tokenOf, result, Except.toOption,
        Option.map_some, Option.bind_some]
      exact .token _
  | .characterClass _ characters =>
      rw [lowerTerm, bind_eq_ok_iff] at lowered
      obtain ⟨resolved, result, lowered⟩ := lowered
      cases lowered
      simp only [Spec.compileTerm, Spec.tokenOf, result, Except.toOption,
        Option.map_some, Option.bind_some]
      exact .token _
  | .indexedReference _ index =>
      rw [lowerTerm] at lowered
      cases lowered
      simp only [Spec.compileTerm]
      exact .backReference [index] mode
  | .namedReference _ name =>
      rw [lowerTerm, lookup_byName] at lowered
      by_cases unknown : namedGroups groups name = []
      · simp [unknown] at lowered
      · simp only [unknown, if_false, Except.ok.injEq] at lowered
        subst lowered
        simp only [Spec.compileTerm]
        exact .backReference (namedGroups groups name) mode
  | .ignoreGroup _ modifiers body =>
      rw [lowerTerm, applyModifiers_eq] at lowered
      rw [Spec.termQuantifierFree] at free
      rw [Term.groups] at numbered ⊢
      simp only [Spec.compileTerm]
      exact agrees_disjunction body free numbered lowered
  | .lookAroundAssertion _ kind body =>
      rw [lowerTerm, bind_eq_ok_iff] at lowered
      obtain ⟨inner, loweredBody, lowered⟩ := lowered
      cases lowered
      rw [Spec.termQuantifierFree] at free
      rw [Term.groups] at numbered ⊢
      simp only [Spec.compileTerm]
      exact .lookaround (fun direction => Spec.compileDisjunction data input
        groups maxNesting mode direction before body) kind
        (agrees_disjunction body free numbered loweredBody)
  | .capturingGroup span name body =>
      rw [Spec.termQuantifierFree] at free
      rw [Term.groups] at numbered ⊢
      have own : (groupMetadata groups).byStart.lookup span.start =
          some (before + 1) := numbered 0 ⟨span, name⟩ rfl
      rw [lowerTerm, own] at lowered
      simp only at lowered
      rw [bind_eq_ok_iff] at lowered
      obtain ⟨inner, loweredBody, lowered⟩ := lowered
      cases lowered
      obtain ⟨position, group, number, found, -⟩ := lookup_byStart own
      have inside := (List.getElem?_eq_some_iff.mp found).1
      have rest : NumberedFrom groups (before + 1)
          (disjunctionGroups body) := by
        have split : NumberedFrom groups before
          ([⟨span, name⟩] ++ disjunctionGroups body) := numbered
        exact (numberedFrom_append split).2
      simp only [Spec.compileTerm]
      exact .capture (agrees_disjunction body free rest loweredBody) (by omega)
  | .quantifier _ min max greedy body =>
      rw [Spec.termQuantifierFree] at free
      exact free.elim
termination_by sizeOf term

theorem agrees_alternative {mode : MatchMode} {direction : Direction}
    {before : Nat} {node : Node} (body : Alternative)
    (free : Spec.alternativeQuantifierFree body)
    (numbered : NumberedFrom groups before (alternativeGroups body))
    (lowered : lowerAlternative (groupMetadata groups) maxNesting mode
      direction body = .ok node) :
    Agrees data recognize input groups.length node direction before
      (alternativeGroups body).length
      (Spec.compileAlternative data input groups maxNesting mode direction
        before body) := by
  match body with
  | [] =>
      rw [lowerAlternative] at lowered
      cases lowered
      simp only [Spec.compileAlternative]
      exact .empty
  | term :: terms =>
      rw [lowerAlternative, bind_eq_ok_iff] at lowered
      obtain ⟨first, loweredFirst, lowered⟩ := lowered
      rw [bind_eq_ok_iff] at lowered
      obtain ⟨rest, loweredRest, lowered⟩ := lowered
      rw [Spec.alternativeQuantifierFree] at free
      rw [alternativeGroups] at numbered ⊢
      have parts := numberedFrom_append numbered
      have agreesFirst := agrees_term term free.1 parts.1 loweredFirst
      have agreesRest := agrees_alternative terms free.2 parts.2 loweredRest
      rw [List.length_append]
      cases direction
      · cases lowered
        simp only [Spec.compileAlternative]
        exact .seq agreesFirst agreesRest (.inl le_rfl)
          ⟨le_rfl, by omega⟩ ⟨by omega, by omega⟩
      · cases lowered
        simp only [Spec.compileAlternative]
        exact .seq agreesRest agreesFirst (.inr le_rfl)
          ⟨by omega, by omega⟩ ⟨le_rfl, by omega⟩
termination_by sizeOf body

theorem agrees_disjunction {mode : MatchMode} {direction : Direction}
    {before : Nat} {node : Node} (body : Disjunction)
    (free : Spec.disjunctionQuantifierFree body)
    (numbered : NumberedFrom groups before (disjunctionGroups body))
    (lowered : lowerDisjunction (groupMetadata groups) maxNesting mode
      direction body = .ok node) :
    Agrees data recognize input groups.length node direction before
      (disjunctionGroups body).length
      (Spec.compileDisjunction data input groups maxNesting mode direction
        before body) := by
  match body with
  | [] =>
      rw [lowerDisjunction] at lowered
      cases lowered
      simp only [Spec.compileDisjunction]
      exact .empty
  | [alternative] =>
      rw [lowerDisjunction, bind_eq_ok_iff] at lowered
      obtain ⟨first, loweredFirst, lowered⟩ := lowered
      cases lowered
      rw [Spec.disjunctionQuantifierFree] at free
      rw [disjunctionGroups, disjunctionGroups, List.append_nil]
        at numbered ⊢
      simp only [Spec.compileDisjunction]
      exact agrees_alternative alternative free.1 numbered loweredFirst
  | alternative :: second :: others =>
      rw [lowerDisjunction, bind_eq_ok_iff] at lowered
      obtain ⟨first, loweredFirst, lowered⟩ := lowered
      rw [bind_eq_ok_iff] at lowered
      obtain ⟨rest, loweredRest, lowered⟩ := lowered
      cases lowered
      rw [Spec.disjunctionQuantifierFree] at free
      rw [disjunctionGroups] at numbered ⊢
      have parts := numberedFrom_append numbered
      have agreesFirst :=
        agrees_alternative alternative free.1 parts.1 loweredFirst
      have agreesRest :=
        agrees_disjunction (second :: others) free.2 parts.2 loweredRest
      rw [List.length_append]
      simp only [Spec.compileDisjunction]
      exact .alt (agreesFirst.widen le_rfl (by omega))
        (agreesRest.widen (by omega) (by omega))
termination_by sizeOf body

end

end Terms

section Compiled

variable {flags : RegExpFlags} {limits : CompileLimits} {pattern : Pattern}
  {program : Program}

/-- The answer of the lowered tree is the match of the specification. -/
theorem answer_eq_matchPattern {node : Node}
    (free : Spec.disjunctionQuantifierFree pattern.body)
    (distinct : (groupStarts (disjunctionGroups pattern.body)).Nodup)
    (lowered : lowerDisjunction
      (groupMetadata (disjunctionGroups pattern.body)) limits.maxNesting
      flags.initialMode .forward pattern.body = .ok node)
    (data : UnicodeData) (recognize : TerminalRecognizer) {input : Input}
    {candidate : Nat} (inside : candidate ≤ input.length) :
    node.answer data recognize input
        ((disjunctionGroups pattern.body).length + 1) candidate =
      Spec.matchPattern data input limits.maxNesting flags pattern
        candidate := by
  generalize listed : disjunctionGroups pattern.body = groups at *
  have numbered : NumberedFrom groups 0 (disjunctionGroups pattern.body) := by
    intro position group found
    rw [listed] at found
    rw [Nat.zero_add]
    exact lookup_byStart_of_nodup distinct found
  have agrees := agrees_disjunction data recognize input groups
    limits.maxNesting pattern.body free numbered lowered
  rw [listed] at agrees
  have started := startingAt_inside inside (groups.length + 1)
  have entered : Entering input groups.length 0 groups.length
      { startingAt (groups.length + 1) candidate with
        captures := enterCapture .forward 0
          (startingAt (groups.length + 1) candidate) } :=
    { inside := started.enterCapture_inside .forward 0
      unset := by
        intro index slot above below found
        rw [enterCapture_other .forward (by omega)] at found
        exact List.eq_of_mem_replicate (List.mem_of_getElem? found)
      whole := by
        simp [enterCapture, saveStart, startingAt, CaptureSlot.range] }
  have view : MatchState.specified
      { startingAt (groups.length + 1) candidate with
        captures := enterCapture .forward 0
          (startingAt (groups.length + 1) candidate) } =
      ⟨candidate, List.replicate groups.length none⟩ := by
    simp [MatchState.specified, startingAt, enterCapture, saveStart,
      List.replicate_succ, CaptureSlot.range]
  have answers := agrees.answers 1 0 _ some entered
  have keeps := agrees.keeps 1 0
    { startingAt (groups.length + 1) candidate with
      captures := enterCapture .forward 0
        (startingAt (groups.length + 1) candidate) }
  rw [view] at answers
  simp only [Spec.matchPattern, listed, answers, Node.answer,
    Node.wholeOutcomes, Node.matcher, Matcher.bracket, Nat.zero_add]
  cases outcomes : (node.matcher data recognize input .forward 1 0).run
      { startingAt (groups.length + 1) candidate with
        captures := enterCapture .forward 0
          (startingAt (groups.length + 1) candidate) } with
  | nil => rfl
  | cons outcome rest =>
      have kept := keeps outcome (by rw [outcomes]; exact List.mem_cons_self)
        0 (.inl le_rfl)
      simp only [enterCapture, saveStart, startingAt, List.getElem?_modify,
        List.getElem?_replicate] at kept
      obtain ⟨position, captures⟩ := outcome
      cases captures with
      | nil => simp at kept
      | cons first others =>
          simp only [List.getElem?_cons_zero] at kept
          cases kept
          rfl

/-- The compiled code of a pattern without quantifiers returns the match of
the specification, and does so once the limits are large enough. -/
theorem runCandidate_eq_matchPattern
    (compiled : compilePattern flags limits pattern = .ok program)
    (free : Spec.disjunctionQuantifierFree pattern.body)
    (distinct : (groupStarts (disjunctionGroups pattern.body)).Nodup)
    (data : UnicodeData) (input : Input) {candidate : Nat}
    (inside : candidate ≤ input.length) :
    (∀ (execLimits : ExecLimits) (steps : Nat),
      (runCandidate data program input execLimits candidate steps).1 =
          .ok (Spec.matchPattern data input limits.maxNesting flags pattern
            candidate) ∨
        ∃ error, (runCandidate data program input execLimits candidate
          steps).1 = .error (.failed error)) ∧
      ∃ bound, ∀ (execLimits : ExecLimits) (steps : Nat),
        steps + bound ≤ execLimits.maxSteps →
        bound ≤ execLimits.maxBacktrackStates →
        (runCandidate data program input execLimits candidate steps).1 =
          .ok (Spec.matchPattern data input limits.maxNesting flags pattern
            candidate) := by
  obtain ⟨node, lowered, rfl⟩ := compilePattern_eq_ok compiled
  have numbers := numbers_disjunction _ _ pattern.body lowered
  have reached : (machine data (terminalRepeat _) _ input).Reaches _ _ :=
    reaches_answer (terminalRepeat_sound (programOf flags _ node))
      numbers.bounded inside
  rw [answer_eq_matchPattern free distinct lowered data _ inside] at reached
  exact ⟨fun execLimits steps =>
    continueFrom_of_reaches reached execLimits steps,
    continueFrom_of_large_limits reached⟩

/-- The pattern `(?<!x)(?<=(\w)(b))(?:(c)|d)\1`. -/
def lookaroundReference : Pattern where
  body := [[.lookAroundAssertion ⟨0, 6⟩ .negativeLookbehind
      [[.character ⟨4, 5⟩ 120]],
    .lookAroundAssertion ⟨6, 17⟩ .lookbehind
      [[.capturingGroup ⟨10, 14⟩ none [[.characterClassEscape ⟨11, 13⟩ .w]],
        .capturingGroup ⟨14, 17⟩ none [[.character ⟨15, 16⟩ 98]]]],
    .ignoreGroup ⟨18, 27⟩ none
      [[.capturingGroup ⟨21, 24⟩ none [[.character ⟨22, 23⟩ 99]]],
        [.character ⟨25, 26⟩ 100]],
    .indexedReference ⟨27, 29⟩ 1]]

theorem runCandidate_eq_matchPattern_lookaroundReference :
    ∃ program, compilePattern {} {} lookaroundReference = .ok program ∧
      ∃ bound, ∀ (execLimits : ExecLimits) (steps : Nat),
        steps + bound ≤ execLimits.maxSteps →
        bound ≤ execLimits.maxBacktrackStates →
        (runCandidate ⟨id, id, fun _ _ _ => false⟩ program
          [97, 98, 100, 97] execLimits 2 steps).1 =
            .ok (some ⟨[some (2, 4), some (0, 1), some (1, 2), none]⟩) := by
  have succeeds : (compilePattern {} {} lookaroundReference).isOk = true := by
    decide +kernel
  have specified : Spec.matchPattern ⟨id, id, fun _ _ _ => false⟩
      [97, 98, 100, 97] 256 {} lookaroundReference 2 =
        some ⟨[some (2, 4), some (0, 1), some (1, 2), none]⟩ := by
    decide +kernel
  cases compiled : compilePattern {} {} lookaroundReference with
  | error error =>
      rw [compiled] at succeeds
      cases succeeds
  | ok program =>
      refine ⟨program, rfl, ?_⟩
      rw [← specified]
      exact (runCandidate_eq_matchPattern compiled
        (by simp [lookaroundReference, Spec.disjunctionQuantifierFree,
          Spec.alternativeQuantifierFree, Spec.termQuantifierFree])
        (by decide) _ [97, 98, 100, 97] (by decide)).2

end Compiled

end Fusor.RegExp
