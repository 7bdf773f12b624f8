import Fusor.Support.Extents

/-!
# The lines of a text

A text is cut after every line terminator.  A carriage return with a line
feed after it is one terminator.  The last line has none.
-/

namespace Fusor.Diagnostics

open Fusor.Support

def isLineTerminator (character : Char) : Bool :=
  character = '\r' || character = '\n' || character = '\u2028' ||
    character = '\u2029'

structure Line where
  content : List Char
  ending : List Char
  deriving DecidableEq

def Line.text (line : Line) : List Char :=
  line.content ++ line.ending

def addFirst (character : Char) : List Line → List Line
  | [] => [⟨[character], []⟩]
  | line :: others => ⟨character :: line.content, line.ending⟩ :: others

def lines : List Char → List Line
  | [] => [⟨[], []⟩]
  | '\r' :: '\n' :: rest => ⟨[], ['\r', '\n']⟩ :: lines rest
  | character :: rest =>
      if isLineTerminator character then
        ⟨[], [character]⟩ :: lines rest
      else
        addFirst character (lines rest)

/-- A line feed at the start of a text belongs to a carriage return before
it. -/
def StartsWithLineFeed (text : List Char) : Prop :=
  ∃ rest, text = '\n' :: rest

inductive Terminator : List Char → Prop where
  | single (character : Char) (terminator : isLineTerminator character = true) :
      Terminator [character]
  | pair : Terminator ['\r', '\n']

def joined (pieces : List Line) : List Char :=
  (pieces.map Line.text).flatten

def Line.Plain (line : Line) : Prop :=
  ∀ character ∈ line.content, isLineTerminator character = false

/-- A text cut after every terminator, and nowhere else. -/
inductive Cut : List Line → Prop where
  | last (line : Line) (plain : line.Plain) (unterminated : line.ending = []) :
      Cut [line]
  | cons (line : Line) (others : List Line) (plain : line.Plain)
      (terminated : Terminator line.ending)
      (whole : line.ending = ['\r'] → ¬ StartsWithLineFeed (joined others))
      (rest : Cut others) : Cut (line :: others)

@[simp]
theorem joined_nil : joined [] = [] :=
  rfl

@[simp]
theorem joined_cons (line : Line) (others : List Line) :
    joined (line :: others) = line.text ++ joined others := by
  simp [joined]

@[simp]
theorem joined_append (front back : List Line) :
    joined (front ++ back) = joined front ++ joined back := by
  simp [joined]

theorem Cut.ne_nil {pieces : List Line} (cut : Cut pieces) : pieces ≠ [] := by
  cases cut with
  | last => exact List.cons_ne_nil _ _
  | cons => exact List.cons_ne_nil _ _

theorem Cut.addFirst {pieces : List Line} {character : Char}
    (cut : Cut pieces) (ordinary : isLineTerminator character = false) :
    Cut (addFirst character pieces) := by
  cases cut with
  | last line plain unterminated =>
      exact .last _ (List.forall_mem_cons.mpr ⟨ordinary, plain⟩) unterminated
  | cons line others plain terminated whole rest =>
      exact .cons _ others (List.forall_mem_cons.mpr ⟨ordinary, plain⟩)
        terminated whole rest

theorem joined_addFirst {pieces : List Line} (nonempty : pieces ≠ [])
    (character : Char) :
    joined (addFirst character pieces) = character :: joined pieces := by
  cases pieces with
  | nil => exact absurd rfl nonempty
  | cons line others => simp [addFirst, Line.text]

theorem lines_joined_and_cut (text : List Char) :
    joined (lines text) = text ∧ Cut (lines text) := by
  induction text using lines.induct with
  | case1 =>
      refine ⟨rfl, .last _ ?_ rfl⟩
      intro character member
      cases member
  | case2 rest induction =>
      obtain ⟨same, cut⟩ := induction
      rw [lines]
      refine ⟨by simp [Line.text, same], .cons _ _ ?_ .pair ?_ cut⟩
      · intro character member
        cases member
      · intro onlyReturn
        simp at onlyReturn
  | case3 character rest notPair terminator induction =>
      obtain ⟨same, cut⟩ := induction
      rw [lines.eq_3 _ _ notPair, if_pos terminator]
      refine ⟨by simp [Line.text, same],
        .cons _ _ ?_ (.single character terminator) ?_ cut⟩
      · intro other member
        cases member
      · intro onlyReturn ⟨others, startsWith⟩
        rw [same] at startsWith
        exact notPair others (List.cons.inj onlyReturn).1 startsWith
  | case4 character rest notPair ordinary induction =>
      obtain ⟨same, cut⟩ := induction
      rw [lines.eq_3 _ _ notPair, if_neg ordinary]
      refine ⟨?_, cut.addFirst (Bool.eq_false_of_not_eq_true ordinary)⟩
      rw [joined_addFirst cut.ne_nil, same]

theorem joined_lines (text : List Char) : joined (lines text) = text :=
  (lines_joined_and_cut text).1

theorem lines_cut (text : List Char) : Cut (lines text) :=
  (lines_joined_and_cut text).2

theorem Terminator.ne_nil {ending : List Char} (terminated : Terminator ending) :
    ending ≠ [] := by
  cases terminated with
  | single => exact List.cons_ne_nil _ _
  | pair => exact List.cons_ne_nil _ _

/-- The shape of one line, by whether others come after it. -/
theorem Cut.middle {front back : List Line} {line : Line}
    (cut : Cut (front ++ line :: back)) :
    line.Plain ∧ (back = [] ∧ line.ending = [] ∨
      back ≠ [] ∧ Terminator line.ending) := by
  induction front with
  | nil =>
      cases cut with
      | last line plain unterminated => exact ⟨plain, .inl ⟨rfl, unterminated⟩⟩
      | cons line others plain terminated whole rest =>
          exact ⟨plain, .inr ⟨rest.ne_nil, terminated⟩⟩
  | cons head tail induction =>
      rw [List.cons_append] at cut
      generalize pieces : tail ++ line :: back = others at cut
      cases cut with
      | last => simp at pieces
      | cons head others plain terminated whole rest =>
          exact induction (pieces ▸ rest)

theorem Cut.separated {pieces : List Line} (cut : Cut pieces) :
    Separated (pieces.map Line.text) := by
  induction cut with
  | last line plain unterminated => simp [Separated]
  | cons line others plain terminated whole rest induction =>
      intro piece member
      cases others with
      | nil => exact absurd rfl rest.ne_nil
      | cons second more =>
          rw [List.map_cons, List.map_cons, List.dropLast_cons_cons] at member
          rcases List.mem_cons.mp member with same | later
          · subst same
            simp [Line.text, terminated.ne_nil]
          · exact induction piece later

/-- No line begins between a carriage return and a line feed. -/
theorem Cut.not_between {front back : List Line} {before : List Char}
    (cut : Cut (front ++ back)) (more : back ≠ [])
    (returned : joined front = before ++ ['\r']) :
    ¬ StartsWithLineFeed (joined back) := by
  induction front generalizing before with
  | nil => simp at returned
  | cons head tail induction =>
      rw [List.cons_append] at cut
      generalize pieces : tail ++ back = others at cut
      cases cut with
      | last =>
          exact absurd (List.append_eq_nil_iff.mp pieces).2 more
      | cons head others plain terminated whole rest =>
          subst pieces
          cases tail with
          | nil =>
              rw [joined_cons, joined_nil, List.append_nil, Line.text]
                at returned
              apply whole
              cases ending : head.ending with
              | nil => exact absurd ending terminated.ne_nil
              | cons first later =>
                  rw [ending] at terminated returned
                  cases terminated with
                  | single =>
                      have same := (List.append_inj' returned rfl).2
                      exact same
                  | pair =>
                      have last := congrArg List.getLast? returned
                      simp at last
          | cons second tail =>
              have secondNonempty : joined (second :: tail) ≠ [] := by
                have shape := @Cut.middle [] _ _ rest
                rcases shape.2 with ⟨alone, _⟩ | ⟨_, ended⟩
                · simp at alone
                  exact absurd alone.2 more
                · simp [Line.text, ended.ne_nil]
              obtain ⟨inner, last, split⟩ :=
                List.eq_nil_or_concat'  (joined (second :: tail)) |>.resolve_left
                  secondNonempty
              refine @induction inner rest ?_
              rw [joined_cons, split, ← List.append_assoc] at returned
              have same := (List.append_inj' returned rfl).2
              rw [split, same]

end Fusor.Diagnostics
