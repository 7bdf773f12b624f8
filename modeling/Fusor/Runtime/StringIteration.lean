import Fusor.Runtime.JsString

/-!
# Iterating over a rope

The iterator delivers the content of the string, as long as its stack can
hold the right parts it postpones.  For well-formed strings this bound on the
shape is also necessary: without it some slice runs out of the stack.
-/

namespace Fusor.Runtime

namespace JsString

/-- The number of right parts postponed at once while the string is read. -/
def pending : JsString → Nat
  | latin1 _ => 0
  | utf16 _ => 0
  | rope left right _ _ _ => max (left.pending + 1) right.pending

theorem pending_of_isLeaf {string : JsString} (leaf : string.isLeaf = true) :
    string.pending = 0 := by
  cases string with
  | latin1 units => rfl
  | utf16 units => rfl
  | rope left right len depth wide => cases leaf

theorem WellFormed.pending_le_depth {string : JsString}
    (formed : string.WellFormed) (unsaturated : string.depth < 255) :
    string.pending ≤ string.depth := by
  induction formed with
  | latin1 bounded => exact Nat.le_refl 0
  | utf16 bounded wide => exact Nat.le_refl 0
  | @join left right _ _ _ _ _ leftInduction rightInduction =>
      rw [depth_join] at unsaturated
      have leftPending := leftInduction (by omega)
      have rightPending := rightInduction (by omega)
      change max (left.pending + 1) right.pending ≤ _
      rw [depth_join]
      omega

/-- A well-formed string that is not empty. -/
def Solid (string : JsString) : Prop :=
  string.WellFormed ∧ string.len ≠ 0

theorem Solid.content_ne_nil {string : JsString} (solid : string.Solid) :
    string.content ≠ [] := by
  intro none
  apply solid.2
  rw [solid.1.len_eq, none, List.length_nil]

end JsString

namespace CodeUnits

open JsString

/-- Every stacked part can be read above the parts below it. -/
def Fits : List JsString → Prop
  | [] => True
  | node :: below =>
      node.pending ≤ ropeIterStackCapacity - below.length ∧ Fits below

/-- What the stacked parts still contribute. -/
def stackText (stack : List JsString) : List UInt16 :=
  stack.flatMap JsString.content

def text (iterator : CodeUnits) : List UInt16 :=
  iterator.leaf.elim [] (fun cursor => cursor.units.drop cursor.index) ++
    stackText iterator.stack

@[simp]
theorem stackText_cons (node : JsString) (below : List JsString) :
    stackText (node :: below) = node.content ++ stackText below :=
  rfl

theorem text_new (string : JsString) :
    (new string).text = string.content := by
  simp [text, new, stackText]

theorem descend_of_fits {node : JsString} {below : List JsString}
    (fits : Fits (node :: below)) :
    ∃ cursor stack, descend below node = .ok (cursor, stack) ∧ Fits stack := by
  induction node generalizing below with
  | latin1 units => exact ⟨_, _, rfl, fits.2⟩
  | utf16 units => exact ⟨_, _, rfl, fits.2⟩
  | rope left right len depth wide leftInduction _ =>
      obtain ⟨room, belowFits⟩ := fits
      simp only [pending] at room
      have space : below.length < ropeIterStackCapacity := by omega
      obtain ⟨cursor, stack, reached, after⟩ :=
        @leftInduction (right :: below) (by
          refine ⟨?_, ?_, belowFits⟩
          · rw [List.length_cons]
            omega
          · omega)
      exact ⟨cursor, stack, by rw [descend, if_pos space, reached], after⟩

theorem descend_inversion {node : JsString} {below stack : List JsString}
    {cursor : LeafCursor} (reached : descend below node = .ok (cursor, stack)) :
    cursor.units.drop cursor.index ++ stackText stack =
      stackText (node :: below) ∧
    (Fits stack → Fits (node :: below)) ∧
    (node.Solid → (∀ part ∈ below, part.Solid) →
      ∀ part ∈ stack, part.Solid) := by
  induction node generalizing below with
  | latin1 units =>
      cases reached
      exact ⟨rfl, fun fits => ⟨Nat.zero_le _, fits⟩, fun _ others => others⟩
  | utf16 units =>
      cases reached
      exact ⟨rfl, fun fits => ⟨Nat.zero_le _, fits⟩, fun _ others => others⟩
  | rope left right len depth wide leftInduction _ =>
      rw [descend] at reached
      split at reached
      · rename_i space
        obtain ⟨same, fitsBack, solidOn⟩ := leftInduction reached
        refine ⟨?_, ?_, ?_⟩
        · rw [same]
          simp [JsString.content]
        · intro fits
          obtain ⟨leftRoom, rightRoom, belowFits⟩ := fitsBack fits
          rw [List.length_cons] at leftRoom
          refine ⟨?_, belowFits⟩
          simp only [pending]
          omega
        · rintro ⟨formed, filled⟩ others
          cases formed with
          | join leftFormed rightFormed leftFilled rightFilled bounded =>
              apply solidOn ⟨leftFormed, leftFilled⟩
              intro part member
              rcases List.mem_cons.mp member with rfl | member
              · exact ⟨rightFormed, rightFilled⟩
              · exact others part member
      · cases reached

theorem next_of_current {iterator : CodeUnits} {cursor : LeafCursor}
    {unit : UInt16} (found : iterator.current = some (cursor, unit)) :
    iterator.next = .ok (some unit,
      { iterator with
        leaf := some { cursor with index := cursor.index + 1 }
        remaining := iterator.remaining - 1 }) := by
  rw [next, found]

theorem next_of_exhausted {iterator : CodeUnits}
    (exhausted : iterator.current = none) (stacked : iterator.stack = []) :
    iterator.next = .ok (none, { iterator with leaf := none }) := by
  rw [next, exhausted]
  simp only
  split
  · rfl
  · rename_i other
    rw [stacked] at other
    cases other

theorem next_of_stacked {iterator : CodeUnits} {node : JsString}
    {below : List JsString} (exhausted : iterator.current = none)
    (stacked : iterator.stack = node :: below) :
    iterator.next = (descend below node).bind fun reached =>
      next { iterator with stack := reached.2, leaf := some reached.1 } := by
  rw [next, exhausted]
  simp only
  split
  · rename_i other
    rw [stacked] at other
    cases other
  · rename_i other
    rw [stacked] at other
    cases other
    split
    · rename_i failed
      rw [failed]
      rfl
    · rename_i reached
      rw [reached]
      rfl

theorem text_of_current {iterator : CodeUnits} {cursor : LeafCursor}
    {unit : UInt16} (found : iterator.current = some (cursor, unit)) :
    iterator.text =
      unit :: (cursor.units.drop (cursor.index + 1) ++
        stackText iterator.stack) := by
  obtain ⟨_, present, mapped⟩ := Option.bind_eq_some_iff.mp found
  obtain ⟨_, inside, same⟩ := Option.map_eq_some_iff.mp mapped
  cases same
  obtain ⟨bound, located⟩ := List.getElem?_eq_some_iff.mp inside
  simp only [text, present, Option.elim_some, List.drop_eq_getElem_cons bound,
    located, List.cons_append]

theorem text_of_exhausted {iterator : CodeUnits}
    (exhausted : iterator.current = none) :
    iterator.text = stackText iterator.stack := by
  cases present : iterator.leaf with
  | none => simp [text, present]
  | some cursor =>
      simp only [current, present, Option.bind_some, Option.map_eq_none_iff,
        List.getElem?_eq_none_iff] at exhausted
      simp [text, present, List.drop_eq_nil_of_le exhausted]

/-- One answer of the iterator. -/
structure Advance (before : CodeUnits) (answer : Option UInt16)
    (after : CodeUnits) : Prop where
  text_eq : before.text = answer.toList ++ after.text
  ended : answer = none → after.text = []
  fitsBack : Fits after.stack → Fits before.stack
  solid : (∀ part ∈ before.stack, part.Solid) →
    ∀ part ∈ after.stack, part.Solid

theorem next_inversion {iterator after : CodeUnits} {answer : Option UInt16}
    (advanced : iterator.next = .ok (answer, after)) :
    Advance iterator answer after := by
  induction iterator using next.induct with
  | case1 iterator cursor unit found =>
      rw [next_of_current found] at advanced
      cases advanced
      exact ⟨text_of_current found, by simp, fun fits => fits,
        fun solid => solid⟩
  | case2 iterator exhausted stacked =>
      rw [next_of_exhausted exhausted stacked] at advanced
      cases advanced
      have nothing := text_of_exhausted exhausted
      refine ⟨nothing, fun _ => ?_, fun fits => fits, fun solid => solid⟩
      simp [text, stacked, stackText]
  | case3 iterator exhausted node below stacked failure failed =>
      rw [next_of_stacked exhausted stacked, failed] at advanced
      cases advanced
  | case4 iterator exhausted node below stacked cursor stack reached
      induction =>
      rw [next_of_stacked exhausted stacked, reached] at advanced
      obtain ⟨same, ended, fitsBack, solid⟩ := induction advanced
      obtain ⟨descended, fitsDescended, solidDescended⟩ :=
        descend_inversion reached
      refine ⟨?_, ended, ?_, ?_⟩
      · rw [text_of_exhausted exhausted, stacked, ← descended, ← same]
        rfl
      · intro fits
        rw [stacked]
        exact fitsDescended (fitsBack fits)
      · intro solidBefore
        rw [stacked] at solidBefore
        exact solid (solidDescended (solidBefore node (by simp))
          fun part member => solidBefore part (List.mem_cons_of_mem _ member))

theorem next_of_fits {iterator : CodeUnits} (fits : Fits iterator.stack) :
    ∃ answer after, iterator.next = .ok (answer, after) ∧
      Fits after.stack := by
  induction iterator using next.induct with
  | case1 iterator cursor unit found =>
      exact ⟨_, _, next_of_current found, fits⟩
  | case2 iterator exhausted stacked =>
      exact ⟨_, _, next_of_exhausted exhausted stacked, fits⟩
  | case3 iterator exhausted node below stacked failure failed =>
      rw [stacked] at fits
      obtain ⟨cursor, stack, reached, _⟩ := descend_of_fits fits
      rw [reached] at failed
      cases failed
  | case4 iterator exhausted node below stacked cursor stack reached
      induction =>
      rw [stacked] at fits
      obtain ⟨_, _, reachedAgain, after⟩ := descend_of_fits fits
      rw [reached] at reachedAgain
      cases reachedAgain
      rw [next_of_stacked exhausted stacked, reached]
      exact induction after

theorem takeUnits_inversion {count : Nat} {iterator after : CodeUnits}
    {units : List UInt16}
    (taken : takeUnits count iterator = .ok (units, after)) :
    units = iterator.text.take count ∧
      after.text = iterator.text.drop count ∧
      (Fits after.stack → Fits iterator.stack) ∧
      ((∀ part ∈ iterator.stack, part.Solid) →
        ∀ part ∈ after.stack, part.Solid) := by
  induction count generalizing iterator units with
  | zero =>
      cases taken
      exact ⟨rfl, rfl, fun fits => fits, fun solid => solid⟩
  | succ count induction =>
      rw [takeUnits, Support.bind_eq_ok_iff] at taken
      obtain ⟨⟨answer, between⟩, advanced, rest⟩ := taken
      obtain ⟨same, ended, fitsBack, solid⟩ := next_inversion advanced
      cases answer with
      | none =>
          cases rest
          have nothing : iterator.text = [] := by
            rw [same, ended rfl]
            rfl
          refine ⟨by simp [nothing], ?_, fitsBack, solid⟩
          rw [ended rfl, nothing, List.drop_nil]
      | some unit =>
          rw [Support.bind_eq_ok_iff] at rest
          obtain ⟨⟨others, final⟩, takenRest, finished⟩ := rest
          cases finished
          obtain ⟨taking, dropping, fitsRest, solidRest⟩ :=
            induction takenRest
          rw [same]
          exact ⟨by simp [taking], by simp [dropping],
            fun fits => fitsBack (fitsRest fits),
            fun before => solidRest (solid before)⟩

theorem takeUnits_of_fits {iterator : CodeUnits} (fits : Fits iterator.stack)
    (count : Nat) :
    ∃ after, takeUnits count iterator =
        .ok (iterator.text.take count, after) ∧
      after.text = iterator.text.drop count ∧ Fits after.stack := by
  induction count generalizing iterator with
  | zero => exact ⟨iterator, by simp [takeUnits], rfl, fits⟩
  | succ count induction =>
      obtain ⟨answer, between, advanced, fitsBetween⟩ := next_of_fits fits
      obtain ⟨same, ended, _, _⟩ := next_inversion advanced
      rw [takeUnits, advanced, same]
      cases answer with
      | none =>
          refine ⟨between, ?_, ?_, fitsBetween⟩
          · simp [ended rfl, bind, Except.bind]
          · simp [ended rfl]
      | some unit =>
          obtain ⟨after, taken, dropped, fitsAfter⟩ := induction fitsBetween
          refine ⟨after, ?_, ?_, fitsAfter⟩
          · simp [taken, bind, Except.bind]
          · simpa using dropped

end CodeUnits

namespace JsString

open CodeUnits

theorem codeUnits_eq {string : JsString} (formed : string.WellFormed)
    (shallow : string.pending ≤ ropeIterStackCapacity) :
    string.codeUnits = .ok string.content := by
  obtain ⟨after, taken, -⟩ := takeUnits_of_fits
    (show Fits (CodeUnits.new string).stack from ⟨shallow, trivial⟩) string.len
  rw [codeUnits, taken, text_new, formed.len_eq, List.take_length]
  rfl

theorem slice_of_pending {string : JsString} (formed : string.WellFormed)
    (shallow : string.pending ≤ ropeIterStackCapacity) {start stop : Nat}
    (ordered : start ≤ stop) (inside : stop ≤ string.len) :
    ∃ part, string.slice start stop = .ok part ∧ part.WellFormed ∧
      part.content = (string.content.drop start).take (stop - start) := by
  have length := formed.len_eq
  have limit := formed.len_le
  have valid : ¬ (start > stop ∨ stop > string.len) := by omega
  rw [slice, if_neg valid]
  by_cases whole : start = 0 ∧ stop = string.len
  · rw [if_pos whole]
    refine ⟨string, rfl, formed, ?_⟩
    rw [whole.1, whole.2, length]
    simp
  · rw [if_neg whole]
    by_cases nothing : start = stop
    · rw [if_pos nothing, nothing]
      exact ⟨empty, rfl, .empty, by simp [content, empty]⟩
    · rw [if_neg nothing]
      obtain ⟨middle, skipped, dropped, fitsMiddle⟩ := takeUnits_of_fits
        (show Fits (CodeUnits.new string).stack from ⟨shallow, trivial⟩) start
      obtain ⟨after, taken, -⟩ := takeUnits_of_fits fitsMiddle (stop - start)
      rw [text_new] at dropped
      have size : ((string.content.drop start).take (stop - start)).length =
          stop - start := by
        rw [List.length_take, List.length_drop, ← length]
        omega
      obtain ⟨part, built, partFormed, _, same⟩ :=
        @fromCodeUnits_eq_ok (stop - start)
          ((string.content.drop start).take (stop - start)) (by omega)
          (by omega)
      refine ⟨part, ?_, partFormed, same⟩
      simp only [skipped, taken, dropped, bind, Except.bind]
      exact built

theorem slice_inversion {string part : JsString} (formed : string.WellFormed)
    {start stop : Nat} (sliced : string.slice start stop = .ok part) :
    part.WellFormed ∧ (part = string ∨ part.isLeaf = true) ∧
      part.content = (string.content.drop start).take (stop - start) := by
  have length := formed.len_eq
  have limit := formed.len_le
  rw [slice] at sliced
  split at sliced
  · cases sliced
  · rename_i valid
    split at sliced
    · rename_i whole
      cases sliced
      refine ⟨formed, .inl rfl, ?_⟩
      rw [whole.1, whole.2, length]
      simp
    · split at sliced
      · rename_i nothing
        cases sliced
        refine ⟨.empty, .inr rfl, ?_⟩
        simp [nothing, content, empty]
      · rw [Support.bind_eq_ok_iff] at sliced
        obtain ⟨⟨first, middle⟩, skipped, rest⟩ := sliced
        rw [Support.bind_eq_ok_iff] at rest
        obtain ⟨⟨units, after⟩, taken, built⟩ := rest
        obtain ⟨_, dropped, _, _⟩ := takeUnits_inversion skipped
        obtain ⟨same, _, _, _⟩ := takeUnits_inversion taken
        rw [dropped, text_new] at same
        have size : units.length = stop - start := by
          rw [same, List.length_take, List.length_drop, ← length]
          omega
        obtain ⟨other, builtAgain, partFormed, leaf, text⟩ :=
          @fromCodeUnits_eq_ok (stop - start) units (by omega) (by omega)
        cases builtAgain.symm.trans built
        exact ⟨partFormed, .inr leaf, text.trans same⟩

theorem WellFormed.one_lt_len_of_pending {string : JsString}
    (formed : string.WellFormed) (deep : string.pending ≠ 0) :
    1 < string.len := by
  cases formed with
  | latin1 bounded => exact absurd rfl deep
  | utf16 bounded wide => exact absurd rfl deep
  | join _ _ leftFilled rightFilled _ =>
      rw [len_join]
      omega

/-- Reading everything but the first unit takes the whole stack the string
needs. -/
theorem pending_of_slice {string part : JsString} (formed : string.WellFormed)
    (sliced : string.slice 1 string.len = .ok part) :
    string.pending ≤ ropeIterStackCapacity := by
  by_cases flat : string.pending = 0
  · omega
  · have long := formed.one_lt_len_of_pending flat
    rw [slice, if_neg (by omega), if_neg (by omega), if_neg (by omega),
      Support.bind_eq_ok_iff] at sliced
    obtain ⟨⟨first, middle⟩, skipped, rest⟩ := sliced
    rw [Support.bind_eq_ok_iff] at rest
    obtain ⟨⟨units, after⟩, taken, _⟩ := rest
    obtain ⟨_, dropped, fitsMiddle, solidMiddle⟩ := takeUnits_inversion skipped
    obtain ⟨_, droppedAll, fitsAfter, solidAfter⟩ := takeUnits_inversion taken
    have solid : ∀ part ∈ after.stack, part.Solid := by
      apply solidAfter
      apply solidMiddle
      intro node member
      rw [show node = string from List.mem_singleton.mp member]
      exact ⟨formed, by omega⟩
    have finished : after.text = [] := by
      rw [droppedAll, dropped, text_new, List.drop_drop]
      apply List.drop_eq_nil_of_le
      rw [← formed.len_eq]
      omega
    have emptied : after.stack = [] := by
      cases stacked : after.stack with
      | nil => rfl
      | cons node below =>
          rw [stacked] at solid
          have filled := (solid node (by simp)).content_ne_nil
          simp [text, stacked, filled] at finished
    have fits := fitsMiddle (fitsAfter (by rw [emptied]; trivial))
    exact fits.1

end JsString

end Fusor.Runtime
