import Mathlib.Data.List.Sort
import Mathlib.Data.List.TakeWhile
import Fusor.Host.TimerSweeps

/-!
# The steps of a sweep

What a sweep does to the pending timers: it begins, starts the callback of an
entry, drops the entry or arms its timer again, and ends by pruning the heap or
by an error.
-/

namespace Fusor.Host.EventLoop

open Fusor.Support

/-! ## The steps of a sweep -/

/-- Two timers are not armed by one event. -/
theorem lastArmed_injective {first second deadline other time : Nat}
    {log : List Event} (left : lastArmed first log = some (deadline, time))
    (right : lastArmed second log = some (other, time)) : first = second := by
  induction log with
  | nil => simp [lastArmed] at left
  | cons event log induction =>
      cases event with
      | armed id instant =>
          simp only [lastArmed] at left right
          by_cases leftSame : id = first
          · rw [if_pos leftSame] at left
            simp only [Option.some.injEq, Prod.mk.injEq] at left
            by_cases rightSame : id = second
            · exact leftSame.symm.trans rightSame
            · rw [if_neg rightSame] at right
              have recent := lastArmed_lt right
              omega
          · rw [if_neg leftSame] at left
            by_cases rightSame : id = second
            · rw [if_pos rightSame] at right
              simp only [Option.some.injEq, Prod.mk.injEq] at right
              have recent := lastArmed_lt left
              omega
            · rw [if_neg rightSame] at right
              exact induction left right
      | _ => exact induction left right

/-- What the loop notes about a sweep and nothing reads back. -/
def Event.isInert : Event → Bool
  | .rearming _ _ _ | .putBack _ | .sweepCut _ _ => true
  | _ => false

theorem Pending.inert {fired due : List TimerEntry} {timers : TimerState}
    {log : List Event} (state : Pending fired due timers log) {event : Event}
    (inert : event.isInert = true) :
    Pending fired due timers (event :: log) := by
  cases event with
  | rearming | putBack | sweepCut =>
      exact state.note rfl (fun _ => rfl) (by simp [Event.concerns])
        (startsInOrder_quiet rfl) (sweepsIntervals_quiet rfl) state.stays
  | _ => simp [Event.isInert] at inert

namespace Pending

variable {fired due : List TimerEntry} {timers : TimerState}
  {log : List Event} {code : Code} {id : Nat}

theorem concerned (state : Pending fired due timers log)
    (holds : timers.Holds id) :
    ∃ event ∈ log, event.concerns id = true := by
  cases stored : timers.callbacks id with
  | none => exact absurd stored holds
  | some callback =>
      obtain ⟨kind, member, -⟩ := state.callbacks id callback stored
      exact ⟨_, member, by simp [Event.concerns]⟩

/-- The callback of a timer or an immediate ends while it is in its place. -/
theorem finishTimer (state : Pending fired due timers log)
    (names : code.timer? = some id) (holds : timers.Holds id)
    (outcome : Outcome) (standing : Standing) :
    Pending fired due timers (.finished code outcome standing :: log) := by
  apply state.note rfl (fun _ => rfl) _ (startsInOrder_quiet rfl)
    (sweepsIntervals_quiet rfl)
  · intro other pending
    simp only [incomplete, names, Option.some.injEq] at pending
    by_cases same : id = other
    · rwa [← same]
    · rw [if_neg same] at pending
      exact state.stays other pending
  · intro other named
    simp only [Event.concerns, names, beq_iff_eq, Option.some.injEq] at named
    rw [← named]
    exact state.concerned holds

end Pending

namespace Sweep

variable {held fired due : List TimerEntry} {timers : TimerState}
  {log : List Event} {entry : TimerEntry} {callback : TimerCallback}

/-- The entries of a sweep are started in the order in which they were
armed. -/
theorem armed_before (sweep : Sweep [] fired (entry :: due) timers log)
    (holds : timers.Holds entry.id) {other : TimerEntry} (member : other ∈ due)
    (otherHolds : timers.Holds other.id) {time later : Nat}
    (armed : lastArmed entry.id log = some (entry.deadline, time))
    (otherArmed : lastArmed other.id log = some (other.deadline, later)) :
    entry.deadline < other.deadline ∨
      entry.deadline = other.deadline ∧ time < later := by
  have order : entry.before other :=
    (List.pairwise_cons.mp sweep.sorted).1 other member
  have distinct : other.id ≠ entry.id := by
    intro same
    have once := sweep.once entry.id holds
    rw [List.countP_cons_of_pos (by simp)] at once
    have counted : 0 < due.countP (·.id == entry.id) :=
      List.countP_pos_iff.mpr ⟨other, member, by simp [same]⟩
    omega
  unfold TimerEntry.before at order
  rcases order with earlier | ⟨same, order⟩
  · exact .inl earlier
  · right
    refine ⟨same, ?_⟩
    by_contra notBefore
    have apart : later ≠ time := by
      rintro rfl
      exact distinct (lastArmed_injective otherArmed armed)
    have entryLive := (sweep.live entry List.mem_cons_self holds).1
    have otherLive :=
      (sweep.live other (List.mem_cons_of_mem _ member) otherHolds).1
    rcases sweep.ordered other entry otherLive entryLive same.symm later time
      otherArmed armed (by omega) with smaller | smaller | ⟨-, again⟩
    · omega
    · omega
    · obtain ⟨earlier, firedEarlier, same⟩ := again
      exact sweep.apart entry List.mem_cons_self holds earlier firedEarlier same

theorem startsInOrder_take (sweep : Sweep [] fired (entry :: due) timers log)
    (holds : timers.Holds entry.id) (jobs : Nat) :
    StartsInOrder (.started (.timer entry.id) jobs) log := by
  intro id count same
  cases same
  obtain ⟨live, reached⟩ := sweep.live entry List.mem_cons_self holds
  obtain ⟨time, armed⟩ := sweep.armed entry live
  refine ⟨entry.deadline, time, timers.now, armed, sweep.clock, reached, ?_⟩
  intro start member
  obtain ⟨distinct, earlier, armedAt, own, startArmed, ownArmed, before⟩ :=
    sweep.later entry List.mem_cons_self holds start member
  rw [armed] at ownArmed
  cases ownArmed
  exact ⟨distinct, earlier, armedAt, startArmed, before⟩

/-- The next entry belongs to a timer that is gone. -/
theorem skip (sweep : Sweep [] fired (entry :: due) timers log)
    (out : timers.callbacks entry.id = none) :
    Sweep [] fired due timers log := by
  have absent : ¬ timers.Holds entry.id := fun holds => holds out
  exact { sweep with
    ordered := by
      intro first second firstLive secondLive same earlier later firstArmed
        secondArmed before
      rcases sweep.ordered first second firstLive secondLive same earlier later
        firstArmed secondArmed before with smaller | smaller | ⟨waiting, again⟩
      · exact .inl smaller
      · exact .inr (.inl smaller)
      · refine .inr (.inr ⟨?_, again⟩)
        rcases List.mem_cons.mp waiting with rfl | waiting
        · exact absurd firstLive.held absent
        · exact waiting
    heldApart := by simp
    dueBelow := fun other member =>
      sweep.dueBelow other (List.mem_cons_of_mem _ member)
    live := fun other member =>
      sweep.live other (List.mem_cons_of_mem _ member)
    once := by
      intro id holds
      have once := sweep.once id holds
      rw [List.countP_cons] at once
      omega
    sorted := (List.pairwise_cons.mp sweep.sorted).2
    apart := fun other member =>
      sweep.apart other (List.mem_cons_of_mem _ member)
    later := fun other member =>
      sweep.later other (List.mem_cons_of_mem _ member)
    covered := by
      intro id deadline time registered uncleared armed reached
      rcases sweep.covered id deadline time registered uncleared armed reached
        with started | cleared | ⟨holds, other, member, same⟩
      · exact .inl started
      · exact .inr (.inl cleared)
      · refine .inr (.inr ⟨holds, other, ?_, same⟩)
        rcases List.mem_cons.mp member with rfl | member
        · exact absurd (same ▸ holds) absent
        · exact member }

/-- The callback of the next entry is started. -/
theorem take (sweep : Sweep [] fired (entry :: due) timers log)
    (holds : timers.Holds entry.id) (jobs : Nat) :
    Sweep [entry] fired due timers
      (.started (.timer entry.id) jobs :: log) := by
  have live := (sweep.live entry List.mem_cons_self holds).1
  have once := sweep.once entry.id holds
  rw [List.countP_cons_of_pos (by simp)] at once
  have distinct : ∀ other ∈ due, other.id ≠ entry.id := by
    intro other member same
    have counted : 0 < due.countP (·.id == entry.id) :=
      List.countP_pos_iff.mpr ⟨other, member, by simp [same]⟩
    omega
  have count : registrations (.started (.timer entry.id) jobs :: log) =
      registrations log := by
    simp [Event.isRegistration]
  have pending : Pending fired (entry :: due) timers
      (.started (.timer entry.id) jobs :: log) := by
    apply sweep.toPending.note rfl (fun _ => rfl) _
      (sweep.startsInOrder_take holds jobs) (sweepsIntervals_quiet rfl)
    · intro id pending
      simp only [incomplete, Code.timer?, Option.some.injEq] at pending
      by_cases same : entry.id = id
      · simp [same] at pending
      · rw [if_neg same] at pending
        exact sweep.stays id pending
    · intro id named
      simp only [Event.concerns, Code.timer?, beq_iff_eq,
        Option.some.injEq] at named
      obtain ⟨time, armed⟩ := sweep.armed entry live
      rw [named] at armed
      exact concerns_of_lastArmed armed
  exact {
    toPending := pending
    heldLive := by
      intro other member _
      rw [List.mem_singleton.mp member]
      exact live
    heldApart := by
      intro other member
      rw [List.mem_singleton.mp member]
      exact ⟨distinct, sweep.apart entry List.mem_cons_self holds⟩
    heldBelow := by
      intro other member
      rw [List.mem_singleton.mp member, count]
      exact sweep.dueBelow entry List.mem_cons_self
    clock := sweep.clock
    dueBelow := by
      rw [count]
      exact fun other member =>
        sweep.dueBelow other (List.mem_cons_of_mem _ member)
    live := fun other member =>
      sweep.live other (List.mem_cons_of_mem _ member)
    once := by
      intro id holds
      have once := sweep.once id holds
      rw [List.countP_cons] at once
      omega
    sorted := (List.pairwise_cons.mp sweep.sorted).2
    apart := fun other member =>
      sweep.apart other (List.mem_cons_of_mem _ member)
    later := by
      intro other member otherHolds start started
      simp only [sweepStarts, List.mem_cons] at started
      rcases started with new | old
      · obtain ⟨time, armed⟩ := sweep.armed entry live
        obtain ⟨later, otherArmed⟩ := sweep.armed other
          (sweep.live other (List.mem_cons_of_mem _ member) otherHolds).1
        rw [new]
        exact ⟨Ne.symm (distinct other member), _, _, _, armed, otherArmed,
          sweep.armed_before holds member otherHolds armed otherArmed⟩
      · exact sweep.later other (List.mem_cons_of_mem _ member) otherHolds
          start old
    covered := by
      intro id deadline time registered uncleared armed reached
      simp only [insideSweep, List.any_cons, Bool.or_eq_true, List.mem_cons,
        reduceCtorEq, false_or]
      rcases sweep.covered id deadline time registered uncleared armed reached
        with started | cleared | ⟨holds, other, member, same⟩
      · exact .inl (.inr started)
      · exact .inr (.inl cleared)
      · rcases List.mem_cons.mp member with first | later
        · left
          left
          simp [Event.starts, Code.timer?, ← same, first]
        · exact .inr (.inr ⟨holds, other, later, same⟩) }

/-- The callback ends: while it is in its place nothing changes. -/
theorem land (sweep : Sweep held fired due timers log) {code : Code} {id : Nat}
    (names : code.timer? = some id) (holds : timers.Holds id)
    (outcome : Outcome) (standing : Standing) :
    Sweep held fired due timers (.finished code outcome standing :: log) :=
  sweep.pass rfl (fun _ => rfl)
    (sweep.toPending.finishTimer names holds outcome standing)

/-- The events that the timers do not depend on. -/
theorem inert (sweep : Sweep held fired due timers log) {event : Event}
    (inert : event.isInert = true) :
    Sweep held fired due timers (event :: log) := by
  have pending := sweep.toPending.inert inert
  cases event with
  | rearming | putBack | sweepCut => exact sweep.pass rfl (fun _ => rfl) pending
  | _ => simp [Event.isInert] at inert

/-- A callback leaves the registry for good. -/
theorem drop (sweep : Sweep held fired due timers log) {id : Nat}
    (gone : ∀ kind, .registered id kind ∈ log → cancelled id log = false →
      kind = .interval ∨ log.countP (Event.completes id) = 0 → False)
    (complete : incomplete id log = false)
    (apart : ∀ other ∈ due, other.id ≠ id) :
    Sweep held fired due (timers.remove id) log := by
  have holds : ∀ other, (timers.remove id).Holds other → timers.Holds other :=
    fun other holds => (TimerState.holds_remove.mp holds).2
  exact {
    toPending := sweep.toPending.drop gone complete
    heldLive := by
      intro entry member held
      have live := sweep.heldLive entry member (holds entry.id held)
      exact ⟨live.member, live.unfired, held⟩
    heldApart := sweep.heldApart
    heldBelow := sweep.heldBelow
    clock := sweep.clock
    dueBelow := sweep.dueBelow
    live := by
      intro entry member held
      obtain ⟨live, reached⟩ :=
        sweep.live entry member (holds entry.id held)
      exact ⟨⟨live.member, live.unfired, held⟩, reached⟩
    once := fun other held => sweep.once other (holds other held)
    sorted := sweep.sorted
    apart := fun entry member held =>
      sweep.apart entry member (holds entry.id held)
    later := fun entry member held =>
      sweep.later entry member (holds entry.id held)
    covered := by
      intro other deadline time registered uncleared armed reached
      rcases sweep.covered other deadline time registered uncleared armed
        reached with started | cleared | ⟨held, entry, member, same⟩
      · exact .inl started
      · exact .inr (.inl cleared)
      · refine .inr (.inr ⟨?_, entry, member, same⟩)
        rw [TimerState.holds_remove]
        refine ⟨?_, held⟩
        rw [← same]
        exact apart entry member }

/-- The entry of a timer that is gone has fired. -/
theorem spend (sweep : Sweep [entry] fired due timers log)
    (out : timers.callbacks entry.id = none) :
    Sweep [] (entry :: fired) due timers log := by
  have absent : ¬ timers.Holds entry.id := fun holds => holds out
  have below := sweep.heldBelow entry List.mem_cons_self
  obtain ⟨dueApart, firedApart⟩ := sweep.heldApart entry List.mem_cons_self
  have live : ∀ other, Live (entry :: fired) timers other →
      Live fired timers other := by
    intro other live
    exact ⟨live.member, fun member => live.unfired
      (List.mem_cons_of_mem _ member), live.held⟩
  have pending := sweep.toPending
  exact {
    toLedger := pending.toLedger
    heapBelow := pending.heapBelow
    queueBelow := pending.queueBelow
    firedBelow := List.forall_mem_cons.mpr ⟨below, pending.firedBelow⟩
    sequenceFits := pending.sequenceFits
    sequences := pending.sequences
    timer := by
      intro id holds notImmediate
      have distinct : id ≠ entry.id := by
        rintro rfl
        exact absent holds
      obtain ⟨once, apart⟩ := pending.timer id holds notImmediate
      refine ⟨?_, apart⟩
      rw [← once]
      apply List.countP_congr
      intro other _
      simp only [Bool.and_eq_true, decide_eq_true_eq, beq_iff_eq,
        List.mem_cons, not_or]
      constructor
      · rintro ⟨⟨-, unfired⟩, same⟩
        exact ⟨unfired, same⟩
      · rintro ⟨unfired, same⟩
        refine ⟨⟨?_, unfired⟩, same⟩
        rintro rfl
        exact distinct same.symm
    immediate := pending.immediate
    armed := fun other holds => pending.armed other (live other holds)
    ordered := by
      intro first second firstLive secondLive same earlier later firstArmed
        secondArmed before
      rcases pending.ordered first second (live first firstLive)
        (live second secondLive) same earlier later firstArmed secondArmed
        before with smaller | smaller | ⟨waiting, again⟩
      · exact .inl smaller
      · exact .inr (.inl smaller)
      · refine .inr (.inr ⟨?_, ?_⟩)
        · rcases List.mem_cons.mp waiting with rfl | waiting
          · exact absurd firstLive.held absent
          · exact waiting
        · obtain ⟨other, member, same⟩ := again
          exact ⟨other, List.mem_cons_of_mem _ member, same⟩
    firedRepeats := by
      intro other member callback found
      rcases List.mem_cons.mp member with rfl | member
      · rw [out] at found
        simp at found
      · exact pending.firedRepeats other member callback found
    startsInOrder := pending.startsInOrder
    sweepsIntervals := pending.sweepsIntervals
    notLost := pending.notLost
    stays := pending.stays
    heldLive := by simp
    heldApart := by simp
    heldBelow := by simp
    clock := sweep.clock
    dueBelow := sweep.dueBelow
    live := by
      intro other member holds
      obtain ⟨live, reached⟩ := sweep.live other member holds
      refine ⟨⟨live.member, ?_, holds⟩, reached⟩
      rw [List.mem_cons, not_or]
      refine ⟨?_, live.unfired⟩
      rintro rfl
      exact absent holds
    once := sweep.once
    sorted := sweep.sorted
    apart := by
      intro other member holds earlier fired
      rcases List.mem_cons.mp fired with rfl | fired
      · exact Ne.symm (dueApart other member)
      · exact sweep.apart other member holds earlier fired
    later := sweep.later
    covered := sweep.covered }

/-- The entry that fired was the only one of its timer. -/
theorem only_held (sweep : Sweep [entry] fired due timers log)
    (holds : timers.Holds entry.id)
    (notImmediate : Event.registered entry.id .immediate ∉ log)
    {other : TimerEntry} (member : other ∈ timers.heap)
    (unfired : other ∉ fired) (same : other.id = entry.id) :
    other = entry := by
  have live := sweep.heldLive entry List.mem_cons_self holds
  have once := (sweep.timer entry.id holds notImmediate).1
  rw [TimerState.occurrences, List.countP_eq_length_filter,
    List.length_eq_one_iff] at once
  obtain ⟨only, once⟩ := once
  have isOnly : ∀ candidate ∈ timers.heap, candidate ∉ fired →
      candidate.id = entry.id → candidate = only := by
    intro candidate member unfired same
    have filtered : candidate ∈ timers.heap.filter fun candidate =>
        candidate ∉ fired && candidate.id == entry.id := by
      simp [member, unfired, same]
    rw [once] at filtered
    exact List.mem_singleton.mp filtered
  rw [isOnly other member unfired same,
    isOnly entry live.member live.unfired rfl]

end Sweep

/-- An interval that fired is armed again with the entry `new`: it is not the
entry that fired, and the pending intervals with its deadline and sequence have
smaller identities. -/
structure Rearming (fired due : List TimerEntry) (timers : TimerState)
    (log : List Event) (entry new : TimerEntry) : Prop extends
    Sweep [entry] fired due timers log where
  holds : timers.Holds entry.id
  repeats : ∀ callback, timers.callbacks entry.id = some callback →
    callback.repeating = true
  isTimer : Event.registered entry.id .immediate ∉ log
  newId : new.id = entry.id
  newSequence : new.sequence = timers.sequence
  changed : new ≠ entry
  untied : ∀ other ∈ timers.heap, other ∉ entry :: fired ++ due →
    timers.Holds other.id → other.id ≠ entry.id →
    other.deadline = new.deadline → other.sequence = new.sequence →
    other.id < entry.id

/-- The timers with a further entry. -/
def TimerState.withEntry (timers : TimerState) (new : TimerEntry) :
    TimerState :=
  { timers with heap := new :: timers.heap }

namespace Rearming

variable {fired due : List TimerEntry} {timers : TimerState}
  {log : List Event} {entry new other first second : TimerEntry}

theorem newUnfired (rearming : Rearming fired due timers log entry new) :
    new ∉ entry :: fired := by
  rw [List.mem_cons, not_or]
  refine ⟨rearming.changed, ?_⟩
  intro member
  exact (rearming.heldApart entry List.mem_cons_self).2 new member
    rearming.newId

theorem isNew (rearming : Rearming fired due timers log entry new)
    (live : Live (entry :: fired) (timers.withEntry new) other)
    (same : other.id = entry.id) : other = new := by
  rcases List.mem_cons.mp live.member with new | old
  · exact new
  · have unfired := live.unfired
    rw [List.mem_cons, not_or] at unfired
    exact absurd (rearming.only_held rearming.holds rearming.isTimer old
      unfired.2 same) unfired.1

theorem isOld (rearming : Rearming fired due timers log entry new)
    (live : Live (entry :: fired) (timers.withEntry new) other)
    (distinct : other.id ≠ entry.id) : Live fired timers other := by
  have unfired := live.unfired
  rw [List.mem_cons, not_or] at unfired
  rcases List.mem_cons.mp live.member with isNew | old
  · rw [isNew] at distinct
    exact absurd rearming.newId distinct
  · exact ⟨old, unfired.2, live.held⟩

theorem unarmed {deadline id : Nat} (distinct : id ≠ entry.id) :
    lastArmed id (.armed entry.id deadline :: log) = lastArmed id log := by
  simp [lastArmed, Ne.symm distinct]

theorem occurrences_new (rearming : Rearming fired due timers log entry new) :
    (timers.withEntry new).occurrences (entry :: fired) entry.id = 1 := by
  unfold TimerState.occurrences TimerState.withEntry
  rw [List.countP_cons, if_pos, Nat.add_eq_right, List.countP_eq_zero]
  · intro other member counted
    simp only [Bool.and_eq_true, decide_eq_true_eq, beq_iff_eq,
      List.mem_cons, not_or] at counted
    exact counted.1.1 (rearming.only_held rearming.holds rearming.isTimer
      member counted.1.2 counted.2)
  · simp [rearming.newUnfired, rearming.newId]

theorem occurrences_old (rearming : Rearming fired due timers log entry new)
    {id : Nat} (distinct : id ≠ entry.id) :
    (timers.withEntry new).occurrences (entry :: fired) id =
      timers.occurrences fired id := by
  unfold TimerState.occurrences TimerState.withEntry
  rw [List.countP_cons, if_neg, Nat.add_zero]
  · apply List.countP_congr
    intro other _
    simp only [Bool.and_eq_true, decide_eq_true_eq, beq_iff_eq, List.mem_cons,
      not_or]
    constructor
    · rintro ⟨⟨-, unfired⟩, same⟩
      exact ⟨unfired, same⟩
    · rintro ⟨unfired, same⟩
      refine ⟨⟨?_, unfired⟩, same⟩
      rintro rfl
      exact distinct same.symm
  · simp [rearming.newId, Ne.symm distinct]

/-- The new entry comes after the entries that were armed before it. -/
theorem order (rearming : Rearming fired due timers log entry new)
    (firstLive : Live (entry :: fired) (timers.withEntry new) first)
    (secondLive : Live (entry :: fired) (timers.withEntry new) second)
    (same : first.deadline = second.deadline) {earlier later : Nat}
    (firstArmed : lastArmed first.id (.armed entry.id new.deadline :: log) =
      some (first.deadline, earlier))
    (secondArmed : lastArmed second.id (.armed entry.id new.deadline :: log) =
      some (second.deadline, later))
    (before : earlier < later) :
    first.sequence < second.sequence ∨
      first.sequence = second.sequence ∧ first.id < second.id ∨
      first ∈ due ∧ ∃ other ∈ entry :: fired, other.id = second.id := by
  by_cases firstNew : first.id = entry.id
  · rw [firstNew] at firstArmed
    simp only [lastArmed, if_true, Option.some.injEq,
      Prod.mk.injEq] at firstArmed
    have recent := lastArmed_lt secondArmed
    rw [List.length_cons] at recent
    omega
  · have firstOld := rearming.isOld firstLive firstNew
    rw [unarmed firstNew] at firstArmed
    by_cases secondNew : second.id = entry.id
    · have isNew := rearming.isNew secondLive secondNew
      have fits := rearming.sequences first firstOld.member
      by_cases waiting : first ∈ due
      · exact .inr (.inr ⟨waiting, entry, List.mem_cons_self,
          secondNew.symm⟩)
      · have untied := rearming.untied first firstOld.member
          (by
            rw [List.mem_append, not_or]
            exact ⟨firstLive.unfired, waiting⟩)
          firstOld.held firstNew
          (by rw [same, isNew])
        rw [isNew, rearming.newSequence, rearming.newId]
        rw [rearming.newSequence] at untied
        by_cases tie : first.sequence = timers.sequence
        · exact .inr (.inl ⟨tie, untied tie⟩)
        · exact .inl (by omega)
    · rw [unarmed secondNew] at secondArmed
      rcases rearming.toPending.ordered first second firstOld
        (rearming.isOld secondLive secondNew) same earlier later firstArmed
        secondArmed before with smaller | smaller | ⟨waiting, again⟩
      · exact .inl smaller
      · exact .inr (.inl smaller)
      · refine .inr (.inr ⟨?_, ?_⟩)
        · rcases List.mem_cons.mp waiting with rfl | waiting
          · exact absurd rfl firstNew
          · exact waiting
        · obtain ⟨other, member, same⟩ := again
          exact ⟨other, List.mem_cons_of_mem _ member, same⟩

theorem pending (rearming : Rearming fired due timers log entry new) :
    Pending (entry :: fired) due (timers.withEntry new)
      (.armed entry.id new.deadline :: log) := by
  have below := rearming.heldBelow entry List.mem_cons_self
  have counted : registrations (.armed entry.id new.deadline :: log) =
      registrations log := by
    simp [Event.isRegistration]
  have registered : ∀ id kind,
      Event.registered id kind ∈ Event.armed entry.id new.deadline :: log ↔
        .registered id kind ∈ log := by
    intro id kind
    simp
  exact {
    toLedger := by
      apply rearming.toLedger.note rfl _ (by rfl)
        (by exact fun _ _ found => .inl found)
      intro id named
      simp only [Event.concerns, beq_iff_eq] at named
      obtain ⟨time, armed⟩ := rearming.armed entry
        (rearming.heldLive entry List.mem_cons_self rearming.holds)
      rw [named] at armed
      exact concerns_of_lastArmed armed
    heapBelow := by
      rw [counted]
      change ∀ other ∈ new :: timers.heap, other.id < registrations log
      rw [List.forall_mem_cons, rearming.newId]
      exact ⟨below, rearming.heapBelow⟩
    queueBelow := by
      rw [counted]
      exact rearming.queueBelow
    firedBelow := by
      rw [counted]
      exact List.forall_mem_cons.mpr ⟨below, rearming.firedBelow⟩
    sequenceFits := rearming.sequenceFits
    sequences := by
      change ∀ other ∈ new :: timers.heap, other.sequence ≤ timers.sequence
      rw [List.forall_mem_cons]
      exact ⟨rearming.newSequence.le, rearming.sequences⟩
    timer := by
      intro id holds notImmediate
      rw [registered] at notImmediate
      by_cases same : id = entry.id
      · rw [same]
        exact ⟨rearming.occurrences_new,
          (rearming.timer entry.id rearming.holds rearming.isTimer).2⟩
      · rw [rearming.occurrences_old same]
        exact rearming.timer id holds notImmediate
    immediate := by
      intro id holds member
      rw [registered] at member
      obtain ⟨once, apart⟩ := rearming.immediate id holds member
      refine ⟨once, ?_⟩
      change ∀ other ∈ new :: timers.heap, other.id ≠ id
      rw [List.forall_mem_cons, rearming.newId]
      refine ⟨?_, apart⟩
      rintro rfl
      exact rearming.isTimer member
    armed := by
      intro other live
      by_cases same : other.id = entry.id
      · rw [rearming.isNew live same, rearming.newId]
        exact ⟨_, by simp [lastArmed]; rfl⟩
      · rw [unarmed same]
        exact rearming.armed other (rearming.isOld live same)
    ordered := by
      intro first second firstLive secondLive same earlier later firstArmed
        secondArmed before
      exact rearming.order firstLive secondLive same firstArmed secondArmed
        before
    firedRepeats := by
      rw [List.forall_mem_cons]
      exact ⟨rearming.repeats, rearming.firedRepeats⟩
    startsInOrder := throughout_cons.mpr
      ⟨startsInOrder_quiet rfl, rearming.startsInOrder⟩
    sweepsIntervals := throughout_cons.mpr
      ⟨sweepsIntervals_quiet rfl, rearming.sweepsIntervals⟩
    notLost := by
      intro id kind member live unfinished
      rw [registered] at member
      rw [cancelled_cons_of_ne (by simp)] at live
      rw [List.countP_cons_of_neg (by simp [Event.completes])] at unfinished
      exact rearming.notLost id kind member live unfinished
    stays := rearming.stays }

/-- The sweep goes on with the next entry. -/
theorem resume (rearming : Rearming fired due timers log entry new) :
    Sweep [] (entry :: fired) due (timers.withEntry new)
      (.armed entry.id new.deadline :: log) := by
  have dueApart := (rearming.heldApart entry List.mem_cons_self).1
  have counted : registrations (.armed entry.id new.deadline :: log) =
      registrations log := by
    simp [Event.isRegistration]
  exact {
    toPending := rearming.pending
    heldLive := by simp
    heldApart := by simp
    heldBelow := by simp
    clock := rearming.clock
    dueBelow := by
      rw [counted]
      exact rearming.dueBelow
    live := by
      intro other member holds
      obtain ⟨live, reached⟩ := rearming.live other member holds
      refine ⟨⟨List.mem_cons_of_mem _ live.member, ?_, holds⟩, reached⟩
      rw [List.mem_cons, not_or]
      refine ⟨?_, live.unfired⟩
      rintro rfl
      exact dueApart other member rfl
    once := rearming.once
    sorted := rearming.sorted
    apart := by
      intro other member holds
      rw [List.forall_mem_cons]
      exact ⟨Ne.symm (dueApart other member),
        rearming.apart other member holds⟩
    later := by
      intro other member holds
      rw [unarmed (dueApart other member)]
      exact rearming.later other member holds
    covered := by
      intro id deadline time registered uncleared armed reached
      rcases rearming.covered id deadline time registered uncleared armed
        reached with started | cleared | waiting
      · left
        simp only [insideSweep, List.any_cons, Bool.or_eq_true]
        exact .inr started
      · exact .inr (.inl (List.mem_cons_of_mem _ cleared))
      · exact .inr (.inr waiting) }

end Rearming

/-! ## The end of a sweep -/

theorem mem_of_mem_beforeSweep {event : Event} {log : List Event}
    (member : event ∈ beforeSweep log) : event ∈ log := by
  induction log with
  | nil => exact member
  | cons first log induction =>
      cases first with
      | sweepBegan now => exact List.mem_cons_of_mem _ member
      | _ => exact List.mem_cons_of_mem _ (induction member)

namespace Sweep

variable {held fired due : List TimerEntry} {timers : TimerState}
  {log : List Event}

/-- The due intervals were started or cleared when no registered interval is
left. -/
theorem sweepsIntervals_end (sweep : Sweep held fired due timers log)
    (left : ∀ entry ∈ due, timers.repeats entry.id = false) :
    SweepsIntervals .sweepEnded log := by
  intro _ id deadline time now clock registered uncleared armed reached
  rw [sweep.clock, Option.some.injEq] at clock
  rcases sweep.covered id deadline time registered uncleared armed
    (clock ▸ reached) with started | cleared | ⟨holds, entry, member, same⟩
  · exact .inl started
  · exact .inr cleared
  · cases stored : timers.callbacks id with
    | none => exact absurd stored holds
    | some callback =>
        obtain ⟨kind, known, agrees⟩ := sweep.callbacks id callback stored
        have same' := sweep.kinds id kind .interval known
          (mem_of_mem_beforeSweep registered)
        have silent := left entry member
        rw [TimerState.repeats, same, stored, Option.any_some,
          Bool.eq_false_iff] at silent
        exact absurd (agrees.mpr same') silent

/-- When no entry that fired belongs to a registered timer, the heap needs no
pruning. -/
theorem settled (sweep : Sweep held fired due timers log)
    (gone : ∀ entry ∈ fired, ¬ timers.Holds entry.id) :
    Pending [] [] timers log := by
  have live : ∀ entry, Live [] timers entry → Live fired timers entry := by
    intro entry live
    refine ⟨live.member, ?_, live.held⟩
    intro member
    exact gone entry member live.held
  have pending := sweep.toPending
  exact {
    toLedger := pending.toLedger
    heapBelow := pending.heapBelow
    queueBelow := pending.queueBelow
    firedBelow := by simp
    sequenceFits := pending.sequenceFits
    sequences := pending.sequences
    timer := by
      intro id holds notImmediate
      obtain ⟨once, apart⟩ := pending.timer id holds notImmediate
      refine ⟨?_, apart⟩
      rw [← once]
      apply List.countP_congr
      intro entry _
      simp only [Bool.and_eq_true, decide_eq_true_eq, beq_iff_eq,
        List.not_mem_nil, not_false_eq_true, true_and]
      constructor
      · intro same
        refine ⟨?_, same⟩
        intro member
        exact gone entry member (same ▸ holds)
      · intro counted
        exact counted.2
    immediate := pending.immediate
    armed := fun entry holds => pending.armed entry (live entry holds)
    ordered := by
      intro first second firstLive secondLive same earlier later firstArmed
        secondArmed before
      rcases pending.ordered first second (live first firstLive)
        (live second secondLive) same earlier later firstArmed secondArmed
        before with smaller | smaller | ⟨-, entry, member, again⟩
      · exact .inl smaller
      · exact .inr (.inl smaller)
      · exact absurd (again ▸ secondLive.held) (gone entry member)
    firedRepeats := by simp
    startsInOrder := pending.startsInOrder
    sweepsIntervals := pending.sweepsIntervals
    notLost := pending.notLost
    stays := pending.stays }

/-- An error ends the sweep, and none of its other timers is a registered
interval. -/
theorem cut (sweep : Sweep held fired due timers log)
    (none : timers.intervals (fired ++ due) = []) :
    Pending [] [] timers (.sweepEnded :: log) := by
  have silent : ∀ entry ∈ fired ++ due, timers.repeats entry.id = false := by
    intro entry member
    rw [TimerState.intervals, List.map_eq_nil_iff,
      List.filter_eq_nil_iff] at none
    simpa using none entry member
  have gone : ∀ entry ∈ fired, ¬ timers.Holds entry.id := by
    intro entry member holds
    cases stored : timers.callbacks entry.id with
    | none => exact absurd stored holds
    | some callback =>
        have repeats := sweep.firedRepeats entry member callback stored
        have quiet := silent entry (List.mem_append_left _ member)
        simp [TimerState.repeats, stored, repeats] at quiet
  have ends := sweep.sweepsIntervals_end
    (fun entry member => silent entry (List.mem_append_right _ member))
  exact (sweep.settled gone).note rfl (fun _ => rfl)
    (by simp [Event.concerns]) (startsInOrder_quiet rfl) ends sweep.stays

/-- The sweep has reached its end and prunes the heap. -/
theorem prune (sweep : Sweep [] fired [] timers log) :
    Pending [] [] (timers.prune fired) (.sweepEnded :: log) := by
  have live : ∀ entry, Live [] (timers.prune fired) entry →
      Live fired timers entry := by
    intro entry live
    have member := List.mem_filter.mp live.member
    simp only [Bool.and_eq_true, decide_eq_true_eq] at member
    exact ⟨member.1, member.2.1, live.held⟩
  have subset : ∀ entry ∈ (timers.prune fired).heap, entry ∈ timers.heap :=
    fun entry member => (List.mem_filter.mp member).1
  have pending := sweep.toPending.note rfl (fun _ => rfl)
    (by simp [Event.concerns]) (startsInOrder_quiet rfl)
    (sweep.sweepsIntervals_end (by simp)) sweep.stays
  exact {
    nextId := pending.nextId
    below := pending.below
    kinds := pending.kinds
    callbacks := pending.callbacks
    heapBelow := fun entry member => pending.heapBelow entry
      (subset entry member)
    queueBelow := pending.queueBelow
    firedBelow := by simp
    sequenceFits := pending.sequenceFits
    sequences := fun entry member => pending.sequences entry
      (subset entry member)
    timer := by
      intro id holds notImmediate
      obtain ⟨once, apart⟩ := pending.timer id holds notImmediate
      refine ⟨?_, apart⟩
      rw [← once]
      unfold TimerState.occurrences TimerState.prune
      rw [List.countP_filter]
      apply List.countP_congr
      intro entry _
      simp only [Bool.and_eq_true, decide_eq_true_eq, beq_iff_eq,
        List.not_mem_nil, not_false_eq_true, true_and,
        TimerState.registered_iff]
      constructor
      · rintro ⟨same, unfired, -⟩
        exact ⟨unfired, same⟩
      · rintro ⟨unfired, same⟩
        exact ⟨same, unfired, same ▸ holds⟩
    immediate := by
      intro id holds member
      obtain ⟨once, apart⟩ := pending.immediate id holds member
      exact ⟨once, fun entry member => apart entry (subset entry member)⟩
    armed := fun entry holds => pending.armed entry (live entry holds)
    ordered := by
      intro first second firstLive secondLive same earlier later firstArmed
        secondArmed before
      rcases pending.ordered first second (live first firstLive)
        (live second secondLive) same earlier later firstArmed secondArmed
        before with smaller | smaller | ⟨waiting, -⟩
      · exact .inl smaller
      · exact .inr (.inl smaller)
      · simp at waiting
    firedRepeats := by simp
    startsInOrder := pending.startsInOrder
    sweepsIntervals := pending.sweepsIntervals
    notLost := pending.notLost
    stays := pending.stays }

end Sweep

/-! ## The beginning of a sweep -/

theorem mem_takeWhile_due {entries : List TimerEntry} {entry : TimerEntry}
    {now : Nat} (sorted : entries.Pairwise TimerEntry.before)
    (member : entry ∈ entries) (reached : entry.deadline ≤ now) :
    entry ∈ entries.takeWhile fun entry => entry.deadline ≤ now := by
  induction entries with
  | nil => simp at member
  | cons first entries induction =>
      rw [List.pairwise_cons] at sorted
      have firstReached : first.deadline ≤ now := by
        rcases List.mem_cons.mp member with rfl | later
        · exact reached
        · have order := sorted.1 entry later
          unfold TimerEntry.before at order
          omega
      rw [List.takeWhile_cons_of_pos (by simpa using firstReached)]
      rcases List.mem_cons.mp member with rfl | later
      · exact List.mem_cons_self
      · exact List.mem_cons_of_mem _ (induction sorted.2 later)

namespace TimerState

variable {timers : TimerState} {entry : TimerEntry}

theorem due_sublist :
    timers.due.Sublist (timers.heap.insertionSort TimerEntry.before) :=
  List.takeWhile_sublist _

theorem sorted_heap : (timers.heap.insertionSort TimerEntry.before).Pairwise
    TimerEntry.before :=
  List.pairwise_insertionSort TimerEntry.before timers.heap

theorem mem_heap_of_mem_due (member : entry ∈ timers.due) :
    entry ∈ timers.heap :=
  (List.mem_insertionSort _).mp (due_sublist.subset member)

theorem reached_of_mem_due (member : entry ∈ timers.due) :
    entry.deadline ≤ timers.now := by
  have reached := List.mem_takeWhile_imp member
  simpa using reached

theorem mem_due (member : entry ∈ timers.heap)
    (reached : entry.deadline ≤ timers.now) : entry ∈ timers.due :=
  mem_takeWhile_due sorted_heap ((List.mem_insertionSort _).mpr member) reached

theorem countP_due_le (test : TimerEntry → Bool) :
    timers.due.countP test ≤ timers.heap.countP test := by
  calc timers.due.countP test
      ≤ (timers.heap.insertionSort TimerEntry.before).countP test :=
        due_sublist.countP_le
    _ = timers.heap.countP test :=
        (List.perm_insertionSort _ _).countP_eq test

end TimerState

namespace Pending

variable {due : List TimerEntry} {timers : TimerState} {log : List Event}

/-- Which entries a sweep has still to fire matters only while it arms timers
again. -/
theorem withDue (state : Pending [] [] timers log) (due : List TimerEntry) :
    Pending [] due timers log :=
  { state with
    ordered := by
      intro first second firstLive secondLive same earlier later firstArmed
        secondArmed before
      rcases state.ordered first second firstLive secondLive same earlier later
        firstArmed secondArmed before with smaller | smaller | ⟨waiting, -⟩
      · exact .inl smaller
      · exact .inr (.inl smaller)
      · simp at waiting }

theorem occurrences_nil (timers : TimerState) (id : Nat) :
    timers.occurrences [] id = timers.heap.countP (·.id == id) := by
  unfold TimerState.occurrences
  simp

theorem heap_once (state : Pending [] due timers log) {id : Nat}
    (holds : timers.Holds id) : timers.heap.countP (·.id == id) ≤ 1 := by
  by_cases immediate : Event.registered id .immediate ∈ log
  · have apart := (state.immediate id holds immediate).2
    rw [List.countP_eq_zero.mpr]
    · exact Nat.zero_le 1
    · intro entry member
      simp [apart entry member]
  · rw [← occurrences_nil, (state.timer id holds immediate).1]

/-- A sweep begins. -/
theorem sweep (state : Pending [] [] timers log) :
    Sweep [] [] timers.due timers (.sweepBegan timers.now :: log) where
  toPending := (state.withDue _).note rfl (fun _ => rfl)
    (by simp [Event.concerns]) (startsInOrder_quiet rfl)
    (sweepsIntervals_quiet rfl) state.stays
  heldLive := by simp
  heldApart := by simp
  heldBelow := by simp
  clock := rfl
  dueBelow := by
    intro entry member
    rw [registrations_cons]
    exact Nat.lt_add_right _
      (state.heapBelow entry (TimerState.mem_heap_of_mem_due member))
  live := by
    intro entry member holds
    exact ⟨⟨TimerState.mem_heap_of_mem_due member, by simp, holds⟩,
      TimerState.reached_of_mem_due member⟩
  once := fun id holds =>
    (TimerState.countP_due_le _).trans (state.heap_once holds)
  sorted := List.Pairwise.sublist TimerState.due_sublist TimerState.sorted_heap
  apart := by simp
  later := by simp [sweepStarts]
  covered := by
    intro id deadline time registered uncleared armed reached
    have holds : timers.Holds id :=
      state.notLost id .interval registered uncleared (.inl rfl)
    have notImmediate : Event.registered id .immediate ∉ log := by
      intro member
      have same := state.kinds id _ _ member registered
      simp at same
    have once := (state.timer id holds notImmediate).1
    rw [occurrences_nil] at once
    obtain ⟨entry, member, same⟩ :=
      List.countP_pos_iff.mp (once ▸ Nat.zero_lt_one)
    rw [beq_iff_eq] at same
    have live : Live [] timers entry := ⟨member, by simp, same ▸ holds⟩
    obtain ⟨armedAt, entryArmed⟩ := state.armed entry live
    rw [same] at entryArmed
    have armed : lastArmed id log = some (deadline, time) := armed
    rw [armed, Option.some.injEq, Prod.mk.injEq] at entryArmed
    refine .inr (.inr ⟨holds, entry, ?_, same⟩)
    apply TimerState.mem_due member
    rw [← entryArmed.1]
    exact reached

end Pending

end Fusor.Host.EventLoop
