import ByteDFA.Proofs.Search.Acceleration
import ByteDFA.Proofs.Search.Guarded

/-!
# Searches use their operations as they are meant to be used

In a well-formed automaton, guarding a search changes nothing (`guardedSearch_eq`). What carries the
proof is where the frame is while an attempt runs: the cursor lies between the offset of the attempt
and the end of the haystack, so do all offsets that have been recorded, and both buffers have one
slot for each slot of the automaton (`Frame.Within`). Each operation keeps this, and so it holds
when the attempt is over. Between two attempts only the sizes are left of it, and there the question
is how far the next attempt may be from the end of the haystack (`Search.Ready`).
-/

set_option autoImplicit false

namespace ByteDFA

/-! ## Offsets within bounds -/

/-- Every offset that is set lies between two others. -/
def Slots.Between (slots : Slots) (start stop : Nat) : Prop :=
  ∀ offset : Offset, some offset ∈ slots → start ≤ offset.toNat ∧ offset.toNat ≤ stop

namespace Slots

variable {slots : Slots} {start stop cursor : Nat}

theorem between_blank (count start stop : Nat) : (blank count).Between start stop := by
  intro offset mem
  rw [blank, Array.mem_replicate] at mem
  cases mem.2

theorem Between.record (between : slots.Between start stop) (set : SlotSet)
    (inside : start ≤ cursor ∧ cursor ≤ stop) : (slots.record set cursor).Between start stop := by
  intro offset mem
  obtain ⟨slot, at_slot⟩ := Array.mem_iff_getElem?.1 mem
  rw [getElem?_record] at at_slot
  obtain ⟨old, at_old, new⟩ := Option.map_eq_some_iff.1 at_slot
  split at new
  · rw [Offset.toNat_of_ofNat? new]
    exact inside
  · subst new
    exact between offset (Array.mem_of_getElem? at_old)

end Slots

/-- Both buffers of the frame have the given number of slots. -/
structure Frame.Sized (frame : Frame) (slotCount : Nat) : Prop where
  slots : frame.slots.size = slotCount
  matched : frame.matched.size = slotCount

/-- The cursor of the frame and all offsets in it lie between two others. -/
structure Frame.Within (frame : Frame) (slotCount start stop : Nat) : Prop where
  cursor : start ≤ frame.cursor ∧ frame.cursor ≤ stop
  sized : frame.Sized slotCount
  recorded : frame.slots.Between start stop
  saved : ∀ slots, frame.saved = some slots → slots.size = slotCount ∧ slots.Between start stop

namespace Frame

variable {frame : Frame} {slotCount start stop : Nat}

theorem sized_fresh (slotCount cursor : Nat) : (fresh slotCount cursor).Sized slotCount :=
  ⟨Slots.size_blank slotCount, Slots.size_blank slotCount⟩

/-- A reset takes away all offsets. -/
theorem Sized.reset (sized : frame.Sized slotCount) (le : start ≤ stop) :
    (frame.reset start).Within slotCount start stop := by
  refine ⟨⟨Nat.le_refl start, le⟩, ⟨?_, sized.matched⟩, ?_, fun slots saved => nomatch saved⟩
  · rw [size_slots_reset]
    exact sized.slots
  · show frame.slots.clear.Between start stop
    rw [Slots.clear_eq_blank]
    exact Slots.between_blank _ start stop

theorem Within.record (within : frame.Within slotCount start stop) (set : SlotSet) :
    (frame.record set).Within slotCount start stop := by
  refine ⟨within.cursor, ⟨?_, within.sized.matched⟩, within.recorded.record set within.cursor,
    within.saved⟩
  rw [← within.sized.slots]
  exact Slots.size_record ..

theorem Within.save (within : frame.Within slotCount start stop) (extra : SlotSet) :
    (frame.save extra).Within slotCount start stop := by
  have size : (frame.slots.record extra frame.cursor).size = slotCount := by
    rw [Slots.size_record, within.sized.slots]
  refine ⟨within.cursor, ⟨within.sized.slots, size⟩, within.recorded, ?_⟩
  intro slots saved
  cases saved
  exact ⟨size, within.recorded.record extra within.cursor⟩

theorem Within.moveTo (within : frame.Within slotCount start stop) {cursor : Nat}
    (inside : start ≤ cursor ∧ cursor ≤ stop) :
    (frame.moveTo cursor).Within slotCount start stop :=
  ⟨inside, ⟨within.sized.slots, within.sized.matched⟩, within.recorded, within.saved⟩

/-- The buffers are of one size, so the one can be copied into the other. -/
theorem Within.guardedSave (within : frame.Within slotCount start stop) (extra : SlotSet) :
    frame.guardedSave extra = .ok (frame.save extra) := by
  rw [Frame.guardedSave, if_pos (within.sized.slots.trans within.sized.matched.symm)]

end Frame

theorem State.guardedMark_eq (state : State) {frame : Frame} {slotCount start stop : Nat}
    (within : frame.Within slotCount start stop) :
    state.guardedMark frame = .ok (state.mark frame) ∧
      (state.mark frame).Within slotCount start stop := by
  have recorded := within.record state.slots
  unfold guardedMark mark
  cases state.accept with
  | none => exact ⟨rfl, recorded⟩
  | some extra => exact ⟨recorded.guardedSave extra, recorded.save extra⟩

theorem Automaton.WellFormed.exists_startFor {automaton : Automaton} (wf : automaton.WellFormed)
    (anchored : Bool) : ∃ state, automaton.state? (automaton.startFor anchored) = some state := by
  unfold startFor
  split
  · obtain ⟨state, found, -⟩ := wf.anchored
    exact ⟨state, found⟩
  · obtain ⟨state, found, -⟩ := wf.unanchored
    exact ⟨state, found⟩

/-! ## Attempts -/

/-- What can be left of an attempt in an automaton without defects. -/
structure Attempt.Sound (attempt : Attempt) (slotCount start stop : Nat) : Prop where
  no_fault : ∀ cause, attempt.stop ≠ .fault cause
  within : attempt.frame.Within slotCount start stop

namespace Attempt

variable {frame : Frame} {slotCount start stop : Nat}

theorem sound_cut (left : Nat) (within : frame.Within slotCount start stop) :
    (Attempt.mk .cut frame left).Sound slotCount start stop := by
  refine ⟨?_, within⟩
  intro cause fault
  cases fault

theorem sound_ended (ending : Ending) (left : Nat) (within : frame.Within slotCount start stop) :
    (Attempt.mk (.ended ending) frame left).Sound slotCount start stop := by
  refine ⟨?_, within⟩
  intro cause fault
  cases fault

end Attempt

namespace Automaton

variable {automaton : Automaton} {haystack : Haystack} {slotCount start : Nat}

theorem Step.le_cursor {v w : Visit} (step : automaton.Step haystack v w) :
    v.cursor ≤ w.cursor := by
  cases step with
  | enter => exact Nat.le_refl _
  | read => exact Nat.le_succ _

/-- An attempt can be guarded from its beginning to its end, whatever its budget. -/
theorem guardedAttempt_eq (wf : automaton.WellFormed) :
    ∀ (budget : Nat) {id : StateId} {state : State} {frame : Frame},
      automaton.state? id = some state → frame.Within slotCount start haystack.size →
      automaton.guardedAttempt haystack budget id frame =
          .ok (automaton.attempt haystack budget id frame) ∧
        (automaton.attempt haystack budget id frame).Sound slotCount start haystack.size := by
  intro budget
  induction budget with
  | zero =>
    intro id state frame _ within
    exact ⟨rfl, Attempt.sound_cut 0 within⟩
  | succ budget ih =>
    intro id state frame found within
    obtain ⟨marks, marked⟩ := state.guardedMark_eq within
    obtain ⟨move, moved⟩ := state.exists_move automaton.classes marked.cursor.2
    rw [guardedAttempt, attempt, found]
    dsimp only
    rw [marks]
    dsimp only
    rw [moved]
    cases move with
    | stop ending => exact ⟨rfl, Attempt.sound_ended ending budget marked⟩
    | goto next cursor =>
      have step : automaton.Step haystack ⟨id, (state.mark frame).cursor⟩ ⟨next, cursor⟩ :=
        step_iff.2 ⟨state, found, moved⟩
      obtain ⟨target, reached⟩ := step.target wf
      refine ih reached (marked.moveTo ⟨?_, step.cursor_le marked.cursor.2⟩)
      exact Nat.le_trans marked.cursor.1 step.le_cursor

end Automaton

/-! ## Searches -/

/-- What a search can come to in an automaton without defects: a decisive attempt, all of whose
offsets lie between its own and the end of the haystack, no match, or the step limit. -/
inductive Verdict.Sound (slotCount start stop : Nat) (limit : Option Nat) : Verdict → Prop
  | decided {offset cursor : Nat} {ending : Ending} {saved : Option Slots}
      (start_le : start ≤ offset) (le_stop : offset ≤ stop)
      (within : ∀ slots, saved = some slots →
        slots.size = slotCount ∧ slots.Between offset stop) :
      Sound slotCount start stop limit (.decided offset ending cursor saved)
  | exhausted : Sound slotCount start stop limit .exhausted
  | noCandidate {offset : Nat} : Sound slotCount start stop limit (.noCandidate offset)
  | cut {cursor : Nat} : Sound slotCount start stop limit (.cut limit cursor)

theorem Verdict.Sound.of_le {slotCount start start' stop : Nat} {limit : Option Nat}
    {verdict : Verdict} (sound : verdict.Sound slotCount start' stop limit)
    (le : start ≤ start') : verdict.Sound slotCount start stop limit := by
  cases sound with
  | decided start_le le_stop within => exact .decided (Nat.le_trans le start_le) le_stop within
  | exhausted => exact .exhausted
  | noCandidate => exact .noCandidate
  | cut => exact .cut

namespace Search

variable {search : Search} {more offset : Nat} {frame : Frame}

/-- A search that is about to make an attempt at an offset or later. An accelerator finds nothing
beyond the end of the haystack. It is the attempts that are made without asking it that must not be
too many. -/
structure Ready (search : Search) (more offset : Nat) (frame : Frame) : Prop where
  inside : offset ≤ search.haystack.size
  reach : search.accelerator = none ∨ offset = 0 → offset + more ≤ search.haystack.size
  sized : frame.Sized search.automaton.slotCount

/-- The candidate for the next attempt is an offset of the haystack, and so is the one after it if
another attempt may follow. -/
theorem Ready.candidate (ready : search.Ready more offset frame) :
    search.guardedCandidate? offset = .ok (search.candidate? offset) ∧
      ∀ i, search.candidate? offset = some i → offset ≤ i ∧ i ≤ search.haystack.size ∧
        ∀ (rest : Nat) (left : Frame), more = rest + 1 → left.Sized search.automaton.slotCount →
          search.Ready rest (i + 1) left := by
  obtain ⟨inside, reach, -⟩ := ready
  unfold guardedCandidate? candidate?
  cases known : search.accelerator with
  | none =>
    refine ⟨rfl, ?_⟩
    intro i here
    cases here
    have reached := reach (.inl known)
    refine ⟨Nat.le_refl _, inside, ?_⟩
    intro rest left longer sized
    exact ⟨by omega, fun _ => by omega, sized⟩
  | some accelerator =>
    dsimp only
    by_cases first : offset = 0
    · rw [if_pos first, if_pos first]
      refine ⟨rfl, ?_⟩
      intro i here
      cases here
      have reached := reach (.inr first)
      refine ⟨Nat.le_of_eq first, Nat.zero_le _, ?_⟩
      intro rest left longer sized
      exact ⟨by omega, fun _ => by omega, sized⟩
    · rw [if_neg first, if_neg first]
      constructor
      · rw [Accelerator.guardedFind?, if_neg (Nat.not_lt_of_le accelerator.length_needles_le),
          if_neg (Nat.not_lt_of_le inside)]
      · intro i finds
        obtain ⟨le, lt⟩ := Accelerator.find?_bounds finds
        refine ⟨le, Nat.le_of_lt lt, ?_⟩
        intro rest left _ sized
        refine ⟨lt, ?_, sized⟩
        intro unasked
        rcases unasked with plain | zero
        · cases known.symm.trans plain
        · cases zero

/-- Guarding the loop changes nothing about it, and whatever it comes to is sound. -/
theorem Ready.guardedRun_eq (ready : search.Ready more offset frame)
    (wf : search.automaton.WellFormed) {state : State}
    (found : search.automaton.state? search.entry = some state)
    (budget : Nat) (tried : Array Nat) :
    search.guardedRun more offset budget frame tried =
        .ok (search.run more offset budget frame tried) ∧
      (search.run more offset budget frame tried).2.1.Sound search.automaton.slotCount offset
        search.haystack.size search.limit := by
  induction more using Nat.strongRecOn generalizing offset budget frame tried with
  | ind more ih =>
    obtain ⟨guarded, candidate⟩ := ready.candidate
    rw [guardedRun.eq_def, run.eq_def, guarded]
    cases here : search.candidate? offset with
    | none => exact ⟨rfl, .noCandidate⟩
    | some i =>
      obtain ⟨le, inside, next⟩ := candidate i here
      obtain ⟨attempts, sound⟩ :=
        Automaton.guardedAttempt_eq wf budget found (ready.sized.reset inside)
      dsimp only
      rw [attempts]
      unfold attempt
      generalize search.automaton.attempt search.haystack budget search.entry
        (frame.reset i) = attempt at sound
      obtain ⟨stop, left, rest⟩ := attempt
      cases stop with
      | fault cause => exact absurd rfl (sound.no_fault cause)
      | cut => exact ⟨rfl, .cut⟩
      | ended ending =>
        dsimp only
        split
        · exact ⟨rfl, .decided le inside sound.within.saved⟩
        · cases more with
          | zero => exact ⟨rfl, .exhausted⟩
          | succ more =>
            have ready' := next more left rfl sound.within.sized
            obtain ⟨same, sound'⟩ := ih more (Nat.lt_succ_self more) ready' rest (tried.push i)
            exact ⟨same, sound'.of_le (Nat.le_succ_of_le le)⟩

end Search

/-! ## Verdicts and outcomes -/

/-- Two slots for each group are a number of slots of which captures can be made. -/
theorem Verdict.Sound.guardedOutcome_eq {verdict : Verdict} {groupCount start stop : Nat}
    {limit : Option Nat} (sound : verdict.Sound (2 * groupCount) start stop limit)
    (ends : verdict.outcome ≠ .error (.fault .endless)) :
    verdict.guardedOutcome = .ok verdict.outcome := by
  cases sound with
  | @decided offset cursor ending saved start_le le_stop within =>
    cases saved with
    | none => rfl
    | some slots =>
      obtain ⟨size, -⟩ := within slots rfl
      have even : slots.size % 2 = 0 := by
        rw [size]
        exact Nat.mul_mod_right 2 groupCount
      rw [guardedOutcome, if_pos even]
      rfl
  | exhausted => rfl
  | noCandidate => rfl
  | cut =>
    cases limit with
    | none => exact absurd rfl ends
    | some limit => rfl

namespace Executor

variable {executor : Executor} {automaton : Automaton} {input : Input}

/-- From an offset of the haystack on, there is an attempt to make. -/
theorem ready_plan (executor : Executor) (automaton : Automaton)
    (inside : input.start ≤ input.haystack.size) :
    (executor.plan automaton input).Ready
      (if input.anchored then 0 else input.haystack.size - input.start) input.start
      (.fresh automaton.slotCount input.start) := by
  refine ⟨inside, fun _ => ?_, Frame.sized_fresh ..⟩
  show _ ≤ input.haystack.size
  split <;> omega

theorem sound_report (wf : automaton.WellFormed) (executor : Executor)
    (inside : input.start ≤ input.haystack.size) :
    (executor.report automaton input).verdict.Sound automaton.slotCount input.start
      input.haystack.size executor.config.stepLimit? := by
  obtain ⟨state, found⟩ := wf.exists_startFor input.anchored
  have ready := ready_plan executor automaton inside
  rw [report_of_le inside]
  exact (ready.guardedRun_eq wf found _ _).2

/-- Without a limit the budget lasts, so a loop that is cut short has a limit. -/
theorem search_ne_endless (wf : automaton.WellFormed) (executor : Executor)
    (inside : input.start ≤ input.haystack.size) :
    executor.search automaton input ≠ .error (.fault .endless) := by
  have sound := sound_report wf executor inside
  rw [search, Report.outcome]
  intro endless
  cases unlimited : executor.config.stepLimit? with
  | none =>
    obtain ⟨result, plain⟩ := exists_search_plain wf unlimited inside
    have ok := search_of_plain plain
    rw [search, Report.outcome, endless] at ok
    cases ok
  | some limit =>
    rw [unlimited] at sound
    generalize (executor.report automaton input).verdict = verdict at sound endless
    cases sound with
    | decided => cases endless
    | exhausted => cases endless
    | noCandidate => cases endless
    | cut => cases endless

/-- In a well-formed automaton, guarding a search changes nothing. -/
theorem guardedSearch_eq (wf : automaton.WellFormed) (executor : Executor) (input : Input) :
    executor.guardedSearch automaton input = .ok (executor.search automaton input) := by
  by_cases inside : input.start ≤ input.haystack.size
  · obtain ⟨state, found⟩ := wf.exists_startFor input.anchored
    have ready := ready_plan executor automaton inside
    have sound := sound_report wf executor inside
    have ends := search_ne_endless wf executor inside
    rw [search, Report.outcome] at ends ⊢
    rw [← sound.guardedOutcome_eq ends, guardedSearch, report_of_le inside,
      if_neg (Nat.not_lt_of_le inside)]
    dsimp only
    rw [(ready.guardedRun_eq wf found _ _).1]
  · have beyond := Nat.lt_of_not_le inside
    rw [search_of_lt beyond, guardedSearch, if_pos beyond]

/-- From an offset of the haystack on, nothing but the step limit can be in the way of a search. -/
theorem exists_of_search_eq_error (wf : automaton.WellFormed)
    (inside : input.start ≤ input.haystack.size) {error : SearchError}
    (fails : executor.search automaton input = .error error) :
    ∃ limit offset, executor.config.stepLimit? = some limit ∧
      error = .stepLimitExceeded limit offset := by
  have sound := sound_report wf executor inside
  have ends := search_ne_endless wf executor inside
  rw [search, Report.outcome] at fails ends
  generalize (executor.report automaton input).verdict = verdict at sound fails ends
  cases sound with
  | decided => cases fails
  | exhausted => cases fails
  | noCandidate => cases fails
  | cut =>
    cases limit : executor.config.stepLimit? with
    | none =>
      rw [limit] at ends
      exact absurd rfl ends
    | some limit' =>
      rw [limit] at fails
      cases fails
      exact ⟨limit', _, rfl, rfl⟩

/-- The captures that a search reports are those of the attempt that has decided it. -/
theorem exists_decided_of_search_eq_some (wf : automaton.WellFormed) {captures : Captures}
    (found : executor.search automaton input = .ok (some captures)) :
    ∃ offset ending cursor,
      (executor.report automaton input).verdict =
          .decided offset ending cursor (some captures.slots) ∧
        input.start ≤ offset ∧ captures.slots.size = automaton.slotCount ∧
        captures.slots.Between offset input.haystack.size := by
  have inside : input.start ≤ input.haystack.size := by
    apply Nat.le_of_not_lt
    intro beyond
    rw [search_of_lt beyond] at found
    cases found
  have sound := sound_report wf executor inside
  rw [search, Report.outcome] at found
  generalize (executor.report automaton input).verdict = verdict at sound found
  cases sound with
  | @decided offset cursor ending saved start_le le_stop within =>
    obtain ⟨slots, reported, rfl⟩ := Option.map_eq_some_iff.1 (Except.ok.inj found)
    subst reported
    obtain ⟨size, between⟩ := within slots rfl
    exact ⟨offset, ending, cursor, rfl, start_le, size, between⟩
  | exhausted => cases found
  | noCandidate => cases found
  | cut =>
    cases limit : executor.config.stepLimit? with
    | none =>
      rw [limit] at found
      cases found
    | some limit' =>
      rw [limit] at found
      cases found

end Executor
end ByteDFA
