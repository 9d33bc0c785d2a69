import ByteDFA.Proofs.Search.Visits

/-!
# Replaying a run

The frame of an attempt is what the visits of its run leave in it, one after the other. `replay`
folds them up, and the two buffers of the frame can be read off the list of visits: a working slot
holds the cursor of the latest visit that records it (`getElem?_replay`), and the saved offsets are
those that the latest accepting visit has seen, whatever is recorded after it
(`saved_replay_append`). `attempt_of_run` ties the loop of an attempt to this.
-/

set_option autoImplicit false

namespace ByteDFA

@[simp] theorem State.cursor_mark (state : State) (frame : Frame) :
    (state.mark frame).cursor = frame.cursor := by
  unfold mark
  cases state.accept <;> rfl

@[simp] theorem State.slots_mark (state : State) (frame : Frame) :
    (state.mark frame).slots = frame.slots.record state.slots frame.cursor := by
  unfold mark
  cases state.accept <;> rfl

namespace Automaton

variable {automaton : Automaton} {haystack : Haystack} {v w : Visit} {visits : List Visit}

/-- The slots that are recorded in a visit. -/
def slotsAt (automaton : Automaton) (v : Visit) : SlotSet :=
  ((automaton.state? v.id).map State.slots).getD ∅

/-- The slots that are recorded in addition where a visit saves a match, if it does. -/
def acceptAt (automaton : Automaton) (v : Visit) : Option SlotSet :=
  (automaton.state? v.id).bind State.accept

/-- What a visit does to a frame: the cursor is where the visit says, and the state leaves its
marks. -/
def visit (automaton : Automaton) (frame : Frame) (v : Visit) : Frame :=
  match automaton.state? v.id with
  | none => frame.moveTo v.cursor
  | some state => state.mark (frame.moveTo v.cursor)

/-- What a sequence of visits does to a frame. -/
def replay (automaton : Automaton) (frame : Frame) (visits : List Visit) : Frame :=
  visits.foldl automaton.visit frame

/-- The last of some visits that records a slot. -/
def latest? (automaton : Automaton) (visits : List Visit) (slot : Nat) : Option Visit :=
  visits.reverse.find? fun w => (automaton.slotsAt w).contains slot

theorem acceptAt_of_found {state : State} (found : automaton.state? v.id = some state) :
    automaton.acceptAt v = state.role.accept := by
  rw [acceptAt, found]
  rfl

theorem slotsAt_of_found {state : State} (found : automaton.state? v.id = some state) :
    automaton.slotsAt v = state.role.slots := by
  rw [slotsAt, found]
  rfl

theorem replay_cons (automaton : Automaton) (frame : Frame) (v : Visit) (visits : List Visit) :
    automaton.replay frame (v :: visits) =
      automaton.replay (automaton.visit frame v) visits := rfl

theorem replay_append (automaton : Automaton) (frame : Frame) (before after : List Visit) :
    automaton.replay frame (before ++ after) =
      automaton.replay (automaton.replay frame before) after :=
  List.foldl_append

theorem latest?_cons (automaton : Automaton) (v : Visit) (visits : List Visit) (slot : Nat) :
    automaton.latest? (v :: visits) slot =
      (automaton.latest? visits slot).or
        (if (automaton.slotsAt v).contains slot then some v else none) := by
  simp [latest?, List.find?_cons]
  cases (automaton.slotsAt v).contains slot <;> rfl

/-! ## The working slots -/

theorem getElem?_visit (automaton : Automaton) (frame : Frame) (v : Visit) (slot : Nat) :
    (automaton.visit frame v).slots[slot]? =
      (frame.slots[slot]?).map fun old =>
        if (automaton.slotsAt v).contains slot then Offset.ofNat? v.cursor else old := by
  unfold visit slotsAt
  cases automaton.state? v.id with
  | none => simp [Frame.moveTo]
  | some state => simp [Slots.getElem?_record, Frame.moveTo]

theorem slots_visit (automaton : Automaton) (frame : Frame) (v : Visit) :
    (automaton.visit frame v).slots = frame.slots.record (automaton.slotsAt v) v.cursor := by
  refine Array.ext_getElem? fun slot => ?_
  rw [getElem?_visit, Slots.getElem?_record]

/-- Later visits overwrite the offsets that earlier ones have recorded. -/
theorem getElem?_replay (automaton : Automaton) (visits : List Visit) (frame : Frame)
    (slot : Nat) :
    (automaton.replay frame visits).slots[slot]? =
      (frame.slots[slot]?).map fun old =>
        match automaton.latest? visits slot with
        | none => old
        | some w => Offset.ofNat? w.cursor := by
  induction visits generalizing frame with
  | nil => simp [replay, latest?]
  | cons v rest ih =>
    rw [replay_cons, ih, getElem?_visit, latest?_cons, Option.map_map]
    congr 1
    funext old
    cases automaton.latest? rest slot with
    | some w => rfl
    | none =>
      cases (automaton.slotsAt v).contains slot <;> rfl

/-! ## The saved match -/

theorem saved_visit (automaton : Automaton) (frame : Frame) (v : Visit) :
    (automaton.visit frame v).saved =
      match automaton.acceptAt v with
      | none => frame.saved
      | some extra => some ((automaton.visit frame v).slots.record extra v.cursor) := by
  unfold visit acceptAt
  cases automaton.state? v.id with
  | none => rfl
  | some state =>
    cases accept : state.accept with
    | none => simp [State.mark, accept]
    | some extra =>
      simp only [State.mark, accept, Frame.saved_save, Option.bind_some]
      rfl

theorem saved_replay_of_quiet {frame : Frame}
    (quiet : ∀ w ∈ visits, automaton.acceptAt w = none) :
    (automaton.replay frame visits).saved = frame.saved := by
  induction visits generalizing frame with
  | nil => rfl
  | cons v rest ih =>
    rw [replay_cons, ih fun w mem => quiet w (List.mem_cons_of_mem _ mem), saved_visit,
      quiet v List.mem_cons_self]

/-- The last accepting visit decides what is saved: earlier matches are replaced, and what is
recorded later does not show. -/
theorem saved_replay_append {before after : List Visit} {frame : Frame} {extra : SlotSet}
    (accept : automaton.acceptAt v = some extra)
    (quiet : ∀ w ∈ after, automaton.acceptAt w = none) :
    (automaton.replay frame (before ++ v :: after)).saved =
      some ((automaton.replay frame (before ++ [v])).slots.record extra v.cursor) := by
  have split : before ++ v :: after = (before ++ [v]) ++ after := by simp
  have last : automaton.replay frame (before ++ [v]) =
      automaton.visit (automaton.replay frame before) v := replay_append ..
  rw [split, replay_append, saved_replay_of_quiet quiet, last, saved_visit, accept]

/-! ## Attempts -/

theorem attempt_goto {id next : StateId} {state : State} {frame : Frame} {cursor : Nat}
    (budget : Nat) (found : automaton.state? id = some state)
    (moved : state.move automaton.classes haystack frame.cursor = .ok (.goto next cursor)) :
    automaton.attempt haystack (budget + 1) id frame =
      automaton.attempt haystack budget next ((state.mark frame).moveTo cursor) := by
  rw [attempt, found]
  dsimp only
  rw [State.cursor_mark, moved]

theorem attempt_stop {id : StateId} {state : State} {frame : Frame} {ending : Ending}
    (budget : Nat) (found : automaton.state? id = some state)
    (moved : state.move automaton.classes haystack frame.cursor = .ok (.stop ending)) :
    automaton.attempt haystack (budget + 1) id frame =
      ⟨.ended ending, state.mark frame, budget⟩ := by
  rw [attempt, found]
  dsimp only
  rw [State.cursor_mark, moved]

theorem Run.replay_moveTo (run : automaton.Run haystack v visits) (frame : Frame) (cursor : Nat) :
    automaton.replay (frame.moveTo cursor) visits = automaton.replay frame visits := by
  obtain ⟨rest, rfl⟩ := run.exists_eq_cons
  rfl

/-- An attempt with a sufficient budget does what the run from its first visit says, and ends as the
last state of the run does. -/
theorem attempt_of_run (wf : automaton.WellFormed) (run : automaton.Run haystack v visits)
    {state : State} (found : automaton.state? v.id = some state)
    (inside : v.cursor ≤ haystack.size) :
    ∃ last final, visits.getLast? = some last ∧ automaton.state? last.id = some final ∧
      ∀ (frame : Frame) (budget : Nat), frame.cursor = v.cursor → visits.length ≤ budget →
        automaton.attempt haystack budget v.id frame =
          ⟨.ended final.kind.ending, automaton.replay frame visits, budget - visits.length⟩ := by
  induction run generalizing state with
  | @last v stuck =>
    obtain ⟨move, moved⟩ := state.exists_move automaton.classes inside
    cases move with
    | goto next cursor => exact absurd (step_iff.2 ⟨state, found, moved⟩) (stuck ⟨next, cursor⟩)
    | stop ending =>
      cases State.ending_of_move moved
      refine ⟨v, state, rfl, found, ?_⟩
      intro frame budget here fits
      obtain ⟨budget, rfl⟩ := Nat.exists_eq_add_of_le' fits
      rw [List.length_singleton, attempt_stop budget found (here ▸ moved)]
      simp [replay, visit, found, ← here, Frame.moveTo]
  | @step v w visits step run ih =>
    obtain ⟨target, reached⟩ := step.target wf
    obtain ⟨last, final, at_last, at_final, result⟩ := ih reached (step.cursor_le inside)
    obtain ⟨rest, rfl⟩ := run.exists_eq_cons
    obtain ⟨state', found', moved⟩ := step_iff.1 step
    cases found.symm.trans found'
    refine ⟨last, final, ?_, at_final, ?_⟩
    · rw [List.getLast?_cons_cons]
      exact at_last
    · intro frame budget here fits
      obtain ⟨budget, rfl⟩ := Nat.exists_eq_add_of_le' fits
      -- One unit of the budget pays for this visit, the rest of it for the rest of the run.
      have enough : (w :: rest).length ≤ budget + (w :: rest).length := Nat.le_add_left ..
      rw [List.length_cons, ← Nat.add_assoc, attempt_goto _ found (here ▸ moved),
        result ((state.mark frame).moveTo w.cursor) _ rfl enough, run.replay_moveTo]
      simp [replay, visit, found, ← here, Frame.moveTo]

end Automaton
end ByteDFA
