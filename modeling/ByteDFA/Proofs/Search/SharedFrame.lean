import ByteDFA.Proofs.Search.Rounds

/-!
# One frame for all attempts

The attempts of a search share a frame, and a reset does not clear it: the offsets of a match that
an earlier attempt has saved are still there. They can never be seen, because the flag that gives
access to them is only set where they are overwritten. So what an attempt does on a used frame is
what it does on a fresh one (`attempt_alike`), and a whole search does not depend on the frame that
it begins with (`run_frame`).
-/

set_option autoImplicit false

namespace ByteDFA

/-! ## Frames that cannot be told apart -/

namespace Frame

variable {a b frame : Frame}

/-- Two frames that agree on everything that can be seen of them. -/
structure Alike (a b : Frame) : Prop where
  cursor : a.cursor = b.cursor
  slots : a.slots = b.slots
  saved : a.saved = b.saved

theorem isSome_saved (frame : Frame) : frame.saved.isSome = frame.hasMatch := by
  unfold saved
  cases frame.hasMatch <;> rfl

theorem Alike.hasMatch (alike : a.Alike b) : a.hasMatch = b.hasMatch := by
  rw [← isSome_saved, ← isSome_saved, alike.saved]

theorem Alike.moveTo (alike : a.Alike b) (cursor : Nat) :
    (a.moveTo cursor).Alike (b.moveTo cursor) :=
  ⟨rfl, alike.slots, alike.saved⟩

theorem Alike.record (alike : a.Alike b) (set : SlotSet) : (a.record set).Alike (b.record set) := by
  refine ⟨alike.cursor, ?_, alike.saved⟩
  show a.slots.record set a.cursor = b.slots.record set b.cursor
  rw [alike.slots, alike.cursor]

theorem Alike.save (alike : a.Alike b) (extra : SlotSet) : (a.save extra).Alike (b.save extra) := by
  refine ⟨alike.cursor, alike.slots, ?_⟩
  show some (a.slots.record extra a.cursor) = some (b.slots.record extra b.cursor)
  rw [alike.slots, alike.cursor]

/-- After a reset only the number of slots is left of what a frame has been used for. -/
theorem alike_reset (size : a.slots.size = b.slots.size) (cursor : Nat) :
    (a.reset cursor).Alike (b.reset cursor) := by
  refine ⟨rfl, ?_, rfl⟩
  show a.slots.clear = b.slots.clear
  rw [Slots.clear_eq_blank, Slots.clear_eq_blank, size]

theorem size_slots_reset (frame : Frame) (cursor : Nat) :
    (frame.reset cursor).slots.size = frame.slots.size :=
  Array.size_map

theorem reset_fresh (slotCount cursor cursor' : Nat) :
    (fresh slotCount cursor).reset cursor' = fresh slotCount cursor' := by
  unfold fresh reset
  rw [Slots.clear_eq_blank, Slots.size_blank]

end Frame

/-! ## States and attempts -/

theorem State.mark_alike (state : State) {a b : Frame} (alike : a.Alike b) :
    (state.mark a).Alike (state.mark b) := by
  unfold mark
  cases state.accept with
  | none => exact alike.record state.slots
  | some extra => exact (alike.record state.slots).save extra

theorem State.size_slots_mark (state : State) (frame : Frame) :
    (state.mark frame).slots.size = frame.slots.size := by
  unfold mark
  cases state.accept with
  | none => exact Slots.size_record ..
  | some extra => exact Slots.size_record ..

theorem Ending.decides_alike {a b : Frame} (ending : Ending) (alike : a.Alike b) :
    ending.decides a = ending.decides b := by
  cases ending with
  | accepted => rfl
  | rejected => exact alike.hasMatch
  | hopeless => rfl

namespace Automaton

variable {automaton : Automaton} {haystack : Haystack}

/-- An attempt does the same on frames that cannot be told apart, and leaves such frames behind. -/
theorem attempt_alike :
    ∀ (budget : Nat) (id : StateId) {a b : Frame}, a.Alike b →
      (automaton.attempt haystack budget id a).stop =
          (automaton.attempt haystack budget id b).stop ∧
        (automaton.attempt haystack budget id a).left =
          (automaton.attempt haystack budget id b).left ∧
        (automaton.attempt haystack budget id a).frame.Alike
          (automaton.attempt haystack budget id b).frame := by
  intro budget
  induction budget with
  | zero =>
    intro id a b alike
    exact ⟨rfl, rfl, alike⟩
  | succ budget ih =>
    intro id a b alike
    rw [attempt, attempt]
    cases automaton.state? id with
    | none => exact ⟨rfl, rfl, alike⟩
    | some state =>
      have marked := state.mark_alike alike
      dsimp only
      rw [marked.cursor]
      cases state.move automaton.classes haystack (state.mark b).cursor with
      | error cause => exact ⟨rfl, rfl, marked⟩
      | ok move =>
        cases move with
        | stop ending => exact ⟨rfl, rfl, marked⟩
        | goto next cursor => exact ih next (marked.moveTo cursor)

theorem size_slots_attempt :
    ∀ (budget : Nat) (id : StateId) (frame : Frame),
      (automaton.attempt haystack budget id frame).frame.slots.size = frame.slots.size := by
  intro budget
  induction budget with
  | zero =>
    intro id frame
    rfl
  | succ budget ih =>
    intro id frame
    rw [attempt]
    cases automaton.state? id with
    | none => rfl
    | some state =>
      have marked := state.size_slots_mark frame
      dsimp only
      cases state.move automaton.classes haystack (state.mark frame).cursor with
      | error cause => exact marked
      | ok move =>
        cases move with
        | stop ending => exact marked
        | goto next cursor => exact (ih next _).trans marked

end Automaton

/-! ## Searches -/

namespace Search

variable {search : Search}

theorem size_slots_attempt (search : Search) (budget offset : Nat) (frame : Frame) :
    (search.attempt budget offset frame).frame.slots.size = frame.slots.size := by
  unfold attempt
  rw [Automaton.size_slots_attempt, Frame.size_slots_reset]

theorem attempt_alike (search : Search) (budget offset : Nat) {a b : Frame}
    (size : a.slots.size = b.slots.size) :
    (search.attempt budget offset a).stop = (search.attempt budget offset b).stop ∧
      (search.attempt budget offset a).left = (search.attempt budget offset b).left ∧
      (search.attempt budget offset a).frame.Alike (search.attempt budget offset b).frame :=
  Automaton.attempt_alike budget search.entry (Frame.alike_reset size offset)

/-- Nothing that a frame has been used for before shows in what a search does. -/
theorem run_frame (search : Search) :
    ∀ (more offset budget : Nat) {a b : Frame} (tried : Array Nat),
      a.slots.size = b.slots.size →
      search.run more offset budget a tried = search.run more offset budget b tried := by
  -- The frames that two rounds leave behind may differ, but not in the number of slots.
  intro more
  induction more with
  | zero =>
    intro offset budget a b tried size
    rw [run.eq_def, run.eq_def _ _ _ _ b]
    cases search.candidate? offset with
    | none => rfl
    | some i =>
      obtain ⟨stop, left, alike⟩ := search.attempt_alike budget i size
      dsimp only
      rw [stop]
      cases (search.attempt budget i b).stop with
      | fault cause => simp only [left]
      | cut => simp only [left, alike.cursor]
      | ended ending => simp only [ending.decides_alike alike, left, alike.cursor, alike.saved]
  | succ more ih =>
    intro offset budget a b tried size
    rw [run.eq_def, run.eq_def _ _ _ _ b]
    cases search.candidate? offset with
    | none => rfl
    | some i =>
      obtain ⟨stop, left, alike⟩ := search.attempt_alike budget i size
      have still : (search.attempt budget i a).frame.slots.size =
          (search.attempt budget i b).frame.slots.size := by
        rw [alike.slots]
      dsimp only
      rw [stop]
      cases (search.attempt budget i b).stop with
      | fault cause => simp only [left]
      | cut => simp only [left, alike.cursor]
      | ended ending =>
        simp only [ending.decides_alike alike, left, alike.cursor, alike.saved,
          ih (i + 1) _ (tried.push i) still]

end Search
end ByteDFA
