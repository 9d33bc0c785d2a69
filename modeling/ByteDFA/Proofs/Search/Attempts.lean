import ByteDFA.Proofs.Search.Replay
import ByteDFA.Proofs.Search.SharedFrame

/-!
# Attempts within a search

`Search.run` hands one budget from attempt to attempt. In a well-formed automaton the budget of an
unlimited search is never used up, so an attempt does the same wherever it stands in a search: what
it does on its own, with a fresh frame and a budget that suffices (`attempt_eq_attemptFrom`). The
other half of this module takes the loop apart: one lemma for each way in which a round of it can
go.
-/

set_option autoImplicit false

namespace ByteDFA

/-- The captures that are reported if the attempt decides the search. -/
def Attempt.captures? (attempt : Attempt) : Option Captures := attempt.frame.saved.map Captures.mk

/-- The attempt has saved a match, or has shown that no later attempt can match. -/
def Attempt.Decisive (attempt : Attempt) : Prop :=
  attempt.frame.saved.isSome = true ∨ attempt.stop = .ended .hopeless

instance (attempt : Attempt) : Decidable attempt.Decisive := inferInstanceAs (Decidable (_ ∨ _))

theorem two_mul_succ_le_stepBound (n : Nat) : 2 * (n + 1) ≤ stepBound n := by
  unfold stepBound
  rw [Nat.mul_comm]
  exact Nat.mul_le_mul_left (n + 1) (Nat.le_add_left 2 n)

theorem stepBound_succ (n : Nat) : stepBound (n + 1) = stepBound n + 2 * (n + 2) := by
  unfold stepBound
  rw [← Nat.add_mul, Nat.mul_comm]

namespace Automaton

variable {automaton : Automaton} {haystack : Haystack} {id : StateId} {state : State}
  {offset budget : Nat}

/-- A single attempt on a fresh frame, with a budget that a well-formed automaton cannot use up. -/
def attemptFrom (automaton : Automaton) (haystack : Haystack) (id : StateId) (offset : Nat) :
    Attempt :=
  automaton.attempt haystack (stepBound (haystack.size - offset)) id
    (.fresh automaton.slotCount offset)

theorem Run.length_le_stepBound (wf : automaton.WellFormed) {v : Visit} {visits : List Visit}
    (run : automaton.Run haystack v visits) :
    visits.length ≤ stepBound (haystack.size - v.cursor) := by
  obtain ⟨visits', run', length⟩ := exists_run wf haystack v
  rw [run.unique run']
  have bound := automaton.visitsAhead_le haystack v
  exact Nat.le_trans (Nat.le_trans length bound) (two_mul_succ_le_stepBound _)

/-- An attempt does what its run says. -/
theorem attemptFrom_of_run (wf : automaton.WellFormed) {visits : List Visit}
    (run : automaton.Run haystack ⟨id, offset⟩ visits) (found : automaton.state? id = some state)
    (inside : offset ≤ haystack.size) :
    ∃ last final, visits.getLast? = some last ∧ automaton.state? last.id = some final ∧
      automaton.attemptFrom haystack id offset =
        ⟨.ended final.kind.ending, automaton.replay (.fresh automaton.slotCount offset) visits,
          stepBound (haystack.size - offset) - visits.length⟩ := by
  obtain ⟨last, final, is_last, at_last, result⟩ := attempt_of_run wf run found inside
  exact ⟨last, final, is_last, at_last, result _ _ rfl (run.length_le_stepBound wf)⟩

/-- An attempt ends, in the same way under every budget that is large enough, and never accepts
without having saved a match. -/
theorem exists_attempt (wf : automaton.WellFormed) (found : automaton.state? id = some state)
    (inside : offset ≤ haystack.size) :
    ∃ ending frame used, used ≤ 2 * (haystack.size - offset + 1) ∧
      (ending = .accepted → frame.saved.isSome = true) ∧
      ∀ budget, used ≤ budget →
        automaton.attempt haystack budget id (.fresh automaton.slotCount offset) =
          ⟨.ended ending, frame, budget - used⟩ := by
  obtain ⟨visits, run, length⟩ := exists_run wf haystack ⟨id, offset⟩
  obtain ⟨last, final, at_last, at_final, result⟩ := attempt_of_run wf run found inside
  refine ⟨final.kind.ending, automaton.replay (.fresh automaton.slotCount offset) visits,
    visits.length, ?_, ?_, ?_⟩
  · exact Nat.le_trans length (automaton.visitsAhead_le haystack ⟨id, offset⟩)
  · intro accepted
    -- Only a final state accepts, and a final state saves a match in its own visit.
    obtain ⟨before, rfl⟩ := List.getLast?_eq_some_iff.1 at_last
    have accept : automaton.acceptAt last = some ∅ := by
      rw [acceptAt_of_found at_final]
      obtain ⟨_, _, role⟩ := final
      cases role with
      | final => rfl
      | start => cases accepted
      | matcher => cases accepted
      | traceFinder => cases accepted
    have quiet : ∀ w ∈ ([] : List Visit), automaton.acceptAt w = none :=
      fun _ mem => absurd mem List.not_mem_nil
    rw [saved_replay_append accept quiet]
    rfl
  · intro budget enough
    exact result _ _ rfl enough

/-- The budget does not matter, as long as there are two states for each offset ahead. -/
theorem attempt_eq_attemptFrom (wf : automaton.WellFormed)
    (found : automaton.state? id = some state) (inside : offset ≤ haystack.size)
    (enough : 2 * (haystack.size - offset + 1) ≤ budget) :
    ∃ left, budget ≤ left + 2 * (haystack.size - offset + 1) ∧
      automaton.attempt haystack budget id (.fresh automaton.slotCount offset) =
        { automaton.attemptFrom haystack id offset with left } := by
  obtain ⟨ending, frame, used, bound, -, result⟩ := exists_attempt wf found inside
  refine ⟨budget - used, by omega, ?_⟩
  rw [attemptFrom, result _ (Nat.le_trans bound enough),
    result _ (Nat.le_trans bound (two_mul_succ_le_stepBound _))]

theorem attemptFrom_ended (wf : automaton.WellFormed)
    (found : automaton.state? id = some state) (inside : offset ≤ haystack.size) :
    ∃ ending, (automaton.attemptFrom haystack id offset).stop = .ended ending ∧
      (ending.decides (automaton.attemptFrom haystack id offset).frame = true ↔
        (automaton.attemptFrom haystack id offset).Decisive) := by
  obtain ⟨ending, frame, used, bound, saved, result⟩ := exists_attempt wf found inside
  have enough : used ≤ stepBound (haystack.size - offset) :=
    Nat.le_trans bound (two_mul_succ_le_stepBound _)
  rw [attemptFrom, result _ enough]
  refine ⟨ending, rfl, ?_⟩
  cases ending with
  | accepted => exact iff_of_true rfl (.inl (saved rfl))
  | rejected => simp [Ending.decides, Attempt.Decisive, Frame.isSome_saved]
  | hopeless => exact iff_of_true rfl (.inr rfl)

end Automaton

/-! ## One round of the loop -/

theorem Ending.saved_of_not_decides {ending : Ending} {frame : Frame}
    (vain : ending.decides frame = false) : frame.saved = none := by
  cases ending with
  | accepted => cases vain
  | rejected =>
    have no_match : frame.hasMatch = false := vain
    rw [Frame.saved, no_match]
    rfl
  | hopeless => cases vain

namespace Search

variable {search : Search} {more offset budget i : Nat} {tried : Array Nat} {ending : Ending}

/-- The attempt that a search makes at an offset, on a frame of its own. -/
def freshAttempt (search : Search) (budget offset : Nat) : Attempt :=
  search.automaton.attempt search.haystack budget search.entry
    (.fresh search.automaton.slotCount offset)

theorem attempt_fresh (search : Search) (budget offset cursor : Nat) :
    search.attempt budget offset (.fresh search.automaton.slotCount cursor) =
      search.freshAttempt budget offset := by
  unfold attempt freshAttempt
  rw [Frame.reset_fresh]

/-- What a search that has come to an offset has to tell in the end. -/
def outcome (search : Search) (more offset budget : Nat) (tried : Array Nat) :
    Except SearchError (Option Captures) :=
  (search.run more offset budget (.fresh search.automaton.slotCount offset) tried).2.1.outcome

theorem outcome_of_no_candidate (none_left : search.candidate? offset = none) :
    search.outcome more offset budget tried = .ok none := by
  rw [outcome, run.eq_def, none_left]
  rfl

theorem outcome_of_decides (here : search.candidate? offset = some i)
    (ended : (search.freshAttempt budget i).stop = .ended ending)
    (decides : ending.decides (search.freshAttempt budget i).frame = true) :
    search.outcome more offset budget tried = .ok (search.freshAttempt budget i).captures? := by
  rw [outcome, run.eq_def, here]
  dsimp only
  rw [attempt_fresh, ended]
  dsimp only
  rw [if_pos decides]
  rfl

theorem outcome_zero_of_not_decides (here : search.candidate? offset = some i)
    (ended : (search.freshAttempt budget i).stop = .ended ending)
    (vain : ending.decides (search.freshAttempt budget i).frame = false) :
    search.outcome 0 offset budget tried = .ok none := by
  rw [outcome, run.eq_def, here]
  dsimp only
  rw [attempt_fresh, ended]
  dsimp only
  rw [if_neg (Bool.eq_false_iff.1 vain)]
  rfl

theorem outcome_succ_of_not_decides (here : search.candidate? offset = some i)
    (ended : (search.freshAttempt budget i).stop = .ended ending)
    (vain : ending.decides (search.freshAttempt budget i).frame = false) :
    search.outcome (more + 1) offset budget tried =
      search.outcome more (i + 1) (search.freshAttempt budget i).left (tried.push i) := by
  rw [outcome, run.eq_def, here]
  dsimp only
  rw [attempt_fresh, ended]
  dsimp only
  rw [if_neg (Bool.eq_false_iff.1 vain)]
  -- The next round goes on with the frame of this attempt. It could as well take a fresh one.
  have size : (search.freshAttempt budget i).frame.slots.size =
      (Frame.fresh search.automaton.slotCount (i + 1)).slots.size :=
    Automaton.size_slots_attempt ..
  rw [search.run_frame more (i + 1) _ _ size]
  rfl

theorem ended_of_outcome_eq_ok {result : Option Captures}
    (here : search.candidate? offset = some i)
    (ok : search.outcome more offset budget tried = .ok result) :
    ∃ ending, (search.freshAttempt budget i).stop = .ended ending := by
  rw [outcome, run.eq_def, here] at ok
  dsimp only at ok
  rw [attempt_fresh] at ok
  cases stop : (search.freshAttempt budget i).stop with
  | ended ending => exact ⟨ending, rfl⟩
  | fault cause =>
    rw [stop] at ok
    cases ok
  | cut =>
    rw [stop] at ok
    cases limit : search.limit with
    | none => simp [limit, Verdict.outcome] at ok
    | some n => simp [limit, Verdict.outcome] at ok

end Search

/-! ## Searches that try every offset -/

/-- The first offset of a range at which a single attempt is decisive. -/
def Automaton.firstDecisive? (automaton : Automaton) (haystack : Haystack) (id : StateId)
    (offset more : Nat) : Option Nat :=
  (List.range' offset (more + 1)).find? fun i =>
    decide (automaton.attemptFrom haystack id i).Decisive

namespace Automaton

variable {automaton : Automaton} {haystack : Haystack} {id : StateId} {offset more : Nat}

theorem firstDecisive?_of_decisive
    (decisive : (automaton.attemptFrom haystack id offset).Decisive) :
    automaton.firstDecisive? haystack id offset more = some offset := by
  unfold firstDecisive?
  rw [List.range'_succ, List.find?_cons, decide_eq_true decisive]

theorem firstDecisive?_zero (vain : ¬(automaton.attemptFrom haystack id offset).Decisive) :
    automaton.firstDecisive? haystack id offset 0 = none := by
  unfold firstDecisive?
  rw [List.range'_succ, List.find?_cons, decide_eq_false vain]
  rfl

theorem firstDecisive?_succ (vain : ¬(automaton.attemptFrom haystack id offset).Decisive) :
    automaton.firstDecisive? haystack id offset (more + 1) =
      automaton.firstDecisive? haystack id (offset + 1) more := by
  unfold firstDecisive?
  rw [List.range'_succ, List.find?_cons, decide_eq_false vain]

end Automaton

theorem Search.attempt_of_enough {search : Search} {state : State} {offset budget : Nat}
    (wf : search.automaton.WellFormed)
    (found : search.automaton.state? search.entry = some state)
    (inside : offset ≤ search.haystack.size)
    (enough : 2 * (search.haystack.size - offset + 1) ≤ budget) :
    ∃ ending, (search.freshAttempt budget offset).stop = .ended ending ∧
      (ending.decides (search.freshAttempt budget offset).frame = true ↔
        (search.automaton.attemptFrom search.haystack search.entry offset).Decisive) ∧
      (search.freshAttempt budget offset).captures? =
        (search.automaton.attemptFrom search.haystack search.entry offset).captures? ∧
      budget ≤
        (search.freshAttempt budget offset).left + 2 * (search.haystack.size - offset + 1) := by
  obtain ⟨left, bound, same⟩ := Automaton.attempt_eq_attemptFrom wf found inside enough
  obtain ⟨ending, ended, decides⟩ := Automaton.attemptFrom_ended wf found inside
  unfold Search.freshAttempt
  rw [same]
  exact ⟨ending, ended, decides, rfl, bound⟩

/-- Without a limit and without an accelerator, a search finds the first offset at which a single
attempt is decisive, and tells what that attempt does. No earlier attempt has left anything behind,
and the budget lasts to the end of the haystack. -/
theorem Search.outcome_plain {search : Search} {state : State}
    (wf : search.automaton.WellFormed)
    (found : search.automaton.state? search.entry = some state)
    (plain : search.accelerator = none) :
    ∀ (more offset budget : Nat) (tried : Array Nat), offset + more = search.haystack.size →
      stepBound more ≤ budget →
      search.outcome more offset budget tried =
        .ok ((search.automaton.firstDecisive? search.haystack search.entry offset more).bind
          fun i => (search.automaton.attemptFrom search.haystack search.entry i).captures?) := by
  intro more
  induction more with
  | zero =>
    intro offset budget tried reach enough
    have here : search.candidate? offset = some offset := by rw [candidate?, plain]
    have inside : offset ≤ search.haystack.size := Nat.le_of_eq reach
    have room : 2 * (search.haystack.size - offset + 1) ≤ budget := by
      rw [← reach, Nat.add_sub_cancel_left]
      exact enough
    obtain ⟨ending, ended, decides, captures, -⟩ := attempt_of_enough wf found inside room
    by_cases decisive : (search.automaton.attemptFrom search.haystack search.entry offset).Decisive
    · rw [outcome_of_decides here ended (decides.2 decisive), captures,
        Automaton.firstDecisive?_of_decisive decisive]
      rfl
    · have vain : ending.decides (search.freshAttempt budget offset).frame = false :=
        Bool.eq_false_iff.2 fun d => decisive (decides.1 d)
      rw [outcome_zero_of_not_decides here ended vain, Automaton.firstDecisive?_zero decisive]
      rfl
  | succ more ih =>
    intro offset budget tried reach enough
    have here : search.candidate? offset = some offset := by rw [candidate?, plain]
    rw [stepBound_succ] at enough
    have inside : offset ≤ search.haystack.size := by omega
    have room : 2 * (search.haystack.size - offset + 1) ≤ budget := by omega
    obtain ⟨ending, ended, decides, captures, bound⟩ := attempt_of_enough wf found inside room
    by_cases decisive : (search.automaton.attemptFrom search.haystack search.entry offset).Decisive
    · rw [outcome_of_decides here ended (decides.2 decisive), captures,
        Automaton.firstDecisive?_of_decisive decisive]
      rfl
    · have vain : ending.decides (search.freshAttempt budget offset).frame = false :=
        Bool.eq_false_iff.2 fun d => decisive (decides.1 d)
      -- What the attempt has left of the budget is what the bound grants to the offsets after it.
      rw [outcome_succ_of_not_decides here ended vain, Automaton.firstDecisive?_succ decisive]
      exact ih (offset + 1) _ _ (by omega) (by omega)

/-! ## Whole searches -/

namespace Executor

variable {executor : Executor} {automaton : Automaton} {input : Input}

theorem search_of_lt (beyond : input.haystack.size < input.start) :
    executor.search automaton input =
      .error (.invalidStart input.start input.haystack.size) := by
  rw [search, report, if_pos beyond]
  rfl

theorem search_eq_outcome (inside : input.start ≤ input.haystack.size) :
    executor.search automaton input =
      (executor.plan automaton input).outcome
        (if input.anchored then 0 else input.haystack.size - input.start) input.start
        (executor.config.stepLimit?.getD (stepBound (input.haystack.size - input.start))) #[] := by
  rw [search, report_of_le inside]
  rfl

/-- An anchored search reports what a single attempt does. -/
theorem search_anchored (wf : automaton.WellFormed) (unlimited : executor.config.stepLimit? = none)
    {haystack : Haystack} {start : Nat} (inside : start ≤ haystack.size) :
    executor.search automaton ⟨haystack, start, true⟩ =
      .ok (automaton.attemptFrom haystack automaton.anchoredStart start).captures? := by
  obtain ⟨state, found, -⟩ := wf.anchored
  obtain ⟨ending, ended, -⟩ := Automaton.attemptFrom_ended wf found inside
  rw [search_eq_outcome inside, unlimited]
  have here : (executor.plan automaton ⟨haystack, start, true⟩).candidate? start = some start := rfl
  cases decides : ending.decides
      (automaton.attemptFrom haystack automaton.anchoredStart start).frame with
  | true => exact Search.outcome_of_decides here ended decides
  | false =>
    rw [Attempt.captures?, Ending.saved_of_not_decides decides]
    exact Search.outcome_zero_of_not_decides here ended decides

/-- Without acceleration, an unanchored search reports what the first decisive attempt does. -/
theorem search_unanchored_plain (wf : automaton.WellFormed) {config : SearchConfig}
    (unlimited : config.stepLimit? = none) {haystack : Haystack} {start : Nat}
    (inside : start ≤ haystack.size) :
    Executor.search ⟨config.withAccelerate false⟩ automaton ⟨haystack, start, false⟩ =
      .ok ((automaton.firstDecisive? haystack automaton.unanchoredStart start
          (haystack.size - start)).bind
        fun i => (automaton.attemptFrom haystack automaton.unanchoredStart i).captures?) := by
  obtain ⟨state, found, -⟩ := wf.unanchored
  have still_unlimited : (config.withAccelerate false).stepLimit? = none := unlimited
  rw [search_eq_outcome inside, still_unlimited]
  exact Search.outcome_plain wf found rfl _ _ _ _ (Nat.add_sub_of_le inside) (Nat.le_refl _)

end Executor
end ByteDFA
