import ByteDFA.Proofs.Search.Leftmost
import ByteDFA.Proofs.Search.StepBound

/-!
# The course of a search

The loop of a search hands a budget and a frame from attempt to attempt. `Search.Course` tells the
loop without either: it goes from candidate to candidate and makes each attempt on its own, until
one of them decides the search or no candidate is left. In a well-formed automaton every search has
a course (`Ready.exists_course`), and the loop follows it as far as its budget pays for the visits
(`Course.run_of_length_le`, `Course.run_of_lt_length`).

A course leads to the first decisive attempt, whatever offsets an accelerator passes over on the way
(`Course.eq_decided`).
-/

set_option autoImplicit false

namespace ByteDFA

/-! ## The visits of several attempts -/

/-- The runs that begin in one state at each of some offsets, one after the other. -/
inductive Automaton.Runs (automaton : Automaton) (haystack : Haystack) (entry : StateId) :
    List Nat → List Visit → Prop
  | nil : Runs automaton haystack entry [] []
  | cons {offset : Nat} {offsets : List Nat} {visits rest : List Visit}
      (run : automaton.Run haystack ⟨entry, offset⟩ visits)
      (runs : Runs automaton haystack entry offsets rest) :
    Runs automaton haystack entry (offset :: offsets) (visits ++ rest)

namespace Automaton

variable {automaton : Automaton} {haystack : Haystack} {entry : StateId} {offsets : List Nat}
  {v w : Visit} {visits other : List Visit}

theorem exists_runs (wf : automaton.WellFormed) (haystack : Haystack) (entry : StateId)
    (offsets : List Nat) : ∃ visits, automaton.Runs haystack entry offsets visits := by
  induction offsets with
  | nil => exact ⟨[], .nil⟩
  | cons offset offsets ih =>
    obtain ⟨visits, run, -⟩ := exists_run wf haystack ⟨entry, offset⟩
    obtain ⟨rest, runs⟩ := ih
    exact ⟨visits ++ rest, .cons run runs⟩

theorem Runs.unique (runs : automaton.Runs haystack entry offsets visits)
    (runs' : automaton.Runs haystack entry offsets other) : visits = other := by
  induction runs generalizing other with
  | nil =>
    cases runs'
    rfl
  | cons run _ ih =>
    cases runs' with
    | cons run' rest => rw [run.unique run', ih rest]

/-- An attempt that is cut stands where its run is about to make the first visit that is not paid
for. -/
theorem attempt_of_lt_length (run : automaton.Run haystack v visits) {budget : Nat} {frame : Frame}
    (here : frame.cursor = v.cursor) (next : visits[budget]? = some w) :
    (automaton.attempt haystack budget v.id frame).stop = .cut ∧
      (automaton.attempt haystack budget v.id frame).frame.cursor = w.cursor := by
  induction run generalizing budget frame with
  | last =>
    cases budget with
    | zero =>
      cases next
      exact ⟨rfl, here⟩
    | succ budget => simp at next
  | step step run ih =>
    cases budget with
    | zero =>
      cases next
      exact ⟨rfl, here⟩
    | succ budget =>
      obtain ⟨state, found, moved⟩ := step_iff.1 step
      rw [attempt_goto budget found (here ▸ moved)]
      exact ih rfl (by simpa using next)

end Automaton

/-! ## Courses -/

namespace Search

variable {search : Search} {more offset i budget : Nat} {frame : Frame} {tried : List Nat}
  {before : Array Nat} {verdict : Verdict} {ending : Ending} {visits : List Visit} {state : State}

/-- The attempt that a search makes at an offset, on a frame and a budget of its own. -/
def single (search : Search) (offset : Nat) : Attempt :=
  search.automaton.attemptFrom search.haystack search.entry offset

/-- A search that has come to an offset makes its next attempt at `i`. -/
structure Tries (search : Search) (offset i : Nat) (ending : Ending) : Prop where
  here : search.candidate? offset = some i
  inside : i ≤ search.haystack.size
  ended : (search.single i).stop = .ended ending

/-- What a search does from an offset on: where it makes attempts, and what they come to. -/
inductive Course (search : Search) : (more offset : Nat) → List Nat → Verdict → Prop
  | lost {more offset : Nat} (here : search.candidate? offset = none) :
    Course search more offset [] (.noCandidate offset)
  | decided {more offset i : Nat} {ending : Ending} (tries : search.Tries offset i ending)
      (decides : ending.decides (search.single i).frame = true) :
    Course search more offset [i]
      (.decided i ending (search.single i).frame.cursor (search.single i).frame.saved)
  | exhausted {offset i : Nat} {ending : Ending} (tries : search.Tries offset i ending)
      (vain : ending.decides (search.single i).frame = false) :
    Course search 0 offset [i] .exhausted
  | next {more offset i : Nat} {ending : Ending} {tried : List Nat} {verdict : Verdict}
      (tries : search.Tries offset i ending)
      (vain : ending.decides (search.single i).frame = false)
      (rest : Course search more (i + 1) tried verdict) :
    Course search (more + 1) offset (i :: tried) verdict

/-- Limits have no part in a course. -/
theorem Course.withLimit (course : search.Course more offset tried verdict)
    (limit : Option Nat) : (search.withLimit limit).Course more offset tried verdict := by
  induction course with
  | lost here => exact .lost here
  | decided tries decides => exact .decided ⟨tries.here, tries.inside, tries.ended⟩ decides
  | exhausted tries vain => exact .exhausted ⟨tries.here, tries.inside, tries.ended⟩ vain
  | next tries vain _ ih => exact .next ⟨tries.here, tries.inside, tries.ended⟩ vain ih

theorem Ready.exists_course (ready : search.Ready more offset frame)
    (wf : search.automaton.WellFormed) (found : search.automaton.state? search.entry = some state) :
    ∃ tried verdict, search.Course more offset tried verdict := by
  induction more using Nat.strongRecOn generalizing offset with
  | ind more ih =>
    obtain ⟨-, bounds⟩ := ready.candidate
    cases here : search.candidate? offset with
    | none => exact ⟨[], _, .lost here⟩
    | some i =>
      obtain ⟨-, inside, next⟩ := bounds i here
      obtain ⟨ending, ended, -⟩ := Automaton.attemptFrom_ended wf found inside
      have tries : search.Tries offset i ending := ⟨here, inside, ended⟩
      cases decides : ending.decides (search.single i).frame with
      | true => exact ⟨[i], _, .decided tries decides⟩
      | false =>
        cases more with
        | zero => exact ⟨[i], _, .exhausted tries decides⟩
        | succ more =>
          obtain ⟨tried, verdict, rest⟩ :=
            ih more (Nat.lt_succ_self more) (next more frame rfl ready.sized)
          exact ⟨i :: tried, verdict, .next tries decides rest⟩

/-! ## What the loop makes of a course -/

/-- With enough of a budget, the attempt on the shared frame does what it does on its own. -/
theorem Tries.attempt_of_length_le (tries : search.Tries offset i ending)
    (wf : search.automaton.WellFormed) (found : search.automaton.state? search.entry = some state)
    (run : search.automaton.Run search.haystack ⟨search.entry, i⟩ visits)
    (size : frame.slots.size = search.automaton.slotCount) (enough : visits.length ≤ budget) :
    (search.attempt budget i frame).stop = .ended ending ∧
      (search.attempt budget i frame).left = budget - visits.length ∧
      (search.attempt budget i frame).frame.Alike (search.single i).frame := by
  obtain ⟨last, final, -, -, result⟩ := Automaton.attempt_of_run wf run found tries.inside
  have fresh : search.freshAttempt budget i =
      { search.single i with left := budget - visits.length } := by
    unfold freshAttempt single Automaton.attemptFrom
    rw [result _ budget rfl enough, result _ _ rfl (run.length_le_stepBound wf)]
  have size' : frame.slots.size = (Frame.fresh search.automaton.slotCount i).slots.size := by
    rw [size]
    exact (Slots.size_blank _).symm
  obtain ⟨stop, left, alike⟩ := search.attempt_alike budget i size'
  rw [attempt_fresh, fresh] at stop left alike
  exact ⟨stop.trans tries.ended, left, alike⟩

theorem size_slots_of_alike {i' : Nat} (alike : frame.Alike (search.single i').frame) :
    frame.slots.size = search.automaton.slotCount := by
  rw [alike.slots]
  exact (Automaton.size_slots_attempt ..).trans (Slots.size_blank _)

/-- The loop follows the course if its budget pays for all visits. -/
theorem Course.run_of_length_le (course : search.Course more offset tried verdict)
    (wf : search.automaton.WellFormed) (found : search.automaton.state? search.entry = some state)
    (runs : search.automaton.Runs search.haystack search.entry tried visits)
    (size : frame.slots.size = search.automaton.slotCount) (enough : visits.length ≤ budget) :
    search.run more offset budget frame before =
      (before ++ tried.toArray, verdict, budget - visits.length) := by
  induction course generalizing visits budget frame before with
  | lost here =>
    cases runs
    rw [run.eq_def, here]
    simp
  | decided tries decides =>
    obtain _ | ⟨first, _ | _⟩ := runs
    rw [List.append_nil] at enough ⊢
    obtain ⟨ended, left, alike⟩ := tries.attempt_of_length_le wf found first size enough
    rw [run.eq_def, tries.here]
    simp [ended, left, alike.cursor, alike.saved, Ending.decides_alike _ alike, decides]
  | exhausted tries vain =>
    obtain _ | ⟨first, _ | _⟩ := runs
    rw [List.append_nil] at enough ⊢
    obtain ⟨ended, left, alike⟩ := tries.attempt_of_length_le wf found first size enough
    rw [run.eq_def, tries.here]
    simp [ended, left, Ending.decides_alike _ alike, vain]
  | next tries vain rest ih =>
    obtain _ | ⟨first, others⟩ := runs
    rw [List.length_append] at enough ⊢
    obtain ⟨ended, left, alike⟩ :=
      tries.attempt_of_length_le wf found first size (Nat.le_of_add_right_le enough)
    rw [run.eq_def, tries.here]
    simp only [ended, Ending.decides_alike _ alike, vain]
    rw [left, ih others (size_slots_of_alike alike) (by omega)]
    simp [Nat.sub_sub]

theorem run_of_cut {v : Visit} (here : search.candidate? offset = some i)
    (first : search.automaton.Run search.haystack ⟨search.entry, i⟩ visits)
    (unpaid : visits[budget]? = some v) :
    (search.run more offset budget frame before).2.1 = .cut search.limit v.cursor := by
  obtain ⟨cut, cursor⟩ :=
    Automaton.attempt_of_lt_length first (rfl : (frame.reset i).cursor = i) unpaid
  rw [run.eq_def, here]
  simp [attempt, cut, cursor]

/-- Under a smaller budget the loop is cut before the first visit that is not paid for. -/
theorem Course.run_of_lt_length {v : Visit} (course : search.Course more offset tried verdict)
    (wf : search.automaton.WellFormed) (found : search.automaton.state? search.entry = some state)
    (runs : search.automaton.Runs search.haystack search.entry tried visits)
    (size : frame.slots.size = search.automaton.slotCount) (unpaid : visits[budget]? = some v) :
    (search.run more offset budget frame before).2.1 = .cut search.limit v.cursor := by
  induction course generalizing visits budget frame before with
  | lost here =>
    cases runs
    cases unpaid
  | decided tries decides =>
    obtain _ | ⟨first, _ | _⟩ := runs
    exact run_of_cut tries.here first (by simpa using unpaid)
  | exhausted tries vain =>
    obtain _ | ⟨first, _ | _⟩ := runs
    exact run_of_cut tries.here first (by simpa using unpaid)
  | next tries vain rest ih =>
    cases runs with
    | @cons _ _ visits _ first others =>
      rcases Nat.lt_or_ge budget visits.length with short | enough
      · rw [List.getElem?_append_left short] at unpaid
        exact run_of_cut tries.here first unpaid
      · rw [List.getElem?_append_right enough] at unpaid
        obtain ⟨ended, left, alike⟩ := tries.attempt_of_length_le wf found first size enough
        rw [run.eq_def, tries.here]
        simp only [ended, Ending.decides_alike _ alike, vain]
        rw [left]
        exact ih others (size_slots_of_alike alike) unpaid

/-! ## Where a course leads -/

theorem Tries.decides_iff (tries : search.Tries offset i ending)
    (wf : search.automaton.WellFormed)
    (found : search.automaton.state? search.entry = some state) :
    ending.decides (search.single i).frame = true ↔ (search.single i).Decisive := by
  obtain ⟨ending', ended, decides⟩ := Automaton.attemptFrom_ended wf found tries.inside
  cases tries.ended.symm.trans ended
  exact decides

/-- The search passes over no offset at which an attempt is decisive. -/
def Thorough (search : Search) : Prop :=
  ∀ {offset i : Nat}, offset ≤ i → i ≤ search.haystack.size → (search.single i).Decisive →
    ∃ j ≤ i, search.candidate? offset = some j

theorem thorough_plain (plain : search.accelerator = none) : search.Thorough := by
  intro offset i le _ _
  exact ⟨offset, le, by rw [candidate?, plain]⟩

theorem thorough_accelerated {accelerator : Accelerator} (wf : search.automaton.WellFormed)
    (found : search.automaton.state? search.entry = some state)
    (entry : search.entry = search.automaton.unanchoredStart)
    (known : search.automaton.accelerator = some accelerator) :
    (search.accelerated accelerator).Thorough := by
  intro offset i le inside decisive
  induction ahead : i - offset using Nat.strongRecOn generalizing offset with
  | ind n ih =>
    rcases candidate?_accelerated search accelerator offset with
      stays | ⟨later, not_needle, skips⟩
    · exact ⟨offset, le, stays⟩
    · have passed : offset ≠ i := by
        intro here
        subst here
        obtain ⟨ending, ended, decides⟩ := Automaton.attemptFrom_ended wf found inside
        have vain := attempt_of_skipped entry known later inside not_needle ended
        have yes := decides.2 decisive
        exact Bool.false_ne_true (vain.symm.trans yes)
      rw [skips]
      exact ih (i - (offset + 1)) (by omega) (by omega) rfl

/-- The next attempt is made at the first decisive offset or before it, and it decides the search
only there. -/
theorem Tries.eq_or_lt {j : Nat} (tries : search.Tries offset j ending)
    (wf : search.automaton.WellFormed) (found : search.automaton.state? search.entry = some state)
    (thorough : search.Thorough)
    (first : IsFirst (fun k => (search.single k).Decisive) offset search.haystack.size i) :
    (j = i ∧ ending.decides (search.single j).frame = true) ∨
      (j < i ∧ ending.decides (search.single j).frame = false) := by
  obtain ⟨_, le, candidate⟩ := thorough first.start_le first.le_stop first.holds
  cases tries.here.symm.trans candidate
  rcases Nat.eq_or_lt_of_le le with rfl | lt
  · exact .inl ⟨rfl, (tries.decides_iff wf found).2 first.holds⟩
  · have vain := first.least j (le_of_candidate? tries.here) lt
    rw [← tries.decides_iff wf found] at vain
    exact .inr ⟨lt, Bool.eq_false_iff.2 vain⟩

/-- A course ends with the first decisive attempt. -/
theorem Course.eq_decided (course : search.Course more offset tried verdict)
    (wf : search.automaton.WellFormed) (found : search.automaton.state? search.entry = some state)
    (thorough : search.Thorough) (far : search.haystack.size ≤ offset + more)
    (first : IsFirst (fun k => (search.single k).Decisive) offset search.haystack.size i) :
    ∃ ending, (search.single i).stop = .ended ending ∧
      verdict = .decided i ending (search.single i).frame.cursor (search.single i).frame.saved := by
  induction course with
  | lost here =>
    obtain ⟨j, -, candidate⟩ := thorough first.start_le first.le_stop first.holds
    cases here.symm.trans candidate
  | decided tries decides =>
    rcases tries.eq_or_lt wf found thorough first with ⟨rfl, -⟩ | ⟨-, vain⟩
    · exact ⟨_, tries.ended, rfl⟩
    · cases vain.symm.trans decides
  | exhausted tries vain =>
    rcases tries.eq_or_lt wf found thorough first with ⟨-, decides⟩ | ⟨lt, -⟩
    · cases vain.symm.trans decides
    · have le := le_of_candidate? tries.here
      have inside := first.le_stop
      omega
  | next tries vain _ ih =>
    rcases tries.eq_or_lt wf found thorough first with ⟨-, decides⟩ | ⟨lt, -⟩
    · cases vain.symm.trans decides
    · have le := le_of_candidate? tries.here
      refine ih (by omega) ⟨lt, first.le_stop, first.holds, fun j after before => ?_⟩
      exact first.least j (by omega) before

end Search

/-! ## Whole searches -/

namespace Executor

variable {executor : Executor} {automaton : Automaton} {input : Input} {tried : List Nat}
  {verdict : Verdict} {visits : List Visit}

/-- What a search for the input does, with the visits of its attempts. -/
structure Follows (executor : Executor) (automaton : Automaton) (input : Input) (tried : List Nat)
    (verdict : Verdict) (visits : List Visit) : Prop where
  course : (executor.plan automaton input).Course
    (if input.anchored then 0 else input.haystack.size - input.start) input.start tried verdict
  runs : automaton.Runs input.haystack (automaton.startFor input.anchored) tried visits

theorem exists_follows (wf : automaton.WellFormed) (executor : Executor)
    (inside : input.start ≤ input.haystack.size) :
    ∃ tried verdict visits, executor.Follows automaton input tried verdict visits := by
  obtain ⟨state, found⟩ := wf.exists_startFor input.anchored
  obtain ⟨tried, verdict, course⟩ := (ready_plan executor automaton inside).exists_course wf found
  obtain ⟨visits, runs⟩ :=
    Automaton.exists_runs wf input.haystack (automaton.startFor input.anchored) tried
  exact ⟨tried, verdict, visits, course, runs⟩

theorem size_slots_blank (executor : Executor) (automaton : Automaton) (input : Input) :
    (Frame.fresh automaton.slotCount input.start).slots.size =
      (executor.plan automaton input).automaton.slotCount :=
  Slots.size_blank _

theorem Follows.underBudget_of_length_le
    (follows : executor.Follows automaton input tried verdict visits) (wf : automaton.WellFormed)
    {budget : Nat} (enough : visits.length ≤ budget) :
    executor.underBudget automaton input budget =
      (tried.toArray, verdict, budget - visits.length) := by
  obtain ⟨state, found⟩ := wf.exists_startFor input.anchored
  have size := size_slots_blank executor automaton input
  calc executor.underBudget automaton input budget
      = (#[] ++ tried.toArray, verdict, budget - visits.length) :=
        follows.course.run_of_length_le wf found follows.runs size enough
    _ = (tried.toArray, verdict, budget - visits.length) := by rw [Array.empty_append]

theorem Follows.underBudget_of_getElem? {v : Visit} {budget : Nat}
    (follows : executor.Follows automaton input tried verdict visits) (wf : automaton.WellFormed)
    (unpaid : visits[budget]? = some v) :
    (executor.underBudget automaton input budget).2.1 =
      .cut executor.config.stepLimit? v.cursor := by
  obtain ⟨state, found⟩ := wf.exists_startFor input.anchored
  have size := size_slots_blank executor automaton input
  exact follows.course.run_of_lt_length wf found follows.runs size unpaid

/-- Without a limit, a search makes all visits of its course. -/
theorem Follows.report_eq (follows : executor.Follows automaton input tried verdict visits)
    (wf : automaton.WellFormed) (unlimited : executor.config.stepLimit? = none)
    (inside : input.start ≤ input.haystack.size) :
    executor.report automaton input = ⟨tried.toArray, visits.length, verdict⟩ := by
  have enough : visits.length ≤ executor.budgetFor input := by
    apply Nat.le_of_not_lt
    intro short
    have cut := follows.underBudget_of_getElem? wf (List.getElem?_eq_getElem short)
    obtain ⟨-, below⟩ := spent_underBudget_le wf executor inside (executor.budgetFor input)
    have reaches : input.stepBound ≤ executor.budgetFor input :=
      stepBound_le_budgetFor fun limit limited => by cases unlimited.symm.trans limited
    exact Nat.not_lt_of_le reaches (below _ _ cut)
  rw [report_eq_underBudget inside, follows.underBudget_of_length_le wf enough,
    Nat.sub_sub_self enough]

theorem thorough_plan (wf : automaton.WellFormed) (executor : Executor) {haystack : Haystack}
    {start : Nat} : (executor.plan automaton ⟨haystack, start, false⟩).Thorough := by
  obtain ⟨state, found⟩ := wf.exists_startFor false
  obtain ⟨config⟩ := executor
  rcases plan_eq_or_accelerated config automaton ⟨haystack, start, false⟩ with
    same | ⟨accelerator, -, known, accelerated⟩
  · rw [same]
    exact Search.thorough_plain (accelerator_plan_plain config automaton _)
  · rw [accelerated]
    exact Search.thorough_accelerated wf found rfl known

/-- The first decisive attempt is the one that decides an unanchored search. -/
theorem verdict_of_isFirst_decisive (wf : automaton.WellFormed)
    (unlimited : executor.config.stepLimit? = none) {haystack : Haystack} {start i : Nat}
    (first : IsFirst (fun j => (automaton.attemptAt haystack j).Decisive) start haystack.size i) :
    ∃ ending, (automaton.attemptAt haystack i).stop = .ended ending ∧
      (executor.report automaton ⟨haystack, start, false⟩).verdict =
        .decided i ending (automaton.attemptAt haystack i).frame.cursor
          (automaton.attemptAt haystack i).frame.saved := by
  have inside : start ≤ haystack.size := Nat.le_trans first.start_le first.le_stop
  obtain ⟨state, found⟩ := wf.exists_startFor false
  obtain ⟨tried, verdict, visits, follows⟩ :=
    exists_follows wf executor (show (Input.mk haystack start false).start ≤ _ from inside)
  rw [follows.report_eq wf unlimited inside]
  exact follows.course.eq_decided wf found (thorough_plan wf executor)
    (Nat.le_of_eq (Nat.add_sub_of_le inside).symm) first

end Executor
end ByteDFA
