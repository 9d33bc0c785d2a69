import ByteDFA.Proofs.Search.Safety

/-!
# How many states a search executes

Start states read nothing, so the cursor alone bounds no attempt. What bounds it is that no start
state follows another: an attempt executes at most two states for each offset ahead. A search adds
this up over the offsets that it tries (`Search.Ready.spent_le`).

A budget beyond that is as good as none: an attempt or a search that is not cut does the same under
every larger budget (`Search.run_withLimit`), so what an unlimited search reports is what every
limit reports that reaches the bound.
-/

set_option autoImplicit false

namespace ByteDFA

namespace Automaton

variable {automaton : Automaton} {haystack : Haystack} {v : Visit} {visits : List Visit}
  {state : State}

/-! ## Attempts -/

theorem left_of_cut :
    ∀ {budget : Nat} {id : StateId} {frame : Frame},
      (automaton.attempt haystack budget id frame).stop = .cut →
      (automaton.attempt haystack budget id frame).left = 0 := by
  intro budget
  induction budget with
  | zero =>
    intro id frame _
    rfl
  | succ budget ih =>
    intro id frame
    rw [attempt]
    cases automaton.state? id with
    | none =>
      intro cut
      cases cut
    | some state =>
      dsimp only
      cases state.move automaton.classes haystack (state.mark frame).cursor with
      | error cause =>
        intro cut
        cases cut
      | ok move =>
        cases move with
        | stop ending =>
          intro cut
          cases cut
        | goto next cursor => exact ih

/-- An attempt executes the visits of its run, as far as the budget pays for them. -/
theorem attempt_spends_run (wf : automaton.WellFormed) (run : automaton.Run haystack v visits)
    (found : automaton.state? v.id = some state) (inside : v.cursor ≤ haystack.size)
    (budget : Nat) {frame : Frame} (here : frame.cursor = v.cursor) :
    ((automaton.attempt haystack budget v.id frame).stop = .cut ↔ budget < visits.length) ∧
      (automaton.attempt haystack budget v.id frame).left = budget - visits.length := by
  obtain ⟨last, final, -, -, result⟩ := attempt_of_run wf run found inside
  rcases Nat.lt_or_ge budget visits.length with short | enough
  · -- Had the attempt come to its end, it would do so with something left under a larger budget.
    have cut : (automaton.attempt haystack budget v.id frame).stop = .cut := by
      apply Classical.byContradiction
      intro not_cut
      obtain ⟨extra, paid⟩ := Nat.exists_eq_add_of_lt short
      have more := attempt_add (extra + 1) budget v.id frame not_cut
      rw [← Nat.add_assoc, ← paid, result frame _ here (Nat.le_refl _)] at more
      have left := congrArg Attempt.left more
      simp at left
    rw [left_of_cut cut, Nat.sub_eq_zero_of_le (Nat.le_of_lt short)]
    exact ⟨iff_of_true cut short, rfl⟩
  · rw [result frame budget here enough]
    exact ⟨iff_of_false (by simp) (Nat.not_lt_of_le enough), rfl⟩

theorem attempt_spent_le (wf : automaton.WellFormed) {id : StateId}
    (found : automaton.state? id = some state) (budget : Nat) (frame : Frame)
    (inside : frame.cursor ≤ haystack.size) :
    budget ≤ (automaton.attempt haystack budget id frame).left +
        2 * (haystack.size - frame.cursor + 1) ∧
      ((automaton.attempt haystack budget id frame).stop = .cut →
        budget < 2 * (haystack.size - frame.cursor + 1)) := by
  obtain ⟨visits, run, length⟩ := exists_run wf haystack ⟨id, frame.cursor⟩
  have bound := automaton.visitsAhead_le haystack ⟨id, frame.cursor⟩
  obtain ⟨cut, left⟩ := attempt_spends_run wf run found inside budget rfl
  dsimp only at bound cut left
  rw [left, cut]
  omega

end Automaton

/-! ## Searches -/

/-- The number of states that suffices for the attempts at an offset with `ahead` bytes ahead of it
and at `more` offsets or all that follow. -/
def stepsFor (more ahead : Nat) : Nat :=
  if more = 0 then 2 * (ahead + 1) else stepBound ahead

theorem stepBound_mono {m n : Nat} (le : m ≤ n) : stepBound m ≤ stepBound n :=
  Nat.mul_le_mul (Nat.succ_le_succ le) (Nat.add_le_add_right le 2)

theorem two_mul_succ_le_stepsFor (more ahead : Nat) : 2 * (ahead + 1) ≤ stepsFor more ahead := by
  unfold stepsFor
  split
  · exact Nat.le_refl _
  · exact two_mul_succ_le_stepBound ahead

theorem stepsFor_le_stepBound (more ahead : Nat) : stepsFor more ahead ≤ stepBound ahead := by
  unfold stepsFor
  split
  · exact two_mul_succ_le_stepBound ahead
  · exact Nat.le_refl _

/-- An attempt, and others after it that are nearer to the end of the haystack. -/
theorem add_stepsFor_le {more ahead rest : Nat} (nearer : rest < ahead) :
    2 * (ahead + 1) + stepsFor more rest ≤ stepBound ahead := by
  obtain ⟨ahead, rfl⟩ := Nat.exists_eq_succ_of_ne_zero (Nat.ne_zero_of_lt nearer)
  rw [stepBound_succ, Nat.add_comm]
  apply Nat.add_le_add_right
  exact Nat.le_trans (stepsFor_le_stepBound more rest) (stepBound_mono (Nat.le_of_lt_succ nearer))

theorem stepsFor_mono {more m n : Nat} (le : m ≤ n) : stepsFor more m ≤ stepsFor more n := by
  unfold stepsFor
  split
  · omega
  · exact stepBound_mono le

namespace Search

variable {search : Search} {more offset budget : Nat} {frame : Frame} {tried : Array Nat}

/-- Whatever its budget, a search spends no more than what suffices, and it is cut only under a
budget that is below that. -/
theorem Ready.spent_le (ready : search.Ready more offset frame)
    (wf : search.automaton.WellFormed) {state : State}
    (found : search.automaton.state? search.entry = some state)
    (budget : Nat) (tried : Array Nat) :
    budget ≤ (search.run more offset budget frame tried).2.2 +
        stepsFor more (search.haystack.size - offset) ∧
      ∀ limit cursor, (search.run more offset budget frame tried).2.1 = .cut limit cursor →
        budget < stepsFor more (search.haystack.size - offset) := by
  induction more using Nat.strongRecOn generalizing offset budget frame tried with
  | ind more ih =>
    obtain ⟨-, candidate⟩ := ready.candidate
    rw [run.eq_def]
    cases here : search.candidate? offset with
    | none => exact ⟨Nat.le_add_right _ _, fun _ _ cut => by cases cut⟩
    | some i =>
      obtain ⟨le, inside, next⟩ := candidate i here
      have nearer : search.haystack.size - i ≤ search.haystack.size - offset :=
        Nat.sub_le_sub_left le _
      have one : 2 * (search.haystack.size - i + 1) ≤
          stepsFor more (search.haystack.size - offset) :=
        Nat.le_trans (two_mul_succ_le_stepsFor more _) (stepsFor_mono nearer)
      obtain ⟨spent, cut⟩ :=
        Automaton.attempt_spent_le wf found budget (frame.reset i) inside
      have sized := (Automaton.guardedAttempt_eq wf budget found
        (ready.sized.reset inside)).2.within.sized
      dsimp only
      unfold attempt
      generalize search.automaton.attempt search.haystack budget search.entry
        (frame.reset i) = attempt at spent cut sized
      obtain ⟨stop, left, rest⟩ := attempt
      have paid : budget ≤ rest + stepsFor more (search.haystack.size - offset) :=
        Nat.le_trans spent (Nat.add_le_add_left one rest)
      cases stop with
      | fault cause => exact ⟨paid, fun _ _ cut => by cases cut⟩
      | cut => exact ⟨paid, fun _ _ _ => Nat.lt_of_lt_of_le (cut rfl) one⟩
      | ended ending =>
        dsimp only
        split
        · exact ⟨paid, fun _ _ cut => by cases cut⟩
        · cases more with
          | zero => exact ⟨paid, fun _ _ cut => by cases cut⟩
          | succ more =>
            have ready' := next more left rfl sized
            obtain ⟨spent', cut'⟩ :=
              ih more (Nat.lt_succ_self more) ready' rest (tried.push i)
            have inside' : i < search.haystack.size := ready'.inside
            -- What is granted to this attempt and to the ones after it is granted in all.
            have total : 2 * (search.haystack.size - i + 1) +
                stepsFor more (search.haystack.size - (i + 1)) ≤
                  stepsFor (more + 1) (search.haystack.size - offset) :=
              Nat.le_trans (add_stepsFor_le (by omega)) (stepBound_mono nearer)
            have spent : budget ≤ rest + 2 * (search.haystack.size - i + 1) := spent
            dsimp only
            refine ⟨by omega, fun limit cursor cut => ?_⟩
            have short := cut' limit cursor cut
            omega

/-- The same search with another limit. -/
def withLimit (search : Search) (limit : Option Nat) : Search := { search with limit }

theorem attempt_withLimit {i : Nat} (limit : Option Nat) (extra : Nat)
    (not_cut : (search.attempt budget i frame).stop ≠ .cut) :
    (search.withLimit limit).attempt (budget + extra) i frame =
      { search.attempt budget i frame with
        left := (search.attempt budget i frame).left + extra } :=
  Automaton.attempt_add extra budget _ _ not_cut

/-- A search that is not cut does the same under a larger budget, whatever its limit is said to
be. -/
theorem run_withLimit (limit : Option Nat) (extra : Nat)
    (not_cut : ∀ limit cursor,
      (search.run more offset budget frame tried).2.1 ≠ .cut limit cursor) :
    (search.withLimit limit).run more offset (budget + extra) frame tried =
      ((search.run more offset budget frame tried).1,
        (search.run more offset budget frame tried).2.1,
        (search.run more offset budget frame tried).2.2 + extra) := by
  induction more using Nat.strongRecOn generalizing offset budget frame tried with
  | ind more ih =>
    have candidate : (search.withLimit limit).candidate? offset = search.candidate? offset := rfl
    rw [run.eq_def] at not_cut
    rw [run.eq_def, run.eq_def search, candidate]
    cases here : search.candidate? offset with
    | none => rfl
    | some i =>
      simp only [here] at not_cut ⊢
      cases stop : (search.attempt budget i frame).stop with
      | cut =>
        simp only [stop] at not_cut
        exact absurd rfl (not_cut _ _)
      | fault cause =>
        have same := attempt_withLimit limit extra (by rw [stop]; simp)
        simp only [same, stop]
      | ended ending =>
        have same := attempt_withLimit limit extra (by rw [stop]; simp)
        simp only [same, stop] at not_cut ⊢
        by_cases decides : ending.decides (search.attempt budget i frame).frame = true
        · simp only [if_pos decides]
        · simp only [if_neg decides] at not_cut ⊢
          cases more with
          | zero => rfl
          | succ more => exact ih more (Nat.lt_succ_self more) not_cut

end Search

/-! ## Whole searches -/

/-- The number of states that suffices for a search of the input. -/
def Input.stepBound (input : Input) : Nat :=
  if input.anchored then 2 * (input.haystack.size - input.start + 1)
  else (input.haystack.size - input.start + 1) * (input.haystack.size - input.start + 2)

theorem Input.stepsFor_eq_stepBound (input : Input) :
    stepsFor (if input.anchored then 0 else input.haystack.size - input.start)
      (input.haystack.size - input.start) = input.stepBound := by
  unfold Input.stepBound stepsFor
  cases input.anchored with
  | true => rfl
  | false =>
    cases input.haystack.size - input.start with
    | zero => rfl
    | succ ahead => rfl

theorem Verdict.eq_cut_of_outcome {verdict : Verdict} {limit offset : Nat}
    (exceeded : verdict.outcome = .error (.stepLimitExceeded limit offset)) :
    verdict = .cut (some limit) offset := by
  cases verdict with
  | cut limit' =>
    cases limit' with
    | none => cases exceeded
    | some limit' =>
      cases exceeded
      rfl
  | invalidStart => cases exceeded
  | decided => cases exceeded
  | exhausted => cases exceeded
  | noCandidate => cases exceeded
  | fault => cases exceeded

namespace Executor

variable {executor : Executor} {automaton : Automaton} {input : Input}

/-- What a search does for an input under a budget. -/
def underBudget (executor : Executor) (automaton : Automaton) (input : Input) (budget : Nat) :
    Array Nat × Verdict × Nat :=
  (executor.plan automaton input).run
    (if input.anchored then 0 else input.haystack.size - input.start) input.start budget
    (.fresh automaton.slotCount input.start) #[]

/-- The budget of a search: its limit, or what a search can execute at most if it has none. -/
def budgetFor (executor : Executor) (input : Input) : Nat :=
  executor.config.stepLimit?.getD (ByteDFA.stepBound (input.haystack.size - input.start))

theorem stepBound_le_budgetFor
    (reaches : ∀ limit, executor.config.stepLimit? = some limit → input.stepBound ≤ limit) :
    input.stepBound ≤ executor.budgetFor input := by
  unfold budgetFor
  cases limited : executor.config.stepLimit? with
  | none =>
    rw [← input.stepsFor_eq_stepBound]
    exact stepsFor_le_stepBound _ _
  | some limit => exact reaches limit limited

theorem report_eq_underBudget (inside : input.start ≤ input.haystack.size) :
    executor.report automaton input =
      ⟨(executor.underBudget automaton input (executor.budgetFor input)).1,
        executor.budgetFor input -
          (executor.underBudget automaton input (executor.budgetFor input)).2.2,
        (executor.underBudget automaton input (executor.budgetFor input)).2.1⟩ := by
  rw [report_of_le inside]
  rfl

theorem search_eq_underBudget (inside : input.start ≤ input.haystack.size) :
    executor.search automaton input =
      (executor.underBudget automaton input (executor.budgetFor input)).2.1.outcome := by
  rw [search, report_eq_underBudget inside]
  rfl

theorem spent_underBudget_le (wf : automaton.WellFormed) (executor : Executor)
    (inside : input.start ≤ input.haystack.size) (budget : Nat) :
    budget ≤ (executor.underBudget automaton input budget).2.2 + input.stepBound ∧
      ∀ limit cursor,
        (executor.underBudget automaton input budget).2.1 = .cut limit cursor →
          budget < input.stepBound := by
  obtain ⟨state, found⟩ := wf.exists_startFor input.anchored
  have ready := ready_plan executor automaton inside
  rw [← input.stepsFor_eq_stepBound]
  exact ready.spent_le wf found budget #[]

theorem steps_report_le (wf : automaton.WellFormed) (executor : Executor) (input : Input) :
    (executor.report automaton input).steps ≤ input.stepBound := by
  by_cases inside : input.start ≤ input.haystack.size
  · obtain ⟨spent, -⟩ := spent_underBudget_le wf executor inside (executor.budgetFor input)
    rw [report_eq_underBudget inside]
    dsimp only
    omega
  · rw [report, if_pos (Nat.lt_of_not_le inside)]
    exact Nat.zero_le _

/-- Every budget that reaches the bound leads to the same verdict, whatever the limit is said to
be. -/
theorem verdict_underBudget (wf : automaton.WellFormed) (config : SearchConfig)
    (inside : input.start ≤ input.haystack.size) (limit : Option Nat) {budget : Nat}
    (reaches : input.stepBound ≤ budget) :
    (underBudget ⟨config.withStepLimit limit⟩ automaton input budget).2.1 =
      (underBudget ⟨config.withStepLimit none⟩ automaton input input.stepBound).2.1 := by
  obtain ⟨-, short⟩ :=
    spent_underBudget_le wf ⟨config.withStepLimit none⟩ inside input.stepBound
  obtain ⟨extra, rfl⟩ := Nat.exists_eq_add_of_le reaches
  have same := Search.run_withLimit limit extra fun limit cursor cut =>
    Nat.lt_irrefl _ (short limit cursor cut)
  exact congrArg (fun result => result.2.1) same

/-- A limit that reaches the bound is as good as none. -/
theorem search_withStepLimit (wf : automaton.WellFormed) (config : SearchConfig) (input : Input)
    {limit : Nat} (reaches : input.stepBound ≤ limit) :
    Executor.search ⟨config.withStepLimit (some limit)⟩ automaton input =
      Executor.search ⟨config.withStepLimit none⟩ automaton input := by
  by_cases inside : input.start ≤ input.haystack.size
  · have unlimited : input.stepBound ≤ budgetFor ⟨config.withStepLimit none⟩ input :=
      stepBound_le_budgetFor fun _ limited => nomatch limited
    rw [search_eq_underBudget inside, search_eq_underBudget inside,
      verdict_underBudget wf config inside none unlimited]
    exact congrArg Verdict.outcome (verdict_underBudget wf config inside (some limit) reaches)
  · have beyond := Nat.lt_of_not_le inside
    rw [search_of_lt beyond, search_of_lt beyond]

theorem search_ne_stepLimitExceeded (wf : automaton.WellFormed) (executor : Executor)
    (reaches : ∀ limit, executor.config.stepLimit? = some limit → input.stepBound ≤ limit)
    (limit offset : Nat) :
    executor.search automaton input ≠ .error (.stepLimitExceeded limit offset) := by
  intro exceeded
  by_cases inside : input.start ≤ input.haystack.size
  · obtain ⟨-, short⟩ := spent_underBudget_le wf executor inside (executor.budgetFor input)
    rw [search_eq_underBudget inside] at exceeded
    have cut := Verdict.eq_cut_of_outcome exceeded
    exact Nat.not_lt_of_le (stepBound_le_budgetFor reaches) (short _ _ cut)
  · rw [search_of_lt (Nat.lt_of_not_le inside)] at exceeded
    cases exceeded

theorem exists_search_eq_ok (wf : automaton.WellFormed) (executor : Executor)
    (inside : input.start ≤ input.haystack.size)
    (reaches : ∀ limit, executor.config.stepLimit? = some limit → input.stepBound ≤ limit) :
    ∃ result, executor.search automaton input = .ok result := by
  cases outcome : executor.search automaton input with
  | ok result => exact ⟨result, rfl⟩
  | error error =>
    obtain ⟨limit, offset, -, rfl⟩ := exists_of_search_eq_error wf inside outcome
    exact absurd outcome (search_ne_stepLimitExceeded wf executor reaches limit offset)

/-- Every search ends within a number of states that the haystack determines. An attempt executes
the visits of a run, at most two for each offset ahead, and is cut exactly under a budget that is
smaller than their number. A search executes no more than the bound, whatever its limit; it has an
outcome if there is no limit, and the same outcome under every limit that reaches the bound. -/
theorem search_terminates {builder : Builder} (built : builder.build = .ok automaton) :
    (∀ (haystack : Haystack) (anchored : Bool) (offset : Nat), offset ≤ haystack.size →
      ∃ visits, automaton.Run haystack ⟨automaton.startFor anchored, offset⟩ visits ∧
        visits.length ≤ 2 * (haystack.size - offset + 1) ∧
        ∀ (budget : Nat) (frame : Frame), frame.cursor = offset →
          ((automaton.attempt haystack budget (automaton.startFor anchored) frame).stop = .cut ↔
              budget < visits.length) ∧
            (automaton.attempt haystack budget (automaton.startFor anchored) frame).left =
              budget - visits.length) ∧
      (∀ (executor : Executor) (input : Input),
        (executor.report automaton input).steps ≤ input.stepBound) ∧
      (∀ (executor : Executor) (input : Input),
        (∀ limit, executor.config.stepLimit? = some limit → input.stepBound ≤ limit) →
          (input.start ≤ input.haystack.size →
            ∃ result, executor.search automaton input = .ok result) ∧
          ∀ limit offset,
            executor.search automaton input ≠ .error (.stepLimitExceeded limit offset)) ∧
      ∀ (config : SearchConfig) (input : Input) (limit : Nat), input.stepBound ≤ limit →
        Executor.search ⟨config.withStepLimit (some limit)⟩ automaton input =
          Executor.search ⟨config.withStepLimit none⟩ automaton input := by
  have wf := Automaton.WellFormed.of_build built
  refine ⟨?_, steps_report_le wf, ?_, fun config input limit reaches =>
    search_withStepLimit wf config input reaches⟩
  · intro haystack anchored offset inside
    obtain ⟨state, found⟩ := wf.exists_startFor anchored
    obtain ⟨visits, run, length⟩ :=
      Automaton.exists_run wf haystack ⟨automaton.startFor anchored, offset⟩
    have bound := automaton.visitsAhead_le haystack ⟨automaton.startFor anchored, offset⟩
    refine ⟨visits, run, Nat.le_trans length bound, ?_⟩
    intro budget frame here
    exact Automaton.attempt_spends_run wf run found inside budget here
  · intro executor input reaches
    exact ⟨fun inside => exists_search_eq_ok wf executor inside reaches,
      search_ne_stepLimitExceeded wf executor reaches⟩

/-- Twenty states suffice for any search of `xax` from its beginning. Within them, the automaton for
one or more of `a` finds what it finds without a limit. -/
theorem search_terminates_aPlus :
    (Executor.report {} (Builder.aPlus.freeze (.ofNat 0) (.ofNat 0))
        ⟨#[0x78, 0x61, 0x78], 0, false⟩).steps ≤ 20 ∧
      Executor.search ⟨(SearchConfig.withAccelerate {} false).withStepLimit (some 20)⟩
          (Builder.aPlus.freeze (.ofNat 0) (.ofNat 0)) ⟨#[0x78, 0x61, 0x78], 0, false⟩ =
        .ok (some ⟨#[Offset.ofNat? 1, Offset.ofNat? 2]⟩) := by
  obtain ⟨-, steps, -, limited⟩ := search_terminates Builder.build_aPlus
  refine ⟨steps {} ⟨#[0x78, 0x61, 0x78], 0, false⟩, ?_⟩
  rw [limited _ ⟨#[0x78, 0x61, 0x78], 0, false⟩ 20 (by decide)]
  have verdict : (Executor.report ⟨(SearchConfig.withAccelerate {} false).withStepLimit none⟩
      (Builder.aPlus.freeze (.ofNat 0) (.ofNat 0)) ⟨#[0x78, 0x61, 0x78], 0, false⟩).verdict =
      .decided 1 .rejected 2 (some #[Offset.ofNat? 1, Offset.ofNat? 2]) := by decide +kernel
  rw [search, Report.outcome, verdict]
  rfl

end Executor
end ByteDFA
