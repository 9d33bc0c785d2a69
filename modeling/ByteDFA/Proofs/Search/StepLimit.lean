import ByteDFA.Proofs.Search.Course

/-!
# Step limits

A step limit observes a search without disturbing it. A limited search makes the visits of the
unlimited one, in the same order, and is cut right before the first visit that the limit does not
cover. So the limit is exact: a search that needs as many states as it may execute still succeeds.
-/

set_option autoImplicit false

namespace ByteDFA.Executor

variable {config : SearchConfig} {automaton : Automaton} {input : Input} {tried : List Nat}
  {verdict : Verdict} {visits : List Visit} {limit : Nat}

theorem Follows.withStepLimit
    (follows : Follows ⟨config.withStepLimit none⟩ automaton input tried verdict visits)
    (limit : Nat) :
    Follows ⟨config.withStepLimit (some limit)⟩ automaton input tried verdict visits :=
  ⟨follows.course.withLimit (some limit), follows.runs⟩

/-- A limit that covers all visits changes nothing in the report. -/
theorem Follows.report_withStepLimit
    (follows : Follows ⟨config.withStepLimit none⟩ automaton input tried verdict visits)
    (wf : automaton.WellFormed) (inside : input.start ≤ input.haystack.size)
    (enough : visits.length ≤ limit) :
    report ⟨config.withStepLimit (some limit)⟩ automaton input =
      report ⟨config.withStepLimit none⟩ automaton input := by
  have covered : visits.length ≤ budgetFor ⟨config.withStepLimit (some limit)⟩ input := enough
  rw [follows.report_eq wf rfl inside, report_eq_underBudget inside,
    (follows.withStepLimit limit).underBudget_of_length_le wf covered, Nat.sub_sub_self covered]

theorem Follows.search_of_lt_length
    (follows : Follows ⟨config.withStepLimit none⟩ automaton input tried verdict visits)
    (wf : automaton.WellFormed) (inside : input.start ≤ input.haystack.size)
    (exceeded : limit < visits.length) :
    Executor.search ⟨config.withStepLimit (some limit)⟩ automaton input =
      .error (.stepLimitExceeded limit visits[limit].cursor) := by
  have unpaid : visits[budgetFor ⟨config.withStepLimit (some limit)⟩ input]? =
      some visits[limit] := List.getElem?_eq_getElem exceeded
  rw [search_eq_underBudget inside, (follows.withStepLimit limit).underBudget_of_getElem? wf unpaid]
  rfl

/-- The step limit is exact. The states that an unlimited search executes are the visits of its
attempts, one run after the other. A limited search has the same outcome if the limit covers them
all, and otherwise it fails at the cursor of the first visit beyond the limit. So an outcome under
one limit is the outcome under every larger one. -/
theorem search_stepLimit_exact {builder : Builder} (built : builder.build = .ok automaton)
    (config : SearchConfig) (input : Input) (inside : input.start ≤ input.haystack.size) :
    ∃ visits,
      automaton.Runs input.haystack (automaton.startFor input.anchored)
          (report ⟨config.withStepLimit none⟩ automaton input).tried.toList visits ∧
        (report ⟨config.withStepLimit none⟩ automaton input).steps = visits.length ∧
        (∀ limit, visits.length ≤ limit →
          Executor.search ⟨config.withStepLimit (some limit)⟩ automaton input =
            Executor.search ⟨config.withStepLimit none⟩ automaton input) ∧
        (∀ limit (exceeded : limit < visits.length),
          Executor.search ⟨config.withStepLimit (some limit)⟩ automaton input =
            .error (.stepLimitExceeded limit visits[limit].cursor)) ∧
        ∀ limit larger result, limit ≤ larger →
          Executor.search ⟨config.withStepLimit (some limit)⟩ automaton input = .ok result →
          Executor.search ⟨config.withStepLimit (some larger)⟩ automaton input = .ok result := by
  have wf := Automaton.WellFormed.of_build built
  obtain ⟨tried, verdict, visits, follows⟩ :=
    exists_follows wf ⟨config.withStepLimit none⟩ inside
  have covered : ∀ limit, visits.length ≤ limit →
      Executor.search ⟨config.withStepLimit (some limit)⟩ automaton input =
        Executor.search ⟨config.withStepLimit none⟩ automaton input := by
    intro limit enough
    rw [search, follows.report_withStepLimit wf inside enough, search]
  have cut : ∀ limit (exceeded : limit < visits.length),
      Executor.search ⟨config.withStepLimit (some limit)⟩ automaton input =
        .error (.stepLimitExceeded limit visits[limit].cursor) :=
    fun limit exceeded => follows.search_of_lt_length wf inside exceeded
  have unlimited := follows.report_eq wf rfl inside
  refine ⟨visits, ?_, ?_, covered, cut, ?_⟩
  · rw [unlimited]
    exact follows.runs
  · rw [unlimited]
  · intro limit larger result le ok
    -- A search that succeeds has not been cut, so its limit covers all visits.
    have enough : visits.length ≤ limit := by
      apply Nat.le_of_not_lt
      intro exceeded
      cases (cut limit exceeded).symm.trans ok
    rw [covered larger (Nat.le_trans enough le), ← covered limit enough]
    exact ok

/-- On `xax`, the automaton for one or more of `a` makes an attempt at offset 0, where it is stuck
at `x`, and one at offset 1, where it reads `a` first. -/
theorem runs_aPlus :
    (Builder.aPlus.freeze (.ofNat 0) (.ofNat 0)).Runs #[0x78, 0x61, 0x78] (.ofNat 0) [0, 1]
      [⟨.ofNat 0, 0⟩, ⟨.ofNat 1, 0⟩, ⟨.ofNat 0, 1⟩, ⟨.ofNat 1, 1⟩, ⟨.ofNat 2, 2⟩] := by
  refine .cons (.step (.enter rfl rfl rfl rfl) (.last ?_)) (.cons
    (.step (.enter rfl rfl rfl rfl) (.step (.read rfl (.inl rfl) rfl ?_) (.last ?_))) .nil)
  · exact Automaton.not_step_of_successor?_eq_none rfl (by decide) (by decide +kernel)
  · decide +kernel
  · exact Automaton.not_step_of_successor?_eq_none rfl (by decide) (by decide +kernel)

/-- Those are five states. With fewer than five, the match that the last of them saves is lost. -/
theorem search_stepLimit_exact_aPlus :
    Executor.search ⟨(SearchConfig.withAccelerate {} false).withStepLimit (some 5)⟩
        (Builder.aPlus.freeze (.ofNat 0) (.ofNat 0)) ⟨#[0x78, 0x61, 0x78], 0, false⟩ =
      .ok (some ⟨#[Offset.ofNat? 1, Offset.ofNat? 2]⟩) ∧
    Executor.search ⟨(SearchConfig.withAccelerate {} false).withStepLimit (some 4)⟩
        (Builder.aPlus.freeze (.ofNat 0) (.ofNat 0)) ⟨#[0x78, 0x61, 0x78], 0, false⟩ =
      .error (.stepLimitExceeded 4 2) ∧
    Executor.search ⟨(SearchConfig.withAccelerate {} false).withStepLimit (some 3)⟩
        (Builder.aPlus.freeze (.ofNat 0) (.ofNat 0)) ⟨#[0x78, 0x61, 0x78], 0, false⟩ =
      .error (.stepLimitExceeded 3 1) := by
  have unlimited : Executor.report ⟨(SearchConfig.withAccelerate {} false).withStepLimit none⟩
      (Builder.aPlus.freeze (.ofNat 0) (.ofNat 0)) ⟨#[0x78, 0x61, 0x78], 0, false⟩ =
      ⟨#[0, 1], 5, .decided 1 .rejected 2 (some #[Offset.ofNat? 1, Offset.ofNat? 2])⟩ := by
    decide +kernel
  obtain ⟨visits, runs, -, covered, cut, -⟩ := search_stepLimit_exact Builder.build_aPlus
    (.withAccelerate {} false) ⟨#[0x78, 0x61, 0x78], 0, false⟩ (by decide)
  rw [unlimited] at runs
  cases runs.unique runs_aPlus
  refine ⟨?_, cut 4 (by decide), cut 3 (by decide)⟩
  rw [covered 5 (by decide), search, unlimited]
  rfl

end ByteDFA.Executor
