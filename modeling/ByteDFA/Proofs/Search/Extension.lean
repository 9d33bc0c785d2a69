import ByteDFA.Proofs.Search.Greedy
import ByteDFA.Proofs.Search.Safety

/-!
# More bytes at the end of a haystack

A step looks at the byte at the cursor, or at the byte before it, and neither changes when bytes are
added to the end of the haystack. So the run on a longer haystack begins with the whole run on the
shorter one (`Run.prefix_append`). It goes on after that only where the shorter one was stopped by
the end of the haystack. A run that has come to a final state or has stopped before the end is
settled: no bytes that follow can change it, nor the result of the search (`Run.append`). A run that
is not settled may still be revised, but only in favour of a match that ends no earlier.
-/

set_option autoImplicit false

namespace ByteDFA
namespace Automaton

variable {automaton : Automaton} {haystack suffix : Haystack} {v w : Visit}
  {visits visits' : List Visit}

/-- The last of some visits in which a match is saved. -/
def LastAccepting (automaton : Automaton) (visits : List Visit) (v : Visit) : Prop :=
  ∃ before after, visits = before ++ v :: after ∧ automaton.Accepts v ∧
    ∀ w ∈ after, ¬automaton.Accepts w

/-- The visits have come to a final state, or have stopped before the end of the haystack. -/
def Settled (automaton : Automaton) (haystack : Haystack) (visits : List Visit) : Prop :=
  (∃ w ∈ visits, ∃ state, automaton.state? w.id = some state ∧ state.kind = .final) ∨
    ∃ last, visits.getLast? = some last ∧ last.cursor < haystack.size

/-! ## Steps -/

/-- A step on a haystack is a step on every longer one. -/
theorem Step.append (step : automaton.Step haystack v w) (suffix : Haystack) :
    automaton.Step (haystack ++ suffix) v w := by
  cases step with
  | enter found kind here entry =>
    have inside := StartConfig.ofOffset?_isSome.1 (Option.isSome_of_eq_some here)
    refine .enter found kind ?_ entry
    rw [StartConfig.ofOffset?_append inside]
    exact here
  | read found kind byte entry =>
    obtain ⟨below, -⟩ := Array.getElem?_eq_some_iff.1 byte
    refine .read found kind ?_ entry
    rw [Array.getElem?_append_left below]
    exact byte

/-- Before the end of a haystack, a longer one permits no other steps. -/
theorem Step.of_append (step : automaton.Step (haystack ++ suffix) v w)
    (below : v.cursor < haystack.size) : automaton.Step haystack v w := by
  cases step with
  | enter found kind here entry =>
    rw [StartConfig.ofOffset?_append (Nat.le_of_lt below)] at here
    exact .enter found kind here entry
  | read found kind byte entry =>
    rw [Array.getElem?_append_left below] at byte
    exact .read found kind byte entry

theorem not_step_of_final {state : State} (found : automaton.state? v.id = some state)
    (final : state.kind = .final) (w : Visit) : ¬automaton.Step haystack v w := by
  intro step
  cases step with
  | enter found' kind _ _ =>
    cases found.symm.trans found'
    cases final.symm.trans kind
  | read found' kind _ _ =>
    cases found.symm.trans found'
    rw [final] at kind
    rcases kind with kind | kind <;> cases kind

/-! ## Runs -/

theorem Run.prefix_append (run : automaton.Run haystack v visits)
    (run' : automaton.Run (haystack ++ suffix) v visits') : visits <+: visits' := by
  induction run generalizing visits' with
  | last =>
    obtain ⟨rest, rfl⟩ := run'.exists_eq_cons
    exact ⟨rest, rfl⟩
  | step step _ ih =>
    cases run' with
    | last stuck => exact absurd (step.append suffix) (stuck _)
    | step step' rest =>
      cases (step.append suffix).unique step'
      exact List.cons_prefix_cons.2 ⟨rfl, ih rest⟩

/-- A settled run is the run on every longer haystack. -/
theorem Run.append (run : automaton.Run haystack v visits)
    (settled : automaton.Settled haystack visits) (suffix : Haystack) :
    automaton.Run (haystack ++ suffix) v visits := by
  induction run with
  | @last v stuck =>
    refine .last fun w step => ?_
    rcases settled with ⟨u, mem, state, found, final⟩ | ⟨last, is_last, below⟩
    · cases List.mem_singleton.1 mem
      exact not_step_of_final found final w step
    · cases is_last
      exact stuck w (step.of_append below)
  | @step v w visits step run ih =>
    refine .step (step.append suffix) (ih ?_)
    obtain ⟨rest, rfl⟩ := run.exists_eq_cons
    rcases settled with ⟨u, mem, state, found, final⟩ | ⟨last, is_last, below⟩
    · rcases List.mem_cons.1 mem with rfl | mem
      · exact absurd step (not_step_of_final found final w)
      · exact .inl ⟨u, mem, state, found, final⟩
    · rw [List.getLast?_cons_cons] at is_last
      exact .inr ⟨last, is_last, below⟩

/-- The cursor never goes back. -/
theorem Run.pairwise_cursor (run : automaton.Run haystack v visits) :
    (∀ w ∈ visits, v.cursor ≤ w.cursor) ∧ visits.Pairwise fun u w => u.cursor ≤ w.cursor := by
  induction run with
  | last => simp
  | step step _ ih =>
    obtain ⟨ahead, sorted⟩ := ih
    have later := fun u mem => Nat.le_trans step.le_cursor (ahead u mem)
    exact ⟨List.forall_mem_cons.2 ⟨Nat.le_refl _, later⟩, List.pairwise_cons.2 ⟨later, sorted⟩⟩

theorem exists_lastAccepting (accepts : ∃ v ∈ visits, automaton.Accepts v) :
    ∃ v, automaton.LastAccepting visits v := by
  obtain ⟨before, v, after, here, last⟩ := exists_last_accepts accepts
  exact ⟨v, before, after, here, last⟩

/-- In a longer run, the last match is saved no earlier. -/
theorem LastAccepting.exists_of_prefix (last : automaton.LastAccepting visits v)
    (longer : visits <+: visits') (sorted : visits'.Pairwise fun u w => u.cursor ≤ w.cursor) :
    ∃ v', automaton.LastAccepting visits' v' ∧ v.cursor ≤ v'.cursor := by
  obtain ⟨before, after, rfl, accepts, -⟩ := last
  obtain ⟨more, rfl⟩ := longer
  rw [List.append_assoc, List.cons_append] at sorted ⊢
  have some_accepts : ∃ w ∈ v :: (after ++ more), automaton.Accepts w :=
    ⟨v, List.mem_cons_self, accepts⟩
  obtain ⟨between, v', after', split, accepts', quiet⟩ := exists_last_accepts some_accepts
  refine ⟨v', ⟨before ++ between, after', ?_, accepts', quiet⟩, ?_⟩
  · rw [split, List.append_assoc]
  · have later : v' ∈ v :: (after ++ more) := by
      rw [split]
      exact List.mem_append_right _ List.mem_cons_self
    obtain ⟨-, sorted', -⟩ := List.pairwise_append.1 sorted
    rcases List.mem_cons.1 later with rfl | later
    · exact Nat.le_refl _
    · exact (List.pairwise_cons.1 sorted').1 v' later

/-! ## Searches -/

/-- What an anchored search finds when bytes are added to the end of the haystack. If its run has
come to a final state, or has stopped before the end, the result remains exactly the same. In any
case a match remains a match, and the visit that saves the last one does not come earlier. -/
theorem search_anchored_append {builder : Builder} (executor : Executor)
    (haystack suffix : Haystack) (start : Nat) (built : builder.build = .ok automaton)
    (unlimited : executor.config.stepLimit? = none) (inside : start ≤ haystack.size) :
    ∃ visits visits',
      (∀ other, automaton.Run haystack ⟨automaton.anchoredStart, start⟩ other ↔
        other = visits) ∧
      (∀ other, automaton.Run (haystack ++ suffix) ⟨automaton.anchoredStart, start⟩ other ↔
        other = visits') ∧
      (automaton.Settled haystack visits →
        executor.search automaton ⟨haystack ++ suffix, start, true⟩ =
          executor.search automaton ⟨haystack, start, true⟩) ∧
      ∀ captures, executor.search automaton ⟨haystack, start, true⟩ = .ok (some captures) →
        ∃ captures' v v',
          executor.search automaton ⟨haystack ++ suffix, start, true⟩ = .ok (some captures') ∧
            automaton.LastAccepting visits v ∧ automaton.LastAccepting visits' v' ∧
            v.cursor ≤ v'.cursor := by
  have wf := WellFormed.of_build built
  have inside' : start ≤ (haystack ++ suffix).size := by
    rw [Array.size_append]
    exact Nat.le_add_right_of_le inside
  obtain ⟨visits, run, -⟩ := exists_run wf haystack ⟨automaton.anchoredStart, start⟩
  obtain ⟨visits', run', -⟩ := exists_run wf (haystack ++ suffix) ⟨automaton.anchoredStart, start⟩
  refine ⟨visits, visits', run.iff_eq, run'.iff_eq, ?_, ?_⟩
  · intro settled
    rw [search_anchored_replay wf unlimited inside' (run.append settled suffix),
      search_anchored_replay wf unlimited inside run]
  · intro captures matched
    have some_accepts : ∃ v ∈ visits, automaton.Accepts v := by
      apply Classical.byContradiction
      intro none_accepts
      have silent := search_anchored_of_quiet wf unlimited inside run
        fun v mem accepts => none_accepts ⟨v, mem, accepts⟩
      cases silent.symm.trans matched
    obtain ⟨v, last⟩ := exists_lastAccepting some_accepts
    obtain ⟨v', last', later⟩ :=
      last.exists_of_prefix (run.prefix_append run') run'.pairwise_cursor.2
    obtain ⟨before, after, here, accepts, quiet⟩ := last'
    rw [here] at run'
    obtain ⟨captures', matched', -⟩ :=
      search_anchored_of_last_accepts wf unlimited inside' run' accepts quiet
    exact ⟨captures', v, v', matched', last, ⟨before, after, here, accepts, quiet⟩, later⟩

/-- On `ax`, the run of the automaton for one or more of `a` is stuck at `x`, so an `a` after that
is never seen. On `a` it reaches the end, and still matches when another `a` follows. -/
theorem search_anchored_append_aPlus :
    Executor.search {} (Builder.aPlus.freeze (.ofNat 0) (.ofNat 0))
        ⟨#[0x61, 0x78] ++ #[0x61], 0, true⟩ =
      .ok (some ⟨#[Offset.ofNat? 0, Offset.ofNat? 1]⟩) ∧
    ∃ captures, Executor.search {} (Builder.aPlus.freeze (.ofNat 0) (.ofNat 0))
        ⟨#[0x61] ++ #[0x61], 0, true⟩ = .ok (some captures) := by
  constructor
  · obtain ⟨visits, _, run_iff, -, same, -⟩ :=
      search_anchored_append {} #[0x61, 0x78] #[0x61] 0 Builder.build_aPlus rfl (by decide)
    have run : (Builder.aPlus.freeze (.ofNat 0) (.ofNat 0)).Run #[0x61, 0x78] ⟨.ofNat 0, 0⟩
        [⟨.ofNat 0, 0⟩, ⟨.ofNat 1, 0⟩, ⟨.ofNat 2, 1⟩] := by
      refine .step (.enter rfl rfl rfl rfl) (.step (.read rfl (.inl rfl) rfl ?_) (.last ?_))
      · decide +kernel
      · exact not_step_of_successor?_eq_none rfl (by decide) (by decide +kernel)
    cases (run_iff _).1 run
    have verdict : (Executor.report {} (Builder.aPlus.freeze (.ofNat 0) (.ofNat 0))
        ⟨#[0x61, 0x78], 0, true⟩).verdict =
        .decided 0 .rejected 1 (some #[Offset.ofNat? 0, Offset.ofNat? 1]) := by decide +kernel
    rw [same (.inr ⟨_, rfl, by decide⟩), Executor.search, Report.outcome, verdict]
    rfl
  · obtain ⟨_, _, -, -, -, longer⟩ :=
      search_anchored_append {} #[0x61] #[0x61] 0 Builder.build_aPlus rfl (by decide)
    have verdict : (Executor.report {} (Builder.aPlus.freeze (.ofNat 0) (.ofNat 0))
        ⟨#[0x61], 0, true⟩).verdict =
        .decided 0 .rejected 1 (some #[Offset.ofNat? 0, Offset.ofNat? 1]) := by decide +kernel
    have matched : Executor.search {} (Builder.aPlus.freeze (.ofNat 0) (.ofNat 0))
        ⟨#[0x61], 0, true⟩ = .ok (some ⟨#[Offset.ofNat? 0, Offset.ofNat? 1]⟩) := by
      rw [Executor.search, Report.outcome, verdict]
      rfl
    obtain ⟨captures, _, _, matched', -⟩ := longer _ matched
    exact ⟨captures, matched'⟩

end Automaton
end ByteDFA
