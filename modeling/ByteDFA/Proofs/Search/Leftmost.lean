import ByteDFA.Proofs.Search.Acceleration
import ByteDFA.Proofs.Search.Bisimulation

/-!
# Leftmost matches

What an unanchored search without a limit reports, told from single attempts, each on a fresh frame
and at an offset of its own: the first one that is decisive speaks for the search. An attempt is
decisive if it saves a match or ends in a trace finder, so in an automaton without trace finders the
search reports the leftmost match.
-/

set_option autoImplicit false

namespace ByteDFA

/-- The first number with a property among those from `start` to `stop`, both included. -/
structure IsFirst (property : Nat → Prop) (start stop i : Nat) : Prop where
  start_le : start ≤ i
  le_stop : i ≤ stop
  holds : property i
  least : ∀ j, start ≤ j → j < i → ¬property j

namespace IsFirst

variable {property other : Nat → Prop} {start stop i : Nat}

theorem congr (same : ∀ i, start ≤ i → i ≤ stop → (property i ↔ other i))
    (first : IsFirst property start stop i) : IsFirst other start stop i := by
  refine ⟨first.start_le, first.le_stop, (same i first.start_le first.le_stop).1 first.holds, ?_⟩
  intro j le lt holds
  have inside : j ≤ stop := Nat.le_trans (Nat.le_of_lt lt) first.le_stop
  exact first.least j le lt ((same j le inside).2 holds)

/-- Where a property holds at all, there is a first number that has it. -/
theorem exists_of_exists (somewhere : ∃ i, start ≤ i ∧ i ≤ stop ∧ property i) :
    ∃ i, IsFirst property start stop i := by
  obtain ⟨i, le, inside, holds⟩ := somewhere
  induction i using Nat.strongRecOn with
  | ind i ih =>
    by_cases earlier : ∃ j, start ≤ j ∧ j < i ∧ property j
    · obtain ⟨j, le', lt, holds'⟩ := earlier
      exact ih j lt le' (Nat.le_trans (Nat.le_of_lt lt) inside) holds'
    · exact ⟨i, le, inside, holds, fun j le' lt holds' => earlier ⟨j, le', lt, holds'⟩⟩

end IsFirst

namespace Automaton

variable {automaton : Automaton} {haystack : Haystack} {id : StateId} {start i : Nat}

/-- A single attempt from the unanchored start, on a fresh frame. -/
def attemptAt (automaton : Automaton) (haystack : Haystack) (offset : Nat) : Attempt :=
  automaton.attemptFrom haystack automaton.unanchoredStart offset

/-- The same automaton, entered by its unanchored start in anchored searches as well. -/
def entered (automaton : Automaton) : Automaton :=
  { automaton with anchoredStart := automaton.unanchoredStart }

theorem bisimulation_entered (wf : automaton.WellFormed) :
    automaton.entered.Bisimulation automaton
      fun x y => x = y ∧ ∃ state, automaton.state? y = some state := by
  constructor
  intro x y related
  obtain ⟨rfl, state, found⟩ := related
  have next : ∀ index, Option.Rel (fun x y => x = y ∧ ∃ state, automaton.state? y = some state)
      (state.table.get? index) (state.table.get? index) := by
    intro index
    cases entry : state.table.get? index with
    | none => exact .none
    | some target =>
      obtain ⟨reached, found', -⟩ := wf.target found entry
      exact .some ⟨rfl, reached, found'⟩
  exact ⟨state, state, found, found, rfl, fun _ config => next config.index, fun _ b => next _⟩

theorem firstDecisive?_of_isFirst (inside : start ≤ haystack.size)
    (first : IsFirst (fun i => (automaton.attemptFrom haystack id i).Decisive) start
      haystack.size i) :
    automaton.firstDecisive? haystack id start (haystack.size - start) = some i := by
  unfold firstDecisive?
  rw [List.find?_range'_eq_some]
  refine ⟨decide_eq_true first.holds, ?_, ?_⟩
  · have le := first.start_le
    have le_stop := first.le_stop
    rw [List.mem_range'_1]
    omega
  · intro j le lt
    rw [decide_eq_false (first.least j le lt)]
    rfl

theorem firstDecisive?_eq_none (inside : start ≤ haystack.size)
    (vain : ∀ i, start ≤ i → i ≤ haystack.size →
      ¬(automaton.attemptFrom haystack id i).Decisive) :
    automaton.firstDecisive? haystack id start (haystack.size - start) = none := by
  unfold firstDecisive?
  rw [List.find?_range'_eq_none]
  intro i le lt
  rw [decide_eq_false (vain i le (by omega))]
  rfl

/-- Only a trace finder can decide a search without a match. -/
theorem decisive_iff_of_no_traceFinder (wf : automaton.WellFormed)
    (no_traceFinder : ∀ state ∈ automaton.states, state.kind ≠ .traceFinder)
    (inside : i ≤ haystack.size) :
    (automaton.attemptAt haystack i).Decisive ↔
      ∃ captures, (automaton.attemptAt haystack i).captures? = some captures := by
  obtain ⟨start, found, -⟩ := wf.unanchored
  obtain ⟨visits, run, -⟩ := exists_run wf haystack ⟨automaton.unanchoredStart, i⟩
  obtain ⟨last, final, -, at_last, result⟩ := attemptFrom_of_run wf run found inside
  have not_hopeless : (automaton.attemptAt haystack i).stop ≠ .ended .hopeless := by
    unfold attemptAt
    rw [result]
    intro hopeless
    have kind := Kind.ending_eq_hopeless_iff.1 (Stop.ended.inj hopeless)
    exact no_traceFinder final (Array.mem_of_getElem? at_last) kind
  unfold Attempt.Decisive Attempt.captures?
  rw [or_iff_left not_hopeless, Option.isSome_iff_exists]
  constructor
  · intro saved
    obtain ⟨slots, saved⟩ := saved
    exact ⟨⟨slots⟩, by rw [saved]; rfl⟩
  · intro reported
    obtain ⟨captures, reported⟩ := reported
    obtain ⟨slots, saved, -⟩ := Option.map_eq_some_iff.1 reported
    exact ⟨slots, saved⟩

end Automaton

namespace Executor

variable {executor : Executor} {automaton : Automaton} {haystack : Haystack} {start i : Nat}

/-- Without a limit, an unanchored search reports what the first decisive attempt does, whether it
makes use of an accelerator or not. -/
theorem search_unanchored (wf : automaton.WellFormed)
    (unlimited : executor.config.stepLimit? = none) (inside : start ≤ haystack.size) :
    executor.search automaton ⟨haystack, start, false⟩ =
      .ok ((automaton.firstDecisive? haystack automaton.unanchoredStart start
          (haystack.size - start)).bind
        fun i => (automaton.attemptAt haystack i).captures?) :=
  search_of_plain (search_unanchored_plain wf unlimited inside)

theorem search_of_isFirst_decisive (wf : automaton.WellFormed)
    (unlimited : executor.config.stepLimit? = none) (inside : start ≤ haystack.size)
    (first : IsFirst (fun j => (automaton.attemptAt haystack j).Decisive) start
      haystack.size i) :
    executor.search automaton ⟨haystack, start, false⟩ =
      .ok (automaton.attemptAt haystack i).captures? := by
  rw [search_unanchored wf unlimited inside, Automaton.firstDecisive?_of_isFirst inside first]
  rfl

theorem search_of_not_decisive (wf : automaton.WellFormed)
    (unlimited : executor.config.stepLimit? = none) (inside : start ≤ haystack.size)
    (vain : ∀ j, start ≤ j → j ≤ haystack.size → ¬(automaton.attemptAt haystack j).Decisive) :
    executor.search automaton ⟨haystack, start, false⟩ = .ok none := by
  rw [search_unanchored wf unlimited inside, Automaton.firstDecisive?_eq_none inside vain]
  rfl

/-- A single attempt is an anchored search in the automaton entered by its unanchored start. -/
theorem search_entered (wf : automaton.WellFormed)
    (unlimited : executor.config.stepLimit? = none) (inside : i ≤ haystack.size) :
    executor.search automaton.entered ⟨haystack, i, true⟩ =
      .ok (automaton.attemptAt haystack i).captures? := by
  have entered : automaton.entered.WellFormed := wf.withAnchoredStart
  obtain ⟨state, found, -⟩ := wf.unanchored
  have same : automaton.entered.attemptFrom haystack automaton.entered.anchoredStart i =
      automaton.attemptAt haystack i :=
    (Automaton.bisimulation_entered wf).attempt_eq haystack _ _ ⟨rfl, state, found⟩
  rw [search_anchored entered unlimited inside, same]

theorem ended_attemptAt (wf : automaton.WellFormed) (inside : i ≤ haystack.size) :
    ∃ ending, (automaton.attemptAt haystack i).stop = .ended ending := by
  obtain ⟨state, found, -⟩ := wf.unanchored
  obtain ⟨ending, ended, -⟩ := Automaton.attemptFrom_ended wf found inside
  exact ⟨ending, ended⟩

/-- An unanchored search is the first decisive attempt: it reports the captures of that attempt,
slot by slot, and nothing if no attempt is decisive. In an automaton without trace finders it finds
a match exactly if there is one at some offset from the start on, and the one that it finds is the
leftmost. -/
theorem search_leftmost {builder : Builder} (built : builder.build = .ok automaton)
    (unlimited : executor.config.stepLimit? = none) (inside : start ≤ haystack.size) :
    (∀ i ≤ haystack.size,
      (∃ ending, (automaton.attemptAt haystack i).stop = .ended ending) ∧
        executor.search automaton.entered ⟨haystack, i, true⟩ =
          .ok (automaton.attemptAt haystack i).captures?) ∧
      (∀ i, IsFirst (fun j => (automaton.attemptAt haystack j).Decisive) start haystack.size i →
        executor.search automaton ⟨haystack, start, false⟩ =
          .ok (automaton.attemptAt haystack i).captures?) ∧
      ((∀ j, start ≤ j → j ≤ haystack.size → ¬(automaton.attemptAt haystack j).Decisive) →
        executor.search automaton ⟨haystack, start, false⟩ = .ok none) ∧
      ((∀ state ∈ automaton.states, state.kind ≠ .traceFinder) →
        ((∃ captures,
            executor.search automaton ⟨haystack, start, false⟩ = .ok (some captures)) ↔
          ∃ i, start ≤ i ∧ i ≤ haystack.size ∧ ∃ captures,
            executor.search automaton.entered ⟨haystack, i, true⟩ = .ok (some captures)) ∧
        ∀ i, IsFirst (fun j => ∃ captures, executor.search automaton.entered
              ⟨haystack, j, true⟩ = .ok (some captures)) start haystack.size i →
          executor.search automaton ⟨haystack, start, false⟩ =
            executor.search automaton.entered ⟨haystack, i, true⟩) := by
  have wf := Automaton.WellFormed.of_build built
  refine ⟨?_, ?_, search_of_not_decisive wf unlimited inside, ?_⟩
  · intro i inside
    exact ⟨ended_attemptAt wf inside, search_entered wf unlimited inside⟩
  · intro i first
    exact search_of_isFirst_decisive wf unlimited inside first
  intro no_traceFinder
  -- Without trace finders, to be decisive is to match.
  have matches_iff : ∀ i, start ≤ i → i ≤ haystack.size →
      ((∃ captures, executor.search automaton.entered ⟨haystack, i, true⟩ = .ok (some captures)) ↔
        (automaton.attemptAt haystack i).Decisive) := by
    intro i _ inside
    rw [Automaton.decisive_iff_of_no_traceFinder wf no_traceFinder inside,
      search_entered wf unlimited inside]
    simp only [Except.ok.injEq]
  have leftmost : ∀ i, IsFirst (fun j => ∃ captures, executor.search automaton.entered
      ⟨haystack, j, true⟩ = .ok (some captures)) start haystack.size i →
      executor.search automaton ⟨haystack, start, false⟩ =
        executor.search automaton.entered ⟨haystack, i, true⟩ := by
    intro i first
    rw [search_of_isFirst_decisive wf unlimited inside (first.congr matches_iff),
      search_entered wf unlimited first.le_stop]
  refine ⟨⟨?_, ?_⟩, leftmost⟩
  · intro matched
    apply Classical.byContradiction
    intro nowhere
    obtain ⟨captures, matched⟩ := matched
    have vain : ∀ j, start ≤ j → j ≤ haystack.size →
        ¬(automaton.attemptAt haystack j).Decisive := by
      intro j le inside' decisive
      exact nowhere ⟨j, le, inside', (matches_iff j le inside').2 decisive⟩
    rw [search_of_not_decisive wf unlimited inside vain] at matched
    cases matched
  · intro somewhere
    obtain ⟨i, first⟩ := IsFirst.exists_of_exists somewhere
    rw [leftmost i first]
    exact first.holds

/-- On `xax`, the automaton for one or more of `a` has its leftmost match at offset 1. -/
theorem search_leftmost_aPlus :
    Executor.search {} (Builder.aPlus.freeze (.ofNat 0) (.ofNat 0))
        ⟨#[0x78, 0x61, 0x78], 0, false⟩ =
      .ok (some ⟨#[Offset.ofNat? 1, Offset.ofNat? 2]⟩) := by
  obtain ⟨-, -, -, without_traceFinder⟩ :=
    search_leftmost Builder.build_aPlus (rfl : (Executor.mk {}).config.stepLimit? = none)
      (by decide : 0 ≤ (#[0x78, 0x61, 0x78] : Haystack).size)
  obtain ⟨-, leftmost⟩ := without_traceFinder (by decide +kernel)
  have verdict_zero : (Executor.report {} (Builder.aPlus.freeze (.ofNat 0) (.ofNat 0)).entered
      ⟨#[0x78, 0x61, 0x78], 0, true⟩).verdict = .exhausted := by decide +kernel
  have verdict_one : (Executor.report {} (Builder.aPlus.freeze (.ofNat 0) (.ofNat 0)).entered
      ⟨#[0x78, 0x61, 0x78], 1, true⟩).verdict =
      .decided 1 .rejected 2 (some #[Offset.ofNat? 1, Offset.ofNat? 2]) := by decide +kernel
  have at_one : Executor.search {} (Builder.aPlus.freeze (.ofNat 0) (.ofNat 0)).entered
      ⟨#[0x78, 0x61, 0x78], 1, true⟩ =
      .ok (some ⟨#[Offset.ofNat? 1, Offset.ofNat? 2]⟩) := by
    rw [search, Report.outcome, verdict_one]
    rfl
  rw [leftmost 1 ⟨by decide, by decide, ⟨_, at_one⟩, ?_⟩, at_one]
  intro j _ lt matched
  obtain ⟨captures, matched⟩ := matched
  cases Nat.lt_one_iff.1 lt
  rw [search, Report.outcome, verdict_zero] at matched
  cases matched

end Executor
end ByteDFA
