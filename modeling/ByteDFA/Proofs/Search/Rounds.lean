import ByteDFA.Search.Basic

/-!
# The rounds of a search

Whether another attempt follows is decided after each one: an anchored search ends with the first
attempt, and others with the attempt at the end of the haystack. How many attempts can follow is
also known beforehand. `Search.run` goes through as many rounds as it is told, so proofs about a
search can be inductions on this number. It is enough to count the offsets ahead: the count runs out
exactly when the search has come to its end (`loop_unanchored`). Where an accelerator passes over
offsets, it may not run out at all, because no candidate is left before.
-/

set_option autoImplicit false

namespace ByteDFA

namespace Search

/-- Makes attempts from an offset on. After the first one, at most `more` others are made; `budget`
and `frame` are shared by all, and `tried` holds the offsets of the attempts made before. The last
component of the result is the part of the budget that was not used. -/
def run (search : Search) (more offset budget : Nat) (frame : Frame) (tried : Array Nat) :
    Array Nat × Verdict × Nat :=
  match search.candidate? offset with
  | none => (tried, .noCandidate offset, budget)
  | some offset =>
    let tried := tried.push offset
    let attempt := search.attempt budget offset frame
    match attempt.stop with
    | .fault cause => (tried, .fault cause, attempt.left)
    | .cut => (tried, .cut search.limit attempt.frame.cursor, attempt.left)
    | .ended ending =>
      if ending.decides attempt.frame then
        (tried, .decided offset ending attempt.frame.cursor attempt.frame.saved, attempt.left)
      else
        match more with
        | 0 => (tried, .exhausted, attempt.left)
        | more + 1 => search.run more (offset + 1) attempt.left attempt.frame tried

variable {search : Search} {anchored : Bool} {more offset i : Nat}

/-- An attempt is made right here without asking an accelerator, or one has found an offset of the
haystack. -/
theorem unasked_or_lt (here : search.candidate? offset = some i) :
    ((search.accelerator = none ∨ offset = 0) ∧ i = offset) ∨ i < search.haystack.size := by
  unfold candidate? at here
  split at here
  · rename_i plain
    cases here
    exact .inl ⟨.inl plain, rfl⟩
  · split at here
    · rename_i first
      cases here
      exact .inl ⟨.inr first, first.symm⟩
    · exact .inr (Accelerator.find?_bounds here).2

/-- If no round can follow this one, it is the last one that is counted. -/
theorem loop_eq_run_zero
    (last : ∀ i, search.candidate? offset = some i → anchored = true ∨ search.haystack.size ≤ i)
    (budget : Nat) (frame : Frame) (tried : Array Nat) :
    search.loop anchored offset budget frame tried = search.run 0 offset budget frame tried := by
  rw [loop, run]
  cases here : search.candidate? offset with
  | none => rfl
  | some i =>
    dsimp only
    cases (search.attempt budget i frame).stop with
    | fault cause => rfl
    | cut => rfl
    | ended ending =>
      dsimp only
      rw [dif_pos (last i here)]

/-- If another round can follow, and the rounds from there on are those that are counted, then so
are the rounds from here on. -/
theorem loop_eq_run_succ
    (goes_on : ∀ i, search.candidate? offset = some i →
      ¬(anchored = true ∨ search.haystack.size ≤ i))
    (rest : ∀ i, search.candidate? offset = some i → ∀ budget frame tried,
      search.loop anchored (i + 1) budget frame tried =
        search.run more (i + 1) budget frame tried)
    (budget : Nat) (frame : Frame) (tried : Array Nat) :
    search.loop anchored offset budget frame tried =
      search.run (more + 1) offset budget frame tried := by
  rw [loop, run]
  cases here : search.candidate? offset with
  | none => rfl
  | some i =>
    dsimp only
    cases (search.attempt budget i frame).stop with
    | fault cause => rfl
    | cut => rfl
    | ended ending =>
      dsimp only
      rw [dif_neg (goes_on i here), rest i here]

theorem loop_anchored (search : Search) (offset budget : Nat) (frame : Frame) (tried : Array Nat) :
    search.loop true offset budget frame tried = search.run 0 offset budget frame tried :=
  loop_eq_run_zero (fun _ _ => .inl rfl) budget frame tried

/-- As many rounds as there are offsets ahead are enough, and where every offset is tried there are
no more of them. -/
theorem loop_unanchored (inside : offset ≤ search.haystack.size)
    (enough : search.haystack.size - offset ≤ more)
    (exact : search.accelerator = none ∨ offset = 0 → more = search.haystack.size - offset)
    (budget : Nat) (frame : Frame) (tried : Array Nat) :
    search.loop false offset budget frame tried =
      search.run more offset budget frame tried := by
  induction more generalizing offset budget frame tried with
  | zero =>
    refine loop_eq_run_zero (fun i here => .inr ?_) budget frame tried
    have le := le_of_candidate? here
    omega
  | succ more ih =>
    -- The attempt at the end of the haystack would be the last one that is counted.
    have lt : ∀ i, search.candidate? offset = some i → i < search.haystack.size := by
      intro i here
      rcases unasked_or_lt here with ⟨unasked, rfl⟩ | lt
      · have counted := exact unasked
        omega
      · exact lt
    have goes_on : ∀ i, search.candidate? offset = some i →
        ¬(false = true ∨ search.haystack.size ≤ i) := by
      rintro i here (⟨⟨⟩⟩ | beyond)
      exact Nat.not_lt_of_le beyond (lt i here)
    refine loop_eq_run_succ goes_on (fun i here => ?_) budget frame tried
    have le := le_of_candidate? here
    have counted : search.accelerator = none ∨ i + 1 = 0 →
        more = search.haystack.size - (i + 1) := by
      rintro (plain | ⟨⟨⟩⟩)
      have counted := exact (.inl plain)
      rw [candidate?, plain] at here
      cases here
      omega
    exact ih (lt i here) (by omega) counted

end Search

namespace Executor

variable {executor : Executor} {automaton : Automaton} {input : Input}

theorem loop_plan (executor : Executor) (automaton : Automaton)
    (inside : input.start ≤ input.haystack.size) (budget : Nat) (frame : Frame)
    (tried : Array Nat) :
    (executor.plan automaton input).loop input.anchored input.start budget frame tried =
      (executor.plan automaton input).run
        (if input.anchored then 0 else input.haystack.size - input.start) input.start budget frame
        tried := by
  cases anchored : input.anchored with
  | true => exact Search.loop_anchored ..
  | false => exact Search.loop_unanchored inside (Nat.le_refl _) (fun _ => rfl) ..

/-- From an offset of the haystack on, a search is a number of rounds that is known beforehand. -/
theorem report_of_le (inside : input.start ≤ input.haystack.size) :
    executor.report automaton input =
      let ahead := input.haystack.size - input.start
      let budget := executor.config.stepLimit?.getD (stepBound ahead)
      let more := if input.anchored then 0 else ahead
      let frame := Frame.fresh automaton.slotCount input.start
      let (tried, verdict, left) :=
        (executor.plan automaton input).run more input.start budget frame #[]
      ⟨tried, budget - left, verdict⟩ := by
  rw [report, if_neg (Nat.not_lt_of_le inside)]
  dsimp only
  rw [loop_plan executor automaton inside]

end Executor
end ByteDFA
