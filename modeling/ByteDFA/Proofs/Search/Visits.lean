import ByteDFA.Proofs.Builder.Validity
import ByteDFA.Search.Attempt

/-!
# The visits of a run

An attempt is a loop that carries a frame along. Where it goes does not depend on the frame, so the
run can be told without one: as the list of the states that are executed, each with the cursor at
that time. `Automaton.Step` says which visit follows which, in terms of tables, bytes and start
configurations, and `Automaton.Run` follows the steps to the end.

No visit begins two runs (`Run.unique`), and in a well-formed automaton every visit begins one, with
at most two visits for each offset ahead (`exists_run`).
-/

set_option autoImplicit false

namespace ByteDFA

/-- A state that is executed, and the offset of the cursor at that time. -/
structure Visit where
  id : StateId
  cursor : Nat
  deriving DecidableEq

namespace Automaton

/-- Which visit follows which. -/
inductive Step (automaton : Automaton) (haystack : Haystack) : Visit → Visit → Prop
  /-- A start state is left by the entry for the start configuration. The cursor stays. -/
  | enter {id next : StateId} {state : State} {config : StartConfig} {cursor : Nat}
      (found : automaton.state? id = some state) (kind : state.kind = .start)
      (here : StartConfig.ofOffset? haystack cursor = some config)
      (entry : state.table.get? config.index = some next) :
      Step automaton haystack ⟨id, cursor⟩ ⟨next, cursor⟩
  /-- A matcher or trace finder is left by the transition for the byte at the cursor. -/
  | read {id next : StateId} {state : State} {b : UInt8} {cursor : Nat}
      (found : automaton.state? id = some state)
      (kind : state.kind = .matcher ∨ state.kind = .traceFinder)
      (byte : haystack[cursor]? = some b)
      (entry : state.table.get? (automaton.classes.get b).toNat = some next) :
      Step automaton haystack ⟨id, cursor⟩ ⟨next, cursor + 1⟩

/-- The visits from a given one on, up to one that no other follows. -/
inductive Run (automaton : Automaton) (haystack : Haystack) : Visit → List Visit → Prop
  | last {v : Visit} (stuck : ∀ w, ¬automaton.Step haystack v w) : Run automaton haystack v [v]
  | step {v w : Visit} {visits : List Visit} (step : automaton.Step haystack v w)
      (run : Run automaton haystack w visits) : Run automaton haystack v (v :: visits)

end Automaton

/-! ## Moves and steps -/

/-- How a run ends that ends in a state of this kind. -/
def Kind.ending : Kind → Ending
  | .start => .rejected
  | .matcher => .rejected
  | .final => .accepted
  | .traceFinder => .hopeless

theorem Kind.ending_eq_hopeless_iff {kind : Kind} :
    kind.ending = .hopeless ↔ kind = .traceFinder := by
  cases kind <;> simp [ending]

namespace State

variable {classes : ByteClasses} {haystack : Haystack} {state : State} {cursor : Nat}

theorem successor?_eq_some_iff {next : StateId} :
    state.successor? classes haystack cursor = some next ↔
      ∃ b, haystack[cursor]? = some b ∧ state.table.get? (classes.get b).toNat = some next := by
  unfold successor?
  exact Option.bind_eq_some_iff

theorem read_eq_goto_iff {otherwise : Ending} {next : StateId} {cursor' : Nat} :
    state.read classes haystack cursor otherwise = .goto next cursor' ↔
      state.successor? classes haystack cursor = some next ∧ cursor' = cursor + 1 := by
  unfold read
  cases state.successor? classes haystack cursor with
  | none => simp
  | some id => simp [eq_comm]

theorem read_eq_stop {otherwise ending : Ending}
    (h : state.read classes haystack cursor otherwise = .stop ending) : ending = otherwise := by
  unfold read at h
  split at h
  · cases h; rfl
  · cases h

/-- Everything that a move to another state can be. -/
theorem move_eq_goto_iff {next : StateId} {cursor' : Nat} :
    state.move classes haystack cursor = .ok (.goto next cursor') ↔
      (state.kind = .start ∧ cursor' = cursor ∧
        ∃ config, StartConfig.ofOffset? haystack cursor = some config ∧
          state.table.get? config.index = some next) ∨
      ((state.kind = .matcher ∨ state.kind = .traceFinder) ∧ cursor' = cursor + 1 ∧
        ∃ b, haystack[cursor]? = some b ∧
          state.table.get? (classes.get b).toNat = some next) := by
  unfold move
  cases state.kind with
  | start =>
    cases StartConfig.ofOffset? haystack cursor with
    | none => simp
    | some config =>
      cases entry : state.table.get? config.index with
      | none => simp [entry]
      | some id => simp [entry, eq_comm, and_comm]
  | matcher => simp [read_eq_goto_iff, successor?_eq_some_iff, and_comm]
  | final => simp
  | traceFinder => simp [read_eq_goto_iff, successor?_eq_some_iff, and_comm]

theorem ending_of_move {ending : Ending}
    (h : state.move classes haystack cursor = .ok (.stop ending)) :
    ending = state.kind.ending := by
  unfold move at h
  cases kind : state.kind with
  | start =>
    simp only [kind] at h
    split at h
    · cases h
    · split at h
      · cases h; rfl
      · cases h
  | matcher =>
    simp only [kind, Except.ok.injEq] at h
    exact read_eq_stop h
  | final => simp only [kind] at h; cases h; rfl
  | traceFinder =>
    simp only [kind, Except.ok.injEq] at h
    exact read_eq_stop h

/-- Only beyond the haystack there is no move. -/
theorem exists_move (state : State) (classes : ByteClasses) (le : cursor ≤ haystack.size) :
    ∃ move, state.move classes haystack cursor = .ok move := by
  obtain ⟨config, here⟩ := Option.isSome_iff_exists.1 (StartConfig.ofOffset?_isSome.2 le)
  unfold State.move
  cases state.kind with
  | start =>
    cases entry : state.table.get? config.index with
    | none => exact ⟨.stop .rejected, by simp [here, entry]⟩
    | some next => exact ⟨.goto next cursor, by simp [here, entry]⟩
  | matcher => exact ⟨_, rfl⟩
  | final => exact ⟨_, rfl⟩
  | traceFinder => exact ⟨_, rfl⟩

end State

namespace Automaton

variable {automaton : Automaton} {haystack : Haystack} {v w : Visit} {visits : List Visit}

theorem step_iff :
    automaton.Step haystack v w ↔ ∃ state, automaton.state? v.id = some state ∧
      state.move automaton.classes haystack v.cursor = .ok (.goto w.id w.cursor) := by
  constructor
  · intro step
    cases step with
    | enter found kind here entry =>
      exact ⟨_, found, State.move_eq_goto_iff.2 (.inl ⟨kind, rfl, _, here, entry⟩)⟩
    | read found kind byte entry =>
      exact ⟨_, found, State.move_eq_goto_iff.2 (.inr ⟨kind, rfl, _, byte, entry⟩)⟩
  · intro follows
    obtain ⟨state, found, moved⟩ := follows
    obtain ⟨id, cursor⟩ := w
    rcases State.move_eq_goto_iff.1 moved with
      ⟨kind, rfl, config, here, entry⟩ | ⟨kind, rfl, b, byte, entry⟩
    · exact .enter found kind here entry
    · exact .read found kind byte entry

theorem not_step_of_successor?_eq_none {state : State} (found : automaton.state? v.id = some state)
    (kind : state.kind ≠ .start)
    (stuck : state.successor? automaton.classes haystack v.cursor = none) (w : Visit) :
    ¬automaton.Step haystack v w := by
  intro step
  cases step with
  | enter found' kind' _ _ =>
    cases found.symm.trans found'
    exact kind kind'
  | read found' _ byte entry =>
    cases found.symm.trans found'
    have next := State.successor?_eq_some_iff.2 ⟨_, byte, entry⟩
    cases stuck.symm.trans next

theorem Step.unique {w' : Visit} (h : automaton.Step haystack v w)
    (h' : automaton.Step haystack v w') : w = w' := by
  obtain ⟨state, found, moved⟩ := step_iff.1 h
  obtain ⟨state', found', moved'⟩ := step_iff.1 h'
  rw [found] at found'
  cases found'
  rw [moved] at moved'
  obtain ⟨id, cursor⟩ := w
  obtain ⟨id', cursor'⟩ := w'
  cases moved'
  rfl

theorem Step.target (wf : automaton.WellFormed) (step : automaton.Step haystack v w) :
    ∃ state, automaton.state? w.id = some state := by
  cases step with
  | enter found _ _ entry =>
    obtain ⟨target, found', -⟩ := wf.target found entry
    exact ⟨target, found'⟩
  | read found _ _ entry =>
    obtain ⟨target, found', -⟩ := wf.target found entry
    exact ⟨target, found'⟩

theorem Step.cursor_le (step : automaton.Step haystack v w) (inside : v.cursor ≤ haystack.size) :
    w.cursor ≤ haystack.size := by
  cases step with
  | enter => exact inside
  | read _ _ byte _ => exact (Array.getElem?_eq_some_iff.1 byte).1

/-! ## Runs -/

/-- No visit begins two different runs. -/
theorem Run.unique {other : List Visit} (run : automaton.Run haystack v visits)
    (run' : automaton.Run haystack v other) : visits = other := by
  induction run generalizing other with
  | last stuck =>
    cases run' with
    | last => rfl
    | step step => exact absurd step (stuck _)
  | step step _ ih =>
    cases run' with
    | last stuck => exact absurd step (stuck _)
    | step step' rest =>
      cases step.unique step'
      rw [ih rest]

/-- A visit begins one run and no other. -/
theorem Run.iff_eq (run : automaton.Run haystack v visits) (other : List Visit) :
    automaton.Run haystack v other ↔ other = visits := by
  constructor
  · intro run'
    exact run'.unique run
  · intro same
    rw [same]
    exact run

theorem Run.exists_eq_cons (run : automaton.Run haystack v visits) :
    ∃ rest, visits = v :: rest := by
  cases run with
  | last => exact ⟨_, rfl⟩
  | step => exact ⟨_, rfl⟩

/-- A bound on the number of visits that follow: two for each byte ahead, and one more from a start
state. -/
def visitsAhead (automaton : Automaton) (haystack : Haystack) (v : Visit) : Nat :=
  2 * (haystack.size - v.cursor) +
    if (automaton.state? v.id).map State.kind = some .start then 1 else 0

theorem visitsAhead_le (automaton : Automaton) (haystack : Haystack) (v : Visit) :
    automaton.visitsAhead haystack v + 1 ≤ 2 * (haystack.size - v.cursor + 1) := by
  unfold visitsAhead
  split <;> omega

/-- The cursor alone does not decide whether a run ends, since start states leave it where it is.
But no start state follows another one. -/
theorem Step.visitsAhead_lt (wf : automaton.WellFormed) (step : automaton.Step haystack v w) :
    automaton.visitsAhead haystack w < automaton.visitsAhead haystack v := by
  unfold visitsAhead
  cases step with
  | enter found kind here entry =>
    obtain ⟨target, found', not_both⟩ := wf.target found entry
    have not_start : target.kind ≠ .start := fun start => not_both ⟨kind, start⟩
    simp [found, found', kind, not_start]
  | read found kind byte entry =>
    obtain ⟨inside, -⟩ := Array.getElem?_eq_some_iff.1 byte
    dsimp only
    split <;> split <;> omega

theorem exists_run (wf : automaton.WellFormed) (haystack : Haystack) (v : Visit) :
    ∃ visits, automaton.Run haystack v visits ∧
      visits.length ≤ automaton.visitsAhead haystack v + 1 := by
  -- The cursor need not move in a step, but the bound on the visits ahead goes down.
  induction ahead : automaton.visitsAhead haystack v using Nat.strongRecOn generalizing v with
  | ind n ih =>
    by_cases next : ∃ w, automaton.Step haystack v w
    · obtain ⟨w, step⟩ := next
      have fewer := step.visitsAhead_lt wf
      obtain ⟨visits, run, length⟩ := ih _ (ahead ▸ fewer) w rfl
      refine ⟨v :: visits, .step step run, ?_⟩
      show visits.length + 1 ≤ _
      omega
    · refine ⟨[v], .last fun w step => next ⟨w, step⟩, ?_⟩
      simp

end Automaton
end ByteDFA
