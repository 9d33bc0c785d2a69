import ByteDFA.Proofs.Automaton.Gathering
import ByteDFA.Proofs.Search.Rounds

/-!
# Automata that search alike

Two automata cannot be told apart by searching if their states can be related so that related states
do the same and move to related states. How the states are numbered and how many of them there are
makes no difference, and neither does how the bytes are classed: what matters of a table is where it
leads on a byte. An attempt is then the same step by step, whatever its budget (`attempt_eq`), the
accelerators have the same needles (`accelerator_eq`), and so whole reports are equal (`report_eq`).
-/

set_option autoImplicit false

namespace ByteDFA

variable {left right : Automaton} {R : StateId → StateId → Prop} {haystack : Haystack}

/-- Two states with the same role that lead to related states. -/
structure State.Mirrors (left right : Automaton) (R : StateId → StateId → Prop) (s t : State) :
    Prop where
  role : s.role = t.role
  entry : s.kind = .start → ∀ config : StartConfig,
    Option.Rel R (s.table.get? config.index) (t.table.get? config.index)
  successor : s.kind = .matcher ∨ s.kind = .traceFinder → ∀ b : UInt8,
    Option.Rel R (s.table.get? (left.classes.get b).toNat)
      (t.table.get? (right.classes.get b).toNat)

/-- Related identifiers belong to states that mirror each other. -/
structure Automaton.Bisimulation (left right : Automaton) (R : StateId → StateId → Prop) :
    Prop where
  mirrors : ∀ {x y : StateId}, R x y →
    ∃ s t, left.state? x = some s ∧ right.state? y = some t ∧ s.Mirrors left right R t

/-! ## Attempts -/

namespace State

variable {s t : State}

theorem mark_congr (role : s.role = t.role) (frame : Frame) : s.mark frame = t.mark frame := by
  unfold mark slots accept
  rw [role]

theorem Mirrors.kind (mirrors : s.Mirrors left right R t) : s.kind = t.kind :=
  congrArg Role.kind mirrors.role

theorem Mirrors.successor? (mirrors : s.Mirrors left right R t) (haystack : Haystack)
    (reads : s.kind = .matcher ∨ s.kind = .traceFinder) (cursor : Nat) :
    Option.Rel R (s.successor? left.classes haystack cursor)
      (t.successor? right.classes haystack cursor) := by
  unfold State.successor?
  cases haystack[cursor]? with
  | none => exact .none
  | some b => exact mirrors.successor reads b

/-- What a move of one state and a move of the other have in common. -/
inductive SameMove (R : StateId → StateId → Prop) : Except Fault Move → Except Fault Move → Prop
  | error (cause : Fault) : SameMove R (.error cause) (.error cause)
  | stop (ending : Ending) : SameMove R (.ok (.stop ending)) (.ok (.stop ending))
  | goto {x y : StateId} (related : R x y) (cursor : Nat) :
    SameMove R (.ok (.goto x cursor)) (.ok (.goto y cursor))

theorem Mirrors.read (mirrors : s.Mirrors left right R t)
    (reads : s.kind = .matcher ∨ s.kind = .traceFinder) (cursor : Nat) (otherwise : Ending) :
    SameMove R (.ok (s.read left.classes haystack cursor otherwise))
      (.ok (t.read right.classes haystack cursor otherwise)) := by
  have next := mirrors.successor? haystack reads cursor
  unfold State.read
  generalize s.successor? left.classes haystack cursor = a,
    t.successor? right.classes haystack cursor = b at next
  cases next with
  | none => exact .stop otherwise
  | some related => exact .goto related (cursor + 1)

theorem Mirrors.move (mirrors : s.Mirrors left right R t) (haystack : Haystack) (cursor : Nat) :
    SameMove R (s.move left.classes haystack cursor) (t.move right.classes haystack cursor) := by
  unfold State.move
  rw [← mirrors.kind]
  cases kind : s.kind with
  | start =>
    cases StartConfig.ofOffset? haystack cursor with
    | none => exact .error _
    | some config =>
      have next := mirrors.entry kind config
      dsimp only
      generalize s.table.get? config.index = a, t.table.get? config.index = b at next
      cases next with
      | none => exact .stop _
      | some related => exact .goto related cursor
  | matcher => exact mirrors.read (.inl kind) cursor _
  | final => exact .stop _
  | traceFinder => exact mirrors.read (.inr kind) cursor _

end State

namespace Automaton.Bisimulation

theorem attempt_eq (bisimulation : left.Bisimulation right R) (haystack : Haystack) :
    ∀ (budget : Nat) {x y : StateId} (frame : Frame), R x y →
      left.attempt haystack budget x frame = right.attempt haystack budget y frame := by
  intro budget
  induction budget with
  | zero =>
    intro x y frame _
    rfl
  | succ budget ih =>
    intro x y frame related
    obtain ⟨s, t, at_x, at_y, mirrors⟩ := bisimulation.mirrors related
    rw [attempt, attempt, at_x, at_y]
    dsimp only
    rw [State.mark_congr mirrors.role]
    have moves := mirrors.move haystack (t.mark frame).cursor
    generalize s.move left.classes haystack (t.mark frame).cursor = m,
      t.move right.classes haystack (t.mark frame).cursor = m' at moves
    cases moves with
    | error cause => rfl
    | stop ending => rfl
    | goto related cursor => exact ih _ related

/-! ## Accelerators -/

/-- Two tables that have a successor on the same bytes. -/
def SameLeads (left right : Automaton) (table table' : TransitionTable) : Prop :=
  ∀ b, (table.get? (left.classes.get b).toNat).isSome =
    (table'.get? (right.classes.get b).toNat).isSome

theorem entryTable?_rel (bisimulation : left.Bisimulation right R) {x y : StateId}
    (related : R x y) :
    Option.Rel (SameLeads left right) (Accelerator.entryTable? left.state? x)
      (Accelerator.entryTable? right.state? y) := by
  obtain ⟨s, t, at_x, at_y, mirrors⟩ := bisimulation.mirrors related
  unfold Accelerator.entryTable?
  rw [at_x, at_y]
  obtain ⟨id, table, role⟩ := s
  obtain ⟨id', table', role'⟩ := t
  cases mirrors.role
  cases role with
  | start => exact .none
  | final => exact .none
  | traceFinder => exact .none
  | matcher slots accept =>
    cases accept with
    | some extra => exact .none
    | none =>
      refine .some fun b => ?_
      have next := mirrors.successor (.inl rfl) b
      dsimp only at next
      generalize table.get? (left.classes.get b).toNat = a,
        table'.get? (right.classes.get b).toNat = a' at next ⊢
      cases next with
      | none => rfl
      | some => rfl

section Entries

variable {s t : State} {config : StartConfig} {b : UInt8}

/-- For each configuration there are tables behind both entries that lead on on the same bytes, or
there is a table on neither side. -/
theorem entered_rel (bisimulation : left.Bisimulation right R)
    (mirrors : s.Mirrors left right R t) (kind : s.kind = .start) (config : StartConfig) :
    Option.Rel (SameLeads left right)
      ((s.table.get? config.index).bind (Accelerator.entryTable? left.state?))
      ((t.table.get? config.index).bind (Accelerator.entryTable? right.state?)) := by
  have entry := mirrors.entry kind config
  generalize s.table.get? config.index = a, t.table.get? config.index = a' at entry
  cases entry with
  | none => exact .none
  | some related => exact bisimulation.entryTable?_rel related

theorem suits_iff (bisimulation : left.Bisimulation right R)
    (mirrors : s.Mirrors left right R t) (kind : s.kind = .start) :
    Accelerator.Suits left.state? s.table config ↔
      Accelerator.Suits right.state? t.table config := by
  have entry := mirrors.entry kind config
  have entered := bisimulation.entered_rel mirrors kind config
  simp only [Accelerator.Suits, Accelerator.enters_iff]
  generalize s.table.get? config.index = a, t.table.get? config.index = a' at entry entered ⊢
  refine or_congr ?_ ?_
  · cases entry with
    | none => exact Iff.rfl
    | some => exact iff_of_false nofun nofun
  · generalize a.bind _ = x, a'.bind _ = y at entered
    cases entered with
    | none => exact Iff.rfl
    | some => exact iff_of_true ⟨_, rfl⟩ ⟨_, rfl⟩

theorem begins_iff (bisimulation : left.Bisimulation right R)
    (mirrors : s.Mirrors left right R t) (kind : s.kind = .start) :
    Accelerator.Begins left.classes left.state? s.table config b ↔
      Accelerator.Begins right.classes right.state? t.table config b := by
  have entered := bisimulation.entered_rel mirrors kind config
  simp only [Accelerator.Begins, Accelerator.enters_iff]
  generalize (s.table.get? config.index).bind _ = x, (t.table.get? config.index).bind _ = y
    at entered
  cases entered with
  | none => simp
  | some same =>
    constructor
    · rintro ⟨_, ⟨⟩, goes_on⟩
      exact ⟨_, rfl, same b ▸ goes_on⟩
    · rintro ⟨_, ⟨⟩, goes_on⟩
      exact ⟨_, rfl, (same b).symm ▸ goes_on⟩

end Entries

theorem ofStart?_eq (bisimulation : left.Bisimulation right R) {s t : State}
    (mirrors : s.Mirrors left right R t) :
    Accelerator.ofStart? left.classes left.state? s =
      Accelerator.ofStart? right.classes right.state? t := by
  refine congrArg (Option.map Accelerator.ofSet) (Option.ext fun set => ?_)
  rw [Accelerator.gather?_eq_some_iff, Accelerator.gather?_eq_some_iff, ← mirrors.kind]
  refine and_congr_right fun kind => ?_
  simp only [bisimulation.suits_iff mirrors kind, bisimulation.begins_iff mirrors kind]

theorem accelerator_eq (bisimulation : left.Bisimulation right R)
    (unanchored : R left.unanchoredStart right.unanchoredStart) :
    left.accelerator = right.accelerator := by
  obtain ⟨s, t, at_left, at_right, mirrors⟩ := bisimulation.mirrors unanchored
  unfold Automaton.accelerator
  rw [at_left, at_right, Option.bind_some, Option.bind_some]
  exact bisimulation.ofStart?_eq mirrors

end Automaton.Bisimulation

/-! ## Searches -/

theorem Search.run_eq {search search' : Search}
    (bisimulation : search.automaton.Bisimulation search'.automaton R)
    (entry : R search.entry search'.entry) (haystack : search.haystack = search'.haystack)
    (accelerator : search.accelerator = search'.accelerator)
    (limit : search.limit = search'.limit) :
    ∀ (more offset budget : Nat) (frame : Frame) (tried : Array Nat),
      search.run more offset budget frame tried = search'.run more offset budget frame tried := by
  have candidate (offset : Nat) : search.candidate? offset = search'.candidate? offset := by
    rw [candidate?, candidate?, haystack, accelerator]
  have attempt (budget offset : Nat) (frame : Frame) :
      search.attempt budget offset frame = search'.attempt budget offset frame := by
    rw [Search.attempt, Search.attempt, haystack]
    exact bisimulation.attempt_eq _ _ _ entry
  intro more
  induction more with
  | zero =>
    intro offset budget frame tried
    rw [run.eq_def, run.eq_def search']
    simp only [candidate, attempt, limit]
  | succ more ih =>
    intro offset budget frame tried
    rw [run.eq_def, run.eq_def search']
    simp only [candidate, attempt, limit, ih]

/-- Automata with related starts and as many groups cannot be told apart by any search. -/
theorem Executor.report_eq (bisimulation : left.Bisimulation right R)
    (groups : left.groupCount = right.groupCount)
    (anchored : R left.anchoredStart right.anchoredStart)
    (unanchored : R left.unanchoredStart right.unanchoredStart) (executor : Executor)
    (input : Input) : executor.report left input = executor.report right input := by
  have start : R (left.startFor input.anchored) (right.startFor input.anchored) := by
    unfold Automaton.startFor
    split
    · exact anchored
    · exact unanchored
  have slotCount : left.slotCount = right.slotCount := by
    rw [Automaton.slotCount, Automaton.slotCount, groups]
  have accelerator : (executor.plan left input).accelerator =
      (executor.plan right input).accelerator := by
    rw [plan, plan, bisimulation.accelerator_eq unanchored]
  have same : ∀ more offset budget frame tried,
      (executor.plan left input).run more offset budget frame tried =
        (executor.plan right input).run more offset budget frame tried :=
    Search.run_eq bisimulation start rfl accelerator rfl
  by_cases inside : input.start ≤ input.haystack.size
  · rw [report_of_le inside, report_of_le inside]
    simp only [slotCount, same]
  · have beyond := Nat.lt_of_not_le inside
    rw [report, report, if_pos beyond, if_pos beyond]

theorem Executor.search_eq (bisimulation : left.Bisimulation right R)
    (groups : left.groupCount = right.groupCount)
    (anchored : R left.anchoredStart right.anchoredStart)
    (unanchored : R left.unanchoredStart right.unanchoredStart) (executor : Executor)
    (input : Input) : executor.search left input = executor.search right input :=
  congrArg Report.outcome (report_eq bisimulation groups anchored unanchored executor input)

end ByteDFA
