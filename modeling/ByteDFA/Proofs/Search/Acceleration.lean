import ByteDFA.Proofs.Automaton.Gathering
import ByteDFA.Proofs.Search.Attempts

/-!
# Acceleration is invisible

An accelerator passes over offsets, so every attempt that it saves has to be one that would have
been in vain. It is read off the entries of the start state: where none of the needles stands, an
attempt executes the start state, at most one matcher that does not accept, and rejects
(`attempt_of_not_needle`). This needs no well-formedness, since an automaton with a defect at an
entry has no accelerator.

The two searches are compared round by round. The accelerated one has used up no more of the budget
when it comes to an offset, so it succeeds wherever the other one does (`outcome_accelerated`).
-/

set_option autoImplicit false

namespace ByteDFA

/-! ## What an accelerator promises -/

namespace Accelerator

variable {accelerator : Accelerator} {classes : ByteClasses} {state? : StateId → Option State}
  {haystack : Haystack} {offset : Nat}

theorem entryTable?_eq_some_iff {entry : StateId} {table : TransitionTable} :
    entryTable? state? entry = some table ↔
      ∃ id slots, state? entry = some ⟨id, table, .matcher slots none⟩ := by
  unfold entryTable?
  constructor
  · intro h
    split at h
    · rename_i id table' slots found
      cases h
      exact ⟨id, slots, found⟩
    · cases h
  · intro h
    obtain ⟨id, slots, found⟩ := h
    rw [found]

/-- Every way into the automaton after offset 0 is a matcher that does not accept, and the needles
are the bytes on which one of them has a successor. -/
theorem entries_of_ofStart? {start : State} (h : ofStart? classes state? start = some accelerator) :
    start.kind = .start ∧
      ∀ config : StartConfig, config ≠ .text →
        ∀ entry, start.table.get? config.index = some entry →
          ∃ id table slots, state? entry = some ⟨id, table, .matcher slots none⟩ ∧
            ∀ b, (table.get? (classes.get b).toNat).isSome = true → b ∈ accelerator.needles := by
  obtain ⟨kind, suits, needles, -⟩ := exists_of_ofStart? h
  refine ⟨kind, fun config later entry at_config => ?_⟩
  rcases suits config later with without | ⟨table, enters⟩
  · cases at_config.symm.trans without
  · obtain ⟨entry', at_config', at_entry⟩ := enters
    cases at_config.symm.trans at_config'
    obtain ⟨id, slots, found⟩ := entryTable?_eq_some_iff.1 at_entry
    exact ⟨id, table, slots, found, fun b goes_on =>
      (needles b).2 ⟨config, later, table, ⟨entry, at_config, at_entry⟩, goes_on⟩⟩

theorem find?_of_needle {b : UInt8} (byte : haystack[offset]? = some b)
    (needle : b ∈ accelerator.needles) : accelerator.find? haystack offset = some offset :=
  find?_eq_some_iff.2 ⟨Nat.le_refl _, ⟨b, needle, byte⟩, fun _ le before =>
    absurd before (Nat.not_lt_of_le le)⟩

theorem find?_of_not_needle
    (not_needle : ∀ b, haystack[offset]? = some b → b ∉ accelerator.needles) :
    accelerator.find? haystack offset = accelerator.find? haystack (offset + 1) := by
  refine Option.ext fun i => ?_
  rw [find?_eq_some_iff, find?_eq_some_iff]
  exact (Finder.firstFrom_succ_iff fun b mem byte => not_needle b byte mem).symm

theorem find?_of_size_le (beyond : haystack.size ≤ offset) :
    accelerator.find? haystack offset = none := by
  refine Option.eq_none_iff_forall_ne_some.2 fun i finds => ?_
  obtain ⟨le, lt⟩ := find?_bounds finds
  exact Nat.not_lt_of_le (Nat.le_trans beyond le) lt

end Accelerator

theorem StartConfig.ne_text_of_ofOffset? {haystack : Haystack} {offset : Nat}
    {config : StartConfig} (later : offset ≠ 0) (here : ofOffset? haystack offset = some config) :
    config ≠ .text := by
  obtain ⟨n, rfl⟩ := Nat.exists_eq_succ_of_ne_zero later
  obtain ⟨b, -, rfl⟩ := Option.map_eq_some_iff.1 here
  unfold afterByte
  split
  · decide
  · split <;> decide

/-! ## The attempts that are passed over -/

theorem State.saved_mark_of_accept_eq_none {state : State} {frame : Frame}
    (accept : state.accept = none) : (state.mark frame).saved = frame.saved := by
  unfold mark
  rw [accept]
  rfl

theorem State.accept_eq_none_of_kind {state : State} (kind : state.kind = .start) :
    state.accept = none := by
  obtain ⟨id, table, role⟩ := state
  cases role with
  | start => rfl
  | matcher => cases kind
  | final => cases kind
  | traceFinder => cases kind

namespace Automaton

variable {automaton : Automaton} {accelerator : Accelerator} {haystack : Haystack} {offset : Nat}

theorem attempt_of_not_needle (known : automaton.accelerator = some accelerator)
    (later : offset ≠ 0) (inside : offset ≤ haystack.size)
    (not_needle : ∀ b, haystack[offset]? = some b → b ∉ accelerator.needles)
    (budget : Nat) (frame : Frame) (here : frame.cursor = offset) :
    (automaton.attempt haystack budget automaton.unanchoredStart frame).stop = .cut ∨
      ((automaton.attempt haystack budget automaton.unanchoredStart frame).stop =
          .ended .rejected ∧
        (automaton.attempt haystack budget automaton.unanchoredStart frame).frame.saved =
          frame.saved) := by
  obtain ⟨start, found, of_start⟩ := Option.bind_eq_some_iff.1 known
  obtain ⟨kind, entries⟩ := Accelerator.entries_of_ofStart? of_start
  obtain ⟨config, at_offset⟩ :=
    Option.isSome_iff_exists.1 (StartConfig.ofOffset?_isSome.2 inside)
  have not_text := StartConfig.ne_text_of_ofOffset? later at_offset
  subst here
  cases budget with
  | zero => exact .inl rfl
  | succ budget =>
    have marked : (start.mark frame).saved = frame.saved :=
      State.saved_mark_of_accept_eq_none (State.accept_eq_none_of_kind kind)
    cases at_config : start.table.get? config.index with
    | none =>
      have moved : start.move automaton.classes haystack frame.cursor = .ok (.stop .rejected) := by
        simp [State.move, kind, at_offset, at_config]
      rw [attempt_stop budget found moved]
      exact .inr ⟨rfl, marked⟩
    | some entry =>
      obtain ⟨id, table, slots, found', leads⟩ := entries config not_text entry at_config
      have moved : start.move automaton.classes haystack frame.cursor =
          .ok (.goto entry frame.cursor) := by
        simp [State.move, kind, at_offset, at_config]
      rw [attempt_goto budget found moved]
      cases budget with
      | zero => exact .inl rfl
      | succ budget =>
        -- A successor on the byte at the offset would make this byte a needle.
        have stuck : State.successor? automaton.classes haystack
            ⟨id, table, .matcher slots none⟩ frame.cursor = none := by
          cases next : State.successor? automaton.classes haystack
              ⟨id, table, .matcher slots none⟩ frame.cursor with
          | none => rfl
          | some target =>
            obtain ⟨b, byte, at_byte⟩ := State.successor?_eq_some_iff.1 next
            exact absurd (leads b (Option.isSome_iff_exists.2 ⟨_, at_byte⟩)) (not_needle b byte)
        have moved' : State.move automaton.classes haystack ⟨id, table, .matcher slots none⟩
            ((start.mark frame).moveTo frame.cursor).cursor = .ok (.stop .rejected) := by
          show Except.ok (State.read _ _ _ frame.cursor _) = _
          rw [State.read, stuck]
        rw [attempt_stop budget found' moved']
        exact .inr ⟨rfl, (State.saved_mark_of_accept_eq_none rfl).trans marked⟩

theorem attempt_left_le (automaton : Automaton) (haystack : Haystack) :
    ∀ (budget : Nat) (id : StateId) (frame : Frame),
      (automaton.attempt haystack budget id frame).left ≤ budget := by
  intro budget
  induction budget with
  | zero =>
    intro id frame
    exact Nat.le_refl 0
  | succ budget ih =>
    intro id frame
    rw [attempt]
    split
    · exact Nat.le_succ budget
    · dsimp only
      split
      · exact Nat.le_succ budget
      · exact Nat.le_succ budget
      · exact Nat.le_succ_of_le (ih _ _)

end Automaton

/-! ## The two searches -/

namespace Search

variable {search : Search} {accelerator : Accelerator} {more offset offset' budget : Nat}
  {tried : Array Nat}

/-- The same search with an accelerator. -/
def accelerated (search : Search) (accelerator : Accelerator) : Search :=
  { search with accelerator := some accelerator }

theorem candidate?_accelerated_of_ne_zero (later : offset ≠ 0) :
    (search.accelerated accelerator).candidate? offset =
      accelerator.find? search.haystack offset := if_neg later

/-- Where the accelerator does not stop, it goes on from the next offset. -/
theorem candidate?_accelerated (search : Search) (accelerator : Accelerator) (offset : Nat) :
    (search.accelerated accelerator).candidate? offset = some offset ∨
      (offset ≠ 0 ∧
        (∀ b, search.haystack[offset]? = some b → b ∉ accelerator.needles) ∧
        (search.accelerated accelerator).candidate? offset =
          (search.accelerated accelerator).candidate? (offset + 1)) := by
  by_cases first : offset = 0
  · subst first
    exact .inl rfl
  · rw [candidate?_accelerated_of_ne_zero first,
      candidate?_accelerated_of_ne_zero (Nat.succ_ne_zero offset)]
    by_cases needle : ∃ b, search.haystack[offset]? = some b ∧ b ∈ accelerator.needles
    · obtain ⟨b, byte, needle⟩ := needle
      exact .inl (Accelerator.find?_of_needle byte needle)
    · have not_needle : ∀ b, search.haystack[offset]? = some b → b ∉ accelerator.needles := by
        intro b byte mem
        exact needle ⟨b, byte, mem⟩
      exact .inr ⟨first, not_needle, Accelerator.find?_of_not_needle not_needle⟩

theorem candidate?_accelerated_of_size_lt (beyond : search.haystack.size < offset) :
    (search.accelerated accelerator).candidate? offset = none := by
  rw [candidate?_accelerated_of_ne_zero (Nat.ne_zero_of_lt beyond)]
  exact Accelerator.find?_of_size_le (Nat.le_of_lt beyond)

/-- Only the next candidate matters, not the offset from which it was looked for. -/
theorem outcome_congr (same : search.candidate? offset = search.candidate? offset') :
    search.outcome more offset budget tried = search.outcome more offset' budget tried := by
  cases here : search.candidate? offset with
  | none =>
    rw [outcome_of_no_candidate here, outcome_of_no_candidate (same ▸ here)]
  | some i =>
    have size : (Frame.fresh search.automaton.slotCount offset).slots.size =
        (Frame.fresh search.automaton.slotCount offset').slots.size := rfl
    rw [outcome, outcome, search.run_frame more offset budget tried size, run.eq_def,
      run.eq_def _ _ offset', ← same, here]

theorem outcome_accelerated_of_size_lt (beyond : search.haystack.size < offset) :
    (search.accelerated accelerator).outcome more offset budget tried = .ok none :=
  outcome_of_no_candidate (candidate?_accelerated_of_size_lt beyond)

/-- With a larger budget an attempt does the same and leaves more of it. -/
theorem attempt_accelerated {ending : Ending} {budget' : Nat} (accelerator : Accelerator)
    (ended : (search.freshAttempt budget offset).stop = .ended ending) (le : budget ≤ budget') :
    ((search.accelerated accelerator).freshAttempt budget' offset).stop = .ended ending ∧
      ((search.accelerated accelerator).freshAttempt budget' offset).frame =
        (search.freshAttempt budget offset).frame ∧
      (search.freshAttempt budget offset).left ≤
        ((search.accelerated accelerator).freshAttempt budget' offset).left := by
  obtain ⟨extra, rfl⟩ := Nat.exists_eq_add_of_le le
  have not_cut : (search.freshAttempt budget offset).stop ≠ .cut := by
    rw [ended]
    intro cut
    cases cut
  have same : (search.accelerated accelerator).freshAttempt (budget + extra) offset =
      { search.freshAttempt budget offset with
        left := (search.freshAttempt budget offset).left + extra } :=
    Automaton.attempt_add extra budget _ _ not_cut
  rw [same]
  exact ⟨ended, rfl, Nat.le_add_right _ _⟩

/-- An attempt at an offset that is passed over would have been in vain. -/
theorem attempt_of_skipped {ending : Ending}
    (entry : search.entry = search.automaton.unanchoredStart)
    (known : search.automaton.accelerator = some accelerator)
    (later : offset ≠ 0) (inside : offset ≤ search.haystack.size)
    (not_needle : ∀ b, search.haystack[offset]? = some b → b ∉ accelerator.needles)
    (ended : (search.freshAttempt budget offset).stop = .ended ending) :
    ending.decides (search.freshAttempt budget offset).frame = false := by
  unfold Search.freshAttempt at ended ⊢
  rw [entry] at ended ⊢
  rcases Automaton.attempt_of_not_needle known later inside not_needle budget
    (.fresh search.automaton.slotCount offset) rfl with cut | ⟨rejected, saved⟩
  · cases cut.symm.trans ended
  · cases rejected.symm.trans ended
    rw [Ending.decides, ← Frame.isSome_saved, saved]
    rfl

/-- Wherever a search that tries every offset succeeds, so does the accelerated one: when it comes
to an offset, it has at least as much of the budget left. -/
theorem outcome_accelerated (plain : search.accelerator = none)
    (entry : search.entry = search.automaton.unanchoredStart)
    (known : search.automaton.accelerator = some accelerator) {result : Option Captures} :
    ∀ (more more' offset budget budget' : Nat) (tried tried' : Array Nat),
      offset + more = search.haystack.size → more ≤ more' → budget ≤ budget' →
      search.outcome more offset budget tried = .ok result →
      (search.accelerated accelerator).outcome more' offset budget' tried' = .ok result := by
  intro more
  induction more with
  | zero =>
    intro more' offset budget budget' tried tried' reach _ cheaper ok
    have inside : offset ≤ search.haystack.size := Nat.le_of_eq reach
    have beyond : search.haystack.size < offset + 1 :=
      Nat.lt_succ_of_le (Nat.le_of_eq reach.symm)
    have here : search.candidate? offset = some offset := by rw [candidate?, plain]
    obtain ⟨ending, ended⟩ := ended_of_outcome_eq_ok here ok
    rcases candidate?_accelerated search accelerator offset with
      stays | ⟨later, not_needle, skips⟩
    · obtain ⟨ended', frame, -⟩ := attempt_accelerated accelerator ended cheaper
      cases decides : ending.decides (search.freshAttempt budget offset).frame with
      | true =>
        rw [outcome_of_decides here ended decides] at ok
        rw [outcome_of_decides stays ended' (frame ▸ decides), Attempt.captures?, frame]
        exact ok
      | false =>
        rw [outcome_zero_of_not_decides here ended decides] at ok
        -- More rounds may be allowed, but only candidates beyond the haystack are left for them.
        cases more' with
        | zero => rw [outcome_zero_of_not_decides stays ended' (frame ▸ decides), ok]
        | succ more' =>
          rw [outcome_succ_of_not_decides stays ended' (frame ▸ decides),
            outcome_accelerated_of_size_lt beyond, ok]
    · have vain := attempt_of_skipped entry known later inside not_needle ended
      rw [outcome_zero_of_not_decides here ended vain] at ok
      rw [outcome_congr skips, outcome_accelerated_of_size_lt beyond, ok]
  | succ more ih =>
    intro more' offset budget budget' tried tried' reach longer cheaper ok
    have inside : offset ≤ search.haystack.size := by omega
    have here : search.candidate? offset = some offset := by rw [candidate?, plain]
    obtain ⟨ending, ended⟩ := ended_of_outcome_eq_ok here ok
    rcases candidate?_accelerated search accelerator offset with
      stays | ⟨later, not_needle, skips⟩
    · obtain ⟨ended', frame, left⟩ := attempt_accelerated accelerator ended cheaper
      cases decides : ending.decides (search.freshAttempt budget offset).frame with
      | true =>
        rw [outcome_of_decides here ended decides] at ok
        rw [outcome_of_decides stays ended' (frame ▸ decides), Attempt.captures?, frame]
        exact ok
      | false =>
        rw [outcome_succ_of_not_decides here ended decides] at ok
        obtain ⟨more', rfl⟩ := Nat.exists_eq_add_of_lt longer
        rw [outcome_succ_of_not_decides stays ended' (frame ▸ decides)]
        exact ih _ (offset + 1) _ _ _ _ (by omega) (by omega) left ok
    -- The offset is passed over, and the other search spends a part of its budget there.
    · have vain := attempt_of_skipped entry known later inside not_needle ended
      rw [outcome_succ_of_not_decides here ended vain] at ok
      rw [outcome_congr skips]
      have used : (search.freshAttempt budget offset).left ≤ budget :=
        Automaton.attempt_left_le ..
      exact ih more' (offset + 1) _ budget' _ tried' (by omega) (by omega) (by omega) ok

end Search

namespace Executor

variable {config : SearchConfig} {automaton : Automaton} {input : Input}

theorem accelerator_plan_plain (config : SearchConfig) (automaton : Automaton) (input : Input) :
    (plan ⟨config.withAccelerate false⟩ automaton input).accelerator = none := by
  simp [plan]

/-- A search either does without an accelerator or is an accelerated one. -/
theorem plan_eq_or_accelerated (config : SearchConfig) (automaton : Automaton) (input : Input) :
    plan ⟨config⟩ automaton input = plan ⟨config.withAccelerate false⟩ automaton input ∨
      ∃ accelerator, input.anchored = false ∧ automaton.accelerator = some accelerator ∧
        plan ⟨config⟩ automaton input =
          (plan ⟨config.withAccelerate false⟩ automaton input).accelerated accelerator := by
  cases anchored : input.anchored with
  | true => exact .inl (by simp [plan, anchored])
  | false =>
    cases on : config.accelerate with
    | false => exact .inl (by simp [plan, on])
    | true =>
      cases known : automaton.accelerator with
      | none => exact .inl (by simp [plan, known])
      | some accelerator =>
        exact .inr ⟨accelerator, rfl, rfl, by simp [plan, Search.accelerated, anchored, on, known]⟩

/-- Whatever a search without acceleration finds, every search with the same limit finds. -/
theorem search_of_plain {result : Option Captures}
    (ok : Executor.search ⟨config.withAccelerate false⟩ automaton input = .ok result) :
    Executor.search ⟨config⟩ automaton input = .ok result := by
  have inside : input.start ≤ input.haystack.size := by
    apply Nat.le_of_not_lt
    intro beyond
    rw [search_of_lt beyond] at ok
    cases ok
  rw [search_eq_outcome inside] at ok ⊢
  rcases plan_eq_or_accelerated config automaton input with
    same | ⟨accelerator, unanchored, known, accelerated⟩
  · rw [same]
    exact ok
  · rw [unanchored] at ok ⊢
    rw [accelerated]
    have entry : (plan ⟨config.withAccelerate false⟩ automaton input).entry =
        automaton.unanchoredStart := by
      rw [plan, Automaton.startFor, unanchored]
      rfl
    exact Search.outcome_accelerated (accelerator_plan_plain config automaton input) entry known
      _ _ _ _ _ _ _ (Nat.add_sub_of_le inside) (Nat.le_refl _) (Nat.le_refl _) ok

/-- Without a limit, a search from an offset of the haystack has an outcome. -/
theorem exists_search_plain (wf : automaton.WellFormed) (unlimited : config.stepLimit? = none)
    (inside : input.start ≤ input.haystack.size) :
    ∃ result, Executor.search ⟨config.withAccelerate false⟩ automaton input = .ok result := by
  obtain ⟨haystack, start, anchored⟩ := input
  cases anchored with
  | true => exact ⟨_, search_anchored wf unlimited inside⟩
  | false => exact ⟨_, search_unanchored_plain wf unlimited inside⟩

/-- Acceleration is invisible: it changes nothing about what a search finds within its limit, and
nothing at all if there is no limit. -/
theorem search_withAccelerate {builder : Builder} (built : builder.build = .ok automaton)
    (config : SearchConfig) (input : Input) :
    (∀ result,
      Executor.search ⟨config.withAccelerate false⟩ automaton input = .ok result →
        Executor.search ⟨config.withAccelerate true⟩ automaton input = .ok result) ∧
      (config.stepLimit? = none →
        Executor.search ⟨config.withAccelerate true⟩ automaton input =
          Executor.search ⟨config.withAccelerate false⟩ automaton input) := by
  have kept : ∀ result,
      Executor.search ⟨config.withAccelerate false⟩ automaton input = .ok result →
        Executor.search ⟨config.withAccelerate true⟩ automaton input = .ok result := by
    intro result ok
    apply search_of_plain
    exact ok
  refine ⟨kept, ?_⟩
  intro unlimited
  by_cases inside : input.start ≤ input.haystack.size
  · obtain ⟨result, ok⟩ := exists_search_plain (.of_build built) unlimited inside
    rw [kept result ok, ok]
  · have beyond := Nat.lt_of_not_le inside
    rw [search_of_lt beyond, search_of_lt beyond]

/-- On `xxa`, the accelerated search finds the `a` as well, although it passes over an offset. -/
theorem search_withAccelerate_aPlus :
    Executor.search ⟨SearchConfig.withAccelerate {} true⟩
        (Builder.aPlus.freeze (.ofNat 0) (.ofNat 0)) ⟨#[0x78, 0x78, 0x61], 0, false⟩ =
      .ok (some ⟨#[Offset.ofNat? 2, Offset.ofNat? 3]⟩) := by
  refine (search_withAccelerate Builder.build_aPlus {} _).1 _ ?_
  have verdict : (Executor.report ⟨SearchConfig.withAccelerate {} false⟩
      (Builder.aPlus.freeze (.ofNat 0) (.ofNat 0)) ⟨#[0x78, 0x78, 0x61], 0, false⟩).verdict =
      .decided 2 .rejected 3 (some #[Offset.ofNat? 2, Offset.ofNat? 3]) := by decide +kernel
  rw [search, Report.outcome, verdict]
  rfl

end Executor
end ByteDFA
