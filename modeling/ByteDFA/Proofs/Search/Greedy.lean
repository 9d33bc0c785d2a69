import ByteDFA.Proofs.Search.Attempts

/-!
# Greedy captures

Which offsets an anchored search reports, told from its run alone. A run may save many matches on
its way: the last of them counts, whatever is recorded afterwards. The slots of that match hold the
cursor of the latest visit that recorded them, however often the run came back to a state before.
-/

set_option autoImplicit false

namespace ByteDFA
namespace Automaton

variable {automaton : Automaton} {haystack : Haystack} {v w : Visit} {visits : List Visit}

/-- A match is saved in visits to final states and to matchers with accept slots. -/
def Accepts (automaton : Automaton) (v : Visit) : Prop :=
  ∃ state, automaton.state? v.id = some state ∧
    (state.kind = .final ∨ ∃ slots extra, state.role = .matcher slots (some extra))

/-- What a slot holds in the match that is saved in a visit, after the visits before it. -/
def reported (automaton : Automaton) (before : List Visit) (v : Visit) (slot : Nat) :
    Option Nat :=
  if (automaton.acceptAt v).any (·.contains slot) then some v.cursor
  else (automaton.latest? (before ++ [v]) slot).map Visit.cursor

/-- The captures are those of the match that is saved in a visit, after the visits before it. -/
structure SavedAt (automaton : Automaton) (haystack : Haystack) (before : List Visit) (v : Visit)
    (captures : Captures) : Prop where
  size : captures.slots.size = automaton.slotCount
  slot : ∀ slot < 2 * automaton.groupCount,
    captures.slots[slot]? = some ((automaton.reported before v slot).bind Offset.ofNat?)
  /-- If all offsets of the haystack fit into a slot, the slots hold just what is to be reported. -/
  offset : haystack.size < Offset.limit → ∀ slot < 2 * automaton.groupCount,
    captures.offset? slot = automaton.reported before v slot

theorem accepts_iff : automaton.Accepts v ↔ ∃ extra, automaton.acceptAt v = some extra := by
  unfold Accepts acceptAt
  cases automaton.state? v.id with
  | none => simp
  | some state =>
    obtain ⟨id, table, role⟩ := state
    cases role with
    | start => simp [State.kind, State.accept, Role.kind, Role.accept]
    | matcher slots accept => simp [State.kind, State.accept, Role.kind, Role.accept]
    | final => simp [State.kind, State.accept, Role.kind, Role.accept]
    | traceFinder => simp [State.kind, State.accept, Role.kind, Role.accept]

theorem acceptAt_eq_none (h : ¬automaton.Accepts v) : automaton.acceptAt v = none := by
  cases accept : automaton.acceptAt v with
  | none => rfl
  | some extra => exact absurd (accepts_iff.2 ⟨extra, accept⟩) h

/-- Where some visit accepts, there is a last one that does. -/
theorem exists_last_accepts (h : ∃ v ∈ visits, automaton.Accepts v) :
    ∃ before v after, visits = before ++ v :: after ∧ automaton.Accepts v ∧
      ∀ w ∈ after, ¬automaton.Accepts w := by
  induction visits with
  | nil =>
    obtain ⟨v, mem, -⟩ := h
    exact absurd mem List.not_mem_nil
  | cons u rest ih =>
    by_cases later : ∃ v ∈ rest, automaton.Accepts v
    · obtain ⟨before, v, after, rfl, accepts, quiet⟩ := ih later
      exact ⟨u :: before, v, after, rfl, accepts, quiet⟩
    · obtain ⟨v, mem, accepts⟩ := h
      rcases List.mem_cons.1 mem with rfl | mem
      · exact ⟨[], v, rest, rfl, accepts, fun w mem accepts => later ⟨w, mem, accepts⟩⟩
      · exact absurd ⟨v, mem, accepts⟩ later

theorem Run.cursor_le (run : automaton.Run haystack v visits) (inside : v.cursor ≤ haystack.size) :
    ∀ w ∈ visits, w.cursor ≤ haystack.size := by
  induction run with
  | last stuck =>
    intro w mem
    rw [List.mem_singleton.1 mem]
    exact inside
  | step step run ih =>
    intro w mem
    rcases List.mem_cons.1 mem with rfl | mem
    · exact inside
    · exact ih (step.cursor_le inside) w mem

/-- The frame of an attempt begins without offsets, so a slot holds what the visits recorded. -/
theorem getElem?_replay_fresh (automaton : Automaton) (visits : List Visit) (start : Nat)
    {slot : Nat} (lt : slot < automaton.slotCount) :
    (automaton.replay (.fresh automaton.slotCount start) visits).slots[slot]? =
      some (((automaton.latest? visits slot).map Visit.cursor).bind Offset.ofNat?) := by
  rw [getElem?_replay]
  have blank : (Frame.fresh automaton.slotCount start).slots[slot]? = some none := by
    simp [Frame.fresh, Slots.blank, lt]
  rw [blank]
  cases automaton.latest? visits slot with
  | none => rfl
  | some w => rfl

theorem size_slots_replay (automaton : Automaton) (visits : List Visit) (frame : Frame) :
    (automaton.replay frame visits).slots.size = frame.slots.size := by
  induction visits generalizing frame with
  | nil => rfl
  | cons v rest ih =>
    have step : (automaton.visit frame v).slots.size = frame.slots.size := by
      unfold visit
      cases automaton.state? v.id with
      | none => rfl
      | some state =>
        rw [State.slots_mark, Slots.size_record]
        rfl
    rw [← step]
    exact ih _

/-- The match that is saved in a visit holds in every slot what is to be reported there. -/
theorem getElem?_saved (before : List Visit) (start : Nat) {extra : SlotSet}
    (accept : automaton.acceptAt v = some extra) {slot : Nat} (lt : slot < automaton.slotCount) :
    ((automaton.replay (.fresh automaton.slotCount start) (before ++ [v])).slots.record extra
        v.cursor)[slot]? =
      some ((automaton.reported before v slot).bind Offset.ofNat?) := by
  rw [Slots.getElem?_record, getElem?_replay_fresh automaton _ start lt, reported, accept]
  cases into : extra.contains slot with
  | true => simp [into]
  | false => simp [into]

/-- A reported offset is the cursor of one of the visits. -/
theorem exists_of_reported {before : List Visit} {slot offset : Nat}
    (h : automaton.reported before v slot = some offset) :
    ∃ w ∈ before ++ [v], w.cursor = offset := by
  unfold reported at h
  split at h
  · cases h
    exact ⟨v, List.mem_append_right _ (List.mem_singleton.2 rfl), rfl⟩
  · obtain ⟨w, latest, rfl⟩ := Option.map_eq_some_iff.1 h
    exact ⟨w, List.mem_reverse.1 (List.mem_of_find?_eq_some latest), rfl⟩

theorem search_anchored_replay {executor : Executor} {start : Nat} (wf : automaton.WellFormed)
    (unlimited : executor.config.stepLimit? = none) (inside : start ≤ haystack.size)
    (run : automaton.Run haystack ⟨automaton.anchoredStart, start⟩ visits) :
    executor.search automaton ⟨haystack, start, true⟩ =
      .ok ((automaton.replay (.fresh automaton.slotCount start) visits).saved.map Captures.mk) := by
  obtain ⟨state, found, -⟩ := wf.anchored
  obtain ⟨_, _, -, -, result⟩ := attemptFrom_of_run wf run found inside
  rw [Executor.search_anchored wf unlimited inside, result]
  rfl

theorem search_anchored_of_quiet {executor : Executor} {start : Nat} (wf : automaton.WellFormed)
    (unlimited : executor.config.stepLimit? = none) (inside : start ≤ haystack.size)
    (run : automaton.Run haystack ⟨automaton.anchoredStart, start⟩ visits)
    (quiet : ∀ v ∈ visits, ¬automaton.Accepts v) :
    executor.search automaton ⟨haystack, start, true⟩ = .ok none := by
  rw [search_anchored_replay wf unlimited inside run,
    saved_replay_of_quiet fun w mem => acceptAt_eq_none (quiet w mem)]
  rfl

/-- The match of the last accepting visit is the one that is reported. -/
theorem search_anchored_of_last_accepts {executor : Executor} {start : Nat}
    {before after : List Visit} (wf : automaton.WellFormed)
    (unlimited : executor.config.stepLimit? = none) (inside : start ≤ haystack.size)
    (run : automaton.Run haystack ⟨automaton.anchoredStart, start⟩ (before ++ v :: after))
    (accepts : automaton.Accepts v) (quiet : ∀ w ∈ after, ¬automaton.Accepts w) :
    ∃ captures, executor.search automaton ⟨haystack, start, true⟩ = .ok (some captures) ∧
      automaton.SavedAt haystack before v captures := by
  obtain ⟨extra, accept⟩ := accepts_iff.1 accepts
  have within : ∀ w ∈ before ++ [v], w.cursor ≤ haystack.size := by
    intro w mem
    apply run.cursor_le inside w
    rcases List.mem_append.1 mem with mem | mem
    · exact List.mem_append_left _ mem
    · exact List.mem_append_right _ (List.mem_cons.2 (.inl (List.mem_singleton.1 mem)))
  rw [search_anchored_replay wf unlimited inside run,
    saved_replay_append accept fun w mem => acceptAt_eq_none (quiet w mem)]
  refine ⟨_, rfl, ?_, fun slot lt => getElem?_saved before start accept lt, fun small slot lt => ?_⟩
  · rw [Slots.size_record, size_slots_replay, Frame.fresh, Slots.blank, Array.size_replicate]
  · rw [Captures.offset?, getElem?_saved before start accept lt]
    cases told : automaton.reported before v slot with
    | none => rfl
    | some offset =>
      obtain ⟨w, mem, rfl⟩ := exists_of_reported told
      exact Offset.map_toNat_ofNat? (Nat.lt_of_le_of_lt (within w mem) small)

/-- An anchored search follows its run, of which there is just one. It matches if some visit
accepts, and reports the match of the last visit that does. -/
theorem search_anchored_greedy {builder : Builder} (executor : Executor) (haystack : Haystack)
    (start : Nat) (built : builder.build = .ok automaton)
    (unlimited : executor.config.stepLimit? = none) (inside : start ≤ haystack.size) :
    ∃ visits, (∀ other, automaton.Run haystack ⟨automaton.anchoredStart, start⟩ other ↔
        other = visits) ∧
      ((∃ captures, executor.search automaton ⟨haystack, start, true⟩ = .ok (some captures)) ↔
        ∃ v ∈ visits, automaton.Accepts v) ∧
      ((∀ v ∈ visits, ¬automaton.Accepts v) →
        executor.search automaton ⟨haystack, start, true⟩ = .ok none) ∧
      ∀ before v after, visits = before ++ v :: after → automaton.Accepts v →
        (∀ w ∈ after, ¬automaton.Accepts w) →
        ∃ captures, executor.search automaton ⟨haystack, start, true⟩ = .ok (some captures) ∧
          automaton.SavedAt haystack before v captures := by
  have wf := WellFormed.of_build built
  obtain ⟨visits, run, -⟩ := exists_run wf haystack ⟨automaton.anchoredStart, start⟩
  have silent : (∀ v ∈ visits, ¬automaton.Accepts v) →
      executor.search automaton ⟨haystack, start, true⟩ = .ok none := by
    intro none_accepts
    rw [search_anchored_replay wf unlimited inside run,
      saved_replay_of_quiet fun w mem => acceptAt_eq_none (none_accepts w mem)]
    rfl
  have unique : ∀ other, automaton.Run haystack ⟨automaton.anchoredStart, start⟩ other ↔
      other = visits := by
    intro other
    constructor
    · intro run'
      exact run'.unique run
    · intro same
      subst same
      exact run
  refine ⟨visits, unique, ⟨?_, ?_⟩, silent, ?_⟩
  · intro matches_somewhere
    obtain ⟨captures, matched⟩ := matches_somewhere
    apply Classical.byContradiction
    intro none_accepts
    rw [silent fun v mem accepts => none_accepts ⟨v, mem, accepts⟩] at matched
    cases matched
  · intro some_accepts
    obtain ⟨before, v, after, rfl, accepts, quiet⟩ := exists_last_accepts some_accepts
    obtain ⟨captures, matched, -⟩ :=
      search_anchored_of_last_accepts wf unlimited inside run accepts quiet
    exact ⟨captures, matched⟩
  · intro before v after here accepts quiet
    subst here
    exact search_anchored_of_last_accepts wf unlimited inside run accepts quiet

/-- On `aax`, the automaton for one or more of `a` saves a match after each `a` and reports the
second of them. -/
theorem search_anchored_greedy_aPlus :
    ∃ captures, Executor.search {} (Builder.aPlus.freeze (.ofNat 0) (.ofNat 0))
        ⟨#[0x61, 0x61, 0x78], 0, true⟩ = .ok (some captures) ∧
      captures.offset? 0 = some 0 ∧ captures.offset? 1 = some 2 := by
  obtain ⟨visits, run_iff, -, -, reports⟩ :=
    search_anchored_greedy {} #[0x61, 0x61, 0x78] 0 Builder.build_aPlus rfl (by decide)
  have run : (Builder.aPlus.freeze (.ofNat 0) (.ofNat 0)).Run #[0x61, 0x61, 0x78] ⟨.ofNat 0, 0⟩
      [⟨.ofNat 0, 0⟩, ⟨.ofNat 1, 0⟩, ⟨.ofNat 2, 1⟩, ⟨.ofNat 2, 2⟩] := by
    refine .step (.enter rfl rfl rfl rfl) (.step (.read rfl (.inl rfl) rfl ?_)
      (.step (.read rfl (.inl rfl) rfl ?_) (.last ?_)))
    · decide +kernel
    · decide +kernel
    · intro w step
      cases step with
      | enter found kind _ _ =>
        cases found
        cases kind
      | read found _ byte entry =>
        cases found
        cases byte
        have rejects : (TransitionTable.ofList [some (.ofNat 2), none]).get?
            (Builder.aPlus.classes.get 0x78).toNat = none := by decide +kernel
        cases rejects.symm.trans entry
  cases (run_iff _).1 run
  have accepts : (Builder.aPlus.freeze (.ofNat 0) (.ofNat 0)).Accepts ⟨.ofNat 2, 2⟩ :=
    ⟨_, rfl, .inr ⟨_, _, rfl⟩⟩
  obtain ⟨captures, matched, saved⟩ :=
    reports [⟨.ofNat 0, 0⟩, ⟨.ofNat 1, 0⟩, ⟨.ofNat 2, 1⟩] ⟨.ofNat 2, 2⟩ [] rfl accepts (by simp)
  refine ⟨captures, matched, ?_, ?_⟩
  · rw [saved.offset (by decide) 0 (by decide)]
    decide
  · rw [saved.offset (by decide) 1 (by decide)]
    decide

end Automaton
end ByteDFA
