import ByteDFA.Proofs.Builder.Recasting
import ByteDFA.Proofs.Search.Course

/-!
# Trace finders

A trace finder is a matcher that records nothing and never accepts, except that where it rejects it
stops the search as well. So it makes no difference to an attempt if all trace finders are replaced
by such matchers, apart from how the attempt is said to end (`attempt_untraced`), and no difference
to an anchored search. An unanchored search that finds a match finds the same one. One that is
stopped by a trace finder may find a match without it, but only further on (`search_untraced`).
-/

set_option autoImplicit false

namespace ByteDFA

/-! ## Without trace finders -/

/-- The role with a matcher that records nothing and does not accept in place of a trace finder. -/
def Role.untraced : Role → Role
  | .traceFinder => .matcher ∅ none
  | role => role

/-- The automaton with every trace finder replaced by a matcher. -/
def Automaton.untraced (automaton : Automaton) : Automaton :=
  automaton.mapRoles .untraced

/-- The builder with every trace finder replaced by a matcher. -/
def Builder.untraced (builder : Builder) : Builder :=
  builder.mapRoles .untraced

theorem Role.keeps_untraced : Keeps untraced := by
  constructor <;> intro role <;> cases role <;> simp [untraced, kind, slots, accept]

/-- The ending with a matcher in place of a trace finder. -/
def Ending.untraced : Ending → Ending
  | .hopeless => .rejected
  | ending => ending

def Move.untraced : Move → Move
  | .goto next cursor => .goto next cursor
  | .stop ending => .stop ending.untraced

def Stop.untraced : Stop → Stop
  | .ended ending => .ended ending.untraced
  | stop => stop

def Attempt.untraced (attempt : Attempt) : Attempt :=
  { attempt with stop := attempt.stop.untraced }

namespace Attempt

variable {attempt : Attempt}

theorem captures?_untraced (attempt : Attempt) : attempt.untraced.captures? = attempt.captures? :=
  rfl

theorem decisive_untraced_iff :
    attempt.untraced.Decisive ↔ attempt.frame.saved.isSome = true := by
  refine or_iff_left ?_
  show attempt.stop.untraced ≠ .ended .hopeless
  cases attempt.stop with
  | ended ending => cases ending <;> simp [Stop.untraced, Ending.untraced]
  | cut => simp [Stop.untraced]
  | fault => simp [Stop.untraced]

theorem decisive_of_untraced (decisive : attempt.untraced.Decisive) : attempt.Decisive :=
  .inl (decisive_untraced_iff.1 decisive)

/-- An attempt that decides a search without having saved a match ends in a trace finder. -/
theorem Decisive.stop_eq (decisive : attempt.Decisive) (vain : ¬attempt.untraced.Decisive) :
    attempt.stop = .ended .hopeless ∧ attempt.frame.saved = none := by
  rw [decisive_untraced_iff] at vain
  exact ⟨decisive.resolve_left vain, by simpa using vain⟩

end Attempt

/-! ## Attempts -/

theorem State.mark_mapRole {change : Role → Role} (keeps : Role.Keeps change) (state : State)
    (frame : Frame) : (state.mapRole change).mark frame = state.mark frame := by
  unfold mark
  rw [keeps.slots_mapRole, keeps.accept_mapRole]

theorem State.read_untraced (classes : ByteClasses) (haystack : Haystack) (state : State)
    (cursor : Nat) (ending : Ending) :
    state.read classes haystack cursor ending.untraced =
      (state.read classes haystack cursor ending).untraced := by
  unfold read
  cases state.successor? classes haystack cursor with
  | none => rfl
  | some next => rfl

theorem State.move_untraced (classes : ByteClasses) (haystack : Haystack) (state : State)
    (cursor : Nat) :
    (state.mapRole .untraced).move classes haystack cursor =
      (state.move classes haystack cursor).map Move.untraced := by
  obtain ⟨id, table, role⟩ := state
  cases role with
  | start slots =>
    show State.move classes haystack ⟨id, table, .start slots⟩ cursor = _
    unfold move
    dsimp only [kind, Role.kind]
    cases StartConfig.ofOffset? haystack cursor with
    | none => rfl
    | some config =>
      dsimp only
      cases table.get? config.index with
      | none => rfl
      | some next => rfl
  | matcher slots accept =>
    exact congrArg Except.ok (read_untraced classes haystack ⟨id, table, _⟩ cursor .rejected)
  | final => rfl
  | traceFinder =>
    exact congrArg Except.ok (read_untraced classes haystack ⟨id, table, _⟩ cursor .hopeless)

namespace Automaton

theorem attempt_untraced (automaton : Automaton) (haystack : Haystack) (budget : Nat)
    (id : StateId) (frame : Frame) :
    automaton.untraced.attempt haystack budget id frame =
      (automaton.attempt haystack budget id frame).untraced := by
  induction budget generalizing id frame with
  | zero => rfl
  | succ budget ih =>
    have found : automaton.untraced.state? id =
        (automaton.state? id).map (State.mapRole .untraced) := state?_recast ..
    have classes : automaton.untraced.classes = automaton.classes := rfl
    rw [attempt, attempt, found]
    cases automaton.state? id with
    | none => rfl
    | some state =>
      simp only [Option.map_some]
      rw [State.mark_mapRole Role.keeps_untraced, classes, State.move_untraced]
      cases state.move automaton.classes haystack (state.mark frame).cursor with
      | error => rfl
      | ok move =>
        cases move with
        | stop ending => rfl
        | goto next cursor => exact ih next _

theorem attemptFrom_untraced (automaton : Automaton) (haystack : Haystack) (id : StateId)
    (offset : Nat) :
    automaton.untraced.attemptFrom haystack id offset =
      (automaton.attemptFrom haystack id offset).untraced :=
  automaton.attempt_untraced ..

end Automaton

/-! ## Searches -/

namespace Executor

variable {executor : Executor} {automaton : Automaton} {haystack : Haystack} {start i j : Nat}

theorem search_untraced_anchored (wf : automaton.WellFormed) (wf' : automaton.untraced.WellFormed)
    (unlimited : executor.config.stepLimit? = none) (inside : start ≤ haystack.size) :
    executor.search automaton.untraced ⟨haystack, start, true⟩ =
      executor.search automaton ⟨haystack, start, true⟩ := by
  rw [search_anchored wf unlimited inside, search_anchored wf' unlimited inside,
    Automaton.attemptFrom_untraced, Attempt.captures?_untraced]
  rfl

/-- The offset of the attempt that decides an unanchored search without a limit. -/
abbrev DecidedAt (automaton : Automaton) (haystack : Haystack) (start i : Nat) : Prop :=
  IsFirst (fun k => (automaton.attemptAt haystack k).Decisive) start haystack.size i

theorem exists_decidedAt
    (decisive : ∃ k, start ≤ k ∧ k ≤ haystack.size ∧ (automaton.attemptAt haystack k).Decisive) :
    ∃ i, DecidedAt automaton haystack start i :=
  IsFirst.exists_of_exists decisive

/-- A trace finder has stopped the search at an offset, without a match, and a match is found
further on if it does not. -/
def StoppedShort (executor : Executor) (automaton : Automaton) (input : Input) : Prop :=
  ∃ i cursor j ending cursor' slots, i < j ∧
    (executor.report automaton input).verdict = .decided i .hopeless cursor none ∧
    (executor.report automaton.untraced input).verdict = .decided j ending cursor' (some slots)

theorem attemptAt_untraced (automaton : Automaton) (haystack : Haystack) (offset : Nat) :
    automaton.untraced.attemptAt haystack offset = (automaton.attemptAt haystack offset).untraced :=
  automaton.attemptFrom_untraced ..

theorem decisive_of_attemptAt_untraced
    (decisive : (automaton.untraced.attemptAt haystack i).Decisive) :
    (automaton.attemptAt haystack i).Decisive :=
  Attempt.decisive_of_untraced (attemptAt_untraced automaton haystack i ▸ decisive)

/-- If the attempt that decides the search has saved a match, then it decides the search without
trace finders as well. -/
theorem search_untraced_of_decisive (wf : automaton.WellFormed)
    (wf' : automaton.untraced.WellFormed) (unlimited : executor.config.stepLimit? = none)
    (inside : start ≤ haystack.size)
    (first : DecidedAt automaton haystack start i)
    (decisive : (automaton.untraced.attemptAt haystack i).Decisive) :
    executor.search automaton.untraced ⟨haystack, start, false⟩ =
      executor.search automaton ⟨haystack, start, false⟩ := by
  have first' : DecidedAt automaton.untraced haystack start i := by
    refine ⟨first.start_le, first.le_stop, decisive, fun k le lt decisive' => ?_⟩
    exact first.least k le lt (decisive_of_attemptAt_untraced decisive')
  rw [search_of_isFirst_decisive wf unlimited inside first,
    search_of_isFirst_decisive wf' unlimited inside first', attemptAt_untraced,
    Attempt.captures?_untraced]

/-- If it has not, then the attempt that decides the search without trace finders comes later. -/
theorem stoppedShort_of_isFirst (wf : automaton.WellFormed) (wf' : automaton.untraced.WellFormed)
    (unlimited : executor.config.stepLimit? = none)
    (first : DecidedAt automaton haystack start i)
    (first' : DecidedAt automaton.untraced haystack start j)
    (vain : ¬(automaton.untraced.attemptAt haystack i).Decisive) :
    executor.StoppedShort automaton ⟨haystack, start, false⟩ := by
  obtain ⟨ending, ended, verdict⟩ := verdict_of_isFirst_decisive wf unlimited first
  obtain ⟨ending', -, verdict'⟩ := verdict_of_isFirst_decisive wf' unlimited first'
  rw [attemptAt_untraced] at vain
  obtain ⟨hopeless, missing⟩ := first.holds.stop_eq vain
  cases hopeless.symm.trans ended
  rw [missing] at verdict
  have lt : i < j := by
    apply Nat.lt_of_not_le
    intro le
    rcases Nat.eq_or_lt_of_le le with rfl | lt
    · exact vain (attemptAt_untraced automaton haystack j ▸ first'.holds)
    · exact first.least j first'.start_le lt (decisive_of_attemptAt_untraced first'.holds)
  have saved := first'.holds
  rw [attemptAt_untraced, Attempt.decisive_untraced_iff, Option.isSome_iff_exists] at saved
  obtain ⟨slots, saved⟩ := saved
  rw [attemptAt_untraced, show (Attempt.untraced _).frame.saved = some slots from saved] at verdict'
  exact ⟨i, _, j, ending', _, slots, lt, verdict, verdict'⟩

theorem search_eq_none_of_vain (wf : automaton.WellFormed)
    (unlimited : executor.config.stepLimit? = none) (inside : start ≤ haystack.size)
    (vain : ∀ i, DecidedAt automaton haystack start i →
      ¬(automaton.untraced.attemptAt haystack i).Decisive) :
    executor.search automaton ⟨haystack, start, false⟩ = .ok none := by
  by_cases somewhere : ∃ k, start ≤ k ∧ k ≤ haystack.size ∧
      (automaton.attemptAt haystack k).Decisive
  · obtain ⟨i, first⟩ := exists_decidedAt somewhere
    have vain := vain i first
    rw [attemptAt_untraced] at vain
    obtain ⟨-, missing⟩ := first.holds.stop_eq vain
    rw [search_of_isFirst_decisive wf unlimited inside first, Attempt.captures?, missing]
    rfl
  · exact search_of_not_decisive wf unlimited inside fun k le inside decisive =>
      somewhere ⟨k, le, inside, decisive⟩

theorem search_untraced_unanchored (wf : automaton.WellFormed)
    (wf' : automaton.untraced.WellFormed) (unlimited : executor.config.stepLimit? = none)
    (inside : start ≤ haystack.size) :
    executor.search automaton.untraced ⟨haystack, start, false⟩ =
        executor.search automaton ⟨haystack, start, false⟩ ∨
      executor.search automaton ⟨haystack, start, false⟩ = .ok none ∧
        executor.StoppedShort automaton ⟨haystack, start, false⟩ := by
  by_cases saves : ∃ i, DecidedAt automaton haystack start i ∧
      (automaton.untraced.attemptAt haystack i).Decisive
  · obtain ⟨i, first, decisive⟩ := saves
    exact .inl (search_untraced_of_decisive wf wf' unlimited inside first decisive)
  have vain (i : Nat) (first : DecidedAt automaton haystack start i) :
      ¬(automaton.untraced.attemptAt haystack i).Decisive :=
    fun decisive => saves ⟨i, first, decisive⟩
  have missing := search_eq_none_of_vain wf unlimited inside vain
  by_cases later : ∃ k, start ≤ k ∧ k ≤ haystack.size ∧
      (automaton.untraced.attemptAt haystack k).Decisive
  · obtain ⟨j, first'⟩ := exists_decidedAt later
    obtain ⟨i, first⟩ := exists_decidedAt
      ⟨j, first'.start_le, first'.le_stop, decisive_of_attemptAt_untraced first'.holds⟩
    exact .inr ⟨missing, stoppedShort_of_isFirst wf wf' unlimited first first' (vain i first)⟩
  · refine .inl ?_
    rw [missing, search_of_not_decisive wf' unlimited inside]
    intro k le inside decisive
    exact later ⟨k, le, inside, decisive⟩

/-- A trace finder is nothing but an early stop. With matchers that do not accept in place of the
trace finders the automaton can be built as well. Then every anchored search has the same outcome,
and so does every unanchored search that finds a match. An unanchored search that does not have the
same outcome has been stopped without a match, and finds one at a later offset if it is not. -/
theorem search_untraced {builder : Builder} (built : builder.build = .ok automaton) :
    builder.untraced.build = .ok automaton.untraced ∧
      ∀ executor : Executor, executor.config.stepLimit? = none →
        ∀ (haystack : Haystack) (start : Nat),
          executor.search automaton.untraced ⟨haystack, start, true⟩ =
              executor.search automaton ⟨haystack, start, true⟩ ∧
            (∀ captures,
              executor.search automaton ⟨haystack, start, false⟩ = .ok (some captures) →
                executor.search automaton.untraced ⟨haystack, start, false⟩ =
                  .ok (some captures)) ∧
            (executor.search automaton.untraced ⟨haystack, start, false⟩ ≠
                executor.search automaton ⟨haystack, start, false⟩ →
              executor.search automaton ⟨haystack, start, false⟩ = .ok none ∧
                executor.StoppedShort automaton ⟨haystack, start, false⟩) := by
  have built' : builder.untraced.build = .ok automaton.untraced :=
    Builder.build_mapRoles built Role.keeps_untraced
  have wf := Automaton.WellFormed.of_build built
  have wf' := Automaton.WellFormed.of_build built'
  refine ⟨built', fun executor unlimited haystack start => ?_⟩
  rcases Nat.lt_or_ge haystack.size start with beyond | inside
  · have same (anchored : Bool) : executor.search automaton.untraced ⟨haystack, start, anchored⟩ =
        executor.search automaton ⟨haystack, start, anchored⟩ := by
      rw [search_of_lt beyond, search_of_lt beyond]
    exact ⟨same true, fun captures found => (same false).trans found, (absurd (same false) ·)⟩
  · refine ⟨search_untraced_anchored wf wf' unlimited inside, ?_⟩
    rcases search_untraced_unanchored wf wf' unlimited inside with same | ⟨missing, stopped⟩
    · exact ⟨fun captures found => same.trans found, (absurd same ·)⟩
    · refine ⟨fun captures found => ?_, fun _ => ⟨missing, stopped⟩⟩
      cases missing.symm.trans found

end Executor

/-- The role with a trace finder in place of a matcher that records nothing and does not accept. -/
def Role.traced (role : Role) : Role :=
  if role = .matcher ∅ none then .traceFinder else role

theorem Role.keeps_traced : Keeps traced := by
  constructor <;> intro role <;> by_cases quiet : role = .matcher ∅ none <;>
    simp [traced, quiet, kind, slots, accept]

/-- In the automaton for one or more of `a`, let a trace finder read the first byte. It still finds
the match in `aax`, but not the one in `xa`, because it gives up at the first byte. -/
theorem Executor.search_untraced_aPlus :
    ∃ automaton,
      (Builder.aPlus.mapRoles .traced).build = .ok automaton ∧
        Executor.search ⟨.withAccelerate {} false⟩ automaton.untraced
            ⟨#[0x61, 0x61, 0x78], 0, false⟩ =
          .ok (some ⟨#[Offset.ofNat? 0, Offset.ofNat? 2]⟩) ∧
        Executor.StoppedShort ⟨.withAccelerate {} false⟩ automaton ⟨#[0x78, 0x61], 0, false⟩ := by
  have built := Builder.build_mapRoles Builder.build_aPlus Role.keeps_traced
  obtain ⟨-, searches⟩ := search_untraced built
  refine ⟨_, built, ?_, ?_⟩
  · obtain ⟨-, found, -⟩ := searches ⟨.withAccelerate {} false⟩ rfl #[0x61, 0x61, 0x78] 0
    apply found
    have verdict : (Executor.report ⟨.withAccelerate {} false⟩
        ((Builder.aPlus.freeze (.ofNat 0) (.ofNat 0)).mapRoles .traced)
        ⟨#[0x61, 0x61, 0x78], 0, false⟩).verdict =
        .decided 0 .rejected 2 (some #[Offset.ofNat? 0, Offset.ofNat? 2]) := by decide +kernel
    rw [search, Report.outcome, verdict]
    rfl
  · obtain ⟨-, -, stopped⟩ := searches ⟨.withAccelerate {} false⟩ rfl #[0x78, 0x61] 0
    refine (stopped ?_).2
    have verdict : (Executor.report ⟨.withAccelerate {} false⟩
        ((Builder.aPlus.freeze (.ofNat 0) (.ofNat 0)).mapRoles .traced)
        ⟨#[0x78, 0x61], 0, false⟩).verdict = .decided 0 .hopeless 0 none := by decide +kernel
    have verdict' : (Executor.report ⟨.withAccelerate {} false⟩
        ((Builder.aPlus.freeze (.ofNat 0) (.ofNat 0)).mapRoles .traced).untraced
        ⟨#[0x78, 0x61], 0, false⟩).verdict =
        .decided 1 .rejected 2 (some #[Offset.ofNat? 1, Offset.ofNat? 2]) := by decide +kernel
    rw [search, Report.outcome, verdict', search, Report.outcome, verdict]
    intro same
    cases same

end ByteDFA
