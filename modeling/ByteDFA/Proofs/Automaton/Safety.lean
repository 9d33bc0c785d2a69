import ByteDFA.Automaton.Text
import ByteDFA.Proofs.Search.Safety

/-!
# Automata that have been built are safe to use

A builder may hold anything: states under wrong names, tables of any size, transitions to nowhere.
Freezing it never goes beyond what is there, and if it succeeds, then the automaton can be searched
and shown without a breach (`Builder.build_safe`). All of this rests on what has been validated. The
theory of searches needs no more of it than `Automaton.WellFormed`; the accelerator and the dump
also need to know how many entries a start state has.
-/

set_option autoImplicit false

namespace ByteDFA

/-! ## Guarded texts -/

/-- The number of characters that the buffer for the written form of a byte can hold. -/
def Byte.escapeRoom : Nat := 10

/-- The text that writes a byte, if the buffer can hold it. -/
def Byte.guardedEscaped (b : UInt8) : Except Breach String :=
  if escapeRoom < (escapedChars b).length then .error (.escapeTooLong b) else .ok (escaped b)

namespace Automaton

/-- The outline of the automaton. Its classes may show any byte. -/
def guardedOutline (automaton : Automaton) : Except Breach Outline :=
  match Byte.all.mapM Byte.guardedEscaped with
  | .error breach => .error breach
  | .ok _ => .ok automaton.outline

/-- The dump of the automaton. Its stretches of bytes may begin and end with any byte. -/
def guardedDump (automaton : Automaton) : Except Breach String :=
  match Byte.all.mapM Byte.guardedEscaped with
  | .error breach => .error breach
  | .ok _ => automaton.dump.mapError .fault

end Automaton

theorem exists_mapM_eq_ok {ε α β : Type} {f : α → Except ε β} :
    ∀ {items : List α}, (∀ item ∈ items, ∃ result, f item = .ok result) →
      ∃ results, items.mapM f = .ok results
  | [], _ => ⟨[], rfl⟩
  | item :: rest, succeeds => by
    obtain ⟨result, at_item⟩ := succeeds item List.mem_cons_self
    obtain ⟨results, at_rest⟩ :=
      exists_mapM_eq_ok fun item mem => succeeds item (List.mem_cons_of_mem _ mem)
    refine ⟨result :: results, ?_⟩
    rw [List.mapM_cons, at_item, at_rest]
    rfl

theorem Byte.length_escapedChars_le (b : UInt8) : (escapedChars b).length ≤ 4 := by
  unfold escapedChars
  split
  all_goals first
    | decide
    | split <;> simp

theorem Byte.exists_mapM_guardedEscaped :
    ∃ texts, Byte.all.mapM Byte.guardedEscaped = .ok texts := by
  apply exists_mapM_eq_ok
  intro b _
  have fits : (escapedChars b).length ≤ escapeRoom :=
    Nat.le_trans (length_escapedChars_le b) (by decide)
  exact ⟨escaped b, if_neg (Nat.not_lt_of_le fits)⟩

/-! ## What has been validated -/

namespace Builder

variable {builder : Builder} {anchored unanchored : StateId} {state : State}

theorem Valid.stateOk_of_mem_freeze (valid : builder.Valid anchored unanchored)
    (mem : state ∈ (builder.freeze anchored unanchored).states) : builder.StateOk state := by
  obtain ⟨place, in_place, here⟩ := Array.mem_filterMap.1 mem
  cases here
  exact valid.stateOk in_place

/-- A start state has one entry for each configuration. -/
theorem StateOk.size_of_start (ok : builder.StateOk state) (kind : state.kind = .start) :
    state.table.size = StartConfig.count := by
  rw [ok.size, kind]
  rfl

end Builder

/-! ## The dump -/

namespace Automaton

variable {automaton : Automaton} {state : State}

theorem exists_entryTexts_eq_ok :
    ∀ {entries : List (Option StateId)} {index : Nat},
      index + entries.length ≤ StartConfig.count →
      ∃ texts, entryTexts index entries = .ok texts
  | [], _, _ => ⟨[], rfl⟩
  | next :: rest, index, few => by
    rw [List.length_cons] at few
    have inside : index < StartConfig.all.length := by
      show index < StartConfig.count
      omega
    obtain ⟨texts, others⟩ := @exists_entryTexts_eq_ok rest (index + 1) (by omega)
    have config : StartConfig.ofIndex? index = some StartConfig.all[index] :=
      List.getElem?_eq_getElem inside
    rw [entryTexts, config]
    dsimp only
    rw [others]
    exact ⟨_, rfl⟩

theorem exists_stateLine_eq_ok (automaton : Automaton)
    (entries : state.kind = .start → state.table.size = StartConfig.count) :
    ∃ line, automaton.stateLine state = .ok line := by
  unfold stateLine transitionsText
  cases role : state.role with
  | start slots =>
    have size : 0 + state.table.toList.length ≤ StartConfig.count := by
      rw [TransitionTable.length_toList, Nat.zero_add]
      exact Nat.le_of_eq (entries (congrArg Role.kind role))
    obtain ⟨texts, at_entries⟩ := exists_entryTexts_eq_ok size
    dsimp only
    rw [at_entries]
    exact ⟨_, rfl⟩
  | matcher => exact ⟨_, rfl⟩
  | final => exact ⟨_, rfl⟩
  | traceFinder => exact ⟨_, rfl⟩

theorem exists_lines_eq_ok
    (entries : ∀ state ∈ automaton.states, state.kind = .start →
      state.table.size = StartConfig.count) :
    ∃ lines, automaton.states.toList.mapM automaton.stateLine = .ok lines := by
  apply exists_mapM_eq_ok
  intro state mem
  exact automaton.exists_stateLine_eq_ok (entries state (Array.mem_toList_iff.1 mem))

theorem dump_of_lines {lines : List String}
    (written : automaton.states.toList.mapM automaton.stateLine = .ok lines) :
    automaton.dump = .ok ("dfa::Automaton(\n" ++ String.join lines ++ automaton.footer) := by
  unfold dump
  rw [written]
  rfl

/-! ## Freezing -/

/-- The accelerator, as it is worked out when the automaton is frozen: the start for unanchored
searches is looked up, its entries are read, and what has been gathered is put into a buffer. -/
def guardedAccelerator (automaton : Automaton) : Except Breach (Option Accelerator) :=
  match automaton.state? automaton.unanchoredStart with
  | none => .error (.fault (.missingState automaton.unanchoredStart))
  | some start =>
    match Accelerator.configs.find? fun config => decide (start.table.size ≤ config.index) with
    | some config => .error (.entryMissing config)
    | none =>
      match Accelerator.gather? automaton.classes automaton.state? start with
      | none => .ok none
      | some set =>
        if Accelerator.limit < set.size then .error (.tooManyNeedles set.size)
        else .ok (some (.ofSet set))

theorem guardedAccelerator_eq {start : State}
    (found : automaton.state? automaton.unanchoredStart = some start)
    (entries : start.table.size = StartConfig.count) :
    automaton.guardedAccelerator = .ok automaton.accelerator := by
  have all_there : (Accelerator.configs.find? fun config =>
      decide (start.table.size ≤ config.index)) = none := by
    rw [List.find?_eq_none]
    intro config _ missing
    rw [entries] at missing
    exact Nat.not_le_of_lt config.index_lt (of_decide_eq_true missing)
  rw [accelerator, guardedAccelerator, found, Option.bind_some, Accelerator.ofStart?]
  dsimp only
  rw [all_there]
  dsimp only
  cases gathered : Accelerator.gather? automaton.classes automaton.state? start with
  | none => rfl
  | some set =>
    obtain ⟨-, -, few, -⟩ := Accelerator.gather?_eq_some_iff.1 gathered
    exact if_neg (Nat.not_lt_of_le few)

end Automaton

/-- Freezes the builder like `Builder.build`. -/
def Builder.guardedBuild (builder : Builder) : Except Breach (Except BuildError Automaton) :=
  match builder.build with
  | .error error => .ok (.error error)
  | .ok automaton =>
    match automaton.guardedAccelerator with
    | .error breach => .error breach
    | .ok _ => .ok (.ok automaton)

/-! ## Safety -/

/-- The automaton can be shown and searched without a breach, and a search tells what it is there to
tell: a wrong start, the step limit, or captures of an attempt with all its groups. -/
structure Automaton.Safe (automaton : Automaton) : Prop where
  outline : automaton.guardedOutline = .ok automaton.outline
  dump : ∃ text, automaton.dump = .ok text ∧ automaton.guardedDump = .ok text
  search : ∀ (executor : Executor) (input : Input),
    executor.guardedSearch automaton input = .ok (executor.search automaton input)
  invalidStart : ∀ (executor : Executor) (input : Input),
    (∃ start length, executor.search automaton input = .error (.invalidStart start length)) ↔
      input.haystack.size < input.start
  error : ∀ (executor : Executor) (input : Input) (error : SearchError),
    executor.search automaton input = .error error →
      error = .invalidStart input.start input.haystack.size ∨
        ∃ limit offset, executor.config.stepLimit? = some limit ∧
          error = .stepLimitExceeded limit offset
  captures : ∀ (executor : Executor) (input : Input) (captures : Captures),
    executor.search automaton input = .ok (some captures) →
      captures.groupCount = automaton.groupCount ∧
        captures.slots.size = 2 * automaton.groupCount ∧
        ∃ offset ending cursor,
          (executor.report automaton input).verdict =
              .decided offset ending cursor (some captures.slots) ∧
            input.start ≤ offset ∧ captures.slots.Between offset input.haystack.size

namespace Automaton

variable {automaton : Automaton}

theorem WellFormed.safe (wf : automaton.WellFormed)
    (entries : ∀ state ∈ automaton.states, state.kind = .start →
      state.table.size = StartConfig.count) : automaton.Safe := by
  obtain ⟨texts, written⟩ := Byte.exists_mapM_guardedEscaped
  obtain ⟨lines, lines_written⟩ := exists_lines_eq_ok entries
  have dumped := dump_of_lines lines_written
  refine ⟨?_, ⟨_, dumped, ?_⟩, Executor.guardedSearch_eq wf, ?_, ?_, ?_⟩
  · unfold guardedOutline
    rw [written]
  · unfold guardedDump
    rw [written, dumped]
    rfl
  · intro executor input
    constructor
    · intro refused
      obtain ⟨start, length, refused⟩ := refused
      apply Nat.lt_of_not_le
      intro inside
      obtain ⟨limit, offset, -, other⟩ := Executor.exists_of_search_eq_error wf inside refused
      cases other
    · intro beyond
      exact ⟨_, _, Executor.search_of_lt beyond⟩
  · intro executor input error fails
    by_cases inside : input.start ≤ input.haystack.size
    · exact .inr (Executor.exists_of_search_eq_error wf inside fails)
    · rw [Executor.search_of_lt (Nat.lt_of_not_le inside)] at fails
      exact .inl (Except.error.inj fails).symm
  · intro executor input captures found
    obtain ⟨offset, ending, cursor, decided, le, size, between⟩ :=
      Executor.exists_decided_of_search_eq_some wf found
    refine ⟨?_, size, offset, ending, cursor, decided, le, between⟩
    rw [Captures.groupCount, size, slotCount, Nat.mul_div_cancel_left _ Nat.zero_lt_two]

end Automaton

namespace Builder

/-- Whatever has been done to a builder, it can be frozen without a breach, and if that succeeds,
the automaton is safe to use. -/
theorem build_safe (builder : Builder) :
    builder.guardedBuild = .ok builder.build ∧
      ∀ automaton, builder.build = .ok automaton → automaton.Safe := by
  constructor
  · unfold guardedBuild
    cases built : builder.build with
    | error error => rfl
    | ok automaton =>
      obtain ⟨anchored, -, valid, rfl⟩ := build_eq_ok_iff.1 built
      obtain ⟨start, found, kind⟩ := valid.unanchored
      have entries := (valid.stateOk (some_mem_places found)).size_of_start kind
      have found' := (state?_freeze valid _).trans found
      dsimp only
      rw [Automaton.guardedAccelerator_eq found' entries]
  · intro automaton built
    obtain ⟨anchored, -, valid, rfl⟩ := build_eq_ok_iff.1 built
    refine (Automaton.WellFormed.of_build built).safe ?_
    intro state mem kind
    exact (valid.stateOk_of_mem_freeze mem).size_of_start kind

/-- The automaton for one or more of `a` is safe. A search of `aax` within three states is refused,
one within four finds the match. -/
theorem build_safe_aPlus :
    (aPlus.freeze (.ofNat 0) (.ofNat 0)).Safe ∧
      Executor.search ⟨SearchConfig.withStepLimit {} (some 3)⟩
          (aPlus.freeze (.ofNat 0) (.ofNat 0)) ⟨#[0x61, 0x61, 0x78], 0, true⟩ =
        .error (.stepLimitExceeded 3 2) ∧
      Executor.search ⟨SearchConfig.withStepLimit {} (some 4)⟩
          (aPlus.freeze (.ofNat 0) (.ofNat 0)) ⟨#[0x61, 0x61, 0x78], 0, true⟩ =
        .ok (some ⟨#[Offset.ofNat? 0, Offset.ofNat? 2]⟩) := by
  refine ⟨(build_safe aPlus).2 _ build_aPlus, ?_, ?_⟩
  · have verdict : (Executor.report ⟨SearchConfig.withStepLimit {} (some 3)⟩
        (aPlus.freeze (.ofNat 0) (.ofNat 0)) ⟨#[0x61, 0x61, 0x78], 0, true⟩).verdict =
        .cut (some 3) 2 := by decide +kernel
    rw [Executor.search, Report.outcome, verdict]
    rfl
  · have verdict : (Executor.report ⟨SearchConfig.withStepLimit {} (some 4)⟩
        (aPlus.freeze (.ofNat 0) (.ofNat 0)) ⟨#[0x61, 0x61, 0x78], 0, true⟩).verdict =
        .decided 0 .rejected 2 (some #[Offset.ofNat? 0, Offset.ofNat? 2]) := by decide +kernel
    rw [Executor.search, Report.outcome, verdict]
    rfl

end Builder
end ByteDFA
