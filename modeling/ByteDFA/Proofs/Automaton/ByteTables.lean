import ByteDFA.Proofs.Builder.Completeness
import ByteDFA.Proofs.Builder.Recasting
import ByteDFA.Proofs.Search.Bisimulation

/-!
# Tables by byte

Byte classes are there to keep tables small. A table indexed by classes can be written out as one
with an entry for each of the 256 bytes, and an automaton whose tables have all been written out
needs no classes: every byte may have a class of its own. Nothing is lost or gained by this, whether
the classes are consecutive ranges, in order, or all in use. The written out automaton can be built
(`Builder.recasts_perByte`), and state by state it does the same on every byte
(`Automaton.bisimulation_perByte`).
-/

set_option autoImplicit false

namespace ByteDFA

/-! ## Writing tables out -/

/-- The table with an entry for every byte, the one for the class of the byte. -/
def TransitionTable.perByte (classes : ByteClasses) (table : TransitionTable) : TransitionTable :=
  .ofList (Byte.all.map fun b => table.get? (classes.get b).toNat)

/-- The state with an entry for every byte, if it reads bytes. The entries of a start state are for
start configurations and remain. -/
def State.perByte (classes : ByteClasses) (state : State) : State :=
  match state.kind with
  | .matcher => state.withTable (state.table.perByte classes)
  | .traceFinder => state.withTable (state.table.perByte classes)
  | .start => state
  | .final => state

/-- The automaton with a class for every byte and the tables written out. -/
def Automaton.perByte (automaton : Automaton) : Automaton :=
  automaton.recast .singletons (State.perByte automaton.classes)

/-- The builder with a class for every byte and the tables written out. -/
def Builder.perByte (builder : Builder) : Builder :=
  builder.recast .singletons (State.perByte builder.classes)

@[simp] theorem ByteClasses.get_singletons (b : UInt8) : singletons.get b = b :=
  get_ofFn id b

theorem ByteClasses.alphabetLen_singletons : singletons.alphabetLen = 256 := by
  unfold alphabetLen
  rw [get_singletons]
  rfl

namespace TransitionTable

variable {classes : ByteClasses} {table : TransitionTable}

theorem get?_bind_successor? (table : TransitionTable) (index : Nat) :
    (table.get? index).bind StateId.successor? = table.get? index := by
  unfold get?
  cases table.packed[index]? with
  | none => rfl
  | some id =>
    rw [Option.bind_some, ← StateId.successor?_ofSuccessor, StateId.ofSuccessor_successor?]

theorem toList_perByte (classes : ByteClasses) (table : TransitionTable) :
    (table.perByte classes).toList = Byte.all.map fun b => table.get? (classes.get b).toNat := by
  rw [perByte, toList_ofList, List.map_map]
  exact List.map_congr_left fun b _ => table.get?_bind_successor? _

theorem size_perByte (classes : ByteClasses) (table : TransitionTable) :
    (table.perByte classes).size = 256 := by
  rw [← length_toList, toList_perByte, List.length_map, Byte.length_all]

/-- The entry for a byte is the one for its class. -/
theorem get?_perByte (classes : ByteClasses) (table : TransitionTable) (b : UInt8) :
    (table.perByte classes).get? b.toNat = table.get? (classes.get b).toNat := by
  have here : Byte.all[b.toNat]? = some b := by
    simp [Byte.all, b.toNat_lt]
  rw [get?_eq_toList, toList_perByte, List.getElem?_map, here]
  rfl

theorem exists_get?_of_perByte {index : Nat} {next : StateId}
    (leads : (table.perByte classes).get? index = some next) :
    ∃ index', table.get? index' = some next := by
  have mem := some_mem_toList_iff.2 ⟨index, leads⟩
  rw [toList_perByte] at mem
  obtain ⟨b, -, leads'⟩ := List.mem_map.1 mem
  exact ⟨_, leads'⟩

end TransitionTable

namespace State

variable {classes : ByteClasses} {state : State}

@[simp] theorem role_perByte (classes : ByteClasses) (state : State) :
    (state.perByte classes).role = state.role := by
  unfold perByte
  split <;> rfl

theorem kind_perByte (classes : ByteClasses) (state : State) :
    (state.perByte classes).kind = state.kind :=
  congrArg Role.kind (role_perByte classes state)

theorem table_perByte (reads : state.kind = .matcher ∨ state.kind = .traceFinder) :
    (state.perByte classes).table = state.table.perByte classes := by
  unfold perByte
  rcases reads with kind | kind
  · rw [kind]
    rfl
  · rw [kind]
    rfl

theorem perByte_eq_self (still : state.kind = .start ∨ state.kind = .final) :
    state.perByte classes = state := by
  unfold perByte
  rcases still with kind | kind
  · rw [kind]
  · rw [kind]

theorem reads_or_still (state : State) :
    (state.kind = .matcher ∨ state.kind = .traceFinder) ∨
      state.kind = .start ∨ state.kind = .final := by
  cases state.kind <;> simp

end State

/-! ## Building -/

namespace Builder

variable {builder : Builder} {state : State} {automaton : Automaton}

theorem size_perByte (ok : builder.StateOk state) :
    (state.perByte builder.classes).table.size =
      builder.perByte.tableSize (state.perByte builder.classes).kind := by
  obtain ⟨start, -, final⟩ := size_eq_tableSize_iff.1 ok.size
  rw [size_eq_tableSize_iff, State.kind_perByte]
  refine ⟨?_, ?_, ?_⟩
  · intro kind
    rw [State.perByte_eq_self (.inl kind)]
    exact start kind
  · intro reads
    rw [State.table_perByte reads, TransitionTable.size_perByte]
    exact ByteClasses.alphabetLen_singletons.symm
  · intro kind
    rw [State.perByte_eq_self (.inr kind)]
    exact final kind

theorem recasts_perByte (builder : Builder) :
    builder.Recasts .singletons (State.perByte builder.classes) := by
  refine ⟨?_, ?_, size_perByte, ?_, ?_⟩
  · intro b
    rw [ByteClasses.get_singletons, ByteClasses.alphabetLen_singletons]
    exact b.toNat_lt
  · intro state
    rw [State.kind_perByte]
  · intro state index next leads
    rcases state.reads_or_still with reads | still
    · rw [State.table_perByte reads] at leads
      exact TransitionTable.exists_get?_of_perByte leads
    · rw [State.perByte_eq_self still] at leads
      exact ⟨index, leads⟩
  · intro state slot
    unfold State.slots State.accept
    rw [State.role_perByte]
    exact id

end Builder

/-! ## Behaviour -/

namespace Automaton

variable {automaton : Automaton}

/-- The state of an automaton with an identifier, which is also that of the written out state. -/
def SameState (automaton : Automaton) (x y : StateId) : Prop :=
  x = y ∧ ∃ state, automaton.state? x = some state

theorem rel_sameState (wf : automaton.WellFormed) {id : StateId} {state : State}
    (found : automaton.state? id = some state) (index : Nat) :
    Option.Rel automaton.SameState (state.table.get? index) (state.table.get? index) := by
  cases leads : state.table.get? index with
  | none => exact .none
  | some next =>
    obtain ⟨target, found', -⟩ := wf.target found leads
    exact .some ⟨rfl, target, found'⟩

theorem bisimulation_perByte (wf : automaton.WellFormed) :
    automaton.Bisimulation automaton.perByte automaton.SameState := by
  constructor
  intro x y same
  obtain ⟨rfl, state, found⟩ := same
  refine ⟨state, state.perByte automaton.classes, found, ?_, ?_, ?_, ?_⟩
  · unfold perByte
    rw [state?_recast, found]
    rfl
  · rw [State.role_perByte]
  · intro start config
    rw [State.perByte_eq_self (.inl start)]
    exact rel_sameState wf found _
  · intro reads b
    have same_class : (automaton.perByte.classes.get b).toNat = b.toNat :=
      congrArg UInt8.toNat (ByteClasses.get_singletons b)
    rw [State.table_perByte reads, same_class, TransitionTable.get?_perByte]
    exact rel_sameState wf found _

end Automaton

namespace Builder

variable {builder : Builder} {automaton : Automaton}

/-- Byte classes make tables smaller and change nothing else: with every table written out for the
256 bytes, an automaton can be built that has the same accelerator and gives every search the same
outcome. -/
theorem build_perByte (built : builder.build = .ok automaton) :
    builder.perByte.build = .ok automaton.perByte ∧
      automaton.perByte.accelerator = automaton.accelerator ∧
      ∀ (executor : Executor) (input : Input),
        executor.search automaton.perByte input = executor.search automaton input := by
  have wf := Automaton.WellFormed.of_build built
  have bisimulation := Automaton.bisimulation_perByte wf
  obtain ⟨s, at_anchored, -⟩ := wf.anchored
  obtain ⟨s', at_unanchored, -⟩ := wf.unanchored
  have anchored : automaton.SameState automaton.anchoredStart automaton.perByte.anchoredStart :=
    ⟨rfl, s, at_anchored⟩
  have unanchored :
      automaton.SameState automaton.unanchoredStart automaton.perByte.unanchoredStart :=
    ⟨rfl, s', at_unanchored⟩
  have classes : builder.classes = automaton.classes := by
    obtain ⟨-, -, -, rfl⟩ := build_eq_ok_iff.1 built
    rfl
  refine ⟨?_, (bisimulation.accelerator_eq unanchored).symm, ?_⟩
  · unfold perByte Automaton.perByte
    rw [← classes]
    exact build_recast built builder.recasts_perByte
  · intro executor input
    exact (Executor.search_eq bisimulation rfl anchored unanchored executor input).symm

/-- The automaton for one or more of `a`, written out for all bytes, still matches the first two
bytes of `aab`. -/
theorem build_perByte_aPlus :
    ∃ automaton, aPlus.perByte.build = .ok automaton ∧
      Executor.search {} automaton ⟨#[0x61, 0x61, 0x62], 0, true⟩ =
        .ok (some ⟨#[Offset.ofNat? 0, Offset.ofNat? 2]⟩) := by
  obtain ⟨built, -, same⟩ := build_perByte build_aPlus
  refine ⟨_, built, ?_⟩
  have verdict : (Executor.report {} (aPlus.freeze (.ofNat 0) (.ofNat 0))
      ⟨#[0x61, 0x61, 0x62], 0, true⟩).verdict =
      .decided 0 .rejected 2 (some #[Offset.ofNat? 0, Offset.ofNat? 2]) := by decide +kernel
  rw [same, Executor.search, Report.outcome, verdict]
  rfl

end Builder
end ByteDFA
