import ByteDFA.Proofs.Builder.Validity

/-!
# Complete builders

What it takes to be frozen, said without a single check: which tables, successors and slots the
states have, whether every place is filled, and whether there are starts. `Builder.Complete` is the
whole of it, so nothing malformed passes and nothing well-formed is refused, in whatever order the
checks are made. The automaton is the builder, place by place (`build_iff_complete`).
-/

set_option autoImplicit false

namespace ByteDFA

/-- A state that may stand in a builder. -/
structure State.Fits (state : State) (builder : Builder) : Prop where
  startTable : state.kind = .start → state.table.size = 4
  readTable : state.kind = .matcher ∨ state.kind = .traceFinder →
    state.table.size = builder.classes.alphabetLen
  finalTable : state.kind = .final → state.table.size = 0
  present : ∀ next, some next ∈ state.table.toList → ∃ target, builder.state? next = some target
  noStart : state.kind = .start → ∀ next target, some next ∈ state.table.toList →
    builder.state? next = some target → target.kind ≠ .start
  slots : ∀ slot, state.slots.contains slot = true → slot < 2 * builder.groupCount
  accept : ∀ extra slot, state.accept = some extra → extra.contains slot = true →
    slot < 2 * builder.groupCount

/-- An identifier under which a builder has a start state. -/
def Builder.HasStart (builder : Builder) (id : StateId) : Prop :=
  ∃ state, builder.state? id = some state ∧ state.kind = .start

/-- A builder with nothing missing and nothing out of place. -/
structure Builder.Complete (builder : Builder) : Prop where
  groups : builder.groupCount ≤ 32
  byteClass : ∀ b, (builder.classes.get b).toNat < builder.classes.alphabetLen
  places : ∀ number < builder.places.size, ∃ state,
    builder.places[number]? = some (some state) ∧ state.Fits builder
  starts : ∃ anchored, builder.anchoredStart = some anchored ∧ builder.HasStart anchored ∧
    builder.HasStart (builder.unanchoredStart.getD anchored)

/-- An automaton with the states of a builder, each in its place, and with its starts. Anchored
searches and others begin alike if the builder does not tell them apart. -/
structure Automaton.FrozenFrom (automaton : Automaton) (builder : Builder) : Prop where
  classes : automaton.classes = builder.classes
  groupCount : automaton.groupCount = builder.groupCount
  states : automaton.states.map some = builder.places
  anchoredStart : builder.anchoredStart = some automaton.anchoredStart
  unanchoredStart :
    automaton.unanchoredStart = builder.unanchoredStart.getD automaton.anchoredStart

namespace Builder

variable {builder : Builder} {state : State} {anchored unanchored : StateId}

/-! ## States -/

/-- The number of entries that is checked is the one that the kind of the state asks for. -/
theorem size_eq_tableSize_iff :
    state.table.size = builder.tableSize state.kind ↔
      (state.kind = .start → state.table.size = 4) ∧
        (state.kind = .matcher ∨ state.kind = .traceFinder →
          state.table.size = builder.classes.alphabetLen) ∧
        (state.kind = .final → state.table.size = 0) := by
  cases state.kind with
  | start => simp [tableSize, StartConfig.count, StartConfig.all]
  | matcher => simp [tableSize]
  | final => simp [tableSize]
  | traceFinder => simp [tableSize]

theorem contains_union_getD_iff {slots : SlotSet} {accept : Option SlotSet} {slot : Nat} :
    (slots ∪ accept.getD ∅).contains slot = true ↔
      slots.contains slot = true ∨ ∃ extra, accept = some extra ∧ extra.contains slot = true := by
  cases accept with
  | none => simp
  | some extra => simp

theorem stateOk_iff_fits : builder.StateOk state ↔ state.Fits builder := by
  constructor
  · intro ok
    obtain ⟨start, read, final⟩ := size_eq_tableSize_iff.1 ok.size
    refine ⟨start, read, final, ?_, ?_, ?_, ?_⟩
    · intro next mem
      obtain ⟨index, leads⟩ := TransitionTable.some_mem_toList_iff.1 mem
      obtain ⟨target, found, -⟩ := ok.target leads
      exact ⟨target, found⟩
    · intro kind next target mem found
      obtain ⟨index, leads⟩ := TransitionTable.some_mem_toList_iff.1 mem
      obtain ⟨target', found', not_both⟩ := ok.target leads
      cases found.symm.trans found'
      exact fun kind' => not_both ⟨kind, kind'⟩
    · intro slot recorded
      rw [Nat.mul_comm]
      exact ok.slot (contains_union_getD_iff.2 (.inl recorded))
    · intro extra slot accept recorded
      rw [Nat.mul_comm]
      exact ok.slot (contains_union_getD_iff.2 (.inr ⟨extra, accept, recorded⟩))
  · intro fits
    refine ⟨?_, ?_, ?_⟩
    · exact size_eq_tableSize_iff.2 ⟨fits.startTable, fits.readTable, fits.finalTable⟩
    · intro index next leads
      have mem := TransitionTable.some_mem_toList_iff.2 ⟨index, leads⟩
      obtain ⟨target, found⟩ := fits.present next mem
      exact ⟨target, found, fun both => fits.noStart both.1 next target mem found both.2⟩
    · intro slot recorded
      rw [Nat.mul_comm]
      rcases contains_union_getD_iff.1 recorded with recorded | ⟨extra, accept, recorded⟩
      · exact fits.slots slot recorded
      · exact fits.accept extra slot accept recorded

/-! ## Builders -/

/-- Nothing is wrong with any place, said by number and said by content. -/
theorem places_fit_iff :
    (∀ number < builder.places.size, ∃ state,
        builder.places[number]? = some (some state) ∧ state.Fits builder) ↔
      (∀ place ∈ builder.places, ∃ state, place = some state) ∧
        ∀ {state : State}, some state ∈ builder.places → builder.StateOk state := by
  constructor
  · intro places
    have fits : ∀ place ∈ builder.places, ∃ state, place = some state ∧ state.Fits builder := by
      intro place mem
      obtain ⟨number, inside, rfl⟩ := Array.mem_iff_getElem.1 mem
      obtain ⟨state, here, fits⟩ := places number inside
      rw [Array.getElem?_eq_getElem inside] at here
      exact ⟨state, Option.some.inj here, fits⟩
    constructor
    · intro place mem
      obtain ⟨state, here, -⟩ := fits place mem
      exact ⟨state, here⟩
    · intro state mem
      obtain ⟨state', here, fits⟩ := fits _ mem
      cases here
      exact stateOk_iff_fits.2 fits
  · intro sound number inside
    obtain ⟨filled, ok⟩ := sound
    obtain ⟨state, here⟩ := filled _ (Array.getElem_mem inside)
    have mem : some state ∈ builder.places := by
      rw [← here]
      exact Array.getElem_mem inside
    refine ⟨state, ?_, stateOk_iff_fits.1 (ok mem)⟩
    rw [Array.getElem?_eq_getElem inside, here]

theorem complete_iff_valid :
    builder.Complete ↔ ∃ anchored, builder.anchoredStart = some anchored ∧
      builder.Valid anchored (builder.unanchoredStart.getD anchored) := by
  constructor
  · intro complete
    obtain ⟨anchored, at_start, start, start'⟩ := complete.starts
    obtain ⟨filled, ok⟩ := places_fit_iff.1 complete.places
    exact ⟨anchored, at_start, complete.groups, complete.byteClass, filled, ok, start, start'⟩
  · intro sound
    obtain ⟨anchored, at_start, valid⟩ := sound
    exact ⟨valid.groups, valid.byteClass, places_fit_iff.2 ⟨valid.filled, valid.stateOk⟩,
      anchored, at_start, valid.anchored, valid.unanchored⟩

theorem frozenFrom_freeze (at_start : builder.anchoredStart = some anchored)
    (valid : builder.Valid anchored unanchored)
    (same : unanchored = builder.unanchoredStart.getD anchored) :
    (builder.freeze anchored unanchored).FrozenFrom builder := by
  refine ⟨rfl, rfl, ?_, at_start, same⟩
  apply Array.toList_inj.1
  show ((builder.places.filterMap id).map some).toList = builder.places.toList
  rw [Array.toList_map, Array.toList_filterMap]
  exact map_some_filterMap_id fun place mem => valid.filled place (Array.mem_toList_iff.1 mem)

/-- A builder is frozen exactly if it is complete, and nothing is changed on the way. -/
theorem build_iff_complete (builder : Builder) :
    ((∃ automaton, builder.build = .ok automaton) ↔ builder.Complete) ∧
      ∀ automaton, builder.build = .ok automaton → automaton.FrozenFrom builder := by
  refine ⟨⟨?_, ?_⟩, ?_⟩
  · intro built
    obtain ⟨automaton, built⟩ := built
    obtain ⟨anchored, at_start, valid, -⟩ := build_eq_ok_iff.1 built
    exact complete_iff_valid.2 ⟨anchored, at_start, valid⟩
  · intro complete
    obtain ⟨anchored, at_start, valid⟩ := complete_iff_valid.1 complete
    exact ⟨_, build_eq_ok_iff.2 ⟨anchored, at_start, valid, rfl⟩⟩
  · intro automaton built
    obtain ⟨anchored, at_start, valid, rfl⟩ := build_eq_ok_iff.1 built
    exact frozenFrom_freeze at_start valid rfl

/-- The builder for one or more of `a` is complete and keeps its three states. Without its last
state, which is then still led to, it is not complete. -/
theorem build_iff_complete_aPlus :
    aPlus.Complete ∧ (aPlus.freeze (.ofNat 0) (.ofNat 0)).FrozenFrom aPlus ∧
      ¬(aPlus.shrink 2).Complete := by
  refine ⟨(build_iff_complete aPlus).1.1 ⟨_, build_aPlus⟩,
    (build_iff_complete aPlus).2 _ build_aPlus, ?_⟩
  intro complete
  obtain ⟨state, at_one, fits⟩ := complete.places 1 (by decide)
  cases at_one
  obtain ⟨target, absent⟩ := fits.present (.ofNat 2) (by decide)
  cases absent

end Builder
end ByteDFA
