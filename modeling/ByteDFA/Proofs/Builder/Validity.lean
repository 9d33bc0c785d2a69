import ByteDFA.Builder.Build

/-!
# What makes a builder valid

`Builder.defect?` looks for the first thing that is wrong. Here is the other view of it:
`Builder.Valid` says what has to be right, without an order, and `build_eq_ok_iff` says that a
builder is frozen exactly if it is valid, into an automaton with its own states. What a run needs of
that is `Automaton.WellFormed`: it is all that the theory of searches knows about builders.
-/

set_option autoImplicit false

namespace ByteDFA
namespace Builder

variable {builder : Builder} {state : State} {anchored unanchored : StateId}

/-- What has to be right about a state. -/
structure StateOk (builder : Builder) (state : State) : Prop where
  size : state.table.size = builder.tableSize state.kind
  target : ∀ {index : Nat} {next : StateId}, state.table.get? index = some next →
    ∃ target, builder.state? next = some target ∧ ¬(state.kind = .start ∧ target.kind = .start)
  slot : ∀ {slot : Nat}, (state.slots ∪ state.accept.getD ∅).contains slot = true →
    slot < builder.groupCount * 2

/-- What has to be right about a builder with the given starts. -/
structure Valid (builder : Builder) (anchored unanchored : StateId) : Prop where
  groups : builder.groupCount ≤ SlotSet.groupLimit
  byteClass : ∀ b, (builder.classes.get b).toNat < builder.classes.alphabetLen
  filled : ∀ place ∈ builder.places, ∃ state, place = some state
  stateOk : ∀ {state : State}, some state ∈ builder.places → builder.StateOk state
  anchored : ∃ state, builder.state? anchored = some state ∧ state.kind = .start
  unanchored : ∃ state, builder.state? unanchored = some state ∧ state.kind = .start

/-! ## The checks, one by one -/

theorem byteDefect?_eq_none_iff {b : UInt8} :
    builder.byteDefect? b = none ↔
      (builder.classes.get b).toNat < builder.classes.alphabetLen := by
  unfold byteDefect?
  dsimp only
  split
  · rename_i high
    exact iff_of_false (by simp) (Nat.not_lt_of_le high)
  · rename_i low
    exact iff_of_true rfl (Nat.lt_of_not_le low)

theorem findSome?_byteDefect?_eq_none_iff :
    Byte.all.findSome? builder.byteDefect? = none ↔
      ∀ b, (builder.classes.get b).toNat < builder.classes.alphabetLen := by
  rw [List.findSome?_eq_none_iff]
  constructor
  · intro fine b
    exact byteDefect?_eq_none_iff.1 (fine b (Byte.mem_all b))
  · intro fine b _
    exact byteDefect?_eq_none_iff.2 (fine b)

theorem successorDefect?_eq_none_iff {next : Option StateId} :
    builder.successorDefect? state next = none ↔
      ∀ id, next = some id → ∃ target, builder.state? id = some target ∧
        ¬(state.kind = .start ∧ target.kind = .start) := by
  cases next with
  | none => simp [successorDefect?]
  | some id =>
    cases found : builder.state? id with
    | none => simp [successorDefect?, found]
    | some target => simp [successorDefect?, found]

theorem slotDefect?_eq_none_iff :
    builder.slotDefect? state = none ↔
      ∀ slot, (state.slots ∪ state.accept.getD ∅).contains slot = true →
        slot < builder.groupCount * 2 := by
  unfold slotDefect?
  cases largest : (state.slots ∪ state.accept.getD ∅).max? with
  | none =>
    have absent := BitSet.max?_eq_none_iff.1 largest
    simp [absent]
  | some m =>
    dsimp only
    split
    · rename_i high
      apply iff_of_false (by simp)
      intro below
      exact Nat.not_le_of_lt (below m (BitSet.contains_of_max? largest)) high
    · rename_i low
      apply iff_of_true rfl
      intro slot hslot
      exact Nat.lt_of_le_of_lt (BitSet.le_of_max? largest hslot) (Nat.lt_of_not_le low)

theorem stateDefect?_eq_none_iff :
    builder.stateDefect? state = none ↔ builder.StateOk state := by
  unfold stateDefect?
  dsimp only
  split
  · rename_i size
    exact iff_of_false (by simp) fun ok => size ok.size
  · rename_i size
    rw [Option.or_eq_none_iff, List.findSome?_eq_none_iff, slotDefect?_eq_none_iff]
    constructor
    · intro checked
      obtain ⟨targets, slots⟩ := checked
      refine ⟨Decidable.not_not.1 size, fun {index next} entry => ?_, fun {slot} => slots slot⟩
      have mem := TransitionTable.some_mem_toList_iff.2 ⟨index, entry⟩
      exact successorDefect?_eq_none_iff.1 (targets _ mem) next rfl
    · intro ok
      refine ⟨fun next mem => ?_, fun slot => ok.slot⟩
      apply successorDefect?_eq_none_iff.2
      intro id successor
      subst successor
      obtain ⟨index, entry⟩ := TransitionTable.some_mem_toList_iff.1 mem
      exact ok.target entry

theorem startDefect?_eq_none_iff {id : StateId} :
    builder.startDefect? id = none ↔
      ∃ state, builder.state? id = some state ∧ state.kind = .start := by
  unfold startDefect?
  cases builder.state? id with
  | none => simp
  | some state => simp

theorem findSome?_placeDefect?_eq_none_iff :
    (builder.places.toList.zipIdx.findSome? fun p => builder.placeDefect? p.1 p.2) = none ↔
      (∀ place ∈ builder.places, ∃ state, place = some state) ∧
        ∀ {state : State}, some state ∈ builder.places → builder.StateOk state := by
  rw [List.findSome?_eq_none_iff]
  constructor
  · intro checked
    have at_place : ∀ place ∈ builder.places,
        ∃ number, builder.placeDefect? place number = none := by
      intro place mem
      obtain ⟨number, found⟩ := List.mem_iff_getElem?.1 (Array.mem_toList_iff.2 mem)
      exact ⟨number, checked (place, number) (List.mem_zipIdx_iff_getElem?.2 found)⟩
    refine ⟨fun place mem => ?_, fun {state} mem => ?_⟩
    · obtain ⟨number, none⟩ := at_place place mem
      cases place with
      | none => simp [placeDefect?] at none
      | some state => exact ⟨state, rfl⟩
    · obtain ⟨number, none⟩ := at_place _ mem
      exact stateDefect?_eq_none_iff.1 none
  · intro checked p mem
    obtain ⟨filled, ok⟩ := checked
    obtain ⟨place, number⟩ := p
    have mem : place ∈ builder.places :=
      Array.mem_toList_iff.1 (List.mem_of_getElem? (List.mem_zipIdx_iff_getElem?.1 mem))
    obtain ⟨state, rfl⟩ := filled place mem
    exact stateDefect?_eq_none_iff.2 (ok mem)

theorem defect?_eq_none_iff (groups : builder.groupCount ≤ SlotSet.groupLimit) :
    builder.defect? anchored unanchored = none ↔ builder.Valid anchored unanchored := by
  unfold defect?
  rw [Option.or_eq_none_iff, Option.or_eq_none_iff, Option.or_eq_none_iff,
    findSome?_byteDefect?_eq_none_iff, findSome?_placeDefect?_eq_none_iff,
    startDefect?_eq_none_iff, startDefect?_eq_none_iff]
  constructor
  · intro checked
    obtain ⟨bytes, ⟨filled, ok⟩, anchored, unanchored⟩ := checked
    exact ⟨groups, bytes, filled, ok, anchored, unanchored⟩
  · intro valid
    exact ⟨valid.byteClass, ⟨valid.filled, valid.stateOk⟩, valid.anchored, valid.unanchored⟩

/-! ## Freezing -/

/-- A builder is frozen exactly if it has a start and is valid. -/
theorem build_eq_ok_iff {automaton : Automaton} :
    builder.build = .ok automaton ↔
      ∃ anchored, builder.anchoredStart = some anchored ∧
        builder.Valid anchored (builder.unanchoredStart.getD anchored) ∧
        automaton = builder.freeze anchored (builder.unanchoredStart.getD anchored) := by
  unfold build
  split
  · rename_i many
    apply iff_of_false (by simp)
    intro sound
    obtain ⟨anchored, -, valid, -⟩ := sound
    exact Nat.not_le_of_lt many valid.groups
  · rename_i few
    cases builder.anchoredStart with
    | none => simp
    | some anchored =>
      have check : builder.defect? anchored (builder.unanchoredStart.getD anchored) = none ↔
          builder.Valid anchored (builder.unanchoredStart.getD anchored) :=
        defect?_eq_none_iff (Nat.le_of_not_lt few)
      dsimp only
      split
      · rename_i error found
        apply iff_of_false (by simp)
        intro sound
        obtain ⟨_, ⟨⟩, valid, -⟩ := sound
        rw [check.2 valid] at found
        cases found
      · rename_i sound
        have valid := check.1 sound
        constructor
        · intro frozen
          cases frozen
          exact ⟨anchored, rfl, valid, rfl⟩
        · intro sound
          obtain ⟨_, ⟨⟩, -, rfl⟩ := sound
          rfl

theorem map_some_filterMap_id {α : Type} :
    ∀ {items : List (Option α)}, (∀ item ∈ items, ∃ value, item = some value) →
      (items.filterMap id).map some = items
  | [], _ => rfl
  | item :: rest, filled => by
    obtain ⟨value, rfl⟩ := filled item List.mem_cons_self
    have tail := map_some_filterMap_id fun item mem => filled item (List.mem_cons_of_mem _ mem)
    exact congrArg (some value :: ·) tail

/-- The automaton finds under an identifier what the builder has in that place. -/
theorem state?_freeze (valid : builder.Valid anchored unanchored) (key : StateId) :
    (builder.freeze anchored unanchored).state? key = builder.state? key := by
  have places : (builder.places.toList.filterMap id).map some = builder.places.toList :=
    map_some_filterMap_id fun place mem => valid.filled place (Array.mem_toList_iff.1 mem)
  unfold Automaton.state? state? freeze
  -- No place is left out, so the states keep the numbers of their places.
  rw [← Array.getElem?_toList, ← Array.getElem?_toList, ← places, Array.toList_filterMap,
    List.getElem?_map]
  cases (builder.places.toList.filterMap id)[key.toNat]? <;> rfl

/-! ## A builder to try things on -/

/-- The builder of an automaton for one or more of the byte `a`, with one group for the match. -/
def aPlus : Builder where
  classes := .ofFn fun b => if b = 0x61 then 0 else 1
  groupCount := 1
  places := #[
    some (.start (.ofNat 0) (some (.ofNat 1)) (BitSet.empty.insert 0)),
    some (.matcher (.ofNat 1) (.ofList [some (.ofNat 2), none]) ∅ none),
    some (.matcher (.ofNat 2) (.ofList [some (.ofNat 2), none]) ∅ (some (BitSet.empty.insert 1)))]
  anchoredStart := some (.ofNat 0)
  unanchoredStart := none

theorem valid_aPlus : aPlus.Valid (.ofNat 0) (.ofNat 0) where
  groups := by decide
  byteClass b := by
    rw [ByteClasses.alphabetLen, aPlus, ByteClasses.get_ofFn, ByteClasses.get_ofFn]
    split <;> decide
  filled := by simp [aPlus]
  stateOk {state} mem := by
    have mem : state ∈ aPlus.places.toList.filterMap id := by simpa using mem
    refine stateDefect?_eq_none_iff.1 ?_
    simp only [aPlus, List.filterMap_cons, List.filterMap_nil, id_eq, List.mem_cons,
      List.not_mem_nil, or_false] at mem
    rcases mem with rfl | rfl | rfl <;> decide +kernel
  anchored := ⟨_, rfl, rfl⟩
  unanchored := ⟨_, rfl, rfl⟩

theorem build_aPlus : aPlus.build = .ok (aPlus.freeze (.ofNat 0) (.ofNat 0)) :=
  build_eq_ok_iff.2 ⟨_, rfl, valid_aPlus, rfl⟩

end Builder

/-! ## Well-formed automata -/

/-- What a run relies on: it begins in a start state, no transition leads nowhere, and no start
state leads to a start state. -/
structure Automaton.WellFormed (automaton : Automaton) : Prop where
  anchored : ∃ state, automaton.state? automaton.anchoredStart = some state ∧ state.kind = .start
  unanchored :
    ∃ state, automaton.state? automaton.unanchoredStart = some state ∧ state.kind = .start
  target : ∀ {id next : StateId} {state : State} {index : Nat},
    automaton.state? id = some state → state.table.get? index = some next →
      ∃ target, automaton.state? next = some target ∧
        ¬(state.kind = .start ∧ target.kind = .start)

theorem Builder.some_mem_places {builder : Builder} {id : StateId} {state : State}
    (found : builder.state? id = some state) : some state ∈ builder.places :=
  Array.mem_of_getElem? (Option.join_eq_some_iff.1 found)

theorem Builder.Valid.exists_state? {builder : Builder} {anchored unanchored id : StateId}
    (valid : builder.Valid anchored unanchored) (inside : id.toNat < builder.places.size) :
    ∃ state, builder.state? id = some state := by
  obtain ⟨state, here⟩ := valid.filled _ (Array.getElem_mem inside)
  refine ⟨state, ?_⟩
  unfold state?
  rw [Array.getElem?_eq_getElem inside, here]
  rfl

namespace Automaton.WellFormed

variable {builder : Builder} {automaton : Automaton}

theorem of_build (built : builder.build = .ok automaton) : automaton.WellFormed := by
  obtain ⟨anchored, -, valid, rfl⟩ := Builder.build_eq_ok_iff.1 built
  refine ⟨?_, ?_, fun {id next state index} found entry => ?_⟩
  · rw [Builder.state?_freeze valid]
    exact valid.anchored
  · rw [Builder.state?_freeze valid]
    exact valid.unanchored
  · rw [Builder.state?_freeze valid] at found ⊢
    exact (valid.stateOk (Builder.some_mem_places found)).target entry

/-- An automaton may be entered by its unanchored start in anchored searches as well. -/
theorem withAnchoredStart (wf : automaton.WellFormed) :
    { automaton with anchoredStart := automaton.unanchoredStart }.WellFormed :=
  ⟨wf.unanchored, wf.unanchored, wf.target⟩

end Automaton.WellFormed
end ByteDFA
