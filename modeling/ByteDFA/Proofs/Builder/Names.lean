import ByteDFA.Proofs.Builder.Completeness
import ByteDFA.Proofs.Builder.Growth

/-!
# Names and places

A state has a name of its own, its identifier, and stands in a place. Requests put a state into the
place it is named for and copy it under the name of the new place, so the two agree as long as no
edit gives a state another name (`Named.afterOne`). Freezing goes by places and does not look at
names (`frozen_named_iff`): a state that has been replaced by one of another name is frozen under
that name, which another state may have as well (`exists_frozen_under_one_name`).
-/

set_option autoImplicit false

namespace ByteDFA

/-- An edit leaves a state that is named for its place so named. -/
def Request.KeepsNames : Request → Prop
  | .edit id change => ∀ state : State, state.id = id → (change state).id = id
  | _ => True

namespace Builder

variable {builder : Builder} {id : StateId} {state : State} {automaton : Automaton}

/-- Every state is named for its place, and there are names for all places. -/
structure Named (builder : Builder) : Prop where
  few : builder.places.size ≤ StateId.limit
  name : ∀ {id : StateId} {state : State}, builder.state? id = some state → state.id = id

/-! ## One request -/

theorem named_empty (classes : ByteClasses) (groupCount : Nat) :
    (empty classes groupCount).Named := by
  refine ⟨Nat.zero_le _, ?_⟩
  intro id state found
  simp [state?, empty] at found

theorem Named.reserve (named : builder.Named) (room : builder.places.size < StateId.limit) :
    builder.reserve.Named := by
  refine ⟨(Grows.reserve room).few named.few, ?_⟩
  intro id state found
  rw [state?_reserve] at found
  exact named.name found

theorem Named.grow (named : builder.Named) {count : Nat} (few : count ≤ StateId.limit) :
    (builder.grow count).Named := by
  refine ⟨(Grows.grow builder few).few named.few, ?_⟩
  intro id state found
  rw [state?_grow] at found
  exact named.name found

theorem Named.put (named : builder.Named) (inside : state.id.toNat < builder.places.size) :
    (builder.put state.id state).Named := by
  refine ⟨(Grows.put builder state inside).few named.few, ?_⟩
  intro id other found
  rw [state?_put inside] at found
  split at found
  · rename_i here
    cases found
    exact here
  · exact named.name found

theorem Named.add (named : builder.Named) (proper : state.id ≠ StateId.noSuccessor) :
    ((builder.grow state.id.oneMore).put state.id state).Named := by
  have grown := named.grow (StateId.toNat_lt_of_ne proper)
  exact grown.put (builder.toNat_lt_size_grow state.id)

theorem Named.edit (named : builder.Named) {change : State → State}
    (keeps : ∀ state : State, state.id = id → (change state).id = id) :
    (builder.edit id change).Named := by
  refine ⟨(Grows.edit builder id change).few named.few, ?_⟩
  intro x state found
  rw [state?_edit] at found
  split at found
  · rename_i here
    subst here
    obtain ⟨old, at_id, rfl⟩ := Option.map_eq_some_iff.1 found
    exact keeps old (named.name at_id)
  · exact named.name found

theorem Named.unrolled (named : builder.Named) {copies : Nat} (loopEnd : LoopEnd)
    (can : builder.CanUnroll id state copies) :
    (builder.unrolled id state copies loopEnd).Named := by
  refine ⟨(Grows.unrolled loopEnd can).few named.few, ?_⟩
  intro x t found
  by_cases mem : x ∈ builder.chainOf id copies
  · rw [can.state?_member loopEnd mem] at found
    cases found
    -- Redirecting the transitions of a member does not touch its name.
    show (if x = id then state else state.withId x).id = x
    split
    · rename_i here
      subst here
      exact named.name can.found
    · rfl
  · rw [can.state?_of_not_mem mem] at found
    exact named.name found

theorem Named.of_granted {request : Request} {answer : Array StateId} {builder' : Builder}
    (granted : request.Granted builder answer builder') (named : builder.Named)
    (keeps : request.KeepsNames) : builder'.Named := by
  induction granted with
  | nextId room => exact named.reserve room
  | add proper vacant => exact named.add proper
  | duplicate found added ih => exact ih named trivial
  | unroll can => exact named.unrolled _ can
  | edit => exact named.edit keeps
  | anchoredStart => exact ⟨named.few, named.name⟩
  | unanchoredStart => exact ⟨named.few, named.name⟩

theorem Named.afterOne (named : builder.Named) {request : Request} (keeps : request.KeepsNames) :
    (builder.afterOne request).Named := by
  rcases builder.afterOne_eq_or_granted request with same | ⟨answer, granted⟩
  · rw [same]
    exact named
  · exact .of_granted granted named keeps

theorem named_after (classes : ByteClasses) (groupCount : Nat) {requests : List Request}
    (keeps : ∀ request ∈ requests, request.KeepsNames) :
    ((empty classes groupCount).after requests).Named := by
  apply holds_after (named_empty classes groupCount)
  intro request mem builder named
  exact named.afterOne (keeps request mem)

/-! ## Frozen names -/

/-- An automaton has the states of the builder, under whatever names they have there. -/
theorem getElem?_states_of_build (built : builder.build = .ok automaton) {number : Nat} :
    automaton.states[number]? = some state ↔ builder.places[number]? = some (some state) := by
  obtain ⟨anchored, at_start, valid, rfl⟩ := build_eq_ok_iff.1 built
  rw [← (frozenFrom_freeze at_start valid rfl).states, Array.getElem?_map]
  simp

theorem frozen_named_iff (built : builder.build = .ok automaton) :
    (∀ (number : Nat) (state : State), automaton.states[number]? = some state →
        state.id.toNat = number) ↔
      ∀ (number : Nat) (state : State), builder.places[number]? = some (some state) →
        state.id.toNat = number := by
  simp only [getElem?_states_of_build built]

theorem Named.toNat_eq (named : builder.Named) {number : Nat}
    (here : builder.places[number]? = some (some state)) : state.id.toNat = number := by
  obtain ⟨inside, -⟩ := Array.getElem?_eq_some_iff.1 here
  have to_nat : (StateId.ofNat number).toNat = number :=
    StateId.toNat_ofNat_of_lt (Nat.lt_of_lt_of_le inside named.few)
  have found : builder.state? (.ofNat number) = some state := by
    unfold state?
    rw [to_nat, here]
    rfl
  rw [named.name found, to_nat]

/-- The states of an automaton are named for their places exactly if those of the builder are.
Requests that do not rename states lead to such a builder, and then every state is found under its
own name, which no other state has. -/
theorem frozen_named {classes : ByteClasses} {groupCount : Nat} {requests : List Request}
    (built : ((empty classes groupCount).after requests).build = .ok automaton) :
    ((∀ (number : Nat) (state : State), automaton.states[number]? = some state →
          state.id.toNat = number) ↔
        ∀ (number : Nat) (state : State),
          ((empty classes groupCount).after requests).places[number]? = some (some state) →
            state.id.toNat = number) ∧
      ((∀ request ∈ requests, request.KeepsNames) →
        (∀ number < automaton.stateCount, ∃ state,
          automaton.states[number]? = some state ∧
            automaton.state? (.ofNat number) = some state ∧ state.id = .ofNat number) ∧
        ∀ (i j : Nat) (s t : State), automaton.states[i]? = some s →
          automaton.states[j]? = some t → s.id = t.id → i = j) := by
  refine ⟨frozen_named_iff built, ?_⟩
  intro keeps
  have named := named_after classes groupCount keeps
  have number_of {number : Nat} {state : State} (here : automaton.states[number]? = some state) :
      state.id.toNat = number := named.toNat_eq ((getElem?_states_of_build built).1 here)
  constructor
  · intro number inside
    obtain ⟨state, here⟩ : ∃ state, automaton.states[number]? = some state :=
      ⟨_, Array.getElem?_eq_getElem inside⟩
    have id : state.id = .ofNat number := by
      rw [← state.id.ofNat_toNat, number_of here]
    refine ⟨state, here, ?_, id⟩
    unfold Automaton.state?
    rw [← id, number_of here]
    exact here
  · intro i j s t at_i at_j same
    rw [← number_of at_i, ← number_of at_j, same]

/-! ## One name for two states -/

/-- Requests for a start state and a final state, of which the second is given a name. -/
def finalNamed (name : StateId) : List Request :=
  [.add (.start (.ofNat 0) (some (.ofNat 1)) ∅), .add (.final (.ofNat 1) ∅),
    .edit (.ofNat 1) fun _ => .final name ∅, .anchoredStart (.ofNat 0)]

theorem stateOk_final (builder : Builder) (name : StateId) :
    builder.StateOk (.final name ∅) := by
  refine ⟨by simp [State.final, State.kind, Role.kind, tableSize, TransitionTable.size,
    TransitionTable.blank], ?_, ?_⟩
  · intro index next leads
    simp [State.final, TransitionTable.get?, TransitionTable.blank] at leads
  · intro slot recorded
    simp [State.final, State.slots, State.accept, Role.slots, Role.accept] at recorded

theorem build_finalNamed (name : StateId) :
    ∃ automaton, ((empty .empty 0).after (finalNamed name)).build = .ok automaton ∧
      automaton.states = #[.start (.ofNat 0) (some (.ofNat 1)) ∅, .final name ∅] := by
  have after : (empty .empty 0).after (finalNamed name) =
      ⟨.empty, 0, #[some (.start (.ofNat 0) (some (.ofNat 1)) ∅), some (.final name ∅)],
        some (.ofNat 0), none⟩ := rfl
  rw [after]
  refine ⟨_, build_eq_ok_iff.2 ⟨_, rfl, ⟨Nat.zero_le _, ?_, by simp, ?_, ⟨_, rfl, rfl⟩,
    ⟨_, rfl, rfl⟩⟩, rfl⟩, by simp [freeze]⟩
  · intro b
    simp [ByteClasses.alphabetLen, ByteClasses.empty]
  · intro state mem
    simp only [Array.mem_def, List.mem_cons, Option.some.injEq, List.not_mem_nil, or_false] at mem
    rcases mem with rfl | rfl
    · exact stateDefect?_eq_none_iff.1 rfl
    · exact stateOk_final _ name

/-- A final state that has been replaced by another one of the same name is found under it. -/
theorem frozen_named_finalNamed :
    ∃ automaton, ((empty .empty 0).after (finalNamed (.ofNat 1))).build = .ok automaton ∧
      ∃ state, automaton.state? (.ofNat 1) = some state ∧ state.id = .ofNat 1 := by
  obtain ⟨automaton, built, states⟩ := build_finalNamed (.ofNat 1)
  have two : 1 < automaton.stateCount := by
    unfold Automaton.stateCount
    rw [states]
    decide
  have keeps : ∀ request ∈ finalNamed (.ofNat 1), request.KeepsNames := by
    simp [finalNamed, Request.KeepsNames, State.final]
  obtain ⟨state, -, found, name⟩ := ((frozen_named built).2 keeps).1 1 two
  exact ⟨automaton, built, state, found, name⟩

/-- A final state that has been replaced by one with the name of the start state is frozen under
that name, so that two states of the automaton have it. -/
theorem exists_frozen_under_one_name :
    ∃ automaton, ((empty .empty 0).after (finalNamed (.ofNat 0))).build = .ok automaton ∧
      ∃ s t, automaton.states[0]? = some s ∧ automaton.states[1]? = some t ∧
        s.id = .ofNat 0 ∧ t.id = .ofNat 0 ∧ t.id.toNat ≠ 1 := by
  obtain ⟨automaton, built, states⟩ := build_finalNamed (.ofNat 0)
  refine ⟨automaton, built, .start (.ofNat 0) (some (.ofNat 1)) ∅, .final (.ofNat 0) ∅, ?_, ?_,
    rfl, rfl, by decide⟩
  · rw [states]
    rfl
  · rw [states]
    rfl

end Builder
end ByteDFA
