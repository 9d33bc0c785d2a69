import ByteDFA.Proofs.Builder.Unroll

/-!
# The chain that a state is unrolled into

`Unrolling` tells all that there is to see of a builder in which a state has been unrolled, entry by
entry and place by place: which identifiers the chain consists of, what is in the place of each
member, and that everything else is as before. Nothing is assumed of the builder (`unroll_effect`).
In particular, the table of the state may lead to places that are only taken by its copies; such
entries are none of the loop and stay.
-/

set_option autoImplicit false

namespace ByteDFA

theorem TransitionTable.get?_ne_some_noSuccessor (table : TransitionTable) (index : Nat) :
    table.get? index ≠ some StateId.noSuccessor := by
  unfold get?
  cases table.packed[index]? with
  | none => exact fun leads => nomatch leads
  | some id => exact StateId.successor?_ne_some_noSuccessor id

namespace Builder

variable {builder builder' : Builder} {id x : StateId} {state : State} {copies : Nat}
  {loopEnd : LoopEnd} {chain : Array StateId}

/-- The second builder is the first one with a state unrolled into a chain. -/
structure Unrolling (builder : Builder) (id : StateId) (state : State) (copies : Nat)
    (loopEnd : LoopEnd) (chain : Array StateId) (builder' : Builder) : Prop where
  /-- The chain begins with the state. Its copies are in the places that come next. -/
  size : chain.size = copies + 1
  head : chain[0]? = some id
  copy : ∀ number < copies, ∃ x, chain[number + 1]? = some x ∧
    x.toNat = builder.places.size + number
  /-- Every member is the state but for the name of a copy and for the entries that led to the state
  itself. They lead to the next member, and those of the last one to where the end of the loop
  says. -/
  member : ∀ (place : Nat) (x : StateId), chain[place]? = some x → ∃ table : TransitionTable,
    builder'.state? x = some ⟨if place = 0 then state.id else x, table, state.role⟩ ∧
      table.size = state.table.size ∧
      ∀ index, table.get? index =
        if state.table.get? index = some id then chain[place + 1]?.or (loopEnd.target x)
        else state.table.get? index
  /-- There are no other new places, and outside the chain nothing is changed. -/
  places : builder'.places.size = builder.places.size + copies
  other : ∀ number < builder.places.size, (∀ x ∈ chain, x.toNat ≠ number) →
    builder'.places[number]? = builder.places[number]?
  rest : builder' = { builder with places := builder'.places }

/-! ## Members -/

theorem CanUnroll.ne_noSuccessor_of_proper (can : builder.CanUnroll id state copies)
    (proper : id ≠ StateId.noSuccessor) (mem : x ∈ builder.chainOf id copies) :
    x ≠ StateId.noSuccessor := by
  rcases List.mem_cons.1 mem with rfl | next
  · exact proper
  · obtain ⟨le, lt⟩ := (mem_nextIds can.room).1 next
    exact can.ne_noSuccessor (by omega) mem

/-- Where a member leads is no mark for having no successor. -/
theorem CanUnroll.bind_link (can : builder.CanUnroll id state copies)
    (proper : id ≠ StateId.noSuccessor) {place : Nat}
    (at_place : (builder.chainOf id copies)[place]? = some x) :
    (loopEnd.link x (builder.chainOf id copies)).bind StateId.successor? =
      loopEnd.link x (builder.chainOf id copies) := by
  rw [LoopEnd.link_of_getElem? loopEnd can.nodup_chainOf at_place]
  cases next : (builder.chainOf id copies)[place + 1]? with
  | some y =>
    exact StateId.successor?_of_ne
      (can.ne_noSuccessor_of_proper proper (List.mem_of_getElem? next))
  | none =>
    cases loopEnd with
    | reject => rfl
    | keep =>
      exact StateId.successor?_of_ne
        (can.ne_noSuccessor_of_proper proper (List.mem_of_getElem? at_place))

/-- In a builder with more places than identifiers, the state may stand where the mark for having no
successor would. There is room for no copy then, and no entry that can be redirected. -/
theorem CanUnroll.redirect_mark (can : builder.CanUnroll StateId.noSuccessor state copies)
    (mem : x ∈ builder.chainOf StateId.noSuccessor copies) :
    state.table.redirect StateId.noSuccessor
      (loopEnd.link x (builder.chainOf StateId.noSuccessor copies)) = state.table := by
  have beyond : StateId.limit < builder.places.size := toNat_lt_size can.found
  have room := can.room
  have none_left : copies = 0 := by omega
  subst none_left
  cases List.mem_singleton.1 mem
  cases loopEnd with
  | reject => exact state.table.redirect_self StateId.noSuccessor
  | keep => exact state.table.redirect_self StateId.noSuccessor

theorem CanUnroll.get?_member (can : builder.CanUnroll id state copies) {place : Nat}
    (at_place : (builder.chainOf id copies)[place]? = some x) (index : Nat) :
    (state.table.redirect id (loopEnd.link x (builder.chainOf id copies))).get? index =
      if state.table.get? index = some id then
        (builder.chainOf id copies)[place + 1]?.or (loopEnd.target x)
      else state.table.get? index := by
  by_cases mark : id = StateId.noSuccessor
  · subst mark
    rw [can.redirect_mark (List.mem_of_getElem? at_place),
      if_neg (state.table.get?_ne_some_noSuccessor index)]
  · rw [TransitionTable.get?_redirect mark, can.bind_link mark at_place,
      LoopEnd.link_of_getElem? loopEnd can.nodup_chainOf at_place]
    cases leads : state.table.get? index with
    | none => rfl
    | some next => simp only [Option.bind_some, Option.some.injEq]

theorem CanUnroll.id_eq (can : builder.CanUnroll id state copies) {place : Nat}
    (at_place : (builder.chainOf id copies)[place]? = some x) :
    (if x = id then state else state.withId x).id = if place = 0 then state.id else x := by
  cases place with
  | zero =>
    cases at_place
    rw [if_pos rfl, if_pos rfl]
  | succ number =>
    have other : x ≠ id := by
      intro here
      subst here
      exact (List.nodup_cons.1 can.nodup_chainOf).1 (List.mem_of_getElem? at_place)
    rw [if_neg other, if_neg (Nat.succ_ne_zero number)]
    rfl

theorem CanUnroll.unrolling (can : builder.CanUnroll id state copies) (loopEnd : LoopEnd) :
    builder.Unrolling id state copies loopEnd (builder.chainOf id copies).toArray
      (builder.unrolled id state copies loopEnd) where
  size := by rw [List.size_toArray, length_chainOf]
  head := rfl
  copy number below := by
    have room := can.room
    refine ⟨.ofNat (builder.places.size + number), ?_, StateId.toNat_ofNat_of_lt (by omega)⟩
    simp [chainOf, nextIds, below]
  member place x at_place := by
    rw [List.getElem?_toArray] at at_place
    simp only [List.getElem?_toArray]
    refine ⟨state.table.redirect id (loopEnd.link x (builder.chainOf id copies)), ?_,
      TransitionTable.size_redirect .., can.get?_member at_place⟩
    rw [can.state?_member loopEnd (List.mem_of_getElem? at_place), ← can.id_eq at_place]
    split <;> rfl
  places := size_unrolled
  other number old outside := by
    rw [Builder.unrolled, getElem?_redirectChain _ _ _ fun x mem =>
      outside x (List.mem_toArray.2 mem)]
    exact getElem?_withCopies old
  rest := unrolled_eq_with_places

/-- A state can be unrolled exactly if it is there, has a transition to itself, and there are
identifiers for its copies. What comes out is the chain, and nothing else is changed. -/
theorem unroll_effect (builder : Builder) (id : StateId) (copies : Nat) (loopEnd : LoopEnd) :
    ((∃ chain builder', unroll id copies loopEnd builder = .ok chain builder') ↔
      ∃ state, builder.state? id = some state ∧ state.table.contains id = true ∧
        copies ≤ 65535 - builder.places.size) ∧
    ∀ chain builder', unroll id copies loopEnd builder = .ok chain builder' →
      ∃ state, builder.state? id = some state ∧
        builder.Unrolling id state copies loopEnd chain builder' := by
  refine ⟨⟨?_, ?_⟩, ?_⟩
  · intro succeeds
    obtain ⟨chain, builder', unrolls⟩ := succeeds
    obtain ⟨state, can, -⟩ := unroll_eq_ok_iff.1 unrolls
    exact ⟨state, can.found, can.loops, can.room⟩
  · intro possible
    obtain ⟨state, found, loops, room⟩ := possible
    exact ⟨_, _, unroll_eq_ok_iff.2 ⟨state, ⟨found, loops, room⟩, rfl, rfl⟩⟩
  · intro chain builder' unrolls
    obtain ⟨state, can, rfl, rfl⟩ := unroll_eq_ok_iff.1 unrolls
    exact ⟨state, can.found, can.unrolling loopEnd⟩

/-- A single matcher, which leads to itself and to a place that nobody has taken yet. -/
def loopBeforeVacancy : Builder where
  classes := .empty
  groupCount := 0
  places := #[some (.matcher (.ofNat 0) (.ofList [some (.ofNat 0), some (.ofNat 1)]) ∅ none)]
  anchoredStart := none
  unanchoredStart := none

/-- The copy of the matcher takes that place. Its loop is cut, but the entry that leads to the place
stays, although it has become a loop of the copy. -/
theorem unroll_effect_loopBeforeVacancy :
    ∃ chain builder', unroll (.ofNat 0) 1 .reject loopBeforeVacancy = .ok chain builder' ∧
      ∃ table, builder'.state? (.ofNat 1) = some ⟨.ofNat 1, table, .matcher ∅ none⟩ ∧
        table.get? 0 = none ∧ table.get? 1 = some (.ofNat 1) := by
  obtain ⟨possible, effect⟩ := unroll_effect loopBeforeVacancy (.ofNat 0) 1 .reject
  obtain ⟨chain, builder', unrolls⟩ := possible.2 ⟨_, rfl, by decide +kernel, by decide⟩
  obtain ⟨state, found, unrolling⟩ := effect chain builder' unrolls
  cases found
  obtain ⟨x, at_one, number⟩ := unrolling.copy 0 Nat.zero_lt_one
  cases StateId.toNat_injective (b := .ofNat 1) number
  have last : chain[1 + 1]? = none := Array.getElem?_eq_none (Nat.le_of_eq unrolling.size)
  obtain ⟨table, at_x, -, entry⟩ := unrolling.member 1 (.ofNat 1) at_one
  refine ⟨chain, builder', unrolls, table, at_x, ?_, ?_⟩
  · rw [entry, last]
    decide
  · rw [entry, last]
    decide

end Builder
end ByteDFA
