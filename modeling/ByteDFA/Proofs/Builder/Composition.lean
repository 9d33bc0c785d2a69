import ByteDFA.Proofs.Builder.Unroll

/-!
# Unrolling in two goes

A state that has been unrolled into a chain that keeps the loop can be unrolled further at the end
of the chain. This comes to the same as unrolling it at once (`unroll_add`): the last member of the
first chain is the first one of the second chain, and the two chains together are one.

The second go copies a table in which the loop has been redirected already. Its entries come out the
same if they can be told apart from all others, so nothing in the table may have led to the place of
the last member before (`TransitionTable.redirect_redirect`). This is so if the table refers to
places only that were there at the beginning.
-/

set_option autoImplicit false

namespace ByteDFA

/-! ## Redirecting twice -/

namespace TransitionTable

variable {table : TransitionTable} {source between : StateId}

/-- What is redirected to an identifier that did not occur can be redirected from there. -/
theorem redirect_redirect (absent : between ∉ table.packed) (next : Option StateId) :
    (table.redirect source (some between)).redirect between next = table.redirect source next := by
  unfold redirect
  dsimp only
  rw [Array.map_map]
  refine congrArg mk (Array.map_congr_left fun id mem => ?_)
  by_cases leads : id = source
  · rw [Function.comp_apply, if_pos leads, if_pos leads]
    exact if_pos rfl
  · have other : id ≠ between := fun same => absent (same ▸ mem)
    rw [Function.comp_apply, if_neg leads, if_neg other, if_neg leads]

theorem contains_redirect (leads : table.contains source = true) :
    (table.redirect source (some between)).contains between = true := by
  rw [contains_iff] at leads ⊢
  exact Array.mem_map.2 ⟨source, leads, if_pos rfl⟩

/-- An identifier of a state is in the table only if it is one of its successors. -/
theorem some_mem_toList_of_mem (proper : source ≠ StateId.noSuccessor)
    (mem : source ∈ table.packed) : some source ∈ table.toList :=
  List.mem_map.2 ⟨source, Array.mem_toList_iff.2 mem, StateId.successor?_of_ne proper⟩

end TransitionTable

theorem State.redirect_redirect {state : State} {source between : StateId}
    (absent : between ∉ state.table.packed) (next : Option StateId) :
    (state.redirect source (some between)).redirect between next = state.redirect source next :=
  congrArg state.withTable (TransitionTable.redirect_redirect absent next)

/-! ## Two chains in a row -/

namespace LoopEnd

variable {x last : StateId} {front rest : List StateId}

theorem link_cons (loopEnd : LoopEnd) (member : StateId) (more : rest ≠ []) :
    loopEnd.link x (member :: rest) =
      if x = member then rest.head? else loopEnd.link x rest := by
  cases rest with
  | nil => exact absurd rfl more
  | cons next rest => rfl

/-- In front of the last member of the first chain, it does not matter how the chain goes on. -/
theorem link_append_of_mem (loopEnd other : LoopEnd) (mem : x ∈ front) :
    loopEnd.link x (front ++ last :: rest) = other.link x (front ++ [last]) := by
  induction front with
  | nil => cases mem
  | cons member front ih =>
    rw [List.cons_append, List.cons_append, link_cons _ _ (by simp), link_cons _ _ (by simp)]
    by_cases here : x = member
    · rw [if_pos here, if_pos here, List.head?_append, List.head?_append]
      rfl
    · rw [if_neg here, if_neg here]
      exact ih ((List.mem_cons.1 mem).resolve_left here)

theorem link_append_of_not_mem (loopEnd : LoopEnd) (outside : x ∉ front) :
    loopEnd.link x (front ++ last :: rest) = loopEnd.link x (last :: rest) := by
  induction front with
  | nil => rfl
  | cons member front ih =>
    have other : x ≠ member := fun here => outside (here ▸ List.mem_cons_self)
    rw [List.cons_append, link_cons _ _ (by simp), if_neg other]
    exact ih fun mem => outside (List.mem_cons_of_mem _ mem)

end LoopEnd

namespace Builder

variable {builder builder' : Builder} {id x : StateId} {state : State} {copies more : Nat}
  {loopEnd : LoopEnd}

/-- The identifier of the last of `copies + 1` copies. -/
def lastCopy (builder : Builder) (copies : Nat) : StateId :=
  .ofNat (builder.places.size + copies)

theorem chainOf_succ (builder : Builder) (id : StateId) (copies : Nat) :
    builder.chainOf id (copies + 1) = builder.chainOf id copies ++ [builder.lastCopy copies] := by
  rw [chainOf, nextIds_succ_last]
  rfl

theorem nextIds_add (size : builder'.places.size = builder.places.size + copies) (more : Nat) :
    builder.nextIds (copies + more) = builder.nextIds copies ++ builder'.nextIds more := by
  unfold nextIds
  rw [size, ← List.map_append, List.range'_append_1]

/-- The chain of the second go begins where that of the first one ends. -/
theorem chainOf_add (size : builder'.places.size = builder.places.size + (copies + 1))
    (more : Nat) :
    builder.chainOf id (copies + 1 + more) =
      builder.chainOf id copies ++ builder'.chainOf (builder.lastCopy copies) more := by
  rw [chainOf, nextIds_add size, ← List.cons_append]
  show builder.chainOf id (copies + 1) ++ _ = _
  rw [chainOf_succ, List.append_assoc]
  rfl

/-- The second go goes on where the last member of the first chain led to itself. -/
theorem link_chainOf_add_of_mem (size : builder'.places.size = builder.places.size + (copies + 1))
    (loopEnd : LoopEnd) (front : x ∈ builder.chainOf id copies) :
    loopEnd.link x (builder.chainOf id (copies + 1 + more)) =
      LoopEnd.keep.link x (builder.chainOf id (copies + 1)) := by
  rw [chainOf_add size, chainOf_succ]
  exact loopEnd.link_append_of_mem .keep front

theorem link_chainOf_add_of_not_mem
    (size : builder'.places.size = builder.places.size + (copies + 1)) (loopEnd : LoopEnd)
    (behind : x ∉ builder.chainOf id copies) :
    loopEnd.link x (builder.chainOf id (copies + 1 + more)) =
      loopEnd.link x (builder'.chainOf (builder.lastCopy copies) more) := by
  rw [chainOf_add size]
  exact loopEnd.link_append_of_not_mem behind

/-- The last member of a chain that keeps the loop. -/
def lastMember (builder : Builder) (id : StateId) (state : State) (copies : Nat) : State :=
  (state.withId (builder.lastCopy copies)).redirect id (some (builder.lastCopy copies))

theorem CanUnroll.lastCopy_not_mem (can : builder.CanUnroll id state (copies + 1)) :
    builder.lastCopy copies ∉ builder.chainOf id copies := by
  have nodup := can.nodup_chainOf
  rw [chainOf_succ] at nodup
  intro mem
  exact (List.nodup_append.1 nodup).2.2 _ mem _ (List.mem_singleton.2 rfl) rfl

theorem CanUnroll.state?_lastCopy (can : builder.CanUnroll id state (copies + 1)) :
    (builder.unrolled id state (copies + 1) .keep).state? (builder.lastCopy copies) =
      some (builder.lastMember id state copies) := by
  have behind := can.lastCopy_not_mem
  have other : builder.lastCopy copies ≠ id := fun here => behind (here ▸ List.mem_cons_self)
  have mem : builder.lastCopy copies ∈ builder.chainOf id (copies + 1) := by
    rw [chainOf_succ]
    exact List.mem_append_right _ List.mem_cons_self
  rw [can.state?_member .keep mem, if_neg other, chainOf_succ,
    LoopEnd.keep.link_append_of_not_mem behind]
  rfl

/-- A chain that keeps the loop can be unrolled further at its end. -/
theorem CanUnroll.further (can : builder.CanUnroll id state (copies + 1 + more)) :
    (builder.unrolled id state (copies + 1) .keep).CanUnroll (builder.lastCopy copies)
      (builder.lastMember id state copies) more where
  found := by
    have room := can.room
    exact CanUnroll.state?_lastCopy ⟨can.found, can.loops, by omega⟩
  loops := TransitionTable.contains_redirect can.loops
  room := by
    have room := can.room
    rw [size_unrolled]
    omega

/-! ## The two goes together -/

theorem with_places_of_eq_with_places {base : Builder}
    (rest : builder = { base with places := builder.places }) (places : Array (Option State)) :
    { builder with places } = { base with places } := by
  rw [rest]

/-- Builders that differ in their places alone are the same if these hold the same states. -/
theorem eq_of_state?_eq {base : Builder} (rest : builder = { base with places := builder.places })
    (rest' : builder' = { base with places := builder'.places })
    (size : builder'.places.size = builder.places.size)
    (few : builder.places.size ≤ StateId.limit)
    (states : ∀ x, builder'.state? x = builder.state? x) : builder' = builder := by
  have places : builder'.places = builder.places := by
    refine Array.ext size fun number inside inside' => ?_
    have here := states (.ofNat number)
    unfold state? at here
    rw [StateId.toNat_ofNat_of_lt (by omega), Array.getElem?_eq_getElem inside,
      Array.getElem?_eq_getElem inside'] at here
    exact here
  rw [rest', places, ← rest]

/-- The second go copies the last member of the first chain, whose loop has been redirected. -/
theorem lastMember_redirect (absent : builder.lastCopy copies ∉ state.table.packed)
    (next : Option StateId) :
    (if x = builder.lastCopy copies then builder.lastMember id state copies
      else (builder.lastMember id state copies).withId x).redirect (builder.lastCopy copies) next =
      (state.withId x).redirect id next := by
  have renamed : (if x = builder.lastCopy copies then builder.lastMember id state copies
      else (builder.lastMember id state copies).withId x) =
      (state.withId x).redirect id (some (builder.lastCopy copies)) := by
    split
    · rename_i here
      rw [here]
      rfl
    · rfl
  rw [renamed]
  exact @State.redirect_redirect (state.withId x) id _ absent next

/-- After the two goes every place holds the state that it holds after one, provided that nothing in
the table led to the place of the last member of the first chain before. -/
theorem CanUnroll.state?_unrolled_unrolled (can : builder.CanUnroll id state (copies + 1 + more))
    (absent : builder.lastCopy copies ∉ state.table.packed) (loopEnd : LoopEnd) (x : StateId) :
    ((builder.unrolled id state (copies + 1) .keep).unrolled (builder.lastCopy copies)
        (builder.lastMember id state copies) more loopEnd).state? x =
      (builder.unrolled id state (copies + 1 + more) loopEnd).state? x := by
  have room := can.room
  have first : builder.CanUnroll id state (copies + 1) := ⟨can.found, can.loops, by omega⟩
  have second := can.further
  have size : (builder.unrolled id state (copies + 1) .keep).places.size =
      builder.places.size + (copies + 1) := size_unrolled
  have apart := can.nodup_chainOf
  rw [chainOf_add size, List.nodup_append] at apart
  have in_whole : x ∈ builder.chainOf id (copies + 1 + more) ↔ x ∈ builder.chainOf id copies ∨
      x ∈ (builder.unrolled id state (copies + 1) .keep).chainOf (builder.lastCopy copies) more := by
    rw [chainOf_add size, List.mem_append]
  have in_first : x ∈ builder.chainOf id (copies + 1) ↔
      x ∈ builder.chainOf id copies ∨ x = builder.lastCopy copies := by
    rw [chainOf_succ, List.mem_append, List.mem_singleton]
  by_cases front : x ∈ builder.chainOf id copies
  · -- A member of the first chain other than the last one is not touched by the second go.
    have not_second : x ∉ (builder.unrolled id state (copies + 1) .keep).chainOf
        (builder.lastCopy copies) more := fun back => apart.2.2 x front x back rfl
    rw [second.state?_of_not_mem not_second, first.state?_member .keep (in_first.2 (.inl front)),
      can.state?_member loopEnd (in_whole.2 (.inl front)),
      link_chainOf_add_of_mem size loopEnd front]
  by_cases back : x ∈ (builder.unrolled id state (copies + 1) .keep).chainOf
      (builder.lastCopy copies) more
  · -- A member of the second chain has been redirected twice.
    have other : x ≠ id := fun here => front (here ▸ List.mem_cons_self)
    rw [second.state?_member loopEnd back, can.state?_member loopEnd (in_whole.2 (.inr back)),
      if_neg other, link_chainOf_add_of_not_mem size loopEnd front, lastMember_redirect absent]
  · have not_first : x ∉ builder.chainOf id (copies + 1) := fun mem =>
      (in_first.1 mem).elim front fun last => back (last ▸ List.mem_cons_self)
    rw [second.state?_of_not_mem back, first.state?_of_not_mem not_first,
      can.state?_of_not_mem fun mem => (in_whole.1 mem).elim front back]

theorem CanUnroll.unrolled_unrolled (can : builder.CanUnroll id state (copies + 1 + more))
    (absent : builder.lastCopy copies ∉ state.table.packed) (loopEnd : LoopEnd) :
    (builder.unrolled id state (copies + 1) .keep).unrolled (builder.lastCopy copies)
        (builder.lastMember id state copies) more loopEnd =
      builder.unrolled id state (copies + 1 + more) loopEnd := by
  have room := can.room
  refine eq_of_state?_eq unrolled_eq_with_places ?_ ?_ ?_
    (can.state?_unrolled_unrolled absent loopEnd)
  · exact unrolled_eq_with_places.trans
      (with_places_of_eq_with_places unrolled_eq_with_places _)
  · rw [size_unrolled, size_unrolled, size_unrolled, Nat.add_assoc]
  · rw [size_unrolled]
    omega

/-- A place that is taken by a copy is none that the table referred to before. -/
theorem CanUnroll.lastCopy_not_mem_packed (can : builder.CanUnroll id state (copies + 1))
    (within : ∀ next, some next ∈ state.table.toList → next.toNat < builder.places.size) :
    builder.lastCopy copies ∉ state.table.packed := by
  have room := can.room
  have number : (builder.lastCopy copies).toNat = builder.places.size + copies :=
    StateId.toNat_ofNat_of_lt (by omega)
  have proper : builder.lastCopy copies ≠ StateId.noSuccessor :=
    StateId.ofNat_ne_noSuccessor (by omega)
  intro mem
  have lt := within _ (TransitionTable.some_mem_toList_of_mem proper mem)
  omega

/-- A chain goes on with the second one, of which the beginning is left out. -/
theorem chainOf_append_drop (size : builder'.places.size = builder.places.size + copies)
    (last : StateId) (more : Nat) :
    (builder.chainOf id copies).toArray ++ (builder'.chainOf last more).toArray.drop 1 =
      (builder.chainOf id (copies + more)).toArray := by
  have rest : (builder'.chainOf last more).toArray.drop 1 = (builder'.nextIds more).toArray := by
    simp [chainOf]
  rw [rest, List.append_toArray, chainOf, chainOf, nextIds_add size, List.cons_append]

/-- Unrolling a state, keeping the loop, and then unrolling the last member of the chain is the same
as unrolling the state at once. Both goes succeed if there is room for all copies, and the chain
that they make together is the first one followed by all of the second one but its beginning. The
table of the state must not refer to places that there are not yet. -/
theorem unroll_add (found : builder.state? id = some state)
    (loops : state.table.contains id = true)
    (within : ∀ next, some next ∈ state.table.toList → next.toNat < builder.places.size)
    (room : copies + more ≤ 65535 - builder.places.size) (loopEnd : LoopEnd) :
    ∃ chain between last rest unrolled,
      unroll id copies .keep builder = .ok chain between ∧ chain.back? = some last ∧
        unroll last more loopEnd between = .ok rest unrolled ∧
        unroll id (copies + more) loopEnd builder = .ok (chain ++ rest.drop 1) unrolled := by
  have can : builder.CanUnroll id state (copies + more) := ⟨found, loops, room⟩
  have first : builder.CanUnroll id state copies :=
    ⟨found, loops, Nat.le_trans (Nat.le_add_right copies more) room⟩
  cases copies with
  | zero =>
    -- Without copies nothing is changed, however many places there are.
    have unrolls := first.unroll_eq_ok .keep
    rw [unrolled_zero] at unrolls
    rw [Nat.zero_add] at can
    refine ⟨_, _, id, _, _, unrolls, rfl, can.unroll_eq_ok loopEnd, ?_⟩
    rw [chainOf_append_drop rfl, Nat.zero_add]
    exact can.unroll_eq_ok loopEnd
  | succ copies =>
    have last : (builder.chainOf id (copies + 1)).toArray.back? =
        some (builder.lastCopy copies) := by
      rw [chainOf_succ]
      simp
    refine ⟨_, _, builder.lastCopy copies, _, _, first.unroll_eq_ok .keep, last,
      can.further.unroll_eq_ok loopEnd, ?_⟩
    rw [chainOf_append_drop size_unrolled,
      can.unrolled_unrolled (first.lastCopy_not_mem_packed within)]
    exact can.unroll_eq_ok loopEnd

/-- The loop of the automaton for one or more of `a` is unrolled into the places 3 and 4 and further
into 5 and 6, where it is cut off. -/
theorem unroll_add_aPlus :
    ∃ chain between last rest unrolled,
      unroll (.ofNat 2) 2 .keep aPlus = .ok chain between ∧ chain.back? = some last ∧
        unroll last 2 .reject between = .ok rest unrolled ∧
        unroll (.ofNat 2) 4 .reject aPlus =
          .ok #[.ofNat 2, .ofNat 3, .ofNat 4, .ofNat 5, .ofNat 6] unrolled := by
  have found : aPlus.state? (.ofNat 2) = some (.matcher (.ofNat 2) (.ofList [some (.ofNat 2), none])
      ∅ (some (BitSet.empty.insert 1))) := rfl
  have successors : ∀ entry ∈ (TransitionTable.ofList [some (.ofNat 2), none]).toList,
      ∀ next ∈ entry, next.toNat < aPlus.places.size := by decide +kernel
  have can : aPlus.CanUnroll (.ofNat 2) _ 4 := ⟨found, by decide +kernel, by decide⟩
  obtain ⟨chain, between, last, rest, unrolled, first, at_end, second, whole⟩ :=
    @unroll_add aPlus (.ofNat 2) _ 2 2 found can.loops
      (fun next leads => successors _ leads next rfl) can.room .reject
  have members := (EStateM.Result.ok.inj (whole.symm.trans (can.unroll_eq_ok .reject))).1
  refine ⟨chain, between, last, rest, unrolled, first, at_end, second, ?_⟩
  rw [whole, members]
  rfl

end Builder
end ByteDFA
