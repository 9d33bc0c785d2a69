import ByteDFA.Proofs.Builder.Rewiring
import ByteDFA.Proofs.Builder.Unroll

/-!
# Unrolling that keeps the loop

If the last member of the chain keeps the loop, the chain can be followed for as many steps as the
loop before. All of its members are versions of the unrolled state, and every other state is a
version of itself, so unrolling is a rewiring and changes nothing that a search can show.
-/

set_option autoImplicit false

namespace ByteDFA

theorem LoopEnd.exists_link_keep {x : StateId} :
    ∀ {chain : List StateId}, x ∈ chain → ∃ y ∈ chain, LoopEnd.keep.link x chain = some y
  | [last], _ => ⟨last, List.mem_cons_self, rfl⟩
  | member :: next :: rest, mem => by
    by_cases here : x = member
    · refine ⟨next, List.mem_cons_of_mem _ List.mem_cons_self, ?_⟩
      rw [LoopEnd.link, if_pos here]
    · obtain ⟨y, mem', linked⟩ := exists_link_keep ((List.mem_cons.1 mem).resolve_left here)
      refine ⟨y, List.mem_cons_of_mem _ mem', ?_⟩
      rw [LoopEnd.link, if_neg here]
      exact linked

namespace Builder

variable {builder : Builder} {id x y anchored unanchored : StateId} {state : State} {copies : Nat}

/-- In the unrolled builder, every state is a version of itself, and the members of the chain are
versions of the unrolled state. -/
def UnrolledTo (builder : Builder) (id : StateId) (copies : Nat) (x y : StateId) : Prop :=
  (x = y ∧ ∃ s, builder.state? x = some s) ∨ (x = id ∧ y ∈ builder.chainOf id copies)

theorem rel_redirect (valid : builder.Valid anchored unanchored)
    (can : builder.CanUnroll id state copies) (copied : 0 < copies)
    (mem : y ∈ builder.chainOf id copies) (index : Nat) :
    Option.Rel (builder.UnrolledTo id copies) (state.table.get? index)
      ((state.table.redirect id (LoopEnd.keep.link y (builder.chainOf id copies))).get? index) := by
  have proper := can.ne_noSuccessor copied List.mem_cons_self
  obtain ⟨z, mem', linked⟩ := LoopEnd.exists_link_keep mem
  rw [TransitionTable.get?_redirect proper, linked]
  cases leads : state.table.get? index with
  | none => exact .none
  | some next =>
    dsimp only [Option.bind_some]
    -- Where the state led to itself, its version leads to the next member, a version of it again.
    by_cases self : next = id
    · have proper' := can.ne_noSuccessor copied mem'
      rw [if_pos self, StateId.successor?_of_ne proper']
      exact .some (.inr ⟨self, mem'⟩)
    · obtain ⟨target, found', -⟩ := (valid.stateOk (some_mem_places can.found)).target leads
      rw [if_neg self]
      exact .some (.inl ⟨rfl, target, found'⟩)

theorem exists_version (valid : builder.Valid anchored unanchored)
    (can : builder.CanUnroll id state copies) (copied : 0 < copies)
    (related : builder.UnrolledTo id copies x y) :
    ∃ s t, builder.state? x = some s ∧
      (builder.unrolled id state copies .keep).state? y = some t ∧ t.role = s.role ∧
      t.table.size = s.table.size ∧
      ∀ index, Option.Rel (builder.UnrolledTo id copies) (s.table.get? index)
        (t.table.get? index) := by
  have member {y : StateId} (mem : y ∈ builder.chainOf id copies) :
      ∃ s t, builder.state? id = some s ∧
        (builder.unrolled id state copies .keep).state? y = some t ∧ t.role = s.role ∧
        t.table.size = s.table.size ∧
        ∀ index, Option.Rel (builder.UnrolledTo id copies) (s.table.get? index)
          (t.table.get? index) := by
    obtain ⟨t, at_y, role, table⟩ := can.state?_of_mem .keep mem
    refine ⟨state, t, can.found, at_y, role, ?_, ?_⟩
    · rw [table, TransitionTable.size_redirect]
    · intro index
      rw [table]
      exact rel_redirect valid can copied mem index
  rcases related with ⟨rfl, s, at_x⟩ | ⟨rfl, mem⟩
  · by_cases here : x = id
    · subst here
      exact member List.mem_cons_self
    · refine ⟨s, s, at_x, ?_, rfl, rfl, fun index => ?_⟩
      · rw [can.state?_of_ne (toNat_lt_size at_x) here]
        exact at_x
      · cases leads : s.table.get? index with
        | none => exact .none
        | some next =>
          obtain ⟨target, found', -⟩ := (valid.stateOk (some_mem_places at_x)).target leads
          exact .some (.inl ⟨rfl, target, found'⟩)
  · exact member mem

theorem covers_unrolled (valid : builder.Valid anchored unanchored)
    (can : builder.CanUnroll id state copies) (copied : 0 < copies) :
    builder.Covers (builder.unrolled id state copies .keep) (builder.UnrolledTo id copies) := by
  refine ⟨?_, ?_, ?_, ?_, ?_⟩
  · rw [unrolled_eq_with_places]
  · rw [unrolled_eq_with_places]
  · have room := can.room
    rw [size_unrolled]
    omega
  · intro y inside
    rw [size_unrolled] at inside
    by_cases old : y.toNat < builder.places.size
    · exact ⟨y, .inl ⟨rfl, valid.exists_state? old⟩⟩
    · have next := (mem_nextIds can.room).2 ⟨Nat.le_of_not_lt old, inside⟩
      exact ⟨id, .inr ⟨rfl, List.mem_cons_of_mem _ next⟩⟩
  · intro x y related
    obtain ⟨s, t, at_x, at_y, role, size, rel⟩ := exists_version valid can copied related
    exact ⟨s, t, at_x, at_y, role, size, fun leads => exists_left_of_rel (rel _) leads⟩

theorem keeps_unrolled (valid : builder.Valid anchored unanchored)
    (can : builder.CanUnroll id state copies) (copied : 0 < copies) :
    builder.Keeps (builder.unrolled id state copies .keep) (builder.UnrolledTo id copies) := by
  intro x y s t index next related at_x at_y leads
  obtain ⟨s', t', at_x', at_y', -, -, rel⟩ := exists_version valid can copied related
  cases at_x.symm.trans at_x'
  cases at_y.symm.trans at_y'
  exact exists_right_of_rel (rel index) leads

/-- Unrolling a loop that is kept cannot be told from the outside: the unrolled builder can be built
if the other one could, its automaton has the same accelerator, and every search has the same
outcome, whatever its configuration. -/
theorem build_unrolled_keep {automaton : Automaton} (built : builder.build = .ok automaton)
    {chain : Array StateId} {builder' : Builder}
    (unrolls : unroll id copies .keep builder = .ok chain builder') :
    ∃ automaton', builder'.build = .ok automaton' ∧
      automaton'.accelerator = automaton.accelerator ∧
      ∀ (executor : Executor) (input : Input),
        executor.search automaton' input = executor.search automaton input := by
  obtain ⟨state, can, -, rfl⟩ := unroll_eq_ok_iff.1 unrolls
  -- In a builder with more places than identifiers there is room for no copy, and the chain may
  -- consist of the mark for having no successor.
  cases copies with
  | zero =>
    rw [unrolled_zero]
    exact ⟨automaton, built, rfl, fun _ _ => rfl⟩
  | succ copies =>
    have copied : 0 < copies + 1 := Nat.zero_lt_succ copies
    obtain ⟨anchored, at_start, valid, -⟩ := build_eq_ok_iff.1 built
    refine build_of_rewires built (covers_unrolled valid can copied)
      (keeps_unrolled valid can copied) ?_
    intro x at_start'
    cases at_start.symm.trans at_start'
    rw [unrolled_eq_with_places]
    obtain ⟨s, at_anchored, -⟩ := valid.anchored
    obtain ⟨s', at_unanchored, -⟩ := valid.unanchored
    exact ⟨anchored, at_start, .inl ⟨rfl, s, at_anchored⟩, .inl ⟨rfl, s', at_unanchored⟩⟩

/-- The loop of the automaton for one or more of `a`, unrolled into a chain of three states, still
matches all of `aaaaa`. -/
theorem build_unrolled_keep_aPlus :
    ∃ builder' automaton',
      unroll (.ofNat 2) 2 .keep aPlus = .ok #[.ofNat 2, .ofNat 3, .ofNat 4] builder' ∧
        builder'.build = .ok automaton' ∧
        Executor.search {} automaton' ⟨#[0x61, 0x61, 0x61, 0x61, 0x61], 0, true⟩ =
          .ok (some ⟨#[Offset.ofNat? 0, Offset.ofNat? 5]⟩) := by
  have unrolls : ∃ builder',
      unroll (.ofNat 2) 2 .keep aPlus = .ok #[.ofNat 2, .ofNat 3, .ofNat 4] builder' :=
    ⟨_, unroll_eq_ok_iff.2 ⟨_, ⟨rfl, by decide +kernel, by decide⟩, rfl, rfl⟩⟩
  obtain ⟨builder', unrolls⟩ := unrolls
  obtain ⟨automaton', built, -, same⟩ := build_unrolled_keep build_aPlus unrolls
  refine ⟨builder', automaton', unrolls, built, ?_⟩
  have verdict : (Executor.report {} (aPlus.freeze (.ofNat 0) (.ofNat 0))
      ⟨#[0x61, 0x61, 0x61, 0x61, 0x61], 0, true⟩).verdict =
      .decided 0 .rejected 5 (some #[Offset.ofNat? 0, Offset.ofNat? 5]) := by decide +kernel
  rw [same, Executor.search, Report.outcome, verdict]
  rfl

end Builder
end ByteDFA
