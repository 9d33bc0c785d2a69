import ByteDFA.Proofs.Builder.Chain
import ByteDFA.Proofs.Builder.KeepLoop
import ByteDFA.Proofs.Search.BoundedStays

/-!
# Unrolling that bounds the loop

If the last member of the chain rejects where the unrolled state led to itself, the chain can be
followed for as many steps as there are copies. The members are still versions of the unrolled
state, so the builder stays valid (`Valid.unrolled_reject`). What is lost is the loop of the last
member, and with it the rest of every run that would stay for longer: such a run stops there, with
what has been saved until then (`build_unrolled_reject`).
-/

set_option autoImplicit false

namespace ByteDFA

/-! ## Tables along the chain -/

/-- Rejecting instead of leading to some identifier. This is right of the mark for having no
successor as well: no entry leads to it, and it stays as it is. -/
theorem TransitionTable.get?_redirect_none (table : TransitionTable) (source : StateId)
    (index : Nat) :
    (table.redirect source none).get? index =
      (table.get? index).bind fun id => if id = source then none else some id := by
  by_cases mark : source = StateId.noSuccessor
  · subst mark
    have same : table.redirect StateId.noSuccessor none = table :=
      redirect_self table StateId.noSuccessor
    rw [same]
    unfold get?
    cases table.packed[index]? with
    | none => rfl
    | some id =>
      by_cases rejects : id = StateId.noSuccessor
      · subst rejects
        rfl
      · rw [Option.bind_some, StateId.successor?_of_ne rejects, Option.bind_some, if_neg rejects]
  · exact get?_redirect mark table none index

namespace Builder

variable {builder : Builder} {id x y anchored unanchored : StateId} {s state : State}
  {copies count place : Nat}

/-- A member of the chain leads to the next one where the unrolled state led to itself, and nowhere
if it is the last. -/
theorem CanUnroll.exists_member (can : builder.CanUnroll id state copies)
    (member : (builder.chainOf id copies)[place]? = some x) :
    ∃ t, (builder.unrolled id state copies .reject).state? x = some t ∧ t.role = state.role ∧
      t.table.size = state.table.size ∧
      ∀ index, t.table.get? index =
        (state.table.get? index).bind (member? (builder.chainOf id copies) id (place + 1)) := by
  obtain ⟨t, at_x, role, table⟩ := can.state?_of_mem .reject (List.mem_of_getElem? member)
  refine ⟨t, at_x, role, ?_, ?_⟩
  · rw [table, TransitionTable.size_redirect]
  intro index
  rw [table, can.get?_member member]
  cases state.table.get? index with
  | none => rfl
  | some next =>
    rw [Option.bind_some, member?]
    simp only [Option.some.injEq]
    split
    · exact Option.or_none
    · rfl

/-! ## Validity -/

theorem mem_places_edit {change : State → State} {place : Option State}
    (mem : place ∈ (builder.edit id change).places) :
    place ∈ builder.places ∨ ∃ s, some s ∈ builder.places ∧ place = some (change s) := by
  obtain ⟨number, at_number⟩ := Array.mem_iff_getElem?.1 mem
  rw [edit, Array.getElem?_modify] at at_number
  split at at_number
  · obtain ⟨old, at_old, changed⟩ := Option.map_eq_some_iff.1 at_number
    cases old with
    | none => exact .inl (changed ▸ Array.mem_of_getElem? at_old)
    | some s => exact .inr ⟨s, Array.mem_of_getElem? at_old, changed.symm⟩
  · exact .inl (Array.mem_of_getElem? at_number)

/-- What stands for a state that something leads to is a version of it. -/
theorem unrolledTo_of_member? (found : builder.state? x = some s)
    (here : member? (builder.chainOf id copies) id count x = some y) :
    builder.UnrolledTo id copies x y := by
  unfold member? at here
  split at here
  · rename_i self
    exact .inr ⟨self, List.mem_of_getElem? here⟩
  · cases here
    exact .inl ⟨rfl, s, found⟩

theorem Valid.version_of_bind (valid : builder.Valid anchored unanchored) {t : State}
    (in_place : some s ∈ builder.places) (role : t.role = s.role)
    (size : t.table.size = s.table.size)
    (entry : ∀ index, t.table.get? index =
      (s.table.get? index).bind (member? (builder.chainOf id copies) id count)) :
    Version (builder.UnrolledTo id copies) s t := by
  refine ⟨role, size, fun {index y} leads => ?_⟩
  rw [entry] at leads
  obtain ⟨next, leads', is_next⟩ := Option.bind_eq_some_iff.1 leads
  obtain ⟨target, found, -⟩ := (valid.stateOk in_place).target leads'
  exact ⟨next, leads', unrolledTo_of_member? found is_next⟩

theorem Valid.version_self (valid : builder.Valid anchored unanchored)
    (in_place : some s ∈ builder.places) : Version (builder.UnrolledTo id copies) s s := by
  refine ⟨rfl, rfl, fun {index y} leads => ?_⟩
  obtain ⟨target, found, -⟩ := (valid.stateOk in_place).target leads
  exact ⟨y, leads, .inl ⟨rfl, target, found⟩⟩

theorem versions_unrolled_reject (valid : builder.Valid anchored unanchored)
    (can : builder.CanUnroll id state copies) :
    builder.Versions (builder.unrolled id state copies .reject)
      (builder.UnrolledTo id copies) := by
  have member {x : StateId} (mem : x ∈ builder.chainOf id copies) :
      ∃ t, (builder.unrolled id state copies .reject).state? x = some t ∧
        t.kind = state.kind ∧ Version (builder.UnrolledTo id copies) state t := by
    obtain ⟨place, at_place⟩ := List.mem_iff_getElem?.1 mem
    obtain ⟨t, at_x, role, size, entry⟩ := can.exists_member at_place
    exact ⟨t, at_x, congrArg Role.kind role,
      valid.version_of_bind (some_mem_places can.found) role size entry⟩
  refine ⟨?_, ?_, fun {x y s} related at_x => ?_, fun place mem => ?_⟩
  · rw [unrolled_eq_with_places]
  · rw [unrolled_eq_with_places]
  · rcases related with ⟨rfl, -⟩ | ⟨rfl, mem⟩
    · by_cases here : x = id
      · subst here
        cases at_x.symm.trans can.found
        obtain ⟨t, at_x', kind, -⟩ := member List.mem_cons_self
        exact ⟨t, at_x', kind⟩
      · exact ⟨s, (can.state?_of_ne (toNat_lt_size at_x) here).trans at_x, rfl⟩
    · cases at_x.symm.trans can.found
      obtain ⟨t, at_y, kind, -⟩ := member mem
      exact ⟨t, at_y, kind⟩
  · cases copies with
    | zero =>
      -- There may be more places than identifiers here, so the places have to do without.
      rcases mem_places_edit (show place ∈ (builder.edit id (·.redirect id none)).places from mem)
        with old | ⟨s, in_place, rfl⟩
      · obtain ⟨s, rfl⟩ := valid.filled place old
        exact ⟨s, s, old, rfl, valid.version_self old⟩
      · have entry : ∀ index, (s.table.redirect id none).get? index =
            (s.table.get? index).bind (member? (builder.chainOf id 0) id 1) :=
          s.table.get?_redirect_none id
        exact ⟨s, _, in_place, rfl,
          valid.version_of_bind in_place rfl (TransitionTable.size_redirect ..) entry⟩
    | succ copies =>
      have small : (builder.unrolled id state (copies + 1) .reject).places.size ≤
          StateId.limit := by
        have room := can.room
        rw [size_unrolled]
        omega
      obtain ⟨y, inside, here⟩ := exists_state?_eq small mem
      rw [size_unrolled] at inside
      by_cases mem : y ∈ builder.chainOf id (copies + 1)
      · obtain ⟨t, at_y, -, version⟩ := member mem
        exact ⟨state, t, some_mem_places can.found, here.symm.trans at_y, version⟩
      · obtain ⟨ne, not_next⟩ := not_or.1 (fun h => mem (List.mem_cons.2 h))
        have old : y.toNat < builder.places.size := by
          apply Nat.lt_of_not_le
          intro beyond
          exact not_next ((mem_nextIds can.room).2 ⟨beyond, inside⟩)
        obtain ⟨s, at_y⟩ := valid.exists_state? old
        refine ⟨s, s, some_mem_places at_y, ?_, valid.version_self (some_mem_places at_y)⟩
        exact here.symm.trans ((can.state?_of_ne old ne).trans at_y)

theorem Valid.unrolled_reject (valid : builder.Valid anchored unanchored)
    (can : builder.CanUnroll id state copies) :
    (builder.unrolled id state copies .reject).Valid anchored unanchored := by
  obtain ⟨s, at_anchored, -⟩ := valid.anchored
  obtain ⟨s', at_unanchored, -⟩ := valid.unanchored
  exact valid.of_versions (versions_unrolled_reject valid can) (.inl ⟨rfl, s, at_anchored⟩)
    (.inl ⟨rfl, s', at_unanchored⟩)

theorem build_unrolled_eq_ok
    (at_start : builder.anchoredStart = some anchored)
    (valid : builder.Valid anchored (builder.unanchoredStart.getD anchored))
    (can : builder.CanUnroll id state copies) :
    (builder.unrolled id state copies .reject).build =
      .ok ((builder.unrolled id state copies .reject).freeze anchored
        (builder.unanchoredStart.getD anchored)) := by
  have valid' := valid.unrolled_reject can
  have starts : (builder.unrolled id state copies .reject).anchoredStart = some anchored := by
    rw [unrolled_eq_with_places]
    exact at_start
  have same : (builder.unrolled id state copies .reject).unanchoredStart =
      builder.unanchoredStart := by
    rw [unrolled_eq_with_places]
  refine build_eq_ok_iff.2 ⟨anchored, starts, ?_⟩
  rw [same]
  exact ⟨valid', rfl⟩

/-! ## Behaviour -/

theorem unrolls_freeze (valid : builder.Valid anchored unanchored)
    (can : builder.CanUnroll id state copies) :
    (builder.freeze anchored unanchored).Unrolls
      ((builder.unrolled id state copies .reject).freeze anchored unanchored)
      (builder.chainOf id copies) id := by
  have valid' := valid.unrolled_reject can
  have head : (builder.chainOf id copies)[0]? = some id := rfl
  refine ⟨?_, ?_, rfl, head, fun {x y s count} at_x here => ?_⟩
  · rw [freeze, unrolled_eq_with_places]
    rfl
  · rw [freeze, unrolled_eq_with_places]
    rfl
  rw [state?_freeze valid] at at_x
  rw [state?_freeze valid']
  unfold member? at here
  unfold tally
  split at here
  · rename_i self
    subst self
    cases at_x.symm.trans can.found
    obtain ⟨t, at_y, role, -, entry⟩ := can.exists_member here
    refine ⟨t, at_y, role, ?_⟩
    rw [if_pos rfl]
    exact entry
  · rename_i other
    cases here
    refine ⟨s, (can.state?_of_ne (toNat_lt_size at_x) other).trans at_x, rfl, ?_⟩
    have outside : member? (builder.chainOf id copies) id 0 = some :=
      funext (member?_zero head)
    intro index
    rw [if_neg other, outside, Option.bind_fun_some]

/-- Unrolling a loop into a chain that rejects at its end bounds the loop and changes nothing else.
The unrolled builder can be built if the other one could. An anchored search finds the same as
before if its run takes at most as many transitions in a row from the state to itself as there are
copies. Otherwise its run goes along with the one before up to the first such transition that would
be one too many, stops in that state, and the search reports what has been saved until then. -/
theorem build_unrolled_reject {automaton : Automaton} (built : builder.build = .ok automaton)
    {chain : Array StateId} {builder' : Builder}
    (unrolls : unroll id copies .reject builder = .ok chain builder') :
    ∃ automaton', builder'.build = .ok automaton' ∧
      ∀ (executor : Executor) (haystack : Haystack) (start : Nat),
        executor.config.stepLimit? = none →
        (haystack.size < start →
          executor.search automaton' ⟨haystack, start, true⟩ =
            executor.search automaton ⟨haystack, start, true⟩) ∧
        (start ≤ haystack.size → ∃ visits visits',
          (∀ other, automaton.Run haystack ⟨automaton.anchoredStart, start⟩ other ↔
            other = visits) ∧
          (∀ other, automaton'.Run haystack ⟨automaton'.anchoredStart, start⟩ other ↔
            other = visits') ∧
          (LoopsWithin id copies visits →
            AlongChain chain.toList id 0 visits visits' ∧
              executor.search automaton' ⟨haystack, start, true⟩ =
                executor.search automaton ⟨haystack, start, true⟩) ∧
          (¬LoopsWithin id copies visits →
            ∃ before v, FirstBeyond id copies visits before v ∧
              AlongChain chain.toList id 0 (before ++ [v]) visits' ∧
              executor.search automaton' ⟨haystack, start, true⟩ =
                .ok ((automaton.replay (.fresh automaton.slotCount start)
                  (before ++ [v])).saved.map Captures.mk))) := by
  obtain ⟨state, can, rfl, rfl⟩ := unroll_eq_ok_iff.1 unrolls
  obtain ⟨anchored, at_start, valid, rfl⟩ := build_eq_ok_iff.1 built
  have built' := build_unrolled_eq_ok at_start valid can
  have wf := Automaton.WellFormed.of_build built
  have wf' := Automaton.WellFormed.of_build built'
  refine ⟨_, built', ?_⟩
  intro executor haystack start unlimited
  constructor
  · intro beyond
    rw [Executor.search_of_lt beyond, Executor.search_of_lt beyond]
  intro inside
  obtain ⟨visits, run, -⟩ := Automaton.exists_run wf haystack ⟨anchored, start⟩
  obtain ⟨visits', run', outcome⟩ :=
    (unrolls_freeze valid can).exists_search_anchored wf wf' length_chainOf unlimited inside run
  refine ⟨visits, visits', run.iff_eq, run'.iff_eq, ?_, ?_⟩
  · intro within
    rcases outcome with same | ⟨before, v, beyond, -⟩
    · exact same
    · exact absurd within beyond.not_loopsWithin
  · intro too_long
    rcases outcome with ⟨along, -⟩ | stops
    · exact absurd (along.loopsWithin length_chainOf) too_long
    · exact stops

/-- The visits of the automaton for one or more of `a` on `aaa`. -/
def aPlusVisits : List Visit :=
  [⟨.ofNat 0, 0⟩, ⟨.ofNat 1, 0⟩, ⟨.ofNat 2, 1⟩, ⟨.ofNat 2, 2⟩, ⟨.ofNat 2, 3⟩]

theorem run_aPlusVisits :
    (aPlus.freeze (.ofNat 0) (.ofNat 0)).Run #[0x61, 0x61, 0x61] ⟨.ofNat 0, 0⟩ aPlusVisits := by
  refine .step (.enter rfl rfl rfl rfl) (.step (.read rfl (.inl rfl) rfl ?_)
    (.step (.read rfl (.inl rfl) rfl ?_) (.step (.read rfl (.inl rfl) rfl ?_) (.last ?_))))
  · decide +kernel
  · decide +kernel
  · decide +kernel
  · exact Automaton.not_step_of_successor?_eq_none rfl (by decide) rfl

/-- With one copy of its loop, the automaton for one or more of `a` matches at most two of them. On
`aaa` it stops where the third would be read. -/
theorem build_unrolled_reject_aPlus :
    ∃ builder' automaton',
      unroll (.ofNat 2) 1 .reject aPlus = .ok #[.ofNat 2, .ofNat 3] builder' ∧
        builder'.build = .ok automaton' ∧
        Executor.search {} automaton' ⟨#[0x61, 0x61, 0x61], 0, true⟩ =
          .ok (some ⟨#[Offset.ofNat? 0, Offset.ofNat? 2]⟩) := by
  have unrolls : ∃ builder',
      unroll (.ofNat 2) 1 .reject aPlus = .ok #[.ofNat 2, .ofNat 3] builder' :=
    ⟨_, unroll_eq_ok_iff.2 ⟨_, ⟨rfl, by decide +kernel, by decide⟩, rfl, rfl⟩⟩
  obtain ⟨builder', unrolls⟩ := unrolls
  obtain ⟨automaton', built, searches⟩ := build_unrolled_reject build_aPlus unrolls
  refine ⟨builder', automaton', unrolls, built, ?_⟩
  obtain ⟨visits, visits', run_iff, -, -, stops⟩ :=
    (searches {} #[0x61, 0x61, 0x61] 0 rfl).2 (by decide)
  cases (run_iff _).1 run_aPlusVisits
  have too_long : ¬LoopsWithin (.ofNat 2) 1 aPlusVisits := by
    intro within
    have bound := within (aPlusVisits.drop 2) (List.drop_suffix ..).isInfix (by decide)
    exact absurd bound (by decide)
  obtain ⟨before, v, ⟨-, ⟨stay, ⟨early, ends⟩, length, all⟩, w, after, split, -⟩, -, found⟩ :=
    stops too_long
  -- Two visits to the state in a row, and one more to follow, are there after four visits only.
  have only_four : ∀ count < 5, ∀ skipped < 4,
      ((aPlusVisits.take count).drop skipped).length = 2 →
      (∀ u ∈ (aPlusVisits.take count).drop skipped, u.id = .ofNat 2) → count = 4 := by decide
  have taken : before ++ [v] = aPlusVisits.take (before.length + 1) := by
    rw [split, List.take_length_add_append]
    rfl
  have stay_eq : (aPlusVisits.take (before.length + 1)).drop early.length = stay := by
    rw [← taken, ← ends, List.drop_left]
  have sizes : before.length + 1 < 5 ∧ early.length < 4 := by
    have all_five : aPlusVisits.length = 5 := rfl
    have ahead := congrArg List.length split
    have until_here := congrArg List.length ends
    simp only [List.length_append, List.length_cons, List.length_nil] at ahead until_here
    omega
  have four := only_four _ sizes.1 _ sizes.2 (by rw [stay_eq, length]) (by rw [stay_eq]; exact all)
  rw [found, taken, four]
  have saved : ((aPlus.freeze (.ofNat 0) (.ofNat 0)).replay
      (.fresh (aPlus.freeze (.ofNat 0) (.ofNat 0)).slotCount 0) (aPlusVisits.take 4)).saved =
      some #[Offset.ofNat? 0, Offset.ofNat? 2] := by decide +kernel
  rw [saved]
  rfl

end Builder
end ByteDFA
