import Mathlib.Logic.Relation
import ByteDFA.Proofs.Builder.Rewiring
import ByteDFA.Proofs.Builder.Unroll

/-!
# Duplicated states

A state and a copy of it may share the transitions that led to the state before, in any way: a
transition may be moved from one to the other and back, one entry at a time, and so may the starts.
Taking the copy for its original again turns the builder back into the one before. Every edit keeps
this (`Folds.relink`), and it is all that is needed for the two automata to be alike
(`build_of_folds`).
-/

set_option autoImplicit false

namespace ByteDFA

/-! ## Single entries -/

theorem TransitionTable.get?_of_set? {table changed : TransitionTable} {index : Nat}
    {next : Option StateId} (h : table.set? index next = some changed) (i : Nat) :
    changed.get? i = if i = index then next.bind StateId.successor? else table.get? i := by
  unfold set? at h
  split at h
  · rename_i inside
    cases h
    unfold get?
    by_cases here : i = index
    · subst here
      simp [StateId.successor?_ofSuccessor, inside]
    · simp [here, Ne.symm here]
  · cases h

theorem TransitionTable.size_of_set? {table changed : TransitionTable} {index : Nat}
    {next : Option StateId} (h : table.set? index next = some changed) :
    changed.size = table.size := by
  unfold set? at h
  split at h
  · rename_i inside
    cases h
    exact Array.size_set inside
  · cases h

namespace Builder

variable {builder changed changed' : Builder} {src copy a b y : StateId} {state : State}
  {automaton : Automaton}

/-! ## Edits that do not tell a copy from its original -/

/-- One of the two identifiers is put in place of the other. -/
def Exchange (src copy a b : StateId) : Prop :=
  (a = src ∧ b = copy) ∨ (a = copy ∧ b = src)

/-- One entry of a table, or one start, is moved from a state to its copy or back. -/
inductive Relink (src copy : StateId) : Builder → Builder → Prop
  | entry {builder : Builder} {place a b : StateId} {index : Nat} {state edited : State}
      (exchange : Exchange src copy a b) (found : builder.state? place = some state)
      (leads : state.table.get? index = some a)
      (set : state.setSuccessor? index (some b) = some edited) :
      Relink src copy builder (builder.edit place fun _ => edited)
  | anchored {builder : Builder} {a b : StateId} (exchange : Exchange src copy a b)
      (starts : builder.anchoredStart = some a) :
      Relink src copy builder (builder.withAnchoredStart b)
  /-- A builder without a start for unanchored searches begins them like anchored ones. -/
  | unanchored {builder : Builder} {a b : StateId} (exchange : Exchange src copy a b)
      (starts : builder.unanchoredStart.or builder.anchoredStart = some a) :
      Relink src copy builder (builder.withUnanchoredStart b)

/-- The identifier of the original, for the copy; any other stands for itself. -/
def original (src copy y : StateId) : StateId := if y = copy then src else y

theorem Exchange.original_eq (exchange : Exchange src copy a b) :
    original src copy a = original src copy b := by
  have of_src : original src copy src = src := by
    unfold original
    split <;> rfl
  have of_copy : original src copy copy = src := if_pos rfl
  rcases exchange with ⟨rfl, rfl⟩ | ⟨rfl, rfl⟩
  · rw [of_src, of_copy]
  · rw [of_src, of_copy]

/-! ## Taking the copy for its original -/

/-- The second state becomes the first one if the copy is taken for its original. -/
structure FoldsTo (src copy : StateId) (s t : State) : Prop where
  role : t.role = s.role
  size : t.table.size = s.table.size
  entry : ∀ index, (t.table.get? index).map (original src copy) = s.table.get? index

/-- The changed builder becomes the other one if the copy, which stands in a place of its own after
all others, is taken for its original. -/
structure Folds (src copy : StateId) (builder changed : Builder) : Prop where
  classes : changed.classes = builder.classes
  groups : changed.groupCount = builder.groupCount
  copy_eq : copy.toNat = builder.places.size
  size : changed.places.size = builder.places.size + 1
  small : builder.places.size < StateId.limit
  present : ∃ state, builder.state? src = some state
  state : ∀ y : StateId, y.toNat < changed.places.size →
    ∃ s t, builder.state? (original src copy y) = some s ∧ changed.state? y = some t ∧
      FoldsTo src copy s t
  anchored : changed.anchoredStart.map (original src copy) = builder.anchoredStart
  unanchored : (changed.unanchoredStart.or changed.anchoredStart).map (original src copy) =
    builder.unanchoredStart.or builder.anchoredStart

theorem Folds.ne_noSuccessor (folds : Folds src copy builder changed)
    (exchange : Exchange src copy a b) : b ≠ StateId.noSuccessor := by
  obtain ⟨state, found⟩ := folds.present
  have src_lt := toNat_lt_size found
  have copy_eq := folds.copy_eq
  have small := folds.small
  have limit : StateId.noSuccessor.toNat = StateId.limit := rfl
  intro mark
  rcases exchange with ⟨-, rfl⟩ | ⟨-, rfl⟩
  · rw [mark] at copy_eq
    omega
  · rw [mark] at src_lt
    omega

/-- What leads to a state before, and to the state or its copy afterwards, leads to a place. -/
theorem Folds.lt_size (folds : Folds src copy builder changed) {s : State}
    (found : builder.state? (original src copy y) = some s) : y.toNat < changed.places.size := by
  rw [folds.size]
  by_cases here : y = copy
  · rw [here, folds.copy_eq]
    exact Nat.lt_succ_self _
  · have same : original src copy y = y := if_neg here
    rw [same] at found
    exact Nat.lt_succ_of_lt (toNat_lt_size found)

/-! ## One edit -/

/-- Moving an entry from the original to the copy, or back, does not show in what the state
becomes. -/
theorem FoldsTo.setSuccessor? {s t edited : State} {index : Nat} (foldsTo : FoldsTo src copy s t)
    (exchange : Exchange src copy a b) (proper : b ≠ StateId.noSuccessor)
    (leads : t.table.get? index = some a) (set : t.setSuccessor? index (some b) = some edited) :
    FoldsTo src copy s edited := by
  obtain ⟨table, replaced, rfl⟩ := Option.map_eq_some_iff.1 set
  refine ⟨foldsTo.role, (TransitionTable.size_of_set? replaced).trans foldsTo.size, ?_⟩
  intro i
  show (table.get? i).map (original src copy) = s.table.get? i
  rw [TransitionTable.get?_of_set? replaced, ← foldsTo.entry i]
  by_cases here : i = index
  · subst here
    rw [if_pos rfl, leads, Option.bind_some, StateId.successor?_of_ne proper, Option.map_some,
      Option.map_some, exchange.original_eq]
  · rw [if_neg here]

theorem Folds.relink (folds : Folds src copy builder changed)
    (edit : Relink src copy changed changed') : Folds src copy builder changed' := by
  cases edit with
  | @entry place a b index t edited exchange found leads set =>
    refine { folds with size := (size_edit ..).trans folds.size, state := ?_ }
    intro y inside
    rw [size_edit] at inside
    obtain ⟨s, t', at_original, at_y, foldsTo⟩ := folds.state y inside
    rw [state?_edit]
    by_cases here : place = y
    · subst here
      cases found.symm.trans at_y
      rw [if_pos rfl, found]
      exact ⟨s, edited, at_original, rfl,
        foldsTo.setSuccessor? exchange (folds.ne_noSuccessor exchange) leads set⟩
    · rw [if_neg here]
      exact ⟨s, t', at_original, at_y, foldsTo⟩
  | @anchored a b exchange starts =>
    have moved : builder.anchoredStart = some (original src copy b) := by
      rw [← folds.anchored, starts, Option.map_some, exchange.original_eq]
    refine { folds with anchored := moved.symm, unanchored := ?_ }
    have unanchored := folds.unanchored
    show (changed.unanchoredStart.or (some b)).map (original src copy) = _
    cases own : changed.unanchoredStart with
    | some x =>
      rw [own] at unanchored
      exact unanchored
    | none =>
      -- The start for unanchored searches is that for anchored ones, and moves with it.
      rw [own, Option.none_or, starts, Option.map_some, exchange.original_eq] at unanchored
      exact unanchored
  | @unanchored a b exchange starts =>
    refine { folds with unanchored := ?_ }
    show some (original src copy b) = _
    rw [← folds.unanchored, starts, Option.map_some, exchange.original_eq]

/-! ## The duplicate -/

theorem folds_push {anchored unanchored : StateId} (valid : builder.Valid anchored unanchored)
    (at_start : builder.anchoredStart = some anchored)
    (starts : builder.unanchoredStart.getD anchored = unanchored)
    (found : builder.state? src = some state) (room : builder.places.size < StateId.limit) :
    Folds src (.ofNat builder.places.size) builder
      (builder.push (state.withId (.ofNat builder.places.size))) := by
  have number := StateId.toNat_ofNat_of_lt room
  -- Nothing led to the copy before, so whatever a state leads to is an original.
  have same {x : StateId} {s : State} (present : builder.state? x = some s) :
      original src (.ofNat builder.places.size) x = x := by
    apply if_neg
    intro last
    have lt := toNat_lt_size present
    rw [last, number] at lt
    exact Nat.lt_irrefl _ lt
  have entries {x : StateId} {s : State} (present : builder.state? x = some s) (index : Nat) :
      (s.table.get? index).map (original src (.ofNat builder.places.size)) =
        s.table.get? index := by
    cases leads : s.table.get? index with
    | none => rfl
    | some next =>
      obtain ⟨target, found', -⟩ := (valid.stateOk (some_mem_places present)).target leads
      rw [Option.map_some, same found']
  obtain ⟨s, at_anchored, -⟩ := valid.anchored
  obtain ⟨s', at_unanchored, -⟩ := valid.unanchored
  refine ⟨rfl, rfl, number, size_push .., room, ⟨state, found⟩, ?_, ?_, ?_⟩
  · intro y inside
    rw [size_push] at inside
    rw [state?_push room]
    by_cases last : y = .ofNat builder.places.size
    · have is_src : original src (.ofNat builder.places.size) y = src := if_pos last
      rw [if_pos last, is_src]
      exact ⟨state, _, found, rfl, rfl, rfl, fun index => entries found index⟩
    · have old : y.toNat < builder.places.size := by
        have ne : y.toNat ≠ builder.places.size := by
          intro here
          exact last (by rw [← here, StateId.ofNat_toNat])
        omega
      obtain ⟨s, at_y⟩ := valid.exists_state? old
      rw [if_neg last, same at_y]
      exact ⟨s, s, at_y, at_y, rfl, rfl, entries at_y⟩
  · show builder.anchoredStart.map _ = builder.anchoredStart
    rw [at_start, Option.map_some, same at_anchored]
  · show (builder.unanchoredStart.or builder.anchoredStart).map _ =
      builder.unanchoredStart.or builder.anchoredStart
    have effective : builder.unanchoredStart.or builder.anchoredStart = some unanchored := by
      rw [at_start, ← starts]
      cases builder.unanchoredStart <;> rfl
    rw [effective, Option.map_some, same at_unanchored]

/-! ## Behaviour -/

/-- What leads to a state in the one builder leads to it or its copy in the other. -/
def FoldRel (src copy : StateId) (changed : Builder) (x y : StateId) : Prop :=
  original src copy y = x ∧ y.toNat < changed.places.size

theorem Folds.rel_get? (folds : Folds src copy builder changed) {anchored unanchored x : StateId}
    (valid : builder.Valid anchored unanchored) {s t : State} (found : builder.state? x = some s)
    (foldsTo : FoldsTo src copy s t) (index : Nat) :
    Option.Rel (FoldRel src copy changed) (s.table.get? index) (t.table.get? index) := by
  have entry := foldsTo.entry index
  cases leads : t.table.get? index with
  | none =>
    rw [leads] at entry
    rw [← entry]
    exact .none
  | some y =>
    rw [leads, Option.map_some] at entry
    obtain ⟨target, found', -⟩ := (valid.stateOk (some_mem_places found)).target entry.symm
    rw [← entry]
    exact .some ⟨rfl, folds.lt_size found'⟩

theorem build_of_folds (built : builder.build = .ok automaton)
    (folds : Folds src copy builder changed) :
    ∃ automaton', changed.build = .ok automaton' ∧
      automaton'.accelerator = automaton.accelerator ∧
      ∀ (executor : Executor) (input : Input),
        executor.search automaton' input = executor.search automaton input := by
  obtain ⟨anchored, at_start, valid, -⟩ := build_eq_ok_iff.1 built
  have version {x y : StateId} (related : FoldRel src copy changed x y) :
      ∃ s t, builder.state? x = some s ∧ changed.state? y = some t ∧ FoldsTo src copy s t := by
    obtain ⟨rfl, inside⟩ := related
    exact folds.state y inside
  apply build_of_rewires (R := FoldRel src copy changed) built
  · refine ⟨folds.classes, folds.groups, ?_, ?_, ?_⟩
    · rw [folds.size]
      exact folds.small
    · intro y inside
      exact ⟨_, rfl, inside⟩
    · intro x y related
      obtain ⟨s, t, at_x, at_y, foldsTo⟩ := version related
      exact ⟨s, t, at_x, at_y, foldsTo.role, foldsTo.size,
        fun leads => exists_left_of_rel (folds.rel_get? valid at_x foldsTo _) leads⟩
  · intro x y s t index next related at_x at_y leads
    obtain ⟨s', t', at_x', at_y', foldsTo⟩ := version related
    cases at_x.symm.trans at_x'
    cases at_y.symm.trans at_y'
    exact exists_right_of_rel (folds.rel_get? valid at_x foldsTo index) leads
  · intro x at_start'
    cases at_start.symm.trans at_start'
    obtain ⟨s, at_anchored, -⟩ := valid.anchored
    obtain ⟨s', at_unanchored, -⟩ := valid.unanchored
    have anchored_eq := folds.anchored
    have unanchored_eq := folds.unanchored
    rw [at_start] at anchored_eq unanchored_eq
    obtain ⟨y, at_start'', rfl⟩ := Option.map_eq_some_iff.1 anchored_eq
    have effective (own : Option StateId) (z : StateId) : own.or (some z) = some (own.getD z) := by
      cases own <;> rfl
    rw [at_start'', effective, effective, Option.map_some] at unanchored_eq
    have same := Option.some.inj unanchored_eq
    refine ⟨y, at_start'', ⟨rfl, folds.lt_size at_anchored⟩, same, ?_⟩
    rw [← same] at at_unanchored
    exact folds.lt_size at_unanchored

/-- A state can be duplicated without its being noticed: however the transitions and the starts are
shared between the state and its copy, the builder can be built, its automaton has the same
accelerator, and every search has the same outcome. -/
theorem build_relinked {reserved : Builder} (built : builder.build = .ok automaton)
    (found : builder.state? src = some state) (allocates : nextId builder = .ok copy reserved) :
    ∃ duplicated, duplicate src copy reserved = .ok () duplicated ∧
      ∀ changed, Relation.ReflTransGen (Relink src copy) duplicated changed →
        ∃ automaton', changed.build = .ok automaton' ∧
          automaton'.accelerator = automaton.accelerator ∧
          ∀ (executor : Executor) (input : Input),
            executor.search automaton' input = executor.search automaton input := by
  obtain ⟨room, rfl, rfl⟩ := nextId_eq_ok_iff.1 allocates
  obtain ⟨anchored, at_start, valid, -⟩ := build_eq_ok_iff.1 built
  refine ⟨_, duplicate_reserve found room, ?_⟩
  intro changed edits
  have folds : Folds src (.ofNat builder.places.size) builder changed := by
    induction edits with
    | refl => exact folds_push valid at_start rfl found room
    | tail _ edit ih => exact ih.relink edit
  exact build_of_folds built folds

/-- The last state of the automaton for one or more of `a`, with a choice of where it leads. -/
def aPlusLoop (next : StateId) : State :=
  .matcher (.ofNat 2) (.ofList [some next, none]) ∅ (some (BitSet.empty.insert 1))

/-- The loop of the automaton for one or more of `a`, led from its state to a copy and from there
back, still matches all of `aaaa`. -/
theorem build_relinked_aPlus :
    ∃ duplicated changed automaton',
      duplicate (.ofNat 2) (.ofNat 3) aPlus.reserve = .ok () duplicated ∧
      Relation.ReflTransGen (Relink (.ofNat 2) (.ofNat 3)) duplicated changed ∧
      changed.state? (.ofNat 2) = some (aPlusLoop (.ofNat 3)) ∧
      changed.build = .ok automaton' ∧
      Executor.search {} automaton' ⟨#[0x61, 0x61, 0x61, 0x61], 0, true⟩ =
        .ok (some ⟨#[Offset.ofNat? 0, Offset.ofNat? 4]⟩) := by
  have found : aPlus.state? (.ofNat 2) = some (aPlusLoop (.ofNat 2)) := rfl
  have allocates : nextId aPlus = .ok (.ofNat 3) aPlus.reserve := rfl
  obtain ⟨duplicated, copied, alike⟩ := build_relinked build_aPlus found allocates
  cases copied.symm.trans (duplicate_reserve found (by decide))
  have edit : Relink (.ofNat 2) (.ofNat 3) (aPlus.push ((aPlusLoop (.ofNat 2)).withId (.ofNat 3)))
      ((aPlus.push ((aPlusLoop (.ofNat 2)).withId (.ofNat 3))).edit (.ofNat 2)
        fun _ => aPlusLoop (.ofNat 3)) :=
    @Relink.entry _ _ _ _ (.ofNat 2) _ 0 (aPlusLoop (.ofNat 2)) _ (.inl ⟨rfl, rfl⟩) rfl rfl rfl
  obtain ⟨automaton', built, -, same⟩ := alike _ (.single edit)
  refine ⟨_, _, automaton', copied, .single edit, rfl, built, ?_⟩
  have verdict : (Executor.report {} (aPlus.freeze (.ofNat 0) (.ofNat 0))
      ⟨#[0x61, 0x61, 0x61, 0x61], 0, true⟩).verdict =
      .decided 0 .rejected 4 (some #[Offset.ofNat? 0, Offset.ofNat? 4]) := by decide +kernel
  rw [same, Executor.search, Report.outcome, verdict]
  rfl

end Builder
end ByteDFA
