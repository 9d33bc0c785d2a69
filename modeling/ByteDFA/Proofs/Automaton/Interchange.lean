import ByteDFA.Proofs.Builder.Duplicates

/-!
# Interchangeable automata

A relation between the states of two automata is a bisimulation if related states are of the same
kind, record the same slots, and lead to related states at every index of their tables
(`Automaton.Bisimilar`). It need not say anything about numbers, and it may relate a state to
several others or to none. Automata whose starts are related can be used in each other's place.

Whoever changes an automaton without changing what it does has such a relation at hand. If every
state that can be reached is found under another number, with the numbers in its table replaced in
the same way, then a state is related to the one under its new number (`Maps.bisimilar`). So states
may be renumbered, those that cannot be reached may be left out, and equivalent ones may be given
one number between them (`merges_iff_maps`).
-/

set_option autoImplicit false

namespace ByteDFA

variable {left right : Automaton} {R : StateId → StateId → Prop}
  {Kept : StateId → Prop} {f : StateId → StateId}

/-! ## Bisimilar automata -/

/-- Two states of one kind that record the same slots and lead to related states. -/
structure State.Matches (R : StateId → StateId → Prop) (s t : State) : Prop where
  kind : s.kind = t.kind
  slots : s.slots = t.slots
  accept : s.accept = t.accept
  next : ∀ index, Option.Rel R (s.table.get? index) (t.table.get? index)

/-- Two automata over the same classes, with as many groups and with related starts, in which
related states match. -/
structure Automaton.Bisimilar (left right : Automaton) (R : StateId → StateId → Prop) : Prop where
  classes : left.classes = right.classes
  groups : left.groupCount = right.groupCount
  anchored : R left.anchoredStart right.anchoredStart
  unanchored : R left.unanchoredStart right.unanchoredStart
  pair : ∀ {x y : StateId} {s t : State}, R x y → left.state? x = some s →
    right.state? y = some t → s.Matches R t

theorem Role.ext {a b : Role} (kind : a.kind = b.kind) (slots : a.slots = b.slots)
    (accept : a.accept = b.accept) : a = b := by
  cases a with
  | start =>
    cases b with
    | start => exact congrArg Role.start slots
    | _ => cases kind
  | matcher =>
    cases b with
    | matcher => exact congr (congrArg Role.matcher slots) accept
    | _ => cases kind
  | final =>
    cases b with
    | final => exact congrArg Role.final slots
    | _ => cases kind
  | traceFinder =>
    cases b with
    | traceFinder => rfl
    | _ => cases kind

namespace Automaton

/-- The relation between those identifiers that belong to states on both sides. -/
def Present (left right : Automaton) (R : StateId → StateId → Prop) (x y : StateId) : Prop :=
  R x y ∧ (∃ s, left.state? x = some s) ∧ ∃ t, right.state? y = some t

theorem rel_of_mem {S : StateId → StateId → Prop} {a b : Option StateId} (rel : Option.Rel R a b)
    (related : ∀ x y, a = some x → b = some y → R x y → S x y) : Option.Rel S a b := by
  cases rel with
  | none => exact .none
  | some here => exact .some (related _ _ rfl rfl here)

theorem rel_present (wf : left.WellFormed) (wf' : right.WellFormed) {x y : StateId} {s t : State}
    (at_x : left.state? x = some s) (at_y : right.state? y = some t) {index : Nat}
    (next : Option.Rel R (s.table.get? index) (t.table.get? index)) :
    Option.Rel (left.Present right R) (s.table.get? index) (t.table.get? index) := by
  apply rel_of_mem next
  intro x' y' leads leads' related
  -- The relation may hold of identifiers that no state has, but no entry leads to one of these.
  obtain ⟨target, found, -⟩ := wf.target at_x leads
  obtain ⟨target', found', -⟩ := wf'.target at_y leads'
  exact ⟨related, ⟨target, found⟩, target', found'⟩

theorem Bisimilar.bisimulation (bisimilar : left.Bisimilar right R) (wf : left.WellFormed)
    (wf' : right.WellFormed) : left.Bisimulation right (left.Present right R) := by
  constructor
  intro x y present
  obtain ⟨related, ⟨s, at_x⟩, t, at_y⟩ := present
  have pair := bisimilar.pair related at_x at_y
  refine ⟨s, t, at_x, at_y, Role.ext pair.kind pair.slots pair.accept, ?_, ?_⟩
  · intro _ config
    exact rel_present wf wf' at_x at_y (pair.next _)
  · intro _ b
    rw [← bisimilar.classes]
    exact rel_present wf wf' at_x at_y (pair.next _)

/-! ## States under other numbers -/

/-- What can be led to from the starts. -/
inductive Reachable (automaton : Automaton) : StateId → Prop
  | anchored : Reachable automaton automaton.anchoredStart
  | unanchored : Reachable automaton automaton.unanchoredStart
  | next {id next : StateId} {state : State} {index : Nat} (reached : Reachable automaton id)
    (found : automaton.state? id = some state) (leads : state.table.get? index = some next) :
    Reachable automaton next

end Automaton

/-- The second state does what the first one does, with other numbers for where it leads. -/
structure State.Renumbered (f : StateId → StateId) (s t : State) : Prop where
  kind : s.kind = t.kind
  slots : s.slots = t.slots
  accept : s.accept = t.accept
  next : ∀ index, t.table.get? index = (s.table.get? index).map f

namespace Automaton

/-- The second automaton begins under the new numbers of where the first one begins. -/
structure Begins (left right : Automaton) (f : StateId → StateId) : Prop where
  classes : left.classes = right.classes
  groups : left.groupCount = right.groupCount
  anchored : f left.anchoredStart = right.anchoredStart
  unanchored : f left.unanchoredStart = right.unanchoredStart

/-- The states of one automaton that are kept are found in the other, each under its new number.
Several of them may have the same one, and states that are not kept need not be found. -/
structure Maps (left right : Automaton) (Kept : StateId → Prop) (f : StateId → StateId) : Prop
    extends left.Begins right f where
  image : ∀ {x : StateId} {s : State}, Kept x → left.state? x = some s →
    ∃ t, right.state? (f x) = some t ∧ s.Renumbered f t

/-- Only equivalent states are given the same number, where states that lead to equivalent ones may
be equivalent, and one of them is found under this number in the other automaton. -/
structure Merges (left right : Automaton) (Kept : StateId → Prop) (f : StateId → StateId) : Prop
    extends left.Begins right f where
  alike : ∀ {x y : StateId} {s t : State}, Kept x → Kept y → f x = f y →
    left.state? x = some s → left.state? y = some t → s.Matches (fun a b => f a = f b) t
  image : ∀ {x : StateId} {s : State}, Kept x → left.state? x = some s →
    ∃ y s' t, Kept y ∧ f y = f x ∧ left.state? y = some s' ∧ right.state? (f x) = some t ∧
      s'.Renumbered f t

theorem rel_iff_map_eq {a b : Option StateId} :
    Option.Rel (fun x y => f x = f y) a b ↔ a.map f = b.map f := by
  cases a <;> cases b <;> simp

/-- For merging states it is enough that one of each kind of them is found under the new number:
the others would look the same there. -/
theorem merges_iff_maps : left.Merges right Kept f ↔ left.Maps right Kept f := by
  constructor
  · intro merges
    refine { merges.toBegins with image := ?_ }
    intro x s kept at_x
    obtain ⟨y, s', t, kept', same, at_y, at_image, renumbered⟩ := merges.image kept at_x
    -- The state that is found belongs to an equivalent one, which leads to equivalent states and so
    -- has the same new numbers in its table.
    have alike := merges.alike kept kept' same.symm at_x at_y
    refine ⟨t, at_image, alike.kind.trans renumbered.kind, alike.slots.trans renumbered.slots,
      alike.accept.trans renumbered.accept, fun index => ?_⟩
    rw [renumbered.next, rel_iff_map_eq.1 (alike.next index)]
  · intro maps
    refine { maps.toBegins with alike := ?_, image := ?_ }
    · intro x y s t kept kept' same at_x at_y
      obtain ⟨image, at_image, left_of⟩ := maps.image kept at_x
      obtain ⟨image', at_image', right_of⟩ := maps.image kept' at_y
      rw [same] at at_image
      cases at_image.symm.trans at_image'
      refine ⟨left_of.kind.trans right_of.kind.symm, left_of.slots.trans right_of.slots.symm,
        left_of.accept.trans right_of.accept.symm, fun index => ?_⟩
      exact rel_iff_map_eq.2 ((left_of.next index).symm.trans (right_of.next index))
    · intro x s kept at_x
      obtain ⟨t, at_image, renumbered⟩ := maps.image kept at_x
      exact ⟨x, s, t, kept, rfl, at_x, at_image, renumbered⟩

theorem Maps.bisimilar (maps : left.Maps right Kept f)
    (kept : ∀ x, left.Reachable x → Kept x) :
    left.Bisimilar right fun x y => left.Reachable x ∧ f x = y := by
  refine ⟨maps.classes, maps.groups, ⟨.anchored, maps.anchored⟩, ⟨.unanchored, maps.unanchored⟩, ?_⟩
  intro x y s t related at_x at_y
  obtain ⟨reached, rfl⟩ := related
  obtain ⟨t', at_image, renumbered⟩ := maps.image (kept x reached) at_x
  cases at_y.symm.trans at_image
  refine ⟨renumbered.kind, renumbered.slots, renumbered.accept, fun index => ?_⟩
  rw [renumbered.next]
  cases leads : s.table.get? index with
  | none => exact .none
  | some next => exact .some ⟨reached.next at_x leads, rfl⟩

end Automaton

/-! ## Searches -/

theorem Automaton.Bisimilar.search_eq (bisimilar : left.Bisimilar right R) (wf : left.WellFormed)
    (wf' : right.WellFormed) :
    left.accelerator = right.accelerator ∧
      ∀ (executor : Executor) (input : Input),
        executor.search left input = executor.search right input := by
  have bisimulation := bisimilar.bisimulation wf wf'
  obtain ⟨s, at_start, -⟩ := wf.anchored
  obtain ⟨t, at_start', -⟩ := wf'.anchored
  have anchored : left.Present right R left.anchoredStart right.anchoredStart :=
    ⟨bisimilar.anchored, ⟨s, at_start⟩, t, at_start'⟩
  obtain ⟨s, at_start, -⟩ := wf.unanchored
  obtain ⟨t, at_start', -⟩ := wf'.unanchored
  have unanchored : left.Present right R left.unanchoredStart right.unanchoredStart :=
    ⟨bisimilar.unanchored, ⟨s, at_start⟩, t, at_start'⟩
  exact ⟨bisimulation.accelerator_eq unanchored,
    Executor.search_eq bisimulation bisimilar.groups anchored unanchored⟩

namespace Builder

variable {builder builder' : Builder}

/-- Bisimilar automata cannot be told apart by their accelerators or by any search. Automata are
bisimilar if one is obtained from the other by renumbering all states, or those that can be reached
while others are left out, or by merging equivalent states. -/
theorem search_bisimilar (built : builder.build = .ok left) (built' : builder'.build = .ok right) :
    (∀ R : StateId → StateId → Prop, left.Bisimilar right R →
        left.accelerator = right.accelerator ∧
          ∀ (executor : Executor) (input : Input),
            executor.search left input = executor.search right input) ∧
      ∀ (Kept : StateId → Prop) (f : StateId → StateId), (∀ x, left.Reachable x → Kept x) →
        left.Maps right Kept f ∨ left.Merges right Kept f →
          left.Bisimilar right fun x y => left.Reachable x ∧ f x = y := by
  constructor
  · intro R bisimilar
    have wf := Automaton.WellFormed.of_build built
    have wf' := Automaton.WellFormed.of_build built'
    exact bisimilar.search_eq wf wf'
  · intro Kept f kept change
    rcases change with maps | merges
    · exact maps.bisimilar kept
    · exact (Automaton.merges_iff_maps.1 merges).bisimilar kept

/-! ## A loop through two states -/

/-- The builder for one or more of `a` with a copy of its last state, so that the loop leads through
both. -/
def aPlusPair : Builder :=
  (aPlus.push ((aPlusLoop (.ofNat 2)).withId (.ofNat 3))).edit (.ofNat 2)
    fun _ => aPlusLoop (.ofNat 3)

theorem folds_aPlusPair : Folds (.ofNat 2) (.ofNat 3) aPlus aPlusPair := by
  have found : aPlus.state? (.ofNat 2) = some (aPlusLoop (.ofNat 2)) := rfl
  exact (folds_push valid_aPlus rfl rfl found (by decide)).relink
    (@Relink.entry _ _ _ _ (.ofNat 2) _ 0 (aPlusLoop (.ofNat 2)) _ (.inl ⟨rfl, rfl⟩) rfl rfl rfl)

theorem FoldsTo.renumbered {src copy : StateId} {s t : State} (foldsTo : FoldsTo src copy s t) :
    t.Renumbered (original src copy) s := by
  refine ⟨congrArg Role.kind foldsTo.role, congrArg Role.slots foldsTo.role,
    congrArg Role.accept foldsTo.role, fun index => (foldsTo.entry index).symm⟩

/-- The two states of the loop can be merged, so `aaaa` is matched by the automaton with both of
them as it is by the one with only one. -/
theorem search_bisimilar_aPlus :
    ∃ automaton, aPlusPair.build = .ok automaton ∧
      Executor.search {} automaton ⟨#[0x61, 0x61, 0x61, 0x61], 0, true⟩ =
        .ok (some ⟨#[Offset.ofNat? 0, Offset.ofNat? 4]⟩) := by
  obtain ⟨automaton, built, -⟩ := build_of_folds build_aPlus folds_aPlusPair
  obtain ⟨anchored, at_start, valid, frozen⟩ := build_eq_ok_iff.1 built
  cases at_start
  have maps : automaton.Maps (aPlus.freeze (.ofNat 0) (.ofNat 0)) (fun _ => True)
      (original (.ofNat 2) (.ofNat 3)) := by
    subst frozen
    refine ⟨⟨rfl, rfl, rfl, rfl⟩, ?_⟩
    intro x t _ at_x
    rw [state?_freeze valid] at at_x
    obtain ⟨s, t', at_original, at_x', foldsTo⟩ := folds_aPlusPair.state x (toNat_lt_size at_x)
    cases at_x.symm.trans at_x'
    refine ⟨s, ?_, foldsTo.renumbered⟩
    rw [state?_freeze valid_aPlus]
    exact at_original
  have merges := Automaton.merges_iff_maps.2 maps
  obtain ⟨interchange, bisimilar⟩ := search_bisimilar built build_aPlus
  obtain ⟨-, same⟩ := interchange _ (bisimilar _ _ (fun _ _ => trivial) (.inr merges))
  refine ⟨automaton, built, ?_⟩
  have verdict : (Executor.report {} (aPlus.freeze (.ofNat 0) (.ofNat 0))
      ⟨#[0x61, 0x61, 0x61, 0x61], 0, true⟩).verdict =
      .decided 0 .rejected 4 (some #[Offset.ofNat? 0, Offset.ofNat? 4]) := by decide +kernel
  rw [same, Executor.search, Report.outcome, verdict]
  rfl

end Builder
end ByteDFA
