import ByteDFA.Proofs.Builder.Validity

/-!
# Recast builders

A builder is recast by giving it other byte classes and changing every state where it stands. If the
change respects what freezing looks at (`Builder.Recasts`), then the recast builder is frozen, and
into the automaton that is recast in the same way (`build_recast`): it makes no difference whether
the states are changed before or after they are frozen.
-/

set_option autoImplicit false

namespace ByteDFA

/-- The automaton with other classes and every state changed. -/
def Automaton.recast (automaton : Automaton) (classes : ByteClasses) (change : State → State) :
    Automaton :=
  { automaton with classes, states := automaton.states.map change }

theorem Automaton.state?_recast (automaton : Automaton) (classes : ByteClasses)
    (change : State → State) (id : StateId) :
    (automaton.recast classes change).state? id = (automaton.state? id).map change :=
  Array.getElem?_map

namespace Builder

variable {builder : Builder} {classes : ByteClasses} {change : State → State} {state : State}
  {anchored unanchored : StateId} {automaton : Automaton}

/-- The builder with other classes and every state changed. -/
def recast (builder : Builder) (classes : ByteClasses) (change : State → State) : Builder :=
  { builder with classes, places := builder.places.map (Option.map change) }

/-- A change of states that fits the classes: tables get the size that they are to have, start
states remain start states and no others become some, and a state leads nowhere and records nothing
that it did not before. -/
structure Recasts (builder : Builder) (classes : ByteClasses) (change : State → State) : Prop where
  byteClass : ∀ b, (classes.get b).toNat < classes.alphabetLen
  start : ∀ {state : State}, (change state).kind = .start ↔ state.kind = .start
  size : ∀ {state : State}, builder.StateOk state →
    (change state).table.size = (builder.recast classes change).tableSize (change state).kind
  target : ∀ {state : State} {index : Nat} {next : StateId},
    (change state).table.get? index = some next → ∃ index', state.table.get? index' = some next
  slot : ∀ {state : State} {slot : Nat},
    ((change state).slots ∪ (change state).accept.getD ∅).contains slot = true →
      (state.slots ∪ state.accept.getD ∅).contains slot = true

theorem state?_recast (builder : Builder) (classes : ByteClasses) (change : State → State)
    (id : StateId) :
    (builder.recast classes change).state? id = (builder.state? id).map change := by
  unfold state? recast
  rw [Array.getElem?_map]
  cases builder.places[id.toNat]? <;> rfl

theorem freeze_recast (builder : Builder) (classes : ByteClasses) (change : State → State) :
    (builder.recast classes change).freeze anchored unanchored =
      (builder.freeze anchored unanchored).recast classes change := by
  have states : (builder.places.map (Option.map change)).filterMap id =
      (builder.places.filterMap id).map change := by
    rw [Array.filterMap_map, Array.map_filterMap]
    rfl
  unfold freeze recast Automaton.recast
  rw [states]

/-! ## Validity -/

theorem Recasts.exists_start (recasts : builder.Recasts classes change) {id : StateId}
    (start : ∃ state, builder.state? id = some state ∧ state.kind = .start) :
    ∃ state, (builder.recast classes change).state? id = some state ∧ state.kind = .start := by
  obtain ⟨state, found, kind⟩ := start
  refine ⟨change state, ?_, recasts.start.2 kind⟩
  rw [state?_recast, found]
  rfl

theorem Recasts.stateOk (recasts : builder.Recasts classes change) (ok : builder.StateOk state) :
    (builder.recast classes change).StateOk (change state) := by
  refine ⟨recasts.size ok, ?_, fun recorded => ok.slot (recasts.slot recorded)⟩
  intro index next leads
  obtain ⟨index', leads'⟩ := recasts.target leads
  obtain ⟨target, found, not_both⟩ := ok.target leads'
  refine ⟨change target, ?_, ?_⟩
  · rw [state?_recast, found]
    rfl
  · rw [recasts.start, recasts.start]
    exact not_both

theorem Recasts.valid (recasts : builder.Recasts classes change)
    (valid : builder.Valid anchored unanchored) :
    (builder.recast classes change).Valid anchored unanchored := by
  have changed {place : Option State} (mem : place ∈ (builder.recast classes change).places) :
      ∃ state, some state ∈ builder.places ∧ place = some (change state) := by
    obtain ⟨old, in_place, rfl⟩ := Array.mem_map.1 mem
    obtain ⟨state, rfl⟩ := valid.filled old in_place
    exact ⟨state, in_place, rfl⟩
  refine ⟨valid.groups, recasts.byteClass, ?_, ?_, recasts.exists_start valid.anchored,
    recasts.exists_start valid.unanchored⟩
  · intro place mem
    obtain ⟨state, -, here⟩ := changed mem
    exact ⟨_, here⟩
  · intro state mem
    obtain ⟨old, in_place, here⟩ := changed mem
    cases here
    exact recasts.stateOk (valid.stateOk in_place)

/-- Recasting a builder recasts what is built from it. -/
theorem build_recast (built : builder.build = .ok automaton)
    (recasts : builder.Recasts classes change) :
    (builder.recast classes change).build = .ok (automaton.recast classes change) := by
  obtain ⟨anchored, at_start, valid, rfl⟩ := build_eq_ok_iff.1 built
  rw [← freeze_recast]
  exact build_eq_ok_iff.2 ⟨anchored, at_start, recasts.valid valid, rfl⟩

end Builder

/-! ## Changing roles -/

/-- The state with another role, under the same identifier and with the same table. -/
def State.mapRole (change : Role → Role) (state : State) : State :=
  { state with role := change state.role }

/-- The automaton with the roles of all states changed. -/
def Automaton.mapRoles (automaton : Automaton) (change : Role → Role) : Automaton :=
  automaton.recast automaton.classes (State.mapRole change)

/-- The builder with the roles of all states changed. -/
def Builder.mapRoles (builder : Builder) (change : Role → Role) : Builder :=
  builder.recast builder.classes (State.mapRole change)

/-- A change of roles after which the same is recorded, and tables are as long as before. -/
structure Role.Keeps (change : Role → Role) : Prop where
  start : ∀ role, (change role).kind = .start ↔ role.kind = .start
  final : ∀ role, (change role).kind = .final ↔ role.kind = .final
  slots : ∀ role, (change role).slots = role.slots
  accept : ∀ role, (change role).accept = role.accept

namespace Role.Keeps

variable {change : Role → Role}

theorem slots_mapRole (keeps : Keeps change) (state : State) :
    (state.mapRole change).slots = state.slots :=
  keeps.slots state.role

theorem accept_mapRole (keeps : Keeps change) (state : State) :
    (state.mapRole change).accept = state.accept :=
  keeps.accept state.role

theorem tableSize (keeps : Keeps change) (builder : Builder) (role : Role) :
    builder.tableSize (change role).kind = builder.tableSize role.kind := by
  have start := keeps.start role
  have final := keeps.final role
  generalize role.kind = old, (change role).kind = new at start final ⊢
  cases old <;> cases new <;> simp [Builder.tableSize] at start final ⊢

end Role.Keeps

namespace Builder

variable {builder : Builder} {change : Role → Role} {automaton : Automaton}

theorem Valid.recasts_mapRole {anchored unanchored : StateId}
    (valid : builder.Valid anchored unanchored) (keeps : Role.Keeps change) :
    builder.Recasts builder.classes (State.mapRole change) where
  byteClass := valid.byteClass
  start {state} := keeps.start state.role
  size {state} ok := ok.size.trans (keeps.tableSize builder state.role).symm
  target {_ index _} leads := ⟨index, leads⟩
  slot {state slot} recorded := by
    rw [keeps.slots_mapRole, keeps.accept_mapRole] at recorded
    exact recorded

theorem build_mapRoles (built : builder.build = .ok automaton) (keeps : Role.Keeps change) :
    (builder.mapRoles change).build = .ok (automaton.mapRoles change) := by
  obtain ⟨_, -, valid, rfl⟩ := build_eq_ok_iff.1 built
  exact build_recast built (valid.recasts_mapRole keeps)

end Builder
end ByteDFA
