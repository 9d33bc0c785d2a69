import ByteDFA.Automaton.Basic
import ByteDFA.Builder.Error

/-!
# Builders

A builder collects the states of an automaton. Its places are numbered like the states that are to
stand in them; a place may be taken before there is a state for it, so that states can refer to each
other before they exist. A request that fails returns the builder along with the error, so it can be
said of every request what it leaves behind.
-/

set_option autoImplicit false

namespace ByteDFA

/-- An automaton that is being assembled. -/
structure Builder where
  classes : ByteClasses
  groupCount : Nat
  places : Array (Option State)
  anchoredStart : Option StateId
  unanchoredStart : Option StateId
  deriving DecidableEq

/-- A request to a builder, which may fail. -/
abbrev BuildM := EStateM BuildError Builder

namespace Builder

/-- The builder without places for an automaton over the given classes. -/
def empty (classes : ByteClasses) (groupCount : Nat) : Builder :=
  ⟨classes, groupCount, #[], none, none⟩

/-- The state in the place with the number `id`. -/
def state? (builder : Builder) (id : StateId) : Option State :=
  builder.places[id.toNat]?.join

/-- The table of a matcher or trace finder that has no successor. -/
def blankTable (builder : Builder) : TransitionTable := .blank builder.classes.alphabetLen

/-- The error for a place that holds no state, or does not exist. -/
def missing (builder : Builder) (id : StateId) : BuildError :=
  if id.toNat < builder.places.size then .unknownState id else .noSuchState id

/-- The builder with at least the given number of places. -/
def grow (builder : Builder) (count : Nat) : Builder :=
  { builder with
    places := builder.places ++ Array.replicate (count - builder.places.size) none }

/-- The builder with the first places only. -/
def shrink (builder : Builder) (count : Nat) : Builder :=
  { builder with places := builder.places.take count }

/-- The builder with a state put into the place with the number `id`. -/
def put (builder : Builder) (id : StateId) (state : State) : Builder :=
  { builder with places := builder.places.setIfInBounds id.toNat (some state) }

/-- The builder with the state in the place with the number `id` changed, if there is one. The
result need not be a state with this identifier. -/
def edit (builder : Builder) (id : StateId) (change : State → State) : Builder :=
  { builder with places := builder.places.modify id.toNat (Option.map change) }

/-- The builder with a start for anchored searches. -/
def withAnchoredStart (builder : Builder) (id : StateId) : Builder :=
  { builder with anchoredStart := some id }

/-- The builder with a start for unanchored searches. Without one, they begin like anchored ones. -/
def withUnanchoredStart (builder : Builder) (id : StateId) : Builder :=
  { builder with unanchoredStart := some id }

/-- Takes the next place and returns its number. -/
def nextId : BuildM StateId := fun builder =>
  if builder.places.size < StateId.limit then
    .ok (.ofNat builder.places.size) { builder with places := builder.places.push none }
  else .error .tooManyStates builder

/-- Puts a state into its place, which is taken if it has not been before. -/
def add (state : State) : BuildM Unit := fun builder =>
  if state.id = StateId.noSuccessor then .error .tooManyStates builder
  else
    let builder := builder.grow state.id.oneMore
    match builder.state? state.id with
    | some _ => .error (.duplicateState state.id) builder
    | none => .ok () (builder.put state.id state)

/-- Adds a copy of the state `source` under the identifier `copy`. -/
def duplicate (source copy : StateId) : BuildM Unit := fun builder =>
  match builder.state? source with
  | none => .error (builder.missing source) builder
  | some state => add (state.withId copy) builder

/-! ## What is in the places afterwards -/

theorem toNat_lt_size {builder : Builder} {id : StateId} {state : State}
    (found : builder.state? id = some state) : id.toNat < builder.places.size := by
  unfold state? at found
  obtain ⟨inside, -⟩ := Array.getElem?_eq_some_iff.1 (Option.join_eq_some_iff.1 found)
  exact inside

@[simp] theorem state?_grow (builder : Builder) (count : Nat) (id : StateId) :
    (builder.grow count).state? id = builder.state? id := by
  simp only [state?, grow, Array.getElem?_append]
  split
  · rfl
  · rename_i h
    rw [Array.getElem?_eq_none (Nat.le_of_not_lt h), Array.getElem?_replicate]
    split <;> rfl

theorem state?_put {builder : Builder} {id : StateId} (h : id.toNat < builder.places.size)
    (state : State) (other : StateId) :
    (builder.put id state).state? other =
      if id = other then some state else builder.state? other := by
  by_cases e : id = other
  · subst e
    simp [state?, put, h]
  · have : id.toNat ≠ other.toNat := fun n => e (StateId.toNat_injective n)
    simp [state?, put, e, this]

@[simp] theorem state?_edit (builder : Builder) (id : StateId) (change : State → State)
    (other : StateId) :
    (builder.edit id change).state? other =
      if id = other then (builder.state? other).map change else builder.state? other := by
  by_cases e : id = other
  · subst e
    cases h : builder.places[id.toNat]? <;> simp [state?, edit, Array.getElem?_modify, h]
  · have : id.toNat ≠ other.toNat := fun n => e (StateId.toNat_injective n)
    simp [state?, edit, Array.getElem?_modify, e, this]

theorem edit_of_same {builder : Builder} {id : StateId} {change : State → State}
    (same : ∀ state, change state = state) : builder.edit id change = builder := by
  have unchanged : (builder.places.modify id.toNat (Option.map change)) = builder.places := by
    refine Array.ext_getElem? fun i => ?_
    rw [Array.getElem?_modify, funext same]
    split <;> simp
  unfold edit
  rw [unchanged]

@[simp] theorem size_edit (builder : Builder) (id : StateId) (change : State → State) :
    (builder.edit id change).places.size = builder.places.size := by
  simp [edit]

end Builder
end ByteDFA
