import ByteDFA.Capture.SlotSet
import ByteDFA.StartConfig
import ByteDFA.TransitionTable

/-!
# States

Every state has an identifier and a transition table; its role says what executing it does. A start
state reads nothing and is left by the entry for the start configuration. A matcher reads one byte
and may accept before it does so. A final state ends the run with a match. A trace finder reads one
byte like a matcher, and where it rejects no later attempt can match either.
-/

set_option autoImplicit false

namespace ByteDFA

/-- What executing a state does, apart from its transitions. -/
inductive Role
  /-- Records slots and picks an entry. -/
  | start (slots : SlotSet)
  /-- Records slots, saves a match if it accepts, and reads a byte. -/
  | matcher (slots : SlotSet) (accept : Option SlotSet)
  /-- Records slots and ends the run with a match. -/
  | final (slots : SlotSet)
  /-- Reads a byte. -/
  | traceFinder
  deriving DecidableEq

/-- The kind of a role. -/
inductive Kind
  | start
  | matcher
  | final
  | traceFinder
  deriving DecidableEq

/-- The name by which a kind is shown. -/
def Kind.name : Kind → String
  | .start => "Start"
  | .matcher => "Matcher"
  | .final => "Final"
  | .traceFinder => "TraceFinder"

namespace Role

/-- The kind of a role. -/
def kind : Role → Kind
  | start _ => .start
  | matcher _ _ => .matcher
  | final _ => .final
  | traceFinder => .traceFinder

/-- The slots that are recorded on execution. -/
def slots : Role → SlotSet
  | start slots => slots
  | matcher slots _ => slots
  | final slots => slots
  | traceFinder => ∅

/-- The slots that are recorded on accepting, if the role accepts. A final state always accepts and
records none beyond its own. -/
def accept : Role → Option SlotSet
  | matcher _ accept => accept
  | final _ => some ∅
  | start _ => none
  | traceFinder => none

end Role

/-- A state of an automaton. -/
structure State where
  id : StateId
  table : TransitionTable
  role : Role
  deriving DecidableEq

namespace State

/-- A start state that is left by one entry in every configuration. -/
def start (id : StateId) (entry : Option StateId) (slots : SlotSet) : State :=
  ⟨id, .ofList (List.replicate StartConfig.count entry), .start slots⟩

/-- A matcher, which accepts if `accept` is given. -/
def matcher (id : StateId) (table : TransitionTable) (slots : SlotSet)
    (accept : Option SlotSet) : State :=
  ⟨id, table, .matcher slots accept⟩

/-- A final state. -/
def final (id : StateId) (slots : SlotSet) : State := ⟨id, .blank 0, .final slots⟩

/-- A trace finder. -/
def traceFinder (id : StateId) (table : TransitionTable) : State := ⟨id, table, .traceFinder⟩

/-- The kind of the state. -/
def kind (state : State) : Kind := state.role.kind

/-- The slots that the state records on execution. -/
def slots (state : State) : SlotSet := state.role.slots

/-- The slots that the state records on accepting, if it accepts. -/
def accept (state : State) : Option SlotSet := state.role.accept

/-- A copy of the state under another identifier. -/
def withId (state : State) (id : StateId) : State := { state with id }

/-- The state with another transition table. -/
def withTable (state : State) (table : TransitionTable) : State := { state with table }

/-- The state with one successor replaced, if its table has such an entry. -/
def setSuccessor? (state : State) (index : Nat) (next : Option StateId) : Option State :=
  (state.table.set? index next).map state.withTable

/-- The state with every transition to `source` redirected. -/
def redirect (state : State) (source : StateId) (next : Option StateId) : State :=
  state.withTable (state.table.redirect source next)

theorem redirect_self (state : State) (source : StateId) :
    state.redirect source (some source) = state := by
  unfold redirect
  rw [TransitionTable.redirect_self]
  rfl

end State
end ByteDFA
