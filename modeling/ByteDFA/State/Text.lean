import ByteDFA.Outline
import ByteDFA.State.Basic

/-!
# The texts of a state

A state can be written as a value or as an outline. The outline shows everything that the state is
made of: its kind, its identifier, its slots and every entry of its table.
-/

set_option autoImplicit false

namespace ByteDFA

namespace Role

/-- The properties that an outline shows for a role, besides the identifier. -/
def properties : Role → List (String × String)
  | matcher slots accept =>
    [("slots", slots.debug), ("accept", (accept.map SlotSet.debug).getD "none")]
  | role => [("slots", role.slots.debug)]

/-- The key under which an outline shows the entry at an index. -/
def entryKey : Role → Nat → String
  | start _, index => ((StartConfig.ofIndex? index).map StartConfig.name).getD (toString index)
  | _, index => toString index

end Role

namespace State

/-- The outline of the transition table. -/
def transitionsOutline (state : State) : Outline :=
  .node "transitions"
    (state.table.toList.mapIdx fun i next =>
      (state.role.entryKey i, TransitionTable.entryText next)) []

/-- The outline of the state. -/
def outline (state : State) : Outline :=
  .node state.kind.name (("id", toString state.id) :: state.role.properties)
    [state.transitionsOutline]

/-- The fields that are written for the state as a value. -/
def fields (state : State) : List (String × String) :=
  let common := [("id", state.id.debug), ("table", state.table.debug)]
  match state.role with
  | .start slots => common ++ [("slots", slots.debug)]
  | .matcher slots accept =>
    common ++ [("slots", slots.debug), ("accept", ValueText.option (accept.map SlotSet.debug))]
  | .final slots => common ++ [("slots", slots.debug)]
  | .traceFinder => common

/-- The text of the state as a value. -/
def debug (state : State) : String :=
  ValueText.tagged state.kind.name (ValueText.fields (state.kind.name ++ "State") state.fields)

end State
end ByteDFA
