import ByteDFA.Byte.Classes
import ByteDFA.Fault
import ByteDFA.State.Basic

/-!
# Moves

Where a run goes from a state depends only on the haystack and the cursor, never on the offsets
that have been recorded.
-/

set_option autoImplicit false

namespace ByteDFA

/-- How the run of an attempt ends. -/
inductive Ending
  /-- In a final state. -/
  | accepted
  /-- Without a transition. -/
  | rejected
  /-- Without a transition from a trace finder, so that later attempts are hopeless as well. -/
  | hopeless
  deriving DecidableEq

/-- What follows the execution of a state. -/
inductive Move
  /-- Another state is executed with the given cursor. -/
  | goto (id : StateId) (cursor : Nat)
  /-- The run is over. -/
  | stop (ending : Ending)
  deriving DecidableEq

namespace State

/-- The successor of a state on the byte at an offset. -/
def successor? (classes : ByteClasses) (haystack : Haystack) (state : State) (offset : Nat) :
    Option StateId :=
  (haystack[offset]?).bind fun b => state.table.get? (classes.get b).toNat

/-- The move past the byte at an offset, or the given ending if there is no transition. -/
def read (classes : ByteClasses) (haystack : Haystack) (state : State) (offset : Nat)
    (otherwise : Ending) : Move :=
  match state.successor? classes haystack offset with
  | none => .stop otherwise
  | some next => .goto next (offset + 1)

/-- The move from a state with the cursor at an offset. -/
def move (classes : ByteClasses) (haystack : Haystack) (state : State) (offset : Nat) :
    Except Fault Move :=
  match state.kind with
  | .start =>
    match StartConfig.ofOffset? haystack offset with
    | none => .error (.offsetOutOfRange offset)
    | some config =>
      match state.table.get? config.index with
      | none => .ok (.stop .rejected)
      | some next => .ok (.goto next offset)
  | .matcher => .ok (state.read classes haystack offset .rejected)
  | .final => .ok (.stop .accepted)
  | .traceFinder => .ok (state.read classes haystack offset .hopeless)

end State
end ByteDFA
