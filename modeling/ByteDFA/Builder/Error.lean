import ByteDFA.Byte.Basic
import ByteDFA.Capture.SlotSet
import ByteDFA.State.Basic

/-!
# Errors of a builder

Everything that can be wrong with an automaton before it is frozen, or with a request to extend it.
-/

set_option autoImplicit false

namespace ByteDFA

/-- Why a builder refuses a request. -/
inductive BuildError
  /-- No start for anchored searches has been chosen. -/
  | missingStart
  /-- A state that is not a start state has been chosen as a start. -/
  | notAStart (id : StateId) (kind : Kind)
  /-- A place has been taken but holds no state. -/
  | unknownState (id : StateId)
  /-- There is no place for the state. -/
  | noSuchState (id : StateId)
  /-- The place of the state holds one already. -/
  | duplicateState (id : StateId)
  /-- A table does not have as many entries as the kind of its state requires. -/
  | wrongTableLength (id : StateId) (expected actual : Nat)
  /-- A successor does not exist. -/
  | danglingTransition (source target : StateId)
  /-- A start state is followed by a start state. -/
  | startToStart (source target : StateId)
  /-- A state records a slot that belongs to no group. -/
  | slotOutOfRange (id : StateId) (slot groupCount : Nat)
  /-- There are more groups than slots can represent. -/
  | tooManyGroups (given : Nat)
  /-- There are more states than identifiers. -/
  | tooManyStates
  /-- The state that is to be unrolled has no transition to itself. -/
  | invalidUnroll (id : StateId)
  /-- A byte has a class for which no table has an entry. -/
  | invalidByteClass (byte byteClass : UInt8) (alphabetLen : Nat)
  deriving DecidableEq

/-- The sentence that reports the error. -/
def BuildError.message : BuildError → String
  | missingStart => "automaton has no anchored start state"
  | notAStart id kind =>
    s!"state {id} is a {kind.name} state and cannot be used as a start state"
  | unknownState id => s!"state {id} was reserved but never added"
  | noSuchState id => s!"state {id} does not exist"
  | duplicateState id => s!"state {id} was added more than once"
  | wrongTableLength id expected actual =>
    s!"state {id} has {actual} transitions but {expected} were expected"
  | danglingTransition source target =>
    s!"state {source} has a transition to state {target}, which does not exist"
  | startToStart source target =>
    s!"start state {source} has a transition to start state {target}"
  | slotOutOfRange id slot groupCount =>
    s!"state {id} records slot {slot} but the automaton only has {groupCount} capture groups"
  | tooManyGroups given => s!"{given} capture groups exceeds limit of {SlotSet.groupLimit}"
  | tooManyStates => s!"number of states exceeds limit of {StateId.limit}"
  | invalidUnroll id => s!"state {id} cannot be unrolled because it has no transition to itself"
  | invalidByteClass byte byteClass alphabetLen =>
    s!"byte {Byte.escaped byte} maps to class {byteClass.toNat} " ++
      s!"but the alphabet only has {alphabetLen} classes"

end ByteDFA
