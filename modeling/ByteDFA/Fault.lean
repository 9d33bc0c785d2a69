import ByteDFA.StateId

/-!
# Faults

What can go wrong when an automaton that nobody has checked is run or shown. Automata that a builder
has frozen cause none of these.
-/

set_option autoImplicit false

namespace ByteDFA

/-- A defect of an automaton that shows only when it is used. -/
inductive Fault
  /-- A state was to be executed that the automaton does not have. -/
  | missingState (id : StateId)
  /-- The surroundings of an offset beyond the haystack were asked for. -/
  | offsetOutOfRange (offset : Nat)
  /-- A start state has an entry for which there is no start configuration. -/
  | entryOutOfRange (index : Nat)
  /-- A run went on for longer than is possible without start states that lead to start states. -/
  | endless
  deriving DecidableEq

/-- The sentence that reports the fault. -/
def Fault.message : Fault → String
  | .missingState id => s!"state {id} does not exist"
  | .offsetOutOfRange offset => s!"{offset} is invalid"
  | .entryOutOfRange index => s!"entry {index} has no start configuration"
  | .endless => "the run does not end"

end ByteDFA
