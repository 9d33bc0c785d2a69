import ByteDFA.Automaton.Accelerator

/-!
# Automata

An automaton has its states in an array, where each is found under the identifier that equals its
place. It has a start state for anchored searches and one for all others; these may be the same. The
accelerator belongs to the start state for unanchored searches and is determined by the states.
-/

set_option autoImplicit false

namespace ByteDFA

/-- A graph of states with two starts. -/
structure Automaton where
  classes : ByteClasses
  groupCount : Nat
  states : Array State
  anchoredStart : StateId
  unanchoredStart : StateId
  deriving DecidableEq

namespace Automaton

/-- The state found under an identifier. -/
def state? (automaton : Automaton) (id : StateId) : Option State :=
  automaton.states[id.toNat]?

/-- The number of states. -/
def stateCount (automaton : Automaton) : Nat := automaton.states.size

/-- The number of capture slots that a search records. -/
def slotCount (automaton : Automaton) : Nat := 2 * automaton.groupCount

/-- The state in which an attempt begins. -/
def startFor (automaton : Automaton) (anchored : Bool) : StateId :=
  if anchored then automaton.anchoredStart else automaton.unanchoredStart

/-- The bytes on which an attempt of an unanchored search has to begin after offset 0, if they can
be told from the states and are few enough. -/
def accelerator (automaton : Automaton) : Option Accelerator :=
  (automaton.state? automaton.unanchoredStart).bind
    (Accelerator.ofStart? automaton.classes automaton.state?)

end Automaton
end ByteDFA
