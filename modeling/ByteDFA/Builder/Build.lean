import ByteDFA.Builder.Basic
import ByteDFA.Log

/-!
# Freezing a builder

A builder is frozen into an automaton if nothing is wrong with it. What may be wrong is looked at in
a fixed order, and the first defect is reported: the number of groups, the choice of a start, the
classes of the bytes, the places from the first to the last, and the two starts. The automaton has
the states of the builder, place by place.
-/

set_option autoImplicit false

namespace ByteDFA
namespace Builder

/-- The number of entries that the table of a state must have. -/
def tableSize (builder : Builder) : Kind → Nat
  | .start => StartConfig.count
  | .matcher => builder.classes.alphabetLen
  | .traceFinder => builder.classes.alphabetLen
  | .final => 0

/-- What is wrong with the class of a byte. -/
def byteDefect? (builder : Builder) (b : UInt8) : Option BuildError :=
  let byteClass := builder.classes.get b
  if builder.classes.alphabetLen ≤ byteClass.toNat then
    some (.invalidByteClass b byteClass builder.classes.alphabetLen)
  else none

/-- What is wrong with a successor of a state. -/
def successorDefect? (builder : Builder) (state : State) (next : Option StateId) :
    Option BuildError :=
  match next with
  | none => none
  | some next =>
    match builder.state? next with
    | none => some (.danglingTransition state.id next)
    | some target =>
      if state.kind = .start ∧ target.kind = .start then some (.startToStart state.id next)
      else none

/-- What is wrong with the slots of a state. -/
def slotDefect? (builder : Builder) (state : State) : Option BuildError :=
  match (state.slots ∪ state.accept.getD ∅).max? with
  | none => none
  | some slot =>
    if builder.groupCount * 2 ≤ slot then
      some (.slotOutOfRange state.id slot builder.groupCount)
    else none

/-- What is wrong with a state. -/
def stateDefect? (builder : Builder) (state : State) : Option BuildError :=
  let expected := builder.tableSize state.kind
  if state.table.size ≠ expected then
    some (.wrongTableLength state.id expected state.table.size)
  else
    (state.table.toList.findSome? (builder.successorDefect? state)).or
      (builder.slotDefect? state)

/-- What is wrong with the place of the given number. -/
def placeDefect? (builder : Builder) (place : Option State) (number : Nat) : Option BuildError :=
  match place with
  | none => some (.unknownState (.ofNat number))
  | some state => builder.stateDefect? state

/-- What is wrong with a start. -/
def startDefect? (builder : Builder) (id : StateId) : Option BuildError :=
  match builder.state? id with
  | none => some (builder.missing id)
  | some state => if state.kind = .start then none else some (.notAStart id state.kind)

/-- The first thing that is wrong with the classes, the places and the given starts. -/
def defect? (builder : Builder) (anchored unanchored : StateId) : Option BuildError :=
  (Byte.all.findSome? builder.byteDefect?).or <|
    (builder.places.toList.zipIdx.findSome? fun p => builder.placeDefect? p.1 p.2).or <|
      (builder.startDefect? anchored).or (builder.startDefect? unanchored)

/-- The automaton with the states of the builder and the given starts. -/
def freeze (builder : Builder) (anchored unanchored : StateId) : Automaton where
  classes := builder.classes
  groupCount := builder.groupCount
  states := builder.places.filterMap id
  anchoredStart := anchored
  unanchoredStart := unanchored

/-- Freezes the builder into an automaton, unless something is wrong with it. -/
def build (builder : Builder) : Except BuildError Automaton :=
  if SlotSet.groupLimit < builder.groupCount then .error (.tooManyGroups builder.groupCount)
  else
    match builder.anchoredStart with
    | none => .error .missingStart
    | some anchored =>
      let unanchored := builder.unanchoredStart.getD anchored
      match builder.defect? anchored unanchored with
      | some error => .error error
      | none => .ok (builder.freeze anchored unanchored)

end Builder

/-- The log lines of freezing a builder into the automaton. -/
def Automaton.buildLog (automaton : Automaton) : List String :=
  let accelerator := ValueText.option (automaton.accelerator.map Accelerator.debug)
  [LogLevel.debug.line (s!"built automaton with {automaton.stateCount} states, " ++
    s!"{automaton.groupCount} groups and accelerator {accelerator}")]

end ByteDFA
