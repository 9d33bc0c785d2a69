import ByteDFA.Builder.Basic
import ByteDFA.Log

/-!
# Unrolling a loop

A state with a transition to itself can be unrolled into a chain. The chain consists of the state
and a number of copies; wherever the state led to itself, each member leads to the next, and all
other transitions are the same in every member. The last member either keeps the loop, so that the
chain can be followed for any number of steps, or rejects where the state looped, so that it cannot
be followed for more steps than there are copies.
-/

set_option autoImplicit false

namespace ByteDFA

/-- What the last member of a chain does where the unrolled state led to itself. -/
inductive LoopEnd
  /-- It rejects. -/
  | reject
  /-- It leads to itself. -/
  | keep
  deriving DecidableEq

namespace LoopEnd

/-- The name by which a loop end is shown. -/
def name : LoopEnd → String
  | reject => "Reject"
  | keep => "Keep"

/-- The successor of the last member of a chain where the unrolled state led to itself. -/
def target (loopEnd : LoopEnd) (last : StateId) : Option StateId :=
  match loopEnd with
  | reject => none
  | keep => some last

end LoopEnd

namespace Builder

/-- Adds copies of a state under new identifiers, which are appended to the chain. -/
def addCopies (id : StateId) : Nat → Array StateId → BuildM (Array StateId)
  | 0, chain => pure chain
  | count + 1, chain => do
    let copy ← nextId
    duplicate id copy
    addCopies id count (chain.push copy)

/-- Redirects the transitions to `id` in the members of a chain. -/
def redirectChain (id : StateId) (loopEnd : LoopEnd) (builder : Builder) :
    List StateId → Builder
  | [] => builder
  | [last] => builder.edit last (·.redirect id (loopEnd.target last))
  | member :: next :: rest =>
    redirectChain id loopEnd (builder.edit member (·.redirect id (some next))) (next :: rest)

/-- Why a state cannot be unrolled into a chain with the given number of copies. -/
def unrollError? (builder : Builder) (id : StateId) (copies : Nat) : Option BuildError :=
  match builder.state? id with
  | none => some (builder.missing id)
  | some state =>
    if !state.table.contains id then some (.invalidUnroll id)
    else if StateId.limit - builder.places.size < copies then some .tooManyStates
    else none

/-- Unrolls the loop of a state into a chain and returns the members of the chain. -/
def unroll (id : StateId) (copies : Nat) (loopEnd : LoopEnd) : BuildM (Array StateId) :=
  fun builder =>
    match builder.unrollError? id copies with
    | some error => .error error builder
    | none =>
      let count := builder.places.size
      match addCopies id copies #[id] builder with
      | .error error builder => .error error (builder.shrink count)
      | .ok chain builder => .ok chain (builder.redirectChain id loopEnd chain.toList)

/-- The log lines of unrolling a state into a chain of the given length. -/
def unrollLog (id : StateId) (length : Nat) (loopEnd : LoopEnd) : List String :=
  [LogLevel.debug.line s!"unrolled state {id} into chain of {length} states ({loopEnd.name})"]

end Builder
end ByteDFA
