import ByteDFA.Capture.Captures
import ByteDFA.Log
import ByteDFA.Search.Attempt

/-!
# Reports

The report of a search says at which offsets an attempt was made, how many states were executed, and
what brought the search to its end. The outcome of the search and its log lines are read off the
report.
-/

set_option autoImplicit false

namespace ByteDFA

/-- Why a search has no outcome. -/
inductive SearchError
  /-- The search was to begin beyond the end of the haystack. -/
  | invalidStart (start length : Nat)
  /-- More states had to be executed than the limit permits. -/
  | stepLimitExceeded (limit offset : Nat)
  /-- The automaton is defective. -/
  | fault (cause : Fault)
  deriving DecidableEq

/-- The sentence that reports the error. -/
def SearchError.message : SearchError → String
  | .invalidStart start length =>
    s!"invalid start offset {start} for haystack of length {length}"
  | .stepLimitExceeded limit offset =>
    s!"search exceeded step limit of {limit} at offset {offset}"
  | .fault cause => cause.message

/-- What brings a search to its end. -/
inductive Verdict
  /-- The search was to begin beyond the end of the haystack. -/
  | invalidStart (start length : Nat)
  /-- The attempt at `offset` decided the search, with the offsets of a match if it saved one. -/
  | decided (offset : Nat) (ending : Ending) (cursor : Nat) (saved : Option Slots)
  /-- Every attempt was in vain. -/
  | exhausted
  /-- From `offset` on, no attempt can get anywhere. -/
  | noCandidate (offset : Nat)
  /-- More states had to be executed than the limit permits, or than a run can have if none is
  given. -/
  | cut (limit : Option Nat) (cursor : Nat)
  /-- The automaton is defective. -/
  | fault (cause : Fault)
  deriving DecidableEq

namespace Verdict

/-- The captures that are found, if there are any, or the reason for having no outcome. -/
def outcome : Verdict → Except SearchError (Option Captures)
  | invalidStart start length => .error (.invalidStart start length)
  | decided _ _ _ saved => .ok (saved.map Captures.mk)
  | exhausted => .ok none
  | noCandidate _ => .ok none
  | cut (some limit) cursor => .error (.stepLimitExceeded limit cursor)
  | cut none _ => .error (.fault .endless)
  | fault cause => .error (.fault cause)

/-- The message about the end of the search, if there is one. -/
def message? : Verdict → Option String
  | noCandidate offset => some s!"accelerator found no candidate after {offset}"
  | decided offset .accepted cursor _ => some s!"attempt at {offset} accepted at {cursor}"
  | decided offset .hopeless _ _ => some s!"no match possible after offset {offset}"
  | decided offset .rejected _ _ => some s!"attempt at {offset} rejected after a match"
  | _ => none

end Verdict

/-- What a search has done. -/
structure Report where
  /-- The offsets at which an attempt was made, in order. -/
  tried : Array Nat
  /-- The number of states that were executed. -/
  steps : Nat
  verdict : Verdict
  deriving DecidableEq

namespace Report

/-- The captures that were found, if there are any, or the reason for having no outcome. -/
def outcome (report : Report) : Except SearchError (Option Captures) := report.verdict.outcome

/-- The messages about the search, in order. -/
def messages (report : Report) : List String :=
  report.tried.toList.map (fun offset => s!"starting attempt at offset {offset}") ++
    report.verdict.message?.toList

/-- The log lines of the search. -/
def log (report : Report) : List String := report.messages.map LogLevel.trace.line

end Report
end ByteDFA
