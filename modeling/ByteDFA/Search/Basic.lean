import ByteDFA.Search.Config
import ByteDFA.Search.Input
import ByteDFA.Search.Report

/-!
# Searches

An anchored search makes one attempt. An unanchored search makes attempts at increasing offsets,
the end of the haystack included, until one of them decides the outcome: it saves a match, or it
shows that no later attempt can succeed. So the match that is found begins as far left as possible.
If the automaton has an accelerator, an unanchored search goes from one offset that the accelerator
finds to the next, but never passes over offset 0.
-/

set_option autoImplicit false

namespace ByteDFA

/-- Whether an attempt that ended in this way decides the whole search. -/
def Ending.decides (ending : Ending) (frame : Frame) : Bool :=
  match ending with
  | .accepted => true
  | .hopeless => true
  | .rejected => frame.hasMatch

/-- A search that is under way: what remains the same from one attempt to the next. -/
structure Search where
  automaton : Automaton
  haystack : Haystack
  /-- The state in which every attempt begins. -/
  entry : StateId
  /-- The accelerator, if the search uses one. -/
  accelerator : Option Accelerator
  /-- The number of states that may be executed, if there is a limit. -/
  limit : Option Nat

namespace Search

/-- The first offset, from the given one on, at which an attempt is worth making. -/
def candidate? (search : Search) (offset : Nat) : Option Nat :=
  match search.accelerator with
  | none => some offset
  | some accelerator =>
    if offset = 0 then some 0 else accelerator.find? search.haystack offset

/-- The attempt at an offset, on the frame that earlier attempts have left behind. -/
def attempt (search : Search) (budget offset : Nat) (frame : Frame) : Attempt :=
  search.automaton.attempt search.haystack budget search.entry (frame.reset offset)

theorem le_of_candidate? {search : Search} {offset i : Nat}
    (here : search.candidate? offset = some i) : offset ≤ i := by
  unfold candidate? at here
  split at here
  · cases here
    exact Nat.le_refl _
  · split at here
    · cases here
      exact Nat.le_of_eq ‹_›
    · exact (Accelerator.find?_bounds here).1

/-- Makes attempts from an offset on. If none of them decides the search, the last one is the first
in an anchored search, and the one at the end of the haystack in others. `budget` and `frame` are
shared by all, and `tried` holds the offsets of the attempts made before. The last component of the
result is the part of the budget that was not used. -/
def loop (search : Search) (anchored : Bool) (offset budget : Nat) (frame : Frame)
    (tried : Array Nat) : Array Nat × Verdict × Nat :=
  match _here : search.candidate? offset with
  | none => (tried, .noCandidate offset, budget)
  | some i =>
    let tried := tried.push i
    let attempt := search.attempt budget i frame
    match attempt.stop with
    | .fault cause => (tried, .fault cause, attempt.left)
    | .cut => (tried, .cut search.limit attempt.frame.cursor, attempt.left)
    | .ended ending =>
      if ending.decides attempt.frame then
        (tried, .decided i ending attempt.frame.cursor attempt.frame.saved, attempt.left)
      else if _last : anchored ∨ search.haystack.size ≤ i then (tried, .exhausted, attempt.left)
      else search.loop anchored (i + 1) attempt.left attempt.frame tried
termination_by search.haystack.size - offset
decreasing_by
  have le := le_of_candidate? _here
  omega

end Search

/-- The number of states that a search can execute when `length` bytes are ahead of it: at each
offset an attempt executes at most two, because no start state follows another. -/
def stepBound (length : Nat) : Nat := (length + 1) * (length + 2)

namespace Executor

/-- The search that an executor makes for an input. -/
def plan (executor : Executor) (automaton : Automaton) (input : Input) : Search where
  automaton
  haystack := input.haystack
  entry := automaton.startFor input.anchored
  accelerator :=
    if !input.anchored && executor.config.accelerate then automaton.accelerator else none
  limit := executor.config.stepLimit?

/-- Searches the input and reports what was done. -/
def report (executor : Executor) (automaton : Automaton) (input : Input) : Report :=
  if input.haystack.size < input.start then
    ⟨#[], 0, .invalidStart input.start input.haystack.size⟩
  else
    let ahead := input.haystack.size - input.start
    let budget := executor.config.stepLimit?.getD (stepBound ahead)
    let frame := Frame.fresh automaton.slotCount input.start
    let (tried, verdict, left) :=
      (executor.plan automaton input).loop input.anchored input.start budget frame #[]
    ⟨tried, budget - left, verdict⟩

/-- Searches the input. The result is missing if nothing matches. -/
def search (executor : Executor) (automaton : Automaton) (input : Input) :
    Except SearchError (Option Captures) :=
  (executor.report automaton input).outcome

end Executor

/-- Searches a haystack from an offset on with the default configuration. -/
def Automaton.runMatch (automaton : Automaton) (haystack : Haystack) (start : Nat)
    (anchored : Bool) : Except SearchError (Option Captures) :=
  Executor.search {} automaton { haystack, start, anchored }

end ByteDFA
