import ByteDFA.Automaton.Basic
import ByteDFA.Fault
import ByteDFA.State.Text

/-!
# The texts of an automaton

The outline of an automaton shows everything that it is made of. The dump is shorter: it shows the
transitions of a state that reads a byte as stretches of bytes with the same successor, and leaves
out what rejects.
-/

set_option autoImplicit false

namespace ByteDFA
namespace Automaton

/-- The outline of the automaton. -/
def outline (automaton : Automaton) : Outline :=
  .node "Automaton"
    [("groups", toString automaton.groupCount),
      ("start_anchored", toString automaton.anchoredStart),
      ("start_unanchored", toString automaton.unanchoredStart),
      ("classes", automaton.classes.debug)]
    (automaton.states.toList.map State.outline)

/-! ## The dump -/

/-- A number with at least six digits. -/
def sixDigits (n : Nat) : String := String.ofList ((toString n).toList.leftpad 6 '0')

/-- The two characters that tell what a state is good for. -/
def indicator (automaton : Automaton) (state : State) : String :=
  if state.id = automaton.anchoredStart ∨ state.id = automaton.unanchoredStart then " >"
  else
    match state.role with
    | .final _ => " *"
    | .matcher _ (some _) => "+*"
    | .traceFinder => " T"
    | _ => "  "

/-- The entries of a start state, numbered from `index` on, each with its configuration. -/
def entryTexts (index : Nat) : List (Option StateId) → Except Fault (List String)
  | [] => .ok []
  | next :: rest =>
    match StartConfig.ofIndex? index with
    | none => .error (.entryOutOfRange index)
    | some config =>
      (entryTexts (index + 1) rest).map fun texts =>
        (config.name ++ " => " ++ TransitionTable.entryText next) :: texts

/-- The maximal stretches of consecutive bytes on which a state has the same successor. -/
def byteRuns (automaton : Automaton) (state : State) : List (ByteRun StateId) :=
  runs fun b => state.table.get? (automaton.classes.get b).toNat

/-- The text of one stretch of bytes and their successor. -/
def byteRunText (run : ByteRun StateId) : String := run.text ++ " => " ++ toString run.key

/-- The text of the transitions of a state. -/
def transitionsText (automaton : Automaton) (state : State) : Except Fault String :=
  match state.role with
  | .start _ => (entryTexts 0 state.table.toList).map (String.intercalate ", ")
  | _ => .ok (String.intercalate ", " ((automaton.byteRuns state).map byteRunText))

/-- The line for a state. -/
def stateLine (automaton : Automaton) (state : State) : Except Fault String :=
  (automaton.transitionsText state).map fun transitions =>
    automaton.indicator state ++ sixDigits state.id.toNat ++ ": " ++ transitions ++
      (if state.slots.isEmpty then "" else " (slots: " ++ state.slots.debug ++ ")") ++ "\n"

/-- The lines after those for the states. -/
def footer (automaton : Automaton) : String :=
  "\n  anchored => " ++ sixDigits automaton.anchoredStart.toNat ++
    "\n  unanchored => " ++ sixDigits automaton.unanchoredStart.toNat ++
    "\ngroups: " ++ toString automaton.groupCount ++ "\n" ++
    (match automaton.accelerator with
      | none => ""
      | some accelerator => "accelerator: " ++ accelerator.debug ++ "\n") ++ ")\n"

/-- The dump of the automaton. -/
def dump (automaton : Automaton) : Except Fault String :=
  (automaton.states.toList.mapM automaton.stateLine).map fun lines =>
    "dfa::Automaton(\n" ++ String.join lines ++ automaton.footer

end Automaton
end ByteDFA
