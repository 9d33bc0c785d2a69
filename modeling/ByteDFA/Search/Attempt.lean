import ByteDFA.Automaton.Basic
import ByteDFA.Search.Frame
import ByteDFA.Search.Move

/-!
# Attempts

An attempt executes states from a start state on until the run ends. It has a budget, the number of
states that it may execute, and is cut short when it needs one more. An attempt that is not cut does
the same under every larger budget (`attempt_add`).
-/

set_option autoImplicit false

namespace ByteDFA

/-- Why an attempt is over. -/
inductive Stop
  /-- The run has ended. -/
  | ended (ending : Ending)
  /-- The budget is used up and the run is not over. -/
  | cut
  /-- The automaton is defective. -/
  | fault (cause : Fault)
  deriving DecidableEq

/-- What is left of an attempt when it is over. -/
structure Attempt where
  stop : Stop
  frame : Frame
  /-- The part of the budget that was not used. -/
  left : Nat
  deriving DecidableEq

/-- Executes states, beginning with the one found under `id`, until the run ends or the budget is
used up. -/
def Automaton.attempt (automaton : Automaton) (haystack : Haystack) :
    (budget : Nat) → (id : StateId) → (frame : Frame) → Attempt
  | 0, _, frame => ⟨.cut, frame, 0⟩
  | budget + 1, id, frame =>
    match automaton.state? id with
    | none => ⟨.fault (.missingState id), frame, budget⟩
    | some state =>
      let frame := state.mark frame
      match state.move automaton.classes haystack frame.cursor with
      | .error cause => ⟨.fault cause, frame, budget⟩
      | .ok (.stop ending) => ⟨.ended ending, frame, budget⟩
      | .ok (.goto next cursor) => automaton.attempt haystack budget next (frame.moveTo cursor)

namespace Automaton

theorem attempt_add {automaton : Automaton} {haystack : Haystack} (extra : Nat) :
    ∀ (budget : Nat) (id : StateId) (frame : Frame),
      (automaton.attempt haystack budget id frame).stop ≠ .cut →
      automaton.attempt haystack (budget + extra) id frame =
        { automaton.attempt haystack budget id frame with
          left := (automaton.attempt haystack budget id frame).left + extra } := by
  intro budget
  induction budget with
  | zero => intro id frame h; exact absurd rfl h
  | succ budget ih =>
    intro id frame h
    rw [Nat.succ_add]
    simp only [attempt] at h ⊢
    split
    · rfl
    · rename_i state found
      simp only [found] at h
      split
      · rfl
      · rfl
      · rename_i next cursor moved
        simp only [moved] at h
        exact ih _ _ h

end Automaton
end ByteDFA
