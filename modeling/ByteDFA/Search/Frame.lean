import ByteDFA.Capture.Slots
import ByteDFA.State.Basic

/-!
# Frames

The frame of a search holds all that changes while an attempt runs: the cursor, the offsets
recorded so far, and the offsets of the best match seen so far. Since a later match replaces an
earlier one, the match that is reported in the end is the longest that the run has seen.

All attempts of a search share one frame, which is reset in between. Resetting it takes away what
has been recorded, but leaves the offsets of an earlier match in their place and only forgets about
them.
-/

set_option autoImplicit false

namespace ByteDFA

/-- What changes while an attempt runs. -/
structure Frame where
  /-- The offset of the byte that is read next. -/
  cursor : Nat
  /-- The offsets recorded so far. -/
  slots : Slots
  /-- The offsets of the last match, which may be that of an earlier attempt. -/
  matched : Slots
  /-- Whether the attempt has saved a match. -/
  hasMatch : Bool
  deriving DecidableEq

namespace Frame

/-- A frame on which no attempt has been made. -/
def fresh (slotCount cursor : Nat) : Frame :=
  ⟨cursor, .blank slotCount, .blank slotCount, false⟩

/-- The frame at the beginning of an attempt. -/
def reset (frame : Frame) (cursor : Nat) : Frame :=
  { frame with cursor, slots := frame.slots.clear, hasMatch := false }

/-- The offsets of the last match of the attempt, if there was one. -/
def saved (frame : Frame) : Option Slots :=
  if frame.hasMatch then some frame.matched else none

/-- The frame with the cursor recorded into some slots. -/
def record (frame : Frame) (set : SlotSet) : Frame :=
  { frame with slots := frame.slots.record set frame.cursor }

/-- The frame with a match saved, in which the cursor is recorded into some more slots. -/
def save (frame : Frame) (extra : SlotSet) : Frame :=
  { frame with matched := frame.slots.record extra frame.cursor, hasMatch := true }

/-- The frame with the cursor moved. -/
def moveTo (frame : Frame) (cursor : Nat) : Frame := { frame with cursor }

@[simp] theorem saved_record (frame : Frame) (set : SlotSet) :
    (frame.record set).saved = frame.saved := rfl

@[simp] theorem saved_save (frame : Frame) (extra : SlotSet) :
    (frame.save extra).saved = some (frame.slots.record extra frame.cursor) := rfl

@[simp] theorem saved_moveTo (frame : Frame) (cursor : Nat) :
    (frame.moveTo cursor).saved = frame.saved := rfl

end Frame

/-- What a state does to the frame before it moves on: it records its slots and, if it accepts,
saves a match. -/
def State.mark (state : State) (frame : Frame) : Frame :=
  let frame := frame.record state.slots
  match state.accept with
  | none => frame
  | some extra => frame.save extra

end ByteDFA
