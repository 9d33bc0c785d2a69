import ByteDFA.Capture.Slots
import ByteDFA.Capture.Span

/-!
# Captures

The slots that a successful search reports, two for each group. A group has a span if both of its
slots are set. Group 0 is, by convention, the whole match.
-/

set_option autoImplicit false

namespace ByteDFA

/-- The offsets that a match reports. -/
structure Captures where
  slots : Slots
  deriving DecidableEq

namespace Captures

/-- The number of groups, with those that took no part in the match. -/
def groupCount (captures : Captures) : Nat := captures.slots.size / 2

/-- The offset in a slot, if there is such a slot and it is set. -/
def offset? (captures : Captures) (slot : Nat) : Option Nat :=
  (captures.slots[slot]?.join).map Offset.toNat

/-- The span of a group, if the group took part in the match. -/
def group? (captures : Captures) (index : Nat) : Option Span := do
  let start ← captures.offset? (2 * index)
  let stop ← captures.offset? (2 * index + 1)
  return ⟨start, stop⟩

/-- The span of the whole match. -/
def overall? (captures : Captures) : Option Span := captures.group? 0

/-- The spans of all groups, in order. -/
def groups (captures : Captures) : List (Option Span) :=
  (List.range captures.groupCount).map captures.group?

/-- The text of the span of one group. -/
def groupText (span : Option Span) : String :=
  match span with
  | none => "None"
  | some span => s!"{span.start}..{span.stop}"

/-- The text of the captures as a value. -/
def debug (captures : Captures) : String := ValueText.list (captures.groups.map groupText)

end Captures
end ByteDFA
