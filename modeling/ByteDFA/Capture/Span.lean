import ByteDFA.Byte.Basic
import ByteDFA.Text.Utf8
import ByteDFA.Text.Value

/-!
# Spans

A span is a stretch of a haystack given by the offsets of its first byte and of the byte after its
last. It can select bytes from a haystack or text from a string.
-/

set_option autoImplicit false

namespace ByteDFA

/-- The offsets from `start` up to but not including `stop`. -/
structure Span where
  start : Nat
  stop : Nat
  deriving DecidableEq

namespace Span

/-- Whether no offset lies in the span. -/
def isEmpty (span : Span) : Bool := span.stop ≤ span.start

/-- The bytes of a haystack in the span, if it lies within the haystack. -/
def bytes? (span : Span) (haystack : Haystack) : Option Haystack :=
  if span.start ≤ span.stop ∧ span.stop ≤ haystack.size then
    some (haystack.extract span.start span.stop)
  else none

/-- The text between the two offsets, if both lie between characters of the string. -/
def text? (span : Span) (text : String) : Option String :=
  Utf8.slice? text span.start span.stop

/-- The text of the span as a value. -/
def debug (span : Span) : String :=
  ValueText.fields "Span" [("start", toString span.start), ("end", toString span.stop)]

end Span
end ByteDFA
