import ByteDFA.Byte.Basic
import ByteDFA.Text.Value

/-!
# The input of a search

A haystack, the offset from which it is searched, and whether a match has to begin right there.
-/

set_option autoImplicit false

namespace ByteDFA

/-- What a search is asked to look at. -/
structure Input where
  haystack : Haystack
  start : Nat := 0
  anchored : Bool := false
  deriving DecidableEq

namespace Input

/-- The byte at an offset. -/
def byte? (input : Input) (offset : Nat) : Option UInt8 := input.haystack[offset]?

/-- The offset after the last byte. -/
def stop (input : Input) : Nat := input.haystack.size

/-- The bytes of a haystack, written one after the other between quotes. -/
def haystackText (haystack : Haystack) : String :=
  "\"" ++ String.join (haystack.toList.map Byte.escaped) ++ "\""

/-- The text of the input as a value. -/
def debug (input : Input) : String :=
  ValueText.fields "Input" [("haystack", haystackText input.haystack),
    ("start", toString input.start), ("anchored", toString input.anchored)]

end Input
end ByteDFA
