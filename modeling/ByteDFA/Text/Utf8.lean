/-!
# Text cut at UTF-8 offsets

A text is cut at offsets that count the bytes of its UTF-8 form. A cut inside a character has no
result, and neither has one beyond the end.
-/

set_option autoImplicit false

namespace ByteDFA.Utf8

/-- The characters from a byte offset on. -/
def dropBytes? : List Char → Nat → Option (List Char)
  | cs, 0 => some cs
  | [], _ + 1 => none
  | c :: cs, n + 1 => if c.utf8Size ≤ n + 1 then dropBytes? cs (n + 1 - c.utf8Size) else none

/-- The characters up to a byte offset. -/
def takeBytes? : List Char → Nat → Option (List Char)
  | _, 0 => some []
  | [], _ + 1 => none
  | c :: cs, n + 1 =>
    if c.utf8Size ≤ n + 1 then (takeBytes? cs (n + 1 - c.utf8Size)).map (c :: ·) else none

/-- The text between two byte offsets. -/
def slice? (text : String) (start stop : Nat) : Option String := do
  guard (start ≤ stop)
  let rest ← dropBytes? text.toList start
  let chars ← takeBytes? rest (stop - start)
  return String.ofList chars

end ByteDFA.Utf8
