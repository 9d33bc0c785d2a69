import ByteDFA.Byte.Basic

/-!
# Runs of bytes with one key

A function that gives some bytes a key splits them into runs: stretches of consecutive bytes that
share a key and cannot be made longer. `runs` lists them in ascending order. It works from the last
byte down: each byte either joins the run that begins right above it or begins one of its own.
-/

set_option autoImplicit false

namespace ByteDFA

/-- A stretch of consecutive bytes, both ends included, that share a key. -/
structure ByteRun (κ : Type) where
  first : UInt8
  last : UInt8
  key : κ
  deriving DecidableEq

namespace ByteRun

variable {κ : Type}

/-- The two ends of the run. -/
def ends (run : ByteRun κ) : UInt8 × UInt8 := (run.first, run.last)

/-- The bytes of the run, in ascending order. -/
def bytes (run : ByteRun κ) : List UInt8 :=
  Byte.all.filter fun b => run.first ≤ b && b ≤ run.last

/-- The text of the run without its key: the two ends, or the byte that is both. -/
def text (run : ByteRun κ) : String :=
  if run.first = run.last then Byte.escaped run.first
  else Byte.escaped run.first ++ "-" ++ Byte.escaped run.last

end ByteRun

/-- The runs of the bytes from `b` up, from those of the bytes above `b`. -/
def prependByte {κ : Type} [DecidableEq κ] (key : UInt8 → Option κ) (b : UInt8)
    (above : List (ByteRun κ)) : List (ByteRun κ) :=
  match key b, above with
  | none, above => above
  | some k, [] => [⟨b, b, k⟩]
  | some k, run :: rest =>
    if run.key = k ∧ run.first.toNat = b.toNat + 1 then { run with first := b } :: rest
    else ⟨b, b, k⟩ :: run :: rest

/-- The maximal stretches of consecutive bytes with one key, in ascending order. -/
def runs {κ : Type} [DecidableEq κ] (key : UInt8 → Option κ) : List (ByteRun κ) :=
  Byte.all.foldr (prependByte key) []

end ByteDFA
