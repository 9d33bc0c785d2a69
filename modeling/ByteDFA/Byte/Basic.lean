/-!
# Bytes

The 256 bytes in order, the bytes that occur in words, and how a byte is written in a text that has
to stay readable. No written form of a byte begins another one, so a sequence of written bytes can
be read back.
-/

set_option autoImplicit false

namespace ByteDFA

/-- The bytes that a search reads. -/
abbrev Haystack := Array UInt8

namespace Byte

/-- Every byte, in ascending order. -/
def all : List UInt8 := (List.range 256).map UInt8.ofNat

/-- A letter, a digit or an underscore of ASCII. -/
def isWord (b : UInt8) : Bool :=
  (0x61 ≤ b && b ≤ 0x7A) || (0x41 ≤ b && b ≤ 0x5A) || (0x30 ≤ b && b ≤ 0x39) || b == 0x5F

/-- A hexadecimal digit, with capital letters. -/
def hexDigit (n : Nat) : Char := (Nat.digitChar n).toUpper

/-- The characters that write a byte: a printable one stands for itself, a space is quoted, and the
others are escaped. -/
def escapedChars (b : UInt8) : List Char :=
  match b with
  | 0x20 => ['\x27', ' ', '\x27']
  | 0x09 => ['\\', 't']
  | 0x0A => ['\\', 'n']
  | 0x0D => ['\\', 'r']
  | 0x22 => ['\\', '\x22']
  | 0x27 => ['\\', '\x27']
  | 0x5C => ['\\', '\\']
  | b =>
    if 0x20 < b && b < 0x7F then [Char.ofNat b.toNat]
    else ['\\', 'x', hexDigit (b.toNat / 16), hexDigit (b.toNat % 16)]

/-- The text that writes a byte. -/
def escaped (b : UInt8) : String := String.ofList (escapedChars b)

theorem mem_all (b : UInt8) : b ∈ all :=
  List.mem_map.2 ⟨b.toNat, List.mem_range.2 b.toNat_lt, UInt8.ofNat_toNat⟩

theorem length_all : all.length = 256 := by simp [all]

theorem pairwise_map_ofNat {n : Nat} (le : n ≤ 256) :
    ((List.range n).map UInt8.ofNat).Pairwise (· < ·) := by
  refine List.pairwise_map.2 (List.pairwise_lt_range.imp_of_mem fun {i j} _ mem lt => ?_)
  have small : j < 256 := Nat.lt_of_lt_of_le (List.mem_range.1 mem) le
  rw [UInt8.lt_iff_toNat_lt, UInt8.toNat_ofNat_of_lt' (Nat.lt_trans lt small),
    UInt8.toNat_ofNat_of_lt' small]
  exact lt

theorem pairwise_all : all.Pairwise (· < ·) := pairwise_map_ofNat (Nat.le_refl 256)

end Byte
end ByteDFA
