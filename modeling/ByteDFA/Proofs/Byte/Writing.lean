import ByteDFA.Byte.Basic

/-!
# Reading written bytes back

A written byte can be told from whatever follows it: `Byte.read` finds the byte that stands at the
beginning of a text and the rest of the text (`read_escapedChars`). So no written form begins
another one, and a sequence of bytes can be recovered from the text that writes one after the other
(`eq_of_flatMap_escapedChars`). It can also be told where such a text ends, if the character that
follows begins no written byte (`flatMap_escapedChars_append_inj`).

But for the blank, the written form of a byte is its usual escape in ASCII with capital digits
(`escapedChars_eq_asciiEscape`).
-/

set_option autoImplicit false

namespace ByteDFA.Byte

variable {a b : UInt8} {rest s t : List Char} {c : Char}

/-- The value of a hexadecimal digit with capital letters. -/
def hexValue (c : Char) : Nat := if c.isDigit then c.toNat - 48 else c.toNat - 55

/-- The byte that is written at the beginning of a text, and what follows it. -/
def read : List Char → Option (UInt8 × List Char)
  | [] => none
  | '\\' :: 't' :: rest => some (0x09, rest)
  | '\\' :: 'n' :: rest => some (0x0A, rest)
  | '\\' :: 'r' :: rest => some (0x0D, rest)
  | '\\' :: 'x' :: high :: low :: rest =>
    some (UInt8.ofNat (16 * hexValue high + hexValue low), rest)
  | '\\' :: c :: rest => some (UInt8.ofNat c.toNat, rest)
  | '\x27' :: ' ' :: '\x27' :: rest => some (0x20, rest)
  | c :: rest => some (UInt8.ofNat c.toNat, rest)

theorem hexValue_hexDigit {n : Nat} (lt : n < 16) : hexValue (hexDigit n) = n := by
  have all_digits : ∀ n < 16, hexValue (hexDigit n) = n := by decide
  exact all_digits n lt

theorem read_plain (no_escape : c ≠ '\\') (no_quote : c ≠ '\x27') :
    read (c :: rest) = some (UInt8.ofNat c.toNat, rest) := by
  unfold read
  split <;> simp_all

theorem toNat_ofNat_of_lt {n : Nat} (lt : n < 0x7F) : (Char.ofNat n).toNat = n := by
  have valid : n.isValidChar := .inl (Nat.lt_trans lt (by decide))
  rw [Char.ofNat, dif_pos valid]
  rfl

/-- A printable byte does not stand for another character. -/
theorem ofNat_ne {d : UInt8} (low : b.toNat < 0x7F) (ne : b ≠ d) (low' : d.toNat < 0x7F) :
    Char.ofNat b.toNat ≠ Char.ofNat d.toNat := by
  intro same
  have numbers := congrArg Char.toNat same
  rw [toNat_ofNat_of_lt low, toNat_ofNat_of_lt low'] at numbers
  exact ne (UInt8.toNat_inj.1 numbers)

theorem read_escapedChars (b : UInt8) (rest : List Char) :
    read (escapedChars b ++ rest) = some (b, rest) := by
  unfold escapedChars
  split
  · rfl
  · rfl
  · rfl
  · rfl
  · rfl
  · rfl
  · rfl
  · rename_i not_quote not_escape
    split
    · rename_i printable
      have low : b.toNat < 0x7F :=
        UInt8.lt_iff_toNat_lt.1 (of_decide_eq_true (Bool.and_eq_true_iff.1 printable).2)
      have no_escape : Char.ofNat b.toNat ≠ '\\' := ofNat_ne low not_escape (by decide)
      have no_quote : Char.ofNat b.toNat ≠ '\x27' := ofNat_ne low not_quote (by decide)
      rw [List.singleton_append, read_plain no_escape no_quote, toNat_ofNat_of_lt low,
        UInt8.ofNat_toNat]
    · have small := b.toNat_lt
      have digits : 16 * hexValue (hexDigit (b.toNat / 16)) + hexValue (hexDigit (b.toNat % 16)) =
          b.toNat := by
        rw [hexValue_hexDigit (by omega), hexValue_hexDigit (by omega)]
        exact Nat.div_add_mod _ _
      show some (UInt8.ofNat _, rest) = some (b, rest)
      rw [digits, UInt8.ofNat_toNat]

/-! ## Sequences of bytes -/

theorem escapedChars_append_inj (same : escapedChars a ++ s = escapedChars b ++ t) :
    a = b ∧ s = t := by
  have read_a := read_escapedChars a s
  rw [same, read_escapedChars] at read_a
  cases read_a
  exact ⟨rfl, rfl⟩

theorem escapedChars_ne_nil (b : UInt8) : escapedChars b ≠ [] := by
  intro blank
  have read_b := read_escapedChars b []
  rw [blank] at read_b
  cases read_b

/-- A sequence of bytes can be recovered from what writes it. -/
theorem eq_of_flatMap_escapedChars {xs ys : List UInt8}
    (same : xs.flatMap escapedChars = ys.flatMap escapedChars) : xs = ys := by
  induction xs generalizing ys with
  | nil =>
    cases ys with
    | nil => rfl
    | cons y ys =>
      rw [List.flatMap_cons] at same
      exact absurd (List.append_eq_nil_iff.1 same.symm).1 (escapedChars_ne_nil y)
  | cons x xs ih =>
    cases ys with
    | nil =>
      rw [List.flatMap_cons] at same
      exact absurd (List.append_eq_nil_iff.1 same).1 (escapedChars_ne_nil x)
    | cons y ys =>
      rw [List.flatMap_cons, List.flatMap_cons] at same
      obtain ⟨rfl, tails⟩ := escapedChars_append_inj same
      rw [ih tails]

/-! ## Where written bytes end -/

theorem head?_escapedChars (b : UInt8) : ' ' ∉ (escapedChars b).head? := by
  have all_bytes : ∀ b ∈ all, ' ' ∉ (escapedChars b).head? := by decide +kernel
  exact all_bytes b (mem_all b)

theorem quote_not_mem_head? (b : UInt8) : '\x22' ∉ (escapedChars b).head? := by
  have all_bytes : ∀ b ∈ all, '\x22' ∉ (escapedChars b).head? := by decide +kernel
  exact all_bytes b (mem_all b)

/-- Written bytes end where a character follows with which no written byte begins. -/
theorem flatMap_escapedChars_append_inj {xs ys : List UInt8} {stop : Char}
    (no_byte : ∀ b, stop ∉ (escapedChars b).head?)
    (same : xs.flatMap escapedChars ++ stop :: s = ys.flatMap escapedChars ++ stop :: t) :
    xs = ys ∧ s = t := by
  have differ (b : UInt8) (more : List Char) {rest : List Char} :
      escapedChars b ++ more ≠ stop :: rest := by
    intro ends
    cases chars : escapedChars b with
    | nil => exact escapedChars_ne_nil b chars
    | cons c cs =>
      rw [chars, List.cons_append] at ends
      refine no_byte b ?_
      rw [chars, (List.cons.inj ends).1]
      rfl
  induction xs generalizing ys with
  | nil =>
    cases ys with
    | nil => exact ⟨rfl, (List.cons.inj same).2⟩
    | cons y ys =>
      rw [List.flatMap_cons, List.append_assoc] at same
      exact absurd same.symm (differ y _)
  | cons x xs ih =>
    cases ys with
    | nil =>
      rw [List.flatMap_cons, List.append_assoc] at same
      exact absurd same (differ x _)
    | cons y ys =>
      rw [List.flatMap_cons, List.flatMap_cons, List.append_assoc, List.append_assoc] at same
      obtain ⟨rfl, tails⟩ := escapedChars_append_inj same
      obtain ⟨rfl, rests⟩ := ih tails
      exact ⟨rfl, rests⟩

/-! ## The escape of ASCII -/

/-- The usual escape of a byte in ASCII. A printable byte stands for itself, and the digits of a
number are small letters. -/
def asciiEscape (b : UInt8) : List Char :=
  match b with
  | 0x09 => ['\\', 't']
  | 0x0A => ['\\', 'n']
  | 0x0D => ['\\', 'r']
  | 0x22 => ['\\', '\x22']
  | 0x27 => ['\\', '\x27']
  | 0x5C => ['\\', '\\']
  | b =>
    if 0x20 ≤ b && b < 0x7F then [Char.ofNat b.toNat]
    else ['\\', 'x', Nat.digitChar (b.toNat / 16), Nat.digitChar (b.toNat % 16)]

/-- The letters from `a` to `f` capitalized where an escape has its digits. -/
def capitalizeDigit (place : Nat) (c : Char) : Char :=
  if 2 ≤ place && 'a' ≤ c && c ≤ 'f' then Char.ofNat (c.toNat - 32) else c

/-- A byte is written as its escape with capital digits. Only a blank is written differently. -/
theorem escapedChars_eq_asciiEscape (b : UInt8) :
    escapedChars b =
      if b = 0x20 then ['\x27', ' ', '\x27'] else (asciiEscape b).mapIdx capitalizeDigit := by
  have all_bytes : ∀ b ∈ all, escapedChars b =
      if b = 0x20 then ['\x27', ' ', '\x27'] else (asciiEscape b).mapIdx capitalizeDigit := by
    decide +kernel
  exact all_bytes b (mem_all b)

end ByteDFA.Byte
