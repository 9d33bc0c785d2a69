import ByteDFA.BitSet
import ByteDFA.Byte.Basic

/-!
# Sets of bytes

A `ByteSet` is viewed through `contains`; `toList` lists its bytes in ascending order, each once.
The set is stored in two words, one for each half of the bytes, and a byte has a bit in the word of
its half. A cursor over the set looks at one byte after the other and passes over those that are not
in the set.
-/

set_option autoImplicit false

namespace ByteDFA

/-- A set of bytes. -/
structure ByteSet where
  words : Vector (BitSet 128) 2
  deriving DecidableEq

namespace ByteSet

/-- The number of the word in which a byte has its bit. -/
def bucket (b : UInt8) : Fin 2 := ⟨b.toNat / 128, Nat.div_lt_of_lt_mul b.toNat_lt⟩

/-- The place of the bit in its word. -/
def bit (b : UInt8) : Nat := b.toNat % 128

/-- The set without bytes. -/
def empty : ByteSet := ⟨#v[∅, ∅]⟩

instance : EmptyCollection ByteSet := ⟨empty⟩

/-- Whether a byte is in the set. -/
def contains (set : ByteSet) (b : UInt8) : Bool := set.words[bucket b].contains (bit b)

/-- The set with one more byte. -/
def add (set : ByteSet) (b : UInt8) : ByteSet :=
  ⟨set.words.set (bucket b) (set.words[bucket b].insert (bit b))⟩

/-- The bytes of the set, in ascending order. -/
def toList (set : ByteSet) : List UInt8 := Byte.all.filter set.contains

/-- The number of bytes in the set. -/
def size (set : ByteSet) : Nat := set.words[0].size + set.words[1].size

/-- Whether the set has no byte. -/
def isEmpty (set : ByteSet) : Bool := set.words == #v[∅, ∅]

theorem bit_lt (b : UInt8) : bit b < 128 := Nat.mod_lt _ (by decide)

/-- The bytes are told apart by their places in the two words. -/
theorem eq_iff {b c : UInt8} : b = c ↔ bucket b = bucket c ∧ bit b = bit c := by
  rw [← UInt8.toNat_inj, ← Fin.val_inj, bucket, bucket, bit, bit]
  dsimp only
  omega

@[simp] theorem contains_empty (b : UInt8) : (∅ : ByteSet).contains b = false := by
  have empty_word : ∀ i : Fin 2, (∅ : ByteSet).words[i] = ∅ := by decide
  rw [contains, empty_word, BitSet.contains_empty]

@[simp] theorem contains_add (set : ByteSet) (b c : UInt8) :
    (set.add b).contains c = (set.contains c || decide (b = c)) := by
  rw [contains, add, Fin.getElem_fin, Vector.getElem_set]
  by_cases same : bucket b = bucket c
  · rw [if_pos (congrArg Fin.val same), BitSet.contains_insert]
    simp [contains, eq_iff, same, bit_lt]
  · rw [if_neg fun eq => same (Fin.ext eq)]
    simp [contains, eq_iff, same]

@[simp] theorem mem_toList {set : ByteSet} {b : UInt8} :
    b ∈ set.toList ↔ set.contains b = true := by
  simp [toList, Byte.mem_all]

end ByteSet

/-- The bytes of a set from a position on. -/
structure ByteCursor where
  set : ByteSet
  position : Nat
  deriving DecidableEq

namespace ByteCursor

/-- The cursor with the byte at its position passed over. -/
def pass (cursor : ByteCursor) : ByteCursor := { cursor with position := cursor.position + 1 }

/-- The next byte of the set, if there is one, and the cursor behind it. -/
def next (cursor : ByteCursor) : Option UInt8 × ByteCursor :=
  if cursor.position ≤ 255 then
    let b := UInt8.ofNat cursor.position
    if cursor.set.contains b then (some b, cursor.pass) else cursor.pass.next
  else (none, cursor)
termination_by 256 - cursor.position
decreasing_by
  show 256 - (cursor.position + 1) < 256 - cursor.position
  omega

/-- A byte is given only if the cursor goes on behind it. -/
theorem position_lt_of_next {cursor rest : ByteCursor} {b : UInt8}
    (given : cursor.next = (some b, rest)) :
    cursor.position < rest.position ∧ rest.position ≤ 256 := by
  fun_induction next cursor with
  | case1 cursor more b here =>
    obtain ⟨-, rfl⟩ := Prod.mk.inj given
    exact ⟨Nat.lt_succ_self _, Nat.succ_le_succ more⟩
  | case2 cursor more b elsewhere ih =>
    obtain ⟨lt, le⟩ := ih given
    exact ⟨Nat.lt_of_succ_lt lt, le⟩
  | case3 cursor finished => cases given

end ByteCursor

/-- The cursor at the first byte of a set. -/
def ByteSet.cursor (set : ByteSet) : ByteCursor := ⟨set, 0⟩

end ByteDFA
