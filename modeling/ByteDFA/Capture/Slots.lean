import ByteDFA.Capture.SlotSet

/-!
# Recorded offsets

While a search runs, each slot holds the offset recorded last, if any. `Slots.record` writes the
cursor into all slots of a set at once and leaves the others alone (`getElem?_record`).
-/

set_option autoImplicit false

namespace ByteDFA

/-- The largest 64-bit number, which marks an unset slot in packed form. -/
def Offset.limit : Nat := 0xFFFFFFFFFFFFFFFF

/-- An offset that a slot can hold: any 64-bit number but the largest. -/
structure Offset where
  toNat : Nat
  toNat_lt : toNat < Offset.limit
  deriving DecidableEq

namespace Offset

/-- The offset `n`, unless it is too large for a slot. -/
def ofNat? (n : Nat) : Option Offset :=
  if h : n < limit then some ⟨n, h⟩ else none

/-- The text of an offset as a value. -/
def debug (offset : Offset) : String := toString offset.toNat

theorem toNat_of_ofNat? {n : Nat} {offset : Offset} (h : ofNat? n = some offset) :
    offset.toNat = n := by
  simp only [ofNat?] at h
  split at h
  · cases h; rfl
  · cases h

theorem map_toNat_ofNat? {n : Nat} (h : n < limit) : (ofNat? n).map toNat = some n := by
  rw [ofNat?, dif_pos h]
  rfl

end Offset

/-- One optional offset per slot. -/
abbrev Slots := Array (Option Offset)

namespace Slots

/-- The given number of slots, none of them set. -/
def blank (count : Nat) : Slots := Array.replicate count none

/-- The slots, all of them unset. -/
def clear (slots : Slots) : Slots := slots.map fun _ => none

/-- The slots with the cursor recorded into those of a set, from the least one on. Members of the
set for which there is no slot are ignored. -/
def record (slots : Slots) (set : SlotSet) (cursor : Nat) : Slots :=
  if _more : set.isEmpty then slots
  else record (slots.setIfInBounds set.lowest (Offset.ofNat? cursor)) set.withoutLowest cursor
termination_by set.bits.toNat
decreasing_by exact BitSet.toNat_withoutLowest_lt (Bool.eq_false_iff.2 _more)

@[simp] theorem clear_eq_blank (slots : Slots) : slots.clear = blank slots.size :=
  Array.map_const'

@[simp] theorem size_blank (count : Nat) : (blank count).size = count := by
  simp [blank]

@[simp] theorem size_record (slots : Slots) (set : SlotSet) (cursor : Nat) :
    (slots.record set cursor).size = slots.size := by
  fun_induction record slots set cursor with
  | case1 => rfl
  | case2 slots set more ih => rw [ih, Array.size_setIfInBounds]

theorem getElem?_record (slots : Slots) (set : SlotSet) (cursor slot : Nat) :
    (slots.record set cursor)[slot]? =
      (slots[slot]?).map fun old => if set.contains slot then Offset.ofNat? cursor else old := by
  fun_induction record slots set cursor with
  | case1 slots set none_left => simp [BitSet.contains_of_isEmpty none_left]
  | case2 slots set more ih =>
    have more := Bool.eq_false_iff.2 more
    rw [ih, BitSet.contains_withoutLowest more, Array.getElem?_setIfInBounds]
    by_cases here : slot = set.lowest
    · subst here
      by_cases inside : set.lowest < slots.size <;> simp [BitSet.contains_lowest more, inside]
    · simp [here, Ne.symm here]

end Slots
end ByteDFA
