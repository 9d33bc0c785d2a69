import ByteDFA.BitSet
import ByteDFA.Text.Value

/-!
# Sets of capture slots

Group `g` of an automaton has two slots: `2 * g` for the offset where it starts and `2 * g + 1` for
the one where it ends. A state names the slots it records as a `SlotSet`. There are
`SlotSet.limit` slots, so at most half as many groups.
-/

set_option autoImplicit false

namespace ByteDFA

/-- A set of capture slots. -/
abbrev SlotSet := BitSet 64

/-- A slot that no set can hold. -/
structure SlotError where
  slot : Nat
  deriving DecidableEq

namespace SlotSet

/-- The number of slots. -/
def limit : Nat := 64

/-- The number of groups whose slots can be told apart. -/
def groupLimit : Nat := limit / 2

/-- The set with one more slot. -/
def insert? (set : SlotSet) (slot : Nat) : Except SlotError SlotSet :=
  if slot < limit then .ok (set.insert slot) else .error ⟨slot⟩

/-- The set of the given slots, which are looked at in order. -/
def ofList? (slots : List Nat) : Except SlotError SlotSet :=
  slots.foldlM insert? ∅

/-- The set with a single slot. -/
def one? (slot : Nat) : Except SlotError SlotSet := insert? ∅ slot

/-- The set with the slot for the start of a group. -/
def groupStart? (group : Nat) : Except SlotError SlotSet := one? (group * 2)

/-- The set with the slot for the end of a group. -/
def groupEnd? (group : Nat) : Except SlotError SlotSet := one? (group * 2 + 1)

/-- The text of the set as a value. -/
def debug (set : SlotSet) : String := ValueText.set (set.toList.map fun slot => toString slot)

theorem insert?_eq_ok_iff {start set : SlotSet} {slot : Nat} :
    start.insert? slot = .ok set ↔ slot < limit ∧ start.insert slot = set := by
  unfold insert?
  split
  · rename_i small
    exact (Except.ok.injEq ..).to_iff.trans (and_iff_right small).symm
  · rename_i large
    constructor
    · intro ok
      cases ok
    · rintro ⟨small, -⟩
      exact absurd small large

end SlotSet

/-- The sentence that reports the slot. -/
def SlotError.message (error : SlotError) : String :=
  s!"slot {error.slot} exceeds limit of {SlotSet.limit}"

end ByteDFA
