import ByteDFA.Capture.Slots
import ByteDFA.Proofs.BitSet

/-!
# Sets of slots as finite sets

A recipe puts a set of slots together by inserting slots and uniting sets, and the same recipe can
be read as one for a finite set of numbers. Inserting fails only for a slot that no set can hold, so
every recipe without such a slot makes a set (`Recipe.exists_make?_eq_ok`), and this set has the
members of the finite set (`Recipe.represents_of_make?`). Hence all that can be asked of it is
answered as for the finite set, and recording an offset reaches the slots that are members and no
others (`made_members`).
-/

set_option autoImplicit false

namespace ByteDFA

open Cursor

namespace SlotSet

theorem bind_eq_ok_iff {α β : Type} {action : Except SlotError α} {rest : α → Except SlotError β}
    {result : β} : action >>= rest = .ok result ↔ ∃ x, action = .ok x ∧ rest x = .ok result := by
  cases action with
  | error error =>
    constructor
    · intro ok
      cases ok
    · rintro ⟨x, ⟨⟩, -⟩
  | ok x =>
    constructor
    · intro ok
      exact ⟨x, rfl, ok⟩
    · rintro ⟨x', ⟨⟩, ok⟩
      exact ok

/-- How a set of slots is put together from empty sets. -/
inductive Recipe where
  | empty
  | insert (recipe : Recipe) (slot : Nat)
  | union (a b : Recipe)

namespace Recipe

/-- The set of slots, unless a slot is to be inserted that no set can hold. -/
def make? : Recipe → Except SlotError SlotSet
  | empty => .ok ∅
  | insert recipe slot => do (← recipe.make?).insert? slot
  | union a b => return (← a.make?) ∪ (← b.make?)

/-- The finite set of numbers. -/
def members : Recipe → Finset Nat
  | empty => ∅
  | insert recipe slot => Insert.insert slot recipe.members
  | union a b => a.members ∪ b.members

variable {recipe : Recipe} {set : SlotSet}

theorem represents_of_make? (made : recipe.make? = .ok set) : set.Represents recipe.members := by
  induction recipe generalizing set with
  | empty =>
    cases made
    exact BitSet.represents_empty
  | insert recipe slot ih =>
    obtain ⟨start, before, inserted⟩ := bind_eq_ok_iff.1 made
    obtain ⟨small, rfl⟩ := insert?_eq_ok_iff.1 inserted
    exact (ih before).insert small
  | union a b iha ihb =>
    obtain ⟨set₁, left, rest⟩ := bind_eq_ok_iff.1 made
    obtain ⟨set₂, right, united⟩ := bind_eq_ok_iff.1 rest
    cases united
    exact (iha left).union (ihb right)

theorem exists_make?_eq_ok (small : ∀ slot ∈ recipe.members, slot < limit) :
    ∃ set, recipe.make? = .ok set := by
  induction recipe with
  | empty => exact ⟨∅, rfl⟩
  | insert recipe slot ih =>
    obtain ⟨start, before⟩ := ih fun i mem => small i (Finset.mem_insert_of_mem mem)
    have slot_small : slot < limit := small slot (Finset.mem_insert_self slot _)
    exact ⟨start.insert slot,
      bind_eq_ok_iff.2 ⟨start, before, insert?_eq_ok_iff.2 ⟨slot_small, rfl⟩⟩⟩
  | union a b iha ihb =>
    obtain ⟨set₁, left⟩ := iha fun i mem => small i (Finset.mem_union_left _ mem)
    obtain ⟨set₂, right⟩ := ihb fun i mem => small i (Finset.mem_union_right _ mem)
    exact ⟨set₁ ∪ set₂, bind_eq_ok_iff.2 ⟨set₁, left, bind_eq_ok_iff.2 ⟨set₂, right, rfl⟩⟩⟩

end Recipe
end SlotSet

namespace Slots

variable {slots : Slots} {set : SlotSet} {members : Finset Nat} {cursor k : Nat}

theorem getElem?_record_of_mem (has : set.Represents members) (mem : k ∈ members)
    (inside : k < slots.size) : (slots.record set cursor)[k]? = some (Offset.ofNat? cursor) := by
  rw [getElem?_record, (has k).2 mem, Array.getElem?_eq_getElem inside]
  rfl

theorem getElem?_record_of_not_mem (has : set.Represents members) (other : k ∉ members) :
    (slots.record set cursor)[k]? = slots[k]? := by
  rw [getElem?_record, Bool.eq_false_iff.2 fun mem => other ((has k).1 mem)]
  exact Option.map_id_apply

end Slots

/-- The largest 64-bit number cannot be told from an unset slot. -/
theorem Offset.map_toNat_ofNat?_eq {n : Nat} (le : n ≤ limit) :
    (ofNat? n).map toNat = if n = limit then none else some n := by
  split
  · rename_i largest
    rw [largest, ofNat?, dif_neg (Nat.lt_irrefl limit)]
    rfl
  · rename_i other
    exact map_toNat_ofNat? (Nat.lt_of_le_of_ne le other)

namespace SlotSet

/-- A set of slots below the limit is a finite set: it contains its members, lists them in ascending
order and nothing afterwards, counts them, knows the largest one, and is equal to another set if and
only if the members are the same. Recording an offset writes it to the slots that are members, or
unsets them if it is too large for a slot, and keeps all others. -/
theorem made_members (recipe : Recipe) (small : ∀ slot ∈ recipe.members, slot < limit) :
    ∃ set, recipe.make? = .ok set ∧
      (∀ n, set.contains n = true ↔ n ∈ recipe.members) ∧
      Lists BitSet.next set recipe.members.sort ∧
      set.size = recipe.members.card ∧
      (∀ m, set.max? = some m ↔ IsGreatest (recipe.members : Set Nat) m) ∧
      (set.max? = none ↔ recipe.members = ∅) ∧
      (∀ (other : Recipe) set', other.make? = .ok set' →
        (set = set' ↔ recipe.members = other.members)) ∧
      ∀ (slots : Slots) (cursor : Nat), cursor ≤ Offset.limit →
        (slots.record set cursor).size = slots.size ∧
        (∀ k ∈ recipe.members, k < slots.size →
          ((slots.record set cursor)[k]?).map (Option.map Offset.toNat) =
            some (if cursor = Offset.limit then none else some cursor)) ∧
        ∀ k ∉ recipe.members, (slots.record set cursor)[k]? = slots[k]? := by
  obtain ⟨set, made⟩ := Recipe.exists_make?_eq_ok small
  have has := Recipe.represents_of_make? made
  refine ⟨set, made, has, ?_, has.size_eq, fun m => has.max?_eq_some_iff, has.max?_eq_none_iff,
    fun other set' made' => has.eq_iff (Recipe.represents_of_make? made'),
    fun slots cursor le => ⟨slots.size_record set cursor, fun k mem inside => ?_,
      fun k other => Slots.getElem?_record_of_not_mem has other⟩⟩
  · rw [← has.toList_eq]
    exact set.lists_next
  · rw [Slots.getElem?_record_of_mem has mem inside, Option.map_some,
      Offset.map_toNat_ofNat?_eq le]

/-- The highest slot that there is can be a member like any other. A buffer of two slots has no
place for it, and the largest number leaves the other member unset. -/
theorem made_members_highest :
    ∃ set, (Recipe.union (.insert (.insert .empty 63) 1) (.insert .empty 1)).make? = .ok set ∧
      Lists BitSet.next set [1, 63] ∧ set.size = 2 ∧ set.max? = some 63 ∧
      ((Slots.blank 2).record set 7)[1]?.map (Option.map Offset.toNat) = some (some 7) ∧
      ((Slots.blank 2).record set Offset.limit)[1]?.map (Option.map Offset.toNat) = some none ∧
      ((Slots.blank 2).record set 7)[63]? = none := by
  have slots : (Recipe.union (.insert (.insert .empty 63) 1) (.insert .empty 1)).members =
      {1, 63} := by decide
  obtain ⟨set, made, -, lists, size, greatest, -, -, records⟩ := made_members
    (.union (.insert (.insert .empty 63) 1) (.insert .empty 1)) (by rw [slots]; decide)
  rw [slots] at lists size greatest records
  have above : ∀ slot ∈ ({63} : Finset Nat), 1 ≤ slot := by decide
  have sorted : ({1, 63} : Finset Nat).sort = [1, 63] := by
    rw [Finset.sort_insert (· ≤ ·) above (by decide), Finset.sort_singleton]
  have below : ∀ slot ∈ ({1, 63} : Finset Nat), slot ≤ 63 := by decide
  obtain ⟨length, at_seven, -⟩ := records (.blank 2) 7 (by decide)
  obtain ⟨-, at_limit, -⟩ := records (.blank 2) Offset.limit (Nat.le_refl _)
  exact ⟨set, made, sorted ▸ lists, size, (greatest 63).2 ⟨by decide, below⟩,
    at_seven 1 (by decide) (by decide), at_limit 1 (by decide) (by decide),
    Array.getElem?_eq_none (by rw [length]; decide)⟩

end SlotSet
end ByteDFA
