import Mathlib.Data.Finset.Sort
import ByteDFA.BitSet
import ByteDFA.Cursor

/-!
# What a packed set tells about its members

`set.Represents members` says that a packed set has the given members. All that can be asked of the
set then follows from the members alone: the order in which it lists them, as a cursor or at once
(`lists_next`, `Represents.toList_eq`), their number (`Represents.size_eq`), the largest of them
(`Represents.max?_eq_some_iff`), and which other sets it is equal to (`Represents.eq_iff`).
-/

set_option autoImplicit false

namespace ByteDFA.BitSet

open Cursor

variable {width : Nat} {a b set : BitSet width} {members others : Finset Nat} {n : Nat}

/-- The set has the given members. -/
def Represents (set : BitSet width) (members : Finset Nat) : Prop :=
  ∀ n, set.contains n = true ↔ n ∈ members

theorem represents_empty : (∅ : BitSet width).Represents ∅ := by
  intro n
  rw [contains_empty]
  exact iff_of_false Bool.false_ne_true (Finset.notMem_empty n)

namespace Represents

theorem insert (has : set.Represents members) (small : n < width) :
    (set.insert n).Represents (Insert.insert n members) := by
  intro i
  rw [contains_insert, Bool.or_eq_true, has i, decide_eq_true small, Bool.true_and,
    decide_eq_true_iff, Finset.mem_insert, or_comm, eq_comm]

theorem union (has : a.Represents members) (has' : b.Represents others) :
    (a ∪ b).Represents (members ∪ others) := by
  intro i
  rw [contains_union, Bool.or_eq_true, has i, has' i, Finset.mem_union]

theorem eq_iff (has : a.Represents members) (has' : b.Represents others) :
    a = b ↔ members = others := by
  constructor
  · rintro rfl
    exact Finset.ext fun i => (has i).symm.trans (has' i)
  · rintro rfl
    exact ext fun i => Bool.eq_iff_iff.2 ((has i).trans (has' i).symm)

theorem toList_eq (has : set.Represents members) : set.toList = members.sort := by
  refine set.pairwise_toList.eq_of_mem_iff members.sortedLT_sort.pairwise fun i => ?_
  rw [mem_toList, has i, Finset.mem_sort]

end Represents

/-! ## The members one by one -/

theorem lists_next (set : BitSet width) : Lists next set set.toList := by
  fun_induction toList set with
  | case1 set none_left =>
    refine @lists_nil _ _ _ _ (fun left => left.isEmpty = true) (fun left finished => ?_) none_left
    rw [next, if_pos finished]
    exact ⟨rfl, finished⟩
  | case2 set more ih => exact Lists.cons (if_neg more) ih

/-! ## The number of members -/

theorem cpopNatRec_eq_countP (bits : BitVec width) (n : Nat) :
    bits.cpopNatRec n 0 = (List.range n).countP bits.getLsbD := by
  induction n with
  | zero => rfl
  | succ n ih =>
    rw [BitVec.cpopNatRec_succ, BitVec.cpopNatRec_eq, ih, List.range_succ, List.countP_append,
      List.countP_singleton, Nat.zero_add]
    cases bits.getLsbD n <;> rfl

theorem size_eq_countP (set : BitSet width) :
    set.size = (List.range width).countP set.contains := by
  rw [size, BitVec.toNat_cpop]
  exact cpopNatRec_eq_countP set.bits width

theorem toList_eq_filter (set : BitSet width) :
    set.toList = (List.range width).filter set.contains := by
  refine set.pairwise_toList.eq_of_mem_iff (List.pairwise_lt_range.filter _) fun i => ?_
  rw [mem_toList, List.mem_filter, List.mem_range]
  exact ⟨fun mem => ⟨lt_of_contains mem, mem⟩, And.right⟩

theorem Represents.size_eq (has : set.Represents members) : set.size = members.card := by
  rw [size_eq_countP, List.countP_eq_length_filter, ← toList_eq_filter, has.toList_eq,
    Finset.length_sort]

/-! ## The largest member -/

namespace Represents

theorem max?_eq_some_iff (has : set.Represents members) {m : Nat} :
    set.max? = some m ↔ IsGreatest (members : Set Nat) m := by
  have greatest {m : Nat} (largest : set.max? = some m) : IsGreatest (members : Set Nat) m :=
    ⟨(has m).1 (contains_of_max? largest), fun i mem => le_of_max? largest ((has i).2 mem)⟩
  refine ⟨greatest, fun above => ?_⟩
  cases largest : set.max? with
  | none =>
    have absent := max?_eq_none_iff.1 largest m
    exact absurd ((has m).2 above.1) (Bool.eq_false_iff.1 absent)
  | some m' => rw [(greatest largest).unique above]

theorem max?_eq_none_iff (has : set.Represents members) : set.max? = none ↔ members = ∅ := by
  rw [BitSet.max?_eq_none_iff, Finset.eq_empty_iff_forall_notMem]
  exact forall_congr' fun i => by rw [← has i, Bool.not_eq_true]

end Represents
end ByteDFA.BitSet
