import ByteDFA.Byte.Partition

/-!
# The classes of a partition

The classes of a partition count cuts, so they grow with the bytes and two bytes share a class
exactly if there is no cut from the one up to the other (`get_classes_eq_iff`). Which cuts there are
is told by the ranges (`contains_cuts_ofRanges`): a range that holds a single byte puts it into a
class of its own (`get_classes_eq_iff_of_mem`).
-/

set_option autoImplicit false

namespace ByteDFA.BytePartition

variable {partition : BytePartition} {ranges : List (UInt8 × UInt8)} {a b c first last : UInt8}

/-! ## Classes and cuts -/

theorem cutsBelow_le (partition : BytePartition) (b : UInt8) : partition.cutsBelow b ≤ b.toNat := by
  have length := List.countP_le_length (p := fun n => partition.cuts.contains (UInt8.ofNat n))
    (l := List.range b.toNat)
  rwa [List.length_range] at length

/-- There are no more cuts than bytes, so the class of a byte is not cut off to eight bits. -/
theorem toNat_get_classes (partition : BytePartition) (b : UInt8) :
    (partition.classes.get b).toNat = partition.cutsBelow b := by
  rw [classes, ByteClasses.get_ofFn]
  exact UInt8.toNat_ofNat_of_lt (Nat.lt_of_le_of_lt (partition.cutsBelow_le b) b.toNat_lt)

/-- From one byte up to another, the cuts in between are added. -/
theorem cutsBelow_eq_add (partition : BytePartition) (le : a.toNat ≤ b.toNat) :
    partition.cutsBelow b = partition.cutsBelow a +
      (List.range' a.toNat (b.toNat - a.toNat)).countP
        fun n => partition.cuts.contains (UInt8.ofNat n) := by
  have split : List.range b.toNat =
      List.range a.toNat ++ List.range' a.toNat (b.toNat - a.toNat) := by
    have joined := List.range'_append_1 (s := 0) (m := a.toNat) (n := b.toNat - a.toNat)
    rw [Nat.zero_add, Nat.add_sub_of_le le] at joined
    rw [List.range_eq_range', List.range_eq_range', joined]
  rw [cutsBelow, split, List.countP_append]
  rfl

/-- Two bytes share a class exactly if no new class begins after the lower one or a byte between
them. -/
theorem get_classes_eq_iff (le : a.toNat ≤ b.toNat) :
    partition.classes.get a = partition.classes.get b ↔
      ∀ c : UInt8, a.toNat ≤ c.toNat → c.toNat < b.toNat → partition.cuts.contains c = false := by
  rw [← UInt8.toNat_inj, toNat_get_classes, toNat_get_classes, partition.cutsBelow_eq_add le,
    Nat.left_eq_add, List.countP_eq_zero]
  constructor
  · intro without c from_a to_b
    have none_here := without c.toNat (List.mem_range'_1.2 (by omega))
    rw [UInt8.ofNat_toNat] at none_here
    exact Bool.eq_false_iff.2 none_here
  · intro without n mem
    obtain ⟨from_a, to_b⟩ := List.mem_range'_1.1 mem
    have small : n < 256 := by
      have := b.toNat_lt
      omega
    have to_nat : (UInt8.ofNat n).toNat = n := UInt8.toNat_ofNat_of_lt small
    exact Bool.eq_false_iff.1 (without (UInt8.ofNat n) (by omega) (by omega))

/-! ## Cuts and ranges -/

theorem contains_cuts_setRange :
    (partition.setRange first last).cuts.contains b = true ↔
      partition.cuts.contains b = true ∨ (first ≠ 0 ∧ b = first - 1) ∨ b = last := by
  unfold setRange
  rw [eq_comm (a := b) (b := first - 1), eq_comm (a := b) (b := last)]
  by_cases zero : first = 0
  · simp only [zero, if_true, ByteSet.contains_add, Bool.or_eq_true, decide_eq_true_iff, ne_eq,
      not_true, false_and, false_or]
  · simp only [zero, if_false, ByteSet.contains_add, Bool.or_eq_true, decide_eq_true_iff, ne_eq,
      not_false_iff, true_and, or_assoc]

/-- There is a cut below the first byte of every range, unless it is the first of all, and one after
its last byte, and there are no others. -/
theorem contains_cuts_ofRanges :
    (ofRanges ranges).cuts.contains b = true ↔
      ∃ range ∈ ranges, (range.1 ≠ 0 ∧ b = range.1 - 1) ∨ b = range.2 := by
  have from_any (partition : BytePartition) :
      (ranges.foldl (fun partition range => partition.setRange range.1 range.2)
          partition).cuts.contains b = true ↔
        partition.cuts.contains b = true ∨
          ∃ range ∈ ranges, (range.1 ≠ 0 ∧ b = range.1 - 1) ∨ b = range.2 := by
    induction ranges generalizing partition with
    | nil => simp
    | cons range rest ih => simp [ih, contains_cuts_setRange, or_assoc]
  have none_at_first : empty.cuts.contains b = false := ByteSet.contains_empty b
  rw [ofRanges, from_any, none_at_first]
  simp

/-- A byte that is a range of its own has a class of its own. -/
theorem get_classes_eq_iff_of_mem (alone : (b, b) ∈ ranges) :
    (ofRanges ranges).classes.get c = (ofRanges ranges).classes.get b ↔ c = b := by
  constructor
  · intro same
    rcases Nat.lt_trichotomy c.toNat b.toNat with below | here | above
    -- Below the byte there is a cut right before it, and above it the one that follows it.
    · have pos : (1 : UInt8) ≤ b := by
        rw [UInt8.le_iff_toNat_le]
        exact Nat.lt_of_le_of_lt (Nat.zero_le _) below
      have nonzero : b ≠ 0 := by
        intro zero
        subst zero
        exact absurd pos (by decide)
      have number : (b - 1).toNat = b.toNat - 1 := UInt8.toNat_sub_of_le b 1 pos
      have cut : (ofRanges ranges).cuts.contains (b - 1) = true :=
        contains_cuts_ofRanges.2 ⟨(b, b), alone, .inl ⟨nonzero, rfl⟩⟩
      have without := (get_classes_eq_iff (Nat.le_of_lt below)).1 same (b - 1) (by omega) (by omega)
      cases cut.symm.trans without
    · exact UInt8.toNat_inj.1 here
    · have cut : (ofRanges ranges).cuts.contains b = true :=
        contains_cuts_ofRanges.2 ⟨(b, b), alone, .inr rfl⟩
      have without := (get_classes_eq_iff (Nat.le_of_lt above)).1 same.symm b (Nat.le_refl _) above
      cases cut.symm.trans without
  · intro same
    rw [same]

end ByteDFA.BytePartition
