import ByteDFA.Proofs.Byte.ClassCount
import ByteDFA.Proofs.Byte.Partition

/-!
# The coarsest classes for some ranges

Classes are cut by a list of ranges (`CutBy`) if they are numbered from the lowest bytes up, one
after the other, and a new one begins exactly where one of two neighbours is in a range and the
other one is not. This leaves no choice: the list decides the classes, and neither its order nor
repetitions matter (`CutBy.unique`). Among all ways to put the bytes into consecutive stretches that
reach across no end of a range, it is the coarsest one (`CutBy.eq_of_respects`).

A partition made from ranges computes such classes (`cutBy_classes_ofRanges`). It only notes where
ranges end and counts the ends that it passes. There are at most 255 of them below the last byte, so
a counter of eight bits is enough (`counterAt?_eq`).
-/

set_option autoImplicit false

namespace ByteDFA

/-! ## From one byte to the next -/

namespace Byte

variable {a b m : UInt8}

theorem toNat_succ (lt : b < 255) : (b + 1).toNat = b.toNat + 1 := by
  have small : b.toNat < 255 := UInt8.lt_iff_toNat_lt.1 lt
  rw [UInt8.toNat_add]
  exact Nat.mod_eq_of_lt (Nat.succ_lt_succ small)

theorem le_succ (lt : b < 255) : b ≤ b + 1 := by
  rw [UInt8.le_iff_toNat_le, toNat_succ lt]
  exact Nat.le_succ _

/-- What is kept from each byte to the next holds from some byte on. -/
@[elab_as_elim]
theorem le_induction {motive : (b : UInt8) → a ≤ b → Prop} (base : motive a (UInt8.le_refl a))
    (step : ∀ (b : UInt8) (from_a : a ≤ b) (lt : b < 255), motive b from_a →
      motive (b + 1) (UInt8.le_trans from_a (le_succ lt))) (b : UInt8) (le : a ≤ b) :
    motive b le := by
  suffices above : ∀ (n : Nat) (b : UInt8) (le : a ≤ b), b.toNat = a.toNat + n → motive b le from
    above (b.toNat - a.toNat) b le (Nat.add_sub_of_le (UInt8.le_iff_toNat_le.1 le)).symm
  intro n
  induction n with
  | zero =>
    intro b le here
    cases UInt8.toNat_inj.1 here
    exact base
  | succ n ih =>
    intro b le here
    have small := b.toNat_lt
    have number : (UInt8.ofNat (a.toNat + n)).toNat = a.toNat + n :=
      UInt8.toNat_ofNat_of_lt' (show a.toNat + n < 256 by omega)
    have from_a : a ≤ UInt8.ofNat (a.toNat + n) := by
      rw [UInt8.le_iff_toNat_le, number]
      exact Nat.le_add_right _ _
    have before : UInt8.ofNat (a.toNat + n) < 255 := by
      rw [UInt8.lt_iff_toNat_lt, number]
      show a.toNat + n < 255
      omega
    have next : b = UInt8.ofNat (a.toNat + n) + 1 := by
      rw [← UInt8.toNat_inj, toNat_succ before, number, here, Nat.add_assoc]
    subst next
    exact step _ from_a before (ih _ from_a number)

/-- What is kept from each byte to the next gets from the lower one of two bytes to the other. -/
theorem between_induction {motive : UInt8 → Prop} (le : a ≤ b) (base : motive a)
    (step : ∀ m, a ≤ m → m < 255 → m + 1 ≤ b → motive m → motive (m + 1)) : motive b := by
  suffices along : ∀ m, a ≤ m → m ≤ b → motive m from along b le (UInt8.le_refl b)
  intro m from_a
  induction m, from_a using le_induction with
  | base => exact fun _ => base
  | step m from_a lt ih =>
    intro to_b
    exact step m from_a lt to_b (ih (UInt8.le_trans (le_succ lt) to_b))

/-- The bytes that share a key are consecutive. -/
def Consecutive {κ : Type} (key : UInt8 → κ) : Prop :=
  ∀ a m b, a ≤ m → m ≤ b → key a = key b → key m = key a

theorem Consecutive.eq_next {κ : Type} {key : UInt8 → κ} (consecutive : Consecutive key)
    (from_a : a ≤ m) (lt : m < 255) (to_b : m + 1 ≤ b) (same : key a = key b) :
    key m = key (m + 1) := by
  have here : key m = key a := consecutive a m b from_a (UInt8.le_trans (le_succ lt) to_b) same
  have next : key (m + 1) = key a :=
    consecutive a (m + 1) b (UInt8.le_trans from_a (le_succ lt)) to_b same
  exact here.trans next.symm

/-- The byte lies in a range, to which its two ends belong. -/
def InRange (range : UInt8 × UInt8) (b : UInt8) : Prop := range.1 ≤ b ∧ b ≤ range.2

end Byte

/-! ## Classes that are cut by ranges -/

namespace ByteClasses

open Byte

variable {classes other : ByteClasses} {ranges ranges' : List (UInt8 × UInt8)} {a b c m : UInt8}

/-- The classes are numbered from the lowest bytes up, one after the other. -/
structure Stepwise (classes : ByteClasses) : Prop where
  first : classes.get 0 = 0
  le_next : ∀ b < 255, (classes.get b).toNat ≤ (classes.get (b + 1)).toNat
  next_le : ∀ b < 255, (classes.get (b + 1)).toNat ≤ (classes.get b).toNat + 1

/-- The classes are numbered from the lowest bytes up, and a new one begins exactly where one of two
neighbours is in a range and the other one is not. -/
structure CutBy (classes : ByteClasses) (ranges : List (UInt8 × UInt8)) : Prop
    extends Stepwise classes where
  next_eq_iff : ∀ b < 255,
    classes.get b = classes.get (b + 1) ↔ ∀ range ∈ ranges, InRange range b ↔ InRange range (b + 1)

namespace Stepwise

theorem get_le (stepwise : classes.Stepwise) (le : a ≤ b) :
    (classes.get a).toNat ≤ (classes.get b).toNat := by
  induction b, le using le_induction with
  | base => exact Nat.le_refl _
  | step b _ lt ih => exact Nat.le_trans ih (stepwise.le_next b lt)

theorem consecutive (stepwise : classes.Stepwise) : Consecutive classes.get := by
  intro a m b le le' same
  refine UInt8.toNat_inj.1 (Nat.le_antisymm ?_ (stepwise.get_le le))
  rw [same]
  exact stepwise.get_le le'

theorem below (stepwise : classes.Stepwise) : classes.Below := fun b =>
  Nat.lt_succ_of_le (stepwise.get_le (UInt8.le_iff_toNat_le.2 (Nat.le_of_lt_succ b.toNat_lt)))

/-- No class is left out on the way up. -/
theorem gapless (stepwise : classes.Stepwise) : classes.Gapless := by
  suffices taken : ∀ b, ∀ c : UInt8, c.toNat ≤ (classes.get b).toNat → ∃ a, classes.get a = c from
    fun c small => taken 255 c (Nat.le_of_lt_succ small)
  intro b
  have from_zero : 0 ≤ b := UInt8.zero_le
  induction b, from_zero using le_induction with
  | base =>
    intro c le
    rw [stepwise.first] at le
    exact ⟨0, stepwise.first.trans (UInt8.toNat_inj.1 (Nat.le_zero.1 le)).symm⟩
  | step b _ lt ih =>
    intro c le
    rcases Nat.lt_or_ge (classes.get b).toNat c.toNat with above | before
    · have next := stepwise.next_le b lt
      exact ⟨b + 1, UInt8.toNat_inj.1 (by omega)⟩
    · exact ih c before

end Stepwise

namespace CutBy

/-- Bytes of one class lie in the same ranges. -/
theorem inRange_iff_of_le (cut : classes.CutBy ranges) (le : a ≤ b)
    (same : classes.get a = classes.get b) :
    ∀ range ∈ ranges, InRange range a ↔ InRange range b := by
  refine between_induction (motive := fun m => ∀ range ∈ ranges, InRange range a ↔ InRange range m)
    le (fun _ _ => Iff.rfl) ?_
  intro m from_a lt to_b ih range mem
  have next := cut.consecutive.eq_next from_a lt to_b same
  exact (ih range mem).trans ((cut.next_eq_iff m lt).1 next range mem)

theorem inRange_iff (cut : classes.CutBy ranges) (same : classes.get a = classes.get b) :
    ∀ range ∈ ranges, InRange range a ↔ InRange range b := by
  rcases UInt8.le_total a b with le | le
  · exact cut.inRange_iff_of_le le same
  · exact fun range mem => (cut.inRange_iff_of_le le same.symm range mem).symm

/-- If the bytes are put into consecutive stretches and no stretch reaches across an end of a range,
then every stretch is within a class. -/
theorem eq_of_respects {κ : Type} {key : UInt8 → κ} (cut : classes.CutBy ranges)
    (consecutive : Consecutive key)
    (respects : ∀ a b, key a = key b → ∀ range ∈ ranges, InRange range a ↔ InRange range b)
    (same : key a = key b) : classes.get a = classes.get b := by
  have from_below : ∀ a b, a ≤ b → key a = key b → classes.get a = classes.get b := by
    intro a b le same
    refine between_induction (motive := fun m => classes.get a = classes.get m) le rfl ?_
    intro m from_a lt to_b ih
    have next := consecutive.eq_next from_a lt to_b same
    exact ih.trans ((cut.next_eq_iff m lt).2 (respects m (m + 1) next))
  rcases UInt8.le_total a b with le | le
  · exact from_below a b le same
  · exact (from_below b a le same.symm).symm

/-- The members of a list of ranges decide which classes are cut by it. -/
theorem unique (cut : classes.CutBy ranges) (cut' : other.CutBy ranges')
    (members : ∀ range, range ∈ ranges ↔ range ∈ ranges') : classes = other := by
  refine ByteClasses.ext fun b => ?_
  have from_zero : 0 ≤ b := UInt8.zero_le
  induction b, from_zero using le_induction with
  | base => exact cut.first.trans cut'.first.symm
  | step b _ lt ih =>
    have together : classes.get b = classes.get (b + 1) ↔ other.get b = other.get (b + 1) := by
      rw [cut.next_eq_iff b lt, cut'.next_eq_iff b lt]
      simp only [members]
    -- Both go up by at most one, and they do it together.
    rw [← UInt8.toNat_inj, ← UInt8.toNat_inj] at together
    have le := cut.le_next b lt
    have next := cut.next_le b lt
    have le' := cut'.le_next b lt
    have next' := cut'.next_le b lt
    rw [ih] at le next together
    apply UInt8.toNat_inj.1
    omega

end CutBy
end ByteClasses

/-! ## What a partition computes -/

namespace BytePartition

open Byte

variable {partition : BytePartition} {ranges : List (UInt8 × UInt8)} {b : UInt8}

theorem cutsBelow_succ (partition : BytePartition) (lt : b < 255) :
    partition.cutsBelow (b + 1) =
      partition.cutsBelow b + if partition.cuts.contains b then 1 else 0 := by
  have le : b.toNat ≤ (b + 1).toNat := by
    rw [toNat_succ lt]
    exact Nat.le_succ _
  rw [partition.cutsBelow_eq_add le, toNat_succ lt, Nat.add_sub_cancel_left]
  simp [List.countP_cons, UInt8.ofNat_toNat]

/-- Whatever the cuts are, classes are numbered from the lowest bytes up, one after the other. -/
theorem stepwise_classes (partition : BytePartition) : partition.classes.Stepwise where
  first := by
    rw [← UInt8.toNat_inj, toNat_get_classes]
    rfl
  le_next b lt := by
    rw [toNat_get_classes, toNat_get_classes, cutsBelow_succ _ lt]
    exact Nat.le_add_right _ _
  next_le b lt := by
    rw [toNat_get_classes, toNat_get_classes, cutsBelow_succ _ lt]
    split <;> omega

/-- The last byte has the largest class. -/
theorem get_classes_lt_alphabetLen (partition : BytePartition) (b : UInt8) :
    (partition.classes.get b).toNat < partition.classes.alphabetLen :=
  partition.stepwise_classes.below b

/-- The class that a counter of eight bits has reached when it comes to the byte with the given
number, if it has not run over. The counter goes up by one after every cut. -/
def counterAt? (partition : BytePartition) : Nat → Option UInt8
  | 0 => some 0
  | n + 1 =>
    (partition.counterAt? n).bind fun c =>
      if partition.cuts.contains (UInt8.ofNat n) then
        if c = 255 then none else some (c + 1)
      else some c

/-- The counter never runs over, and the classes are what it counts. -/
theorem counterAt?_eq (partition : BytePartition) (b : UInt8) :
    partition.counterAt? b.toNat = some (partition.classes.get b) := by
  have from_zero : 0 ≤ b := UInt8.zero_le
  induction b, from_zero using le_induction with
  | base =>
    rw [partition.stepwise_classes.first]
    rfl
  | step b _ lt ih =>
    have small : (partition.classes.get b).toNat < 255 := by
      rw [toNat_get_classes]
      exact Nat.lt_of_le_of_lt (partition.cutsBelow_le b) (UInt8.lt_iff_toNat_lt.1 lt)
    have below : partition.classes.get b < 255 := UInt8.lt_iff_toNat_lt.2 small
    have number := partition.toNat_get_classes (b + 1)
    rw [cutsBelow_succ partition lt, ← toNat_get_classes] at number
    rw [toNat_succ lt, counterAt?, ih, Option.bind_some, UInt8.ofNat_toNat]
    cases cut : partition.cuts.contains b with
    | false =>
      rw [cut, if_neg Bool.false_ne_true, Nat.add_zero, UInt8.toNat_inj] at number
      rw [if_neg Bool.false_ne_true, number]
    | true =>
      rw [cut, if_pos rfl, ← toNat_succ below, UInt8.toNat_inj] at number
      rw [if_pos rfl, if_neg (UInt8.ne_of_lt below), number]

/-- A range has one of its ends between two neighbours exactly if it holds one of them and not the
other. -/
theorem ends_between_iff {range : UInt8 × UInt8} (ordered : range.1 ≤ range.2) (lt : b < 255) :
    (range.1 ≠ 0 ∧ b = range.1 - 1) ∨ b = range.2 ↔
      ¬(InRange range b ↔ InRange range (b + 1)) := by
  obtain ⟨first, last⟩ := range
  have next := toNat_succ lt
  have begins : (first ≠ 0 ∧ b = first - 1) ↔ b + 1 = first := by
    constructor
    · intro before
      rw [before.2, UInt8.sub_add_cancel]
    · intro here
      subst here
      refine ⟨fun zero => ?_, (UInt8.add_sub_cancel b 1).symm⟩
      rw [zero] at next
      exact absurd next (Nat.zero_ne_add_one _)
  show (first ≠ 0 ∧ b = first - 1) ∨ b = last ↔ _
  rw [begins]
  simp only [InRange, ← UInt8.toNat_inj, UInt8.le_iff_toNat_le, next] at ordered ⊢
  omega

/-- There is a cut between two neighbours exactly if a range holds one of them and not the other. -/
theorem contains_cuts_ofRanges_iff (ordered : ∀ range ∈ ranges, range.1 ≤ range.2) (lt : b < 255) :
    (ofRanges ranges).cuts.contains b = true ↔
      ∃ range ∈ ranges, ¬(InRange range b ↔ InRange range (b + 1)) := by
  rw [contains_cuts_ofRanges]
  exact exists_congr fun range => and_congr_right fun mem => ends_between_iff (ordered range mem) lt

theorem cutBy_classes_ofRanges (ordered : ∀ range ∈ ranges, range.1 ≤ range.2) :
    (ofRanges ranges).classes.CutBy ranges where
  toStepwise := stepwise_classes _
  next_eq_iff b lt := by
    have cut := contains_cuts_ofRanges_iff ordered lt
    rw [← UInt8.toNat_inj, toNat_get_classes, toNat_get_classes, cutsBelow_succ _ lt]
    cases here : (ofRanges ranges).cuts.contains b with
    | false => simpa [here] using cut
    | true => simpa [here] using cut

/-- A partition made from ranges computes the coarsest consecutive classes that respect them, and it
does so within the eight bits of its counter. What it computes depends on the members of the list
alone, and the length of its alphabet is the number of its classes. -/
theorem classes_ofRanges (ordered : ∀ range ∈ ranges, range.1 ≤ range.2) :
    (ofRanges ranges).classes.CutBy ranges ∧
      (∀ a b, (ofRanges ranges).classes.get a = (ofRanges ranges).classes.get b →
        ∀ range ∈ ranges, InRange range a ↔ InRange range b) ∧
      (∀ (κ : Type) (key : UInt8 → κ), Consecutive key →
        (∀ a b, key a = key b → ∀ range ∈ ranges, InRange range a ↔ InRange range b) →
        ∀ a b, key a = key b →
          (ofRanges ranges).classes.get a = (ofRanges ranges).classes.get b) ∧
      (∀ ranges', (∀ range, range ∈ ranges' ↔ range ∈ ranges) →
        (ofRanges ranges').classes = (ofRanges ranges).classes) ∧
      (ofRanges ranges).classes.alphabetLen = (ofRanges ranges).classes.inUse.card ∧
      (∀ b, ((ofRanges ranges).classes.get b).toNat < (ofRanges ranges).classes.alphabetLen) ∧
      ∀ b : UInt8,
        (ofRanges ranges).counterAt? b.toNat = some ((ofRanges ranges).classes.get b) := by
  have cut := cutBy_classes_ofRanges ordered
  refine ⟨cut, fun a b => cut.inRange_iff, ?_, ?_, ?_, cut.below, counterAt?_eq _⟩
  · intro κ key consecutive respects a b
    exact cut.eq_of_respects consecutive respects
  · intro ranges' members
    have ordered' : ∀ range ∈ ranges', range.1 ≤ range.2 :=
      fun range mem => ordered range ((members range).1 mem)
    exact (cutBy_classes_ofRanges ordered').unique cut members
  · exact (ByteClasses.alphabetLen_eq_card_iff cut.below).2 cut.gapless

/-- Digits, letters and the letters from `e` to `i` among them make seven classes, in whatever order
and however often the ranges are given. -/
theorem classes_ofRanges_overlapping :
    (ofRanges [(0x30, 0x39), (0x61, 0x7A), (0x65, 0x69), (0x30, 0x39)]).classes =
        (ofRanges [(0x65, 0x69), (0x61, 0x7A), (0x30, 0x39)]).classes ∧
      (ofRanges [(0x65, 0x69), (0x61, 0x7A), (0x30, 0x39)]).classes.inUse.card = 7 := by
  have ordered : ∀ range ∈ [((0x65 : UInt8), (0x69 : UInt8)), (0x61, 0x7A), (0x30, 0x39)],
      range.1 ≤ range.2 := by simp
  obtain ⟨-, -, -, same, length, -⟩ := classes_ofRanges ordered
  constructor
  · refine same _ fun range => ?_
    simp only [List.mem_cons, List.not_mem_nil, or_false]
    grind
  · rw [← length, ByteClasses.alphabetLen, toNat_get_classes]
    decide +kernel

end BytePartition
end ByteDFA
