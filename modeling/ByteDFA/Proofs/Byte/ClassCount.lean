import Mathlib.Data.Finset.Card
import Mathlib.Data.List.Dedup
import ByteDFA.Byte.Classes

/-!
# How many classes there are

The length of the alphabet is read off the last byte, and so is whether every byte has a class of
its own. Both say what they are meant to say for classes that have no gap (`Gapless`): every class
up to that of the last byte has a byte in it. If there is a gap, the length of the alphabet counts
classes without bytes (`alphabetLen_eq_card_iff`). Then there may be 256 classes to all appearances
although two bytes share one, as in `merged`.
-/

set_option autoImplicit false

namespace ByteDFA

/-! ## Finite sets of bytes -/

namespace Byte

/-- Every byte. -/
def allSet : Finset UInt8 := all.toFinset

theorem mem_allSet (b : UInt8) : b ∈ allSet := List.mem_toFinset.2 (mem_all b)

theorem nodup_of_pairwise {bytes : List UInt8} (ascending : bytes.Pairwise (· < ·)) :
    bytes.Nodup :=
  ascending.imp fun lt => UInt8.ne_of_lt lt

theorem card_allSet : allSet.card = 256 := by
  rw [allSet, List.toFinset_card_of_nodup (nodup_of_pairwise pairwise_all), length_all]

end Byte

namespace ByteClasses

variable {classes : ByteClasses} {b c : UInt8}

/-- The classes that have a byte in them. -/
def inUse (classes : ByteClasses) : Finset UInt8 := Byte.allSet.image classes.get

/-- The numbers below the length of the alphabet, as far as they are classes. -/
def alphabet (classes : ByteClasses) : Finset UInt8 := classes.toList.toFinset

/-- Every class up to that of the last byte has a byte in it. -/
def Gapless (classes : ByteClasses) : Prop :=
  ∀ c : UInt8, c.toNat < classes.alphabetLen → ∃ b, classes.get b = c

/-- Every class is below the length of the alphabet, so that a table of this length has an entry for
every byte. -/
def Below (classes : ByteClasses) : Prop :=
  ∀ b, (classes.get b).toNat < classes.alphabetLen

theorem mem_inUse : c ∈ classes.inUse ↔ ∃ b, classes.get b = c := by
  simp [inUse, Byte.mem_allSet]

theorem mem_toList : c ∈ classes.toList ↔ c.toNat < classes.alphabetLen := by
  unfold toList
  rw [List.mem_map]
  constructor
  · intro listed
    obtain ⟨n, mem, rfl⟩ := listed
    have small := List.mem_range.1 mem
    rwa [UInt8.toNat_ofNat_of_lt' (Nat.lt_of_lt_of_le small classes.alphabetLen_le)]
  · intro small
    exact ⟨c.toNat, List.mem_range.2 small, UInt8.ofNat_toNat⟩

theorem mem_alphabet : c ∈ classes.alphabet ↔ c.toNat < classes.alphabetLen := by
  rw [alphabet, List.mem_toFinset, mem_toList]

theorem pairwise_toList (classes : ByteClasses) : classes.toList.Pairwise (· < ·) :=
  Byte.pairwise_map_ofNat classes.alphabetLen_le

theorem card_alphabet (classes : ByteClasses) : classes.alphabet.card = classes.alphabetLen := by
  rw [alphabet, List.toFinset_card_of_nodup (Byte.nodup_of_pairwise classes.pairwise_toList),
    toList, List.length_map, List.length_range]

theorem inUse_subset_alphabet (below : classes.Below) : classes.inUse ⊆ classes.alphabet := by
  intro c used
  obtain ⟨b, rfl⟩ := mem_inUse.1 used
  exact mem_alphabet.2 (below b)

theorem gapless_iff_subset : classes.Gapless ↔ classes.alphabet ⊆ classes.inUse :=
  forall_congr' fun c => by rw [mem_alphabet, mem_inUse]

/-- There are no more classes with bytes than the alphabet is long. -/
theorem card_inUse_le (below : classes.Below) : classes.inUse.card ≤ classes.alphabetLen := by
  rw [← card_alphabet]
  exact Finset.card_le_card (inUse_subset_alphabet below)

/-- The length of the alphabet is the number of classes exactly if there is no gap. -/
theorem alphabetLen_eq_card_iff (below : classes.Below) :
    classes.alphabetLen = classes.inUse.card ↔ classes.Gapless := by
  rw [gapless_iff_subset, ← card_alphabet]
  constructor
  · intro same
    exact (Finset.eq_of_subset_of_card_le (inUse_subset_alphabet below) (Nat.le_of_eq same)).ge
  · intro covered
    rw [Finset.Subset.antisymm covered (inUse_subset_alphabet below)]

/-! ## Bytes with a class of their own -/

/-- No two bytes share a class exactly if there are as many classes as bytes. -/
theorem injective_iff_card : Function.Injective classes.get ↔ classes.inUse.card = 256 := by
  rw [← Byte.card_allSet, inUse, Finset.card_image_iff]
  constructor
  · intro injective
    exact injective.injOn
  · intro injective a b same
    exact injective (Byte.mem_allSet a) (Byte.mem_allSet b) same

theorem isSingletons_iff : classes.isSingletons = true ↔ classes.alphabetLen = 256 := beq_iff_eq

/-- No two bytes share a class exactly if the alphabet is said to be as long as it can be and has no
gap. -/
theorem injective_iff (below : classes.Below) :
    Function.Injective classes.get ↔ classes.isSingletons = true ∧ classes.Gapless := by
  rw [injective_iff_card, isSingletons_iff, ← alphabetLen_eq_card_iff below]
  have le := card_inUse_le below
  have bound := classes.alphabetLen_le
  omega

/-! ## Two bytes in one class -/

/-- The byte `a` in the class of `b`, and every other byte in a class of its own. -/
def merged : ByteClasses := singletons.set 0x61 0x62

theorem get_merged (other : b ≠ 0x61) : merged.get b = singletons.get b := by
  rw [merged, get_set, if_neg (Ne.symm other)]

theorem alphabetLen_merged : merged.alphabetLen = singletons.alphabetLen := by
  rw [alphabetLen, alphabetLen, get_merged (by decide)]

theorem merged_ne_singletons : singletons ≠ merged := by
  intro same
  have at_a : singletons.get 0x61 = merged.get 0x61 :=
    congrArg (fun classes => classes.get 0x61) same
  rw [merged, get_set, if_pos rfl, singletons, get_ofFn] at at_a
  exact absurd at_a (by decide)

theorem isSingletons_singletons : singletons.isSingletons = true := by
  rw [isSingletons, alphabetLen, singletons, get_ofFn]
  rfl

/-- Two bytes share a class, but the last byte has kept its own. -/
theorem isSingletons_merged : merged.isSingletons = true := by
  rw [isSingletons, alphabetLen_merged]
  exact isSingletons_singletons

theorem lt_alphabetLen_of_isSingletons {classes : ByteClasses}
    (single : classes.isSingletons = true) (b : UInt8) :
    (classes.get b).toNat < classes.alphabetLen := by
  rw [beq_iff_eq.1 single]
  exact (classes.get b).toNat_lt

end ByteClasses
end ByteDFA
