/-!
# Sets of small numbers

A `BitSet width` is a set of numbers below `width`, packed into a bit vector. Its view is
`contains`: two sets with the same members are equal (`ext`), and every operation is described by
what it does to membership.

Members are found from the least one on: taking one away from the packed number clears its lowest
bit and sets only bits below it, so what is common to the two numbers are the other members
(`contains_withoutLowest`). In this way `toList` writes the members in ascending order, and a set
serves as a cursor over its own members (`next`).
-/

set_option autoImplicit false

namespace ByteDFA

/-- A finite set of numbers below `width`. -/
structure BitSet (width : Nat) where
  bits : BitVec width
  deriving DecidableEq

namespace BitSet

variable {width : Nat}

/-- The set without members. -/
def empty : BitSet width := ⟨0⟩

instance : EmptyCollection (BitSet width) := ⟨empty⟩

/-- Whether a number is a member; no number from `width` on is one. -/
def contains (set : BitSet width) (i : Nat) : Bool := set.bits.getLsbD i

/-- The set with one more member. A number from `width` on is not added. -/
def insert (set : BitSet width) (i : Nat) : BitSet width :=
  ⟨set.bits ||| BitVec.twoPow width i⟩

/-- The members of either set. -/
def union (a b : BitSet width) : BitSet width := ⟨a.bits ||| b.bits⟩

instance : Union (BitSet width) := ⟨union⟩

/-- Whether there is no member. -/
def isEmpty (set : BitSet width) : Bool := set.bits == 0

/-- The number of members. -/
def size (set : BitSet width) : Nat := set.bits.cpop.toNat

/-- The largest member. -/
def max? (set : BitSet width) : Option Nat :=
  if set.isEmpty then none else some (width - 1 - set.bits.clz.toNat)

/-- The least member of a set that has one. -/
def lowest (set : BitSet width) : Nat := set.bits.ctz.toNat

/-- The set without its least member. -/
def withoutLowest (set : BitSet width) : BitSet width := ⟨set.bits &&& (set.bits - 1)⟩

/-- The next member of what is left of a set, if there is one, and what is left behind it. -/
def next (left : BitSet width) : Option Nat × BitSet width :=
  if left.isEmpty then (none, left) else (some left.lowest, left.withoutLowest)

/-! ## Membership -/

@[simp] theorem contains_empty (i : Nat) : (∅ : BitSet width).contains i = false :=
  BitVec.getLsbD_zero

@[simp] theorem contains_insert (set : BitSet width) (i j : Nat) :
    (set.insert i).contains j = (set.contains j || (decide (i < width) && decide (i = j))) := by
  simp [contains, insert, BitVec.getLsbD_twoPow]

@[simp] theorem contains_union (a b : BitSet width) (i : Nat) :
    (a ∪ b).contains i = (a.contains i || b.contains i) :=
  BitVec.getLsbD_or

theorem lt_of_contains {set : BitSet width} {i : Nat} (h : set.contains i = true) : i < width :=
  BitVec.lt_of_getLsbD h

theorem ext {a b : BitSet width} (h : ∀ i, a.contains i = b.contains i) : a = b := by
  cases a; cases b
  exact congrArg mk (BitVec.eq_of_getLsbD_eq fun i _ => h i)

theorem isEmpty_iff {set : BitSet width} : set.isEmpty = true ↔ set = ∅ := by
  cases set
  simp [isEmpty, EmptyCollection.emptyCollection, empty]

theorem contains_of_isEmpty {set : BitSet width} (none_left : set.isEmpty = true) (i : Nat) :
    set.contains i = false := by
  rw [isEmpty_iff.1 none_left]
  exact contains_empty i

theorem bits_ne_zero {set : BitSet width} (more : set.isEmpty = false) : set.bits ≠ 0 := by
  simpa [isEmpty] using more

/-! ## The least member -/

theorem contains_lowest {set : BitSet width} (more : set.isEmpty = false) :
    set.contains set.lowest = true :=
  BitVec.getLsbD_true_ctz_of_ne_zero (bits_ne_zero more)

theorem contains_of_lt_lowest {set : BitSet width} {i : Nat} (lt : i < set.lowest) :
    set.contains i = false :=
  BitVec.getLsbD_false_of_lt_ctz lt

theorem toNat_sub_one {bits : BitVec width} (ne : bits ≠ 0) :
    (bits - 1).toNat = bits.toNat - 1 := by
  have pos : 0 < bits.toNat := Nat.pos_of_ne_zero fun zero => ne (BitVec.eq_of_toNat_eq zero)
  have one : (1 : BitVec width).toNat = 1 := Nat.mod_eq_of_lt (Nat.lt_of_le_of_lt pos bits.isLt)
  have le : 1 ≤ bits := BitVec.le_def.2 (one ▸ pos)
  rw [BitVec.toNat_sub_of_le le, one]

/-- The bits of a number that are also set in the number before are all but the lowest one. This is
an induction on the place of the lowest bit, which is that of an odd number in the end. -/
theorem testBit_and_sub_one {n k : Nat} (here : n.testBit k = true)
    (below : ∀ i < k, n.testBit i = false) (i : Nat) :
    (n &&& (n - 1)).testBit i = (n.testBit i && decide (i ≠ k)) := by
  rw [Nat.testBit_and]
  induction k generalizing n i with
  | zero =>
    have odd : n % 2 = 1 := by simpa using here
    cases i with
    | zero =>
      have even : (n - 1) % 2 = 0 := by omega
      simp [even]
    | succ i =>
      have half : (n - 1) / 2 = n / 2 := by omega
      simp [Nat.testBit_succ, half]
  | succ k ih =>
    have even : n % 2 = 0 := by simpa using below 0 (Nat.succ_pos k)
    cases i with
    | zero => simp [even]
    | succ i =>
      have half : (n - 1) / 2 = n / 2 - 1 := by omega
      rw [Nat.testBit_succ] at here
      have below_half : ∀ j < k, (n / 2).testBit j = false := fun j lt => by
        rw [← Nat.testBit_succ]
        exact below (j + 1) (Nat.succ_lt_succ lt)
      rw [Nat.testBit_succ, Nat.testBit_succ, half, ih here below_half i]
      simp

theorem contains_withoutLowest {set : BitSet width} (more : set.isEmpty = false) (i : Nat) :
    set.withoutLowest.contains i = (set.contains i && decide (i ≠ set.lowest)) := by
  have here : set.bits.toNat.testBit set.lowest = true := contains_lowest more
  have below : ∀ j < set.lowest, set.bits.toNat.testBit j = false := fun j lt =>
    contains_of_lt_lowest lt
  have cleared := testBit_and_sub_one here below i
  rwa [← toNat_sub_one (bits_ne_zero more), ← BitVec.toNat_and] at cleared

theorem toNat_withoutLowest_lt {set : BitSet width} (more : set.isEmpty = false) :
    set.withoutLowest.bits.toNat < set.bits.toNat := by
  have ne := bits_ne_zero more
  have pos : 0 < set.bits.toNat := Nat.pos_of_ne_zero fun zero => ne (BitVec.eq_of_toNat_eq zero)
  have le : set.withoutLowest.bits.toNat ≤ set.bits.toNat - 1 := by
    rw [withoutLowest, BitVec.toNat_and, toNat_sub_one ne]
    exact Nat.and_le_right
  exact Nat.lt_of_le_of_lt le (Nat.sub_one_lt_of_lt pos)

/-! ## All members -/

/-- The members, in ascending order. -/
def toList (set : BitSet width) : List Nat :=
  if _more : set.isEmpty then [] else set.lowest :: set.withoutLowest.toList
termination_by set.bits.toNat
decreasing_by exact toNat_withoutLowest_lt (Bool.eq_false_iff.2 _more)

@[simp] theorem mem_toList {set : BitSet width} {i : Nat} :
    i ∈ set.toList ↔ set.contains i = true := by
  fun_induction toList set with
  | case1 set none_left => simp [contains_of_isEmpty none_left]
  | case2 set more ih =>
    have more := Bool.eq_false_iff.2 more
    rw [List.mem_cons, ih, contains_withoutLowest more, Bool.and_eq_true, decide_eq_true_iff]
    constructor
    · rintro (rfl | ⟨mem, -⟩)
      · exact contains_lowest more
      · exact mem
    · intro mem
      by_cases here : i = set.lowest
      · exact .inl here
      · exact .inr ⟨mem, here⟩

theorem pairwise_toList (set : BitSet width) : set.toList.Pairwise (· < ·) := by
  fun_induction toList set with
  | case1 => exact List.Pairwise.nil
  | case2 set more ih =>
    have more := Bool.eq_false_iff.2 more
    refine List.Pairwise.cons (fun i mem => ?_) ih
    rw [mem_toList, contains_withoutLowest more, Bool.and_eq_true, decide_eq_true_iff] at mem
    have le : set.lowest ≤ i := Nat.le_of_not_lt fun lt =>
      Bool.noConfusion (mem.1.symm.trans (contains_of_lt_lowest lt))
    exact Nat.lt_of_le_of_ne le (Ne.symm mem.2)

/-! ## The largest member -/

theorem max?_eq_none_iff {set : BitSet width} :
    set.max? = none ↔ ∀ i, set.contains i = false := by
  unfold max?
  split
  · rename_i none_left
    exact iff_of_true rfl (contains_of_isEmpty none_left)
  · rename_i more
    refine iff_of_false (Option.some_ne_none _) fun absent => ?_
    exact Bool.noConfusion ((absent _).symm.trans (contains_lowest (Bool.eq_false_iff.2 more)))

theorem contains_of_max? {set : BitSet width} {m : Nat} (h : set.max? = some m) :
    set.contains m = true := by
  unfold max? at h
  split at h
  · cases h
  · rename_i more
    cases h
    have more := Bool.eq_false_iff.2 more
    have pos : 0 < width := Nat.zero_lt_of_lt (lt_of_contains (contains_lowest more))
    exact BitVec.getLsbD_true_clz_of_ne_zero pos (bits_ne_zero more)

theorem le_of_max? {set : BitSet width} {m i : Nat} (h : set.max? = some m)
    (hi : set.contains i = true) : i ≤ m := by
  unfold max? at h
  split at h
  · cases h
  · cases h
    have reach : 2 ^ i ≤ set.bits.toNat := Nat.ge_two_pow_of_testBit hi
    have small : i < width - set.bits.clz.toNat :=
      (Nat.pow_lt_pow_iff_right (Nat.lt_succ_self 1)).1
        (Nat.lt_of_le_of_lt reach BitVec.toNat_lt_two_pow_sub_clz)
    omega

end BitSet
end ByteDFA
