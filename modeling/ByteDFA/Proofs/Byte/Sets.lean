import ByteDFA.Byte.Set
import ByteDFA.Proofs.BitSet
import ByteDFA.Proofs.Byte.ClassCount

/-!
# Sets of bytes that are put together byte by byte

A set of bytes is stored in two words, and each of its views looks at them in its own way:
membership looks at one bit, the size counts the bits of both words, emptiness compares the words,
and a cursor goes through all bytes. They agree on what has been added (`added_listed`). The bits of
the two words are the bytes in order (`contains_ofNat`), so counting them is counting the bytes that
the cursor gives (`size_eq_length`).
-/

set_option autoImplicit false

namespace ByteDFA

open Cursor

namespace ByteSet

variable {set : ByteSet} {b : UInt8}

/-! ## The two words -/

/-- The bits of the words, one word after the other, belong to the bytes in ascending order. -/
theorem contains_ofNat (set : ByteSet) (k : Fin 2) {i : Nat} (lt : i < 128) :
    set.contains (UInt8.ofNat (128 * k + i)) = set.words[k].contains i := by
  have number : (UInt8.ofNat (128 * k + i)).toNat = 128 * k + i :=
    UInt8.toNat_ofNat_of_lt' (show 128 * k.val + i < 256 by omega)
  have word : bucket (UInt8.ofNat (128 * k + i)) = k := by
    refine Fin.ext ?_
    show (UInt8.ofNat (128 * k + i)).toNat / 128 = k
    rw [number]
    omega
  have place : bit (UInt8.ofNat (128 * k + i)) = i := by
    rw [bit, number]
    omega
  simp only [contains, word, place]

theorem countP_word (set : ByteSet) (k : Fin 2) :
    ((List.range 128).map fun i => UInt8.ofNat (128 * k + i)).countP set.contains =
      set.words[k].size := by
  rw [List.countP_map, BitSet.size_eq_countP]
  refine List.countP_congr fun i mem => ?_
  rw [Function.comp_apply, set.contains_ofNat k (List.mem_range.1 mem)]

theorem size_eq_length (set : ByteSet) : set.size = set.toList.length := by
  have halves : Byte.all =
      ((List.range 128).map fun i => UInt8.ofNat (128 * (0 : Fin 2) + i)) ++
        (List.range 128).map fun i => UInt8.ofNat (128 * (1 : Fin 2) + i) := by decide +kernel
  rw [toList, ← List.countP_eq_length_filter, halves, List.countP_append, countP_word, countP_word]
  rfl

/-- The bytes of a set are all that there is to it. -/
theorem ext {other : ByteSet} (same : ∀ b, set.contains b = other.contains b) : set = other := by
  have words (k : Fin 2) : set.words[k] = other.words[k] := by
    refine BitSet.ext fun i => ?_
    rcases Nat.lt_or_ge i 128 with lt | ge
    · rw [← set.contains_ofNat k lt, ← other.contains_ofNat k lt]
      exact same _
    · have beyond (word : BitSet 128) : word.contains i = false :=
        Bool.eq_false_iff.2 fun mem => Nat.not_lt_of_le ge (BitSet.lt_of_contains mem)
      rw [beyond, beyond]
  cases set
  cases other
  exact congrArg mk (Vector.ext fun i lt => words ⟨i, lt⟩)

theorem size_le {other : ByteSet}
    (among : ∀ b, set.contains b = true → other.contains b = true) : set.size ≤ other.size := by
  rw [size_eq_length, size_eq_length, toList, toList, ← List.countP_eq_length_filter,
    ← List.countP_eq_length_filter]
  exact List.countP_mono_left fun b _ => among b

@[simp] theorem size_empty : (∅ : ByteSet).size = 0 := by decide +kernel

theorem isEmpty_iff : set.isEmpty = true ↔ set = ∅ := by
  cases set
  rw [isEmpty, beq_iff_eq]
  exact (ByteSet.mk.injEq ..).symm.to_iff

/-! ## The bytes one by one -/

theorem pairwise_toList (set : ByteSet) : set.toList.Pairwise (· < ·) :=
  Byte.pairwise_all.filter _

theorem lists_cursor (set : ByteSet) : Lists ByteCursor.next set.cursor set.toList := by
  rw [toList, Byte.all, List.range_eq_range']
  refine lists_scan (ByteCursor.mk set) UInt8.ofNat set.contains ?_ ?_ ?_ 256 (Nat.zero_add 256)
  · intro position inside here
    rw [ByteCursor.next, if_pos (Nat.le_of_lt_succ inside)]
    exact if_pos here
  · intro position inside elsewhere
    rw [ByteCursor.next, if_pos (Nat.le_of_lt_succ inside)]
    exact if_neg (Bool.eq_false_iff.1 elsewhere)
  · rw [ByteCursor.next, if_neg (Nat.not_succ_le_self 255)]

/-! ## Bytes added one after the other -/

/-- The set with some more bytes, which are added in order. -/
def addAll (set : ByteSet) (bytes : List UInt8) : ByteSet := bytes.foldl add set

theorem contains_addAll (set : ByteSet) (bytes : List UInt8) :
    (set.addAll bytes).contains b = true ↔ set.contains b = true ∨ b ∈ bytes := by
  unfold addAll
  induction bytes generalizing set with
  | nil => simp
  | cons added bytes ih =>
    rw [List.foldl_cons, ih, contains_add, Bool.or_eq_true, decide_eq_true_iff, List.mem_cons,
      or_assoc, @eq_comm _ b added]

theorem contains_added (bytes : List UInt8) :
    ((∅ : ByteSet).addAll bytes).contains b = true ↔ b ∈ bytes := by
  rw [contains_addAll, contains_empty]
  exact or_iff_right Bool.false_ne_true

theorem mem_toList_added (bytes : List UInt8) :
    b ∈ ((∅ : ByteSet).addAll bytes).toList ↔ b ∈ bytes :=
  mem_toList.trans (contains_added bytes)

theorem size_added (bytes : List UInt8) :
    ((∅ : ByteSet).addAll bytes).size = bytes.toFinset.card := by
  have distinct : ((∅ : ByteSet).addAll bytes).toList.Nodup :=
    Byte.nodup_of_pairwise (pairwise_toList _)
  rw [size_eq_length, ← List.toFinset_card_of_nodup distinct]
  refine congrArg Finset.card (Finset.ext fun b => ?_)
  rw [List.mem_toFinset, List.mem_toFinset, mem_toList_added]

theorem isEmpty_added (bytes : List UInt8) :
    ((∅ : ByteSet).addAll bytes).isEmpty = true ↔ bytes = [] := by
  rw [isEmpty_iff]
  constructor
  · intro none_left
    refine List.eq_nil_iff_forall_not_mem.2 fun b mem => ?_
    have here := (contains_added bytes).2 mem
    rw [none_left, contains_empty] at here
    cases here
  · rintro rfl
    rfl

/-- Whatever bytes are added to the empty set, and in whatever order, it contains these bytes,
counts each of them once, is empty only if there are none, and has a cursor that gives them in
ascending order and then nothing however often it is asked. -/
theorem added_listed (bytes : List UInt8) :
    (∀ b, ((∅ : ByteSet).addAll bytes).contains b = true ↔ b ∈ bytes) ∧
    ((∅ : ByteSet).addAll bytes).size = bytes.toFinset.card ∧
    (((∅ : ByteSet).addAll bytes).isEmpty = true ↔ bytes = []) ∧
    ∃ listed, Lists ByteCursor.next ((∅ : ByteSet).addAll bytes).cursor listed ∧
      listed.Pairwise (· < ·) ∧ ∀ b, b ∈ listed ↔ b ∈ bytes :=
  ⟨fun _ => contains_added bytes, size_added bytes, isEmpty_added bytes, _, lists_cursor _,
    pairwise_toList _, fun _ => mem_toList_added bytes⟩

end ByteSet
end ByteDFA
