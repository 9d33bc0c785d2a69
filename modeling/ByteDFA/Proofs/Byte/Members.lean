import Mathlib.Data.List.Sort
import ByteDFA.Byte.ClassCursors
import ByteDFA.Cursor
import ByteDFA.Proofs.Byte.ClassCount
import ByteDFA.Proofs.Byte.Sweep

/-!
# The members of a class

The cursors over byte classes list what they are meant to list, and go on giving nothing when they
have come to the end. The cursors over the classes and over the bytes of a class look at one number
after the other (`Cursor.lists_scan`). The cursor for the runs does what one pass through these
bytes does (`RunCursor.lists_sweep`), which finds the same runs as a pass through all bytes.

The runs of a class are another way to write down its bytes: written out one after the other they
are the bytes again, and between two of them there is a byte of another class. Taken together, the
classes have every byte once, provided that no class is beyond the alphabet (`members_listed`).
-/

set_option autoImplicit false

namespace ByteDFA

open Cursor

/-! ## What the cursors list -/

theorem ClassCursor.lists_range (count more : Nat) {index : Nat} (reach : index + more = count) :
    Lists ClassCursor.next ⟨count, index⟩ ((List.range' index more).map UInt8.ofNat) := by
  have all_kept := List.filter_true ((List.range' index more).map UInt8.ofNat)
  rw [← all_kept]
  refine lists_scan (mk count) UInt8.ofNat (fun _ => true) ?_ ?_ ?_ more reach
  · intro index inside _
    exact if_pos inside
  · intro index inside never
    cases never
  · exact if_neg (Nat.lt_irrefl count)

theorem ElementCursor.lists_filter (classes : ByteClasses) (c : UInt8) {position more : Nat}
    (reach : position + more = 256) :
    Lists ElementCursor.next ⟨classes, c, position⟩
      (((List.range' position more).map UInt8.ofNat).filter fun b => classes.get b == c) := by
  refine lists_scan (mk classes c) UInt8.ofNat (fun b => classes.get b == c) ?_ ?_ ?_ more reach
  · intro position inside here
    exact next_of_get_eq inside (eq_of_beq here)
  · intro position inside elsewhere
    exact next_of_get_ne inside (beq_eq_false_iff_ne.1 elsewhere)
  · exact next_of_le (Nat.le_refl 256)

namespace RunCursor

variable {elements : ElementCursor} {pending : Option (ByteRun Unit)} {bytes : List UInt8}
  {key : UInt8 → Option Unit}

theorem lists_nil_of_elements (finished : Lists ElementCursor.next elements []) :
    Lists next ⟨elements, none⟩ [] := by
  refine @lists_nil _ _ _ _
    (fun cursor => cursor.pending = none ∧ Lists ElementCursor.next cursor.elements [])
    (fun cursor finished => ?_) ⟨rfl, finished⟩
  obtain ⟨elements, pending⟩ := cursor
  obtain ⟨rfl, finished⟩ := finished
  obtain ⟨asked, later⟩ := lists_iff.1 finished
  rw [next_of_finished (Prod.ext asked rfl)]
  exact ⟨rfl, rfl, later⟩

/-- The runs are those that one pass through the bytes finds. -/
theorem lists_sweep (keyed : ∀ b ∈ bytes, key b = some ())
    (lists : Lists ElementCursor.next elements bytes) :
    Lists next ⟨elements, pending⟩ (sweep key pending bytes) := by
  induction bytes generalizing elements pending with
  | nil =>
    cases pending with
    | none => exact lists_nil_of_elements lists
    | some run =>
      obtain ⟨asked, later⟩ := lists_iff.1 lists
      exact Lists.cons (next_of_finished (Prod.ext asked rfl)) (lists_nil_of_elements later)
  | cons b bytes ih =>
    obtain ⟨asked, later⟩ := lists_iff.1 lists
    have asked : elements.next = (some b, elements.next.2) := Prod.ext asked rfl
    have keyed' : ∀ x ∈ bytes, key x = some () := fun x mem => keyed x (List.mem_cons_of_mem b mem)
    cases pending with
    | none =>
      rw [sweep, keyed b List.mem_cons_self]
      exact Lists.of_next_eq (next_of_none asked) (ih keyed' later)
    | some run =>
      have answer := @next_of_some _ _ run _ asked
      rw [sweep, keyed b List.mem_cons_self]
      dsimp only
      split
      · rename_i joins
        rw [if_neg (not_not_intro joins.2)] at answer
        exact Lists.of_next_eq answer (ih keyed' later)
      · rename_i apart
        rw [if_pos fun touch => apart ⟨rfl, touch⟩] at answer
        exact Lists.cons answer (ih keyed' later)

end RunCursor

/-! ## Runs and their bytes -/

theorem ByteRun.mem_bytes {κ : Type} {run : ByteRun κ} {b : UInt8} :
    b ∈ run.bytes ↔ run.Contains b := by
  simp [bytes, Contains, Byte.mem_all, UInt8.le_iff_toNat_le]

namespace Runs

open ByteRun

variable {κ : Type} [DecidableEq κ] {key : UInt8 → Option κ} {run : ByteRun κ} {b : UInt8}

/-- The runs, written out one after the other, are the bytes that have a key. -/
theorem flatMap_bytes (key : UInt8 → Option κ) :
    (runs key).flatMap ByteRun.bytes = Byte.all.filter fun b => (key b).isSome := by
  have describe := describe_runs key
  have ascending : ((runs key).flatMap ByteRun.bytes).Pairwise (· < ·) := by
    refine List.pairwise_flatMap.2 ⟨fun run _ => Byte.pairwise_all.filter _, ?_⟩
    refine describe.ascending.imp fun lt b mem c mem' => UInt8.lt_iff_toNat_lt.2 ?_
    exact Nat.lt_of_le_of_lt (mem_bytes.1 mem).2 (Nat.lt_of_lt_of_le lt (mem_bytes.1 mem').1)
  refine ascending.eq_of_mem_iff (Byte.pairwise_all.filter _) fun b => ?_
  rw [List.mem_flatMap, List.mem_filter, Option.isSome_iff_exists]
  constructor
  · intro found
    obtain ⟨run, mem, inside⟩ := found
    exact ⟨Byte.mem_all b, _, describe.sound run mem b (mem_bytes.1 inside)⟩
  · intro keyed
    obtain ⟨-, k, keyed⟩ := keyed
    obtain ⟨run, mem, inside⟩ := describe.complete b k (Nat.zero_le _) keyed
    exact ⟨run, mem, mem_bytes.2 inside⟩

/-- The byte right behind a run does not have the key of the run. -/
theorem key_ne_of_eq_succ (mem : run ∈ runs key) (behind : b.toNat = run.last.toNat + 1) :
    key b ≠ some run.key := by
  intro keyed
  obtain ⟨other, mem', same, inside⟩ := key_eq_some_iff.1 keyed
  have describe := describe_runs key
  have ordered := List.pairwise_iff_getElem.1 (describe.ascending.and describe.maximal)
  obtain ⟨i, at_i, rfl⟩ := List.mem_iff_getElem.1 mem
  obtain ⟨j, at_j, rfl⟩ := List.mem_iff_getElem.1 mem'
  have first_le := describe.first_le_last _ mem
  obtain ⟨from_first, to_last⟩ := inside
  rcases Nat.lt_trichotomy i j with before | rfl | after
  · -- A later run would have to begin with the byte, and could have been one with this run.
    obtain ⟨lt, differ⟩ := ordered i j at_i at_j before
    exact differ (by omega) same.symm
  · omega
  · obtain ⟨lt, -⟩ := ordered j i at_j at_i after
    omega

end Runs

/-! ## Classes -/

namespace ByteClasses

variable {classes : ByteClasses} {b c : UInt8}

theorem mem_elements : b ∈ classes.elements c ↔ classes.get b = c := by
  simp [elements, Byte.mem_all]

theorem pairwise_elements (classes : ByteClasses) (c : UInt8) :
    (classes.elements c).Pairwise (· < ·) :=
  Byte.pairwise_all.filter _

theorem elements_eq_filter (classes : ByteClasses) (c : UInt8) :
    classes.elements c =
      Byte.all.filter fun b => (if classes.get b = c then some () else none).isSome := by
  refine List.filter_congr fun b _ => ?_
  split
  · rename_i here
    rw [here, beq_self_eq_true]
    rfl
  · rename_i elsewhere
    rw [beq_eq_false_iff_ne.2 elsewhere]
    rfl

theorem lists_elementCursor (classes : ByteClasses) (c : UInt8) :
    Lists ElementCursor.next (classes.elementCursor c) (classes.elements c) := by
  have lists := ElementCursor.lists_filter classes c (Nat.zero_add 256)
  rwa [← List.range_eq_range'] at lists

theorem lists_runCursor (classes : ByteClasses) (c : UInt8) :
    Lists RunCursor.next (classes.runCursor c) (classes.elementRuns c) := by
  have keyed : ∀ b ∈ classes.elements c,
      (if classes.get b = c then some () else none) = some () := fun b mem =>
    if_pos (mem_elements.1 mem)
  have lists := @RunCursor.lists_sweep _ none _ (fun b => if classes.get b = c then some () else none)
    keyed (lists_elementCursor classes c)
  rw [elements_eq_filter, sweep_filter] at lists
  exact lists

/-- Between two runs of a class there is a byte of another one. -/
theorem pairwise_elementRuns (classes : ByteClasses) (c : UInt8) :
    (classes.elementRuns c).Pairwise fun r s =>
      ∃ b, r.last < b ∧ b < s.first ∧ classes.get b ≠ c := by
  have describe := Runs.describe_runs fun b => if classes.get b = c then some () else none
  refine (describe.ascending.and describe.maximal).imp_of_mem fun {r s} mem mem' apart => ?_
  obtain ⟨lt, differ⟩ := apart
  have no_touch : s.first.toNat ≠ r.last.toNat + 1 := fun touch => differ touch rfl
  have small := s.first.toNat_lt
  have number : (UInt8.ofNat (r.last.toNat + 1)).toNat = r.last.toNat + 1 :=
    UInt8.toNat_ofNat_of_lt' (show r.last.toNat + 1 < 256 by omega)
  refine ⟨UInt8.ofNat (r.last.toNat + 1), ?_, ?_, fun here => ?_⟩
  · rw [UInt8.lt_iff_toNat_lt, number]
    exact Nat.lt_succ_self _
  · rw [UInt8.lt_iff_toNat_lt, number]
    omega
  · exact Runs.key_ne_of_eq_succ mem number (if_pos here)

/-- The bytes of the classes, one class after the other. -/
def allElements (classes : ByteClasses) : List UInt8 := classes.toList.flatMap classes.elements

theorem mem_allElements : b ∈ classes.allElements ↔ (classes.get b).toNat < classes.alphabetLen := by
  unfold allElements
  rw [List.mem_flatMap]
  constructor
  · intro found
    obtain ⟨c, listed, mem⟩ := found
    exact mem_elements.1 mem ▸ mem_toList.1 listed
  · intro small
    exact ⟨_, mem_toList.2 small, mem_elements.2 rfl⟩

/-- No byte occurs twice, since it has only one class and no class is listed twice. -/
theorem nodup_allElements (classes : ByteClasses) : classes.allElements.Nodup := by
  refine List.nodup_flatMap.2 ⟨fun c _ => Byte.nodup_of_pairwise (classes.pairwise_elements c), ?_⟩
  refine (Byte.nodup_of_pairwise classes.pairwise_toList).imp fun differ b mem mem' => ?_
  exact differ ((mem_elements.1 mem).symm.trans (mem_elements.1 mem'))

theorem count_allElements_eq_one_iff :
    (∀ b, classes.allElements.count b = 1) ↔ classes.Below := by
  refine forall_congr' fun b => ?_
  rw [← mem_allElements]
  constructor
  · intro once
    exact List.count_pos_iff.1 (once ▸ Nat.zero_lt_one)
  · intro mem
    exact List.count_eq_one_of_mem (nodup_allElements classes) mem

/-- The cursors over a class list its bytes in ascending order and its runs, and nothing afterwards.
Runs are kept apart by bytes of other classes, and written out they are the bytes of the class. Over
all classes, every byte is listed exactly once if and only if no class is beyond the alphabet. -/
theorem members_listed (classes : ByteClasses) :
    (∀ c,
      Lists ElementCursor.next (classes.elementCursor c) (classes.elements c) ∧
      (∀ b, b ∈ classes.elements c ↔ classes.get b = c) ∧
      (classes.elements c).Pairwise (· < ·) ∧
      Lists RunCursor.next (classes.runCursor c) (classes.elementRuns c) ∧
      (∀ run ∈ classes.elementRuns c, run.first ≤ run.last) ∧
      ((classes.elementRuns c).Pairwise fun r s =>
        ∃ b, r.last < b ∧ b < s.first ∧ classes.get b ≠ c) ∧
      (classes.elementRuns c).flatMap ByteRun.bytes = classes.elements c) ∧
    Lists ClassCursor.next classes.classCursor classes.toList ∧
    ((∀ b, (classes.toList.flatMap classes.elements).count b = 1) ↔
      ∀ b, (classes.get b).toNat < classes.alphabetLen) := by
  refine ⟨fun c => ⟨classes.lists_elementCursor c, fun b => mem_elements,
    classes.pairwise_elements c, classes.lists_runCursor c, ?_, classes.pairwise_elementRuns c, ?_⟩,
    ?_, count_allElements_eq_one_iff⟩
  · exact (Runs.exact_runs _).first_le_last
  · rw [elements_eq_filter]
    exact Runs.flatMap_bytes _
  · have lists := ClassCursor.lists_range classes.alphabetLen _ (Nat.zero_add _)
    rwa [← List.range_eq_range'] at lists

end ByteClasses
end ByteDFA
