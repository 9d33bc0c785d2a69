import ByteDFA.Byte.Basic

/-!
# Looking for bytes

There are routines that look through a haystack for one byte, for any of two and for any of three,
and a `Finder` is a choice of them. Which one is used depends on how many bytes there are to look
for, and it is given the rest of the haystack only.

All that is asked of these routines is that each gives the first position of one of its bytes
(`Finder.FirstPosition`). This says everything about them: `Finder.scan`, which looks at one
position after the other, is the only finder of this kind (`Finder.firstPosition_iff`).
-/

set_option autoImplicit false

namespace ByteDFA

/-- The first position from `offset` on that holds one of the needles. -/
structure Haystack.FirstFrom (haystack : Haystack) (needles : List UInt8) (offset i : Nat) :
    Prop where
  le : offset ≤ i
  here : ∃ b ∈ needles, haystack[i]? = some b
  not_before : ∀ j, offset ≤ j → j < i → ∀ b ∈ needles, haystack[j]? ≠ some b

/-- Routines that look for one byte, for any of two and for any of three. -/
structure Finder where
  one (a : UInt8) (haystack : Haystack) : Option Nat
  two (a b : UInt8) (haystack : Haystack) : Option Nat
  three (a b c : UInt8) (haystack : Haystack) : Option Nat

namespace Finder

/-- Each routine gives the first position of one of its bytes, if there is one. -/
structure FirstPosition (finder : Finder) : Prop where
  one : ∀ a haystack i, finder.one a haystack = some i ↔ haystack.FirstFrom [a] 0 i
  two : ∀ a b haystack i, finder.two a b haystack = some i ↔ haystack.FirstFrom [a, b] 0 i
  three : ∀ a b c haystack i,
    finder.three a b c haystack = some i ↔ haystack.FirstFrom [a, b, c] 0 i

/-- Looks at one position after the other. -/
def scan : Finder where
  one a haystack := haystack.findIdx? [a].contains
  two a b haystack := haystack.findIdx? [a, b].contains
  three a b c haystack := haystack.findIdx? [a, b, c].contains

/-- Looks from an offset on for one of at most three needles. Without any needle there is nothing to
find, and for more than three there is no routine. -/
def find? (finder : Finder) (needles : List UInt8) (haystack : Haystack) (offset : Nat) :
    Option Nat :=
  let rest := haystack.extract offset
  match needles with
  | [] => none
  | [a] => (finder.one a rest).map (offset + ·)
  | [a, b] => (finder.two a b rest).map (offset + ·)
  | [a, b, c] => (finder.three a b c rest).map (offset + ·)
  | _ => none

variable {finder : Finder} {needles : List UInt8} {haystack : Haystack} {offset i : Nat}

/-! ## The first position -/

/-- A position without a needle can be left out. -/
theorem firstFrom_succ_iff (elsewhere : ∀ b ∈ needles, haystack[offset]? ≠ some b) :
    haystack.FirstFrom needles (offset + 1) i ↔ haystack.FirstFrom needles offset i := by
  constructor
  · intro first
    refine ⟨Nat.le_of_succ_le first.le, first.here, fun j le before => ?_⟩
    rcases Nat.eq_or_lt_of_le le with rfl | lt
    · exact elsewhere
    · exact first.not_before j lt before
  · intro first
    refine ⟨?_, first.here, fun j le before => first.not_before j (Nat.le_of_succ_le le) before⟩
    rcases Nat.eq_or_lt_of_le first.le with rfl | lt
    · obtain ⟨b, mem, at_offset⟩ := first.here
      exact absurd at_offset (elsewhere b mem)
    · exact lt

theorem findIdx?_eq_some_iff :
    haystack.findIdx? needles.contains = some i ↔ haystack.FirstFrom needles 0 i := by
  rw [Array.findIdx?_eq_some_iff_getElem]
  constructor
  · intro ⟨inside, here, not_before⟩
    refine ⟨Nat.zero_le i, ⟨_, List.contains_iff_mem.1 here, Array.getElem?_eq_getElem inside⟩, ?_⟩
    intro j _ before b mem at_j
    obtain ⟨_, rfl⟩ := Array.getElem?_eq_some_iff.1 at_j
    exact not_before j before (List.contains_iff_mem.2 mem)
  · intro first
    obtain ⟨b, mem, at_i⟩ := first.here
    obtain ⟨inside, rfl⟩ := Array.getElem?_eq_some_iff.1 at_i
    refine ⟨inside, List.contains_iff_mem.2 mem, fun j before needle => ?_⟩
    exact first.not_before j (Nat.zero_le j) before _ (List.contains_iff_mem.1 needle)
      (Array.getElem?_eq_getElem (Nat.lt_trans before inside))

theorem scan_firstPosition : scan.FirstPosition :=
  ⟨fun _ _ _ => findIdx?_eq_some_iff, fun _ _ _ _ => findIdx?_eq_some_iff,
    fun _ _ _ _ _ => findIdx?_eq_some_iff⟩

/-- Only one finder gives first positions. -/
theorem firstPosition_iff : finder.FirstPosition ↔ finder = scan := by
  constructor
  · intro first
    obtain ⟨one, two, three⟩ := finder
    have same_one : one = scan.one := by
      funext a haystack
      exact Option.ext fun i => (first.one ..).trans (scan_firstPosition.one ..).symm
    have same_two : two = scan.two := by
      funext a b haystack
      exact Option.ext fun i => (first.two ..).trans (scan_firstPosition.two ..).symm
    have same_three : three = scan.three := by
      funext a b c haystack
      exact Option.ext fun i => (first.three ..).trans (scan_firstPosition.three ..).symm
    rw [same_one, same_two, same_three]
  · rintro rfl
    exact scan_firstPosition

/-! ## The rest of a haystack -/

theorem getElem?_extract_rest (haystack : Haystack) (offset k : Nat) :
    (haystack.extract offset)[k]? = haystack[offset + k]? := by
  rw [Array.getElem?_extract, Nat.min_self]
  split
  · rfl
  · exact (Array.getElem?_eq_none (by omega)).symm

theorem firstFrom_extract {k : Nat} :
    Haystack.FirstFrom (haystack.extract offset) needles 0 k ↔
      haystack.FirstFrom needles offset (offset + k) := by
  constructor
  · intro first
    obtain ⟨b, mem, at_k⟩ := first.here
    rw [getElem?_extract_rest] at at_k
    refine ⟨Nat.le_add_right offset k, ⟨b, mem, at_k⟩, fun j le before b mem at_j => ?_⟩
    obtain ⟨n, rfl⟩ := Nat.exists_eq_add_of_le le
    rw [← getElem?_extract_rest] at at_j
    exact first.not_before n (Nat.zero_le n) (Nat.lt_of_add_lt_add_left before) b mem at_j
  · intro first
    obtain ⟨b, mem, at_k⟩ := first.here
    rw [← getElem?_extract_rest] at at_k
    refine ⟨Nat.zero_le k, ⟨b, mem, at_k⟩, fun j _ before b mem at_j => ?_⟩
    rw [getElem?_extract_rest] at at_j
    exact first.not_before (offset + j) (Nat.le_add_right offset j)
      (Nat.add_lt_add_left before offset) b mem at_j

theorem map_add_eq_some_iff {found : Option Nat}
    (first : ∀ k, found = some k ↔ Haystack.FirstFrom (haystack.extract offset) needles 0 k) :
    found.map (offset + ·) = some i ↔ haystack.FirstFrom needles offset i := by
  rw [Option.map_eq_some_iff]
  constructor
  · rintro ⟨k, here, rfl⟩
    exact firstFrom_extract.1 ((first k).1 here)
  · intro from_offset
    obtain ⟨k, rfl⟩ := Nat.exists_eq_add_of_le from_offset.le
    exact ⟨k, (first k).2 (firstFrom_extract.2 from_offset), rfl⟩

/-- Whichever routine is used, it is the first needle from the offset on that is found. -/
theorem FirstPosition.find?_eq_some_iff (first : finder.FirstPosition)
    (few : needles.length ≤ 3) :
    finder.find? needles haystack offset = some i ↔ haystack.FirstFrom needles offset i := by
  match needles with
  | [] =>
    refine iff_of_false (fun found => nomatch found) fun from_offset => ?_
    obtain ⟨b, mem, -⟩ := from_offset.here
    cases mem
  | [a] => exact map_add_eq_some_iff (first.one a _)
  | [a, b] => exact map_add_eq_some_iff (first.two a b _)
  | [a, b, c] => exact map_add_eq_some_iff (first.three a b c _)
  | a :: b :: c :: d :: more => exact absurd few (by simp)

end Finder
end ByteDFA
