import ByteDFA.Byte.Classes
import ByteDFA.Proofs.Byte.Runs
import ByteDFA.Proofs.Byte.Writing
import ByteDFA.Proofs.Text.Value

/-!
# Reading the text of byte classes back

The text of byte classes writes the stretches of every class one after the other, with nothing in
between. A hyphen in it may be the byte or may stand between the two ends of a stretch, so the text
of a single class can mean two things: `+-a` are three bytes or all bytes from the first to the
last. The whole text is not ambiguous, though: every class shows whether it has the hyphen
(`get_hyphen_iff`), the others can be read back, and what is left over is in the class that has it.

The text is cut short for classes that say of themselves that there are as many of them as bytes.
So it tells classes apart unless both say so (`debug_eq_iff`).
-/

set_option autoImplicit false

namespace ByteDFA

/-! ## Written bytes -/

namespace Byte

open ValueText

variable {b : UInt8} {c : Char}

theorem unbroken_escapedChars (b : UInt8) : Unbroken (escapedChars b) := by
  have all_bytes : ∀ b ∈ all, ',' ∉ escapedChars b ∨ escapedChars b = [','] := by decide +kernel
  rcases all_bytes b (mem_all b) with no_comma | comma
  · exact unbroken_of_not_mem no_comma
  · rw [comma]
    exact List.isChain_singleton _

/-- A written byte never begins with a blank, so no comma between written bytes is followed by
one. -/
theorem unbroken_flatMap_escapedChars (bytes : List UInt8) :
    Unbroken (bytes.flatMap escapedChars ++ [']']) := by
  induction bytes with
  | nil => exact List.isChain_singleton _
  | cons b rest ih =>
    rw [List.flatMap_cons, List.append_assoc]
    refine unbroken_append_iff.2 ⟨unbroken_escapedChars b, ih, fun a _ c head separator => ?_⟩
    rw [separator.2] at head
    cases rest with
    | nil => cases head
    | cons d rest =>
      rw [List.flatMap_cons, List.append_assoc, List.head?_append_of_ne_nil _
        (escapedChars_ne_nil d)] at head
      exact head?_escapedChars d head

end Byte

/-! ## Written runs -/

namespace ByteRun

variable {κ : Type} {rs ss : List (ByteRun κ)} {r : ByteRun κ} {b : UInt8}

/-- The byte that is written like the sign between the ends of a run. -/
def hyphen : UInt8 := 0x2D

/-- The bytes that are written for a run. -/
def written (run : ByteRun κ) : List UInt8 :=
  if run.first = run.last then [run.first] else [run.first, hyphen, run.last]

theorem toList_text (run : ByteRun κ) :
    run.text.toList = run.written.flatMap Byte.escapedChars := by
  unfold text written Byte.escaped
  split
  · simp
  · simp
    rfl

theorem exists_written_eq_cons (run : ByteRun κ) : ∃ rest, run.written = run.first :: rest := by
  unfold written
  split
  · exact ⟨_, rfl⟩
  · exact ⟨_, rfl⟩

theorem getLast?_written (run : ByteRun κ) : run.written.getLast? = some run.last := by
  unfold written
  split
  · rename_i single
    rw [single]
    rfl
  · rfl

/-- A run can be told from what follows it, unless that begins with a hyphen. -/
theorem written_append_inj {s : ByteRun κ} {after after' : List UInt8}
    (plain : hyphen ∉ after.head?) (plain' : hyphen ∉ after'.head?)
    (same : r.written ++ after = s.written ++ after') : r.ends = s.ends ∧ after = after' := by
  unfold written at same
  unfold ends
  split at same
  · rename_i single
    split at same
    · rename_i single'
      obtain ⟨first, tails⟩ := List.cons.inj same
      exact ⟨by rw [← single, ← single', first], tails⟩
    · have tails : after = hyphen :: s.last :: after' := (List.cons.inj same).2
      exact absurd (by rw [tails]; rfl) plain
  · split at same
    · have tails : hyphen :: r.last :: after = after' := (List.cons.inj same).2
      exact absurd (by rw [← tails]; rfl) plain'
    · obtain ⟨first, rest⟩ := List.cons.inj same
      obtain ⟨last, tails⟩ := List.cons.inj (List.cons.inj rest).2
      exact ⟨by rw [first, last], tails⟩

theorem head?_flatMap_written (plain : ∀ r ∈ rs, r.first ≠ hyphen) :
    hyphen ∉ (rs.flatMap written).head? := by
  cases rs with
  | nil => exact fun head => nomatch head
  | cons r rs =>
    obtain ⟨rest, begins⟩ := r.exists_written_eq_cons
    rw [List.flatMap_cons, begins]
    exact fun head => plain r List.mem_cons_self (Option.some.inj head)

/-- The runs can be read back if no hyphen is an end of any of them. -/
theorem ends_eq_of_written (plain : ∀ r ∈ rs, r.first ≠ hyphen)
    (plain' : ∀ s ∈ ss, s.first ≠ hyphen)
    (same : rs.flatMap written = ss.flatMap written) : rs.map ends = ss.map ends := by
  induction rs generalizing ss with
  | nil =>
    cases ss with
    | nil => rfl
    | cons s ss =>
      obtain ⟨rest, begins⟩ := s.exists_written_eq_cons
      rw [List.flatMap_cons, begins] at same
      cases same
  | cons r rs ih =>
    cases ss with
    | nil =>
      obtain ⟨rest, begins⟩ := r.exists_written_eq_cons
      rw [List.flatMap_cons, begins] at same
      cases same
    | cons s ss =>
      have later : ∀ r ∈ rs, r.first ≠ hyphen := fun r mem => plain r (List.mem_cons_of_mem _ mem)
      have later' : ∀ s ∈ ss, s.first ≠ hyphen := fun s mem => plain' s (List.mem_cons_of_mem _ mem)
      rw [List.flatMap_cons, List.flatMap_cons] at same
      obtain ⟨ends_eq, tails⟩ := written_append_inj (head?_flatMap_written later)
        (head?_flatMap_written later') same
      rw [List.map_cons, List.map_cons, ends_eq, ih later later' tails]

/-- Which bytes lie in some runs depends on the ends alone. -/
theorem exists_contains_iff :
    (∃ r ∈ rs, r.Contains b) ↔ ∃ e ∈ rs.map ends, e.1.toNat ≤ b.toNat ∧ b.toNat ≤ e.2.toNat := by
  simp [Contains, ends]

theorem takeWhile_written_eq_nil (above : ∀ r ∈ rs, hyphen.toNat < r.first.toNat) :
    (rs.flatMap written).takeWhile (fun b => decide (b ≤ hyphen)) = [] := by
  cases rs with
  | nil => rfl
  | cons r rs =>
    obtain ⟨rest, begins⟩ := r.exists_written_eq_cons
    have high : ¬r.first ≤ hyphen := by
      rw [UInt8.le_iff_toNat_le]
      exact Nat.not_le_of_lt (above r List.mem_cons_self)
    rw [List.flatMap_cons, begins, List.cons_append, List.takeWhile_cons, if_neg (by simpa using high)]

theorem le_hyphen_of_mem_written (le : r.first.toNat ≤ r.last.toNat)
    (last_le : r.last.toNat ≤ hyphen.toNat) (b : UInt8) (mem : b ∈ r.written) :
    decide (b ≤ hyphen) = true := by
  have cases_of_mem : b = r.first ∨ b = hyphen ∨ b = r.last := by
    unfold written at mem
    split at mem
    · exact .inl (List.mem_singleton.1 mem)
    · simpa using mem
  rw [decide_eq_true_iff, UInt8.le_iff_toNat_le]
  rcases cases_of_mem with rfl | rfl | rfl
  · exact Nat.le_trans le last_le
  · exact Nat.le_refl _
  · exact last_le

/-- Up to the hyphen, the last byte that is written for a run around it is the hyphen. -/
theorem getLast?_takeWhile_of_contains (inside : r.Contains hyphen)
    (above : ∀ s ∈ rs, r.last.toNat < s.first.toNat) :
    ((r.written ++ rs.flatMap written).takeWhile fun b => decide (b ≤ hyphen)).getLast? =
      some hyphen := by
  obtain ⟨from_first, to_last⟩ := inside
  have nothing_more : (rs.flatMap written).takeWhile (fun b => decide (b ≤ hyphen)) = [] :=
    takeWhile_written_eq_nil fun s mem => Nat.lt_of_le_of_lt to_last (above s mem)
  rcases Nat.lt_or_eq_of_le to_last with beyond | at_end
  · have range : r.first ≠ r.last := by
      intro single
      rw [single] at from_first
      exact Nat.not_le_of_lt beyond from_first
    have low : r.first ≤ hyphen := UInt8.le_iff_toNat_le.2 from_first
    have high : ¬r.last ≤ hyphen := fun le => Nat.not_le_of_lt beyond (UInt8.le_iff_toNat_le.1 le)
    have bytes : r.written = [r.first, hyphen, r.last] := if_neg range
    rw [bytes]
    simp [low, high]
  · have low := le_hyphen_of_mem_written (Nat.le_trans from_first to_last) (Nat.le_of_eq at_end.symm)
    rw [List.takeWhile_append_of_pos low, nothing_more, List.append_nil, getLast?_written,
      UInt8.toNat_inj.1 at_end]

/-- Whether the hyphen lies in one of some runs can be read off what is written for them, although
it may be written without lying in any: it does if it is the last of the bytes at the beginning that
are not above it. -/
theorem contains_hyphen_iff (le : ∀ r ∈ rs, r.first.toNat ≤ r.last.toNat)
    (ascending : rs.Pairwise fun r s => r.last.toNat < s.first.toNat) :
    (∃ r ∈ rs, r.Contains hyphen) ↔
      ((rs.flatMap written).takeWhile fun b => decide (b ≤ hyphen)).getLast? = some hyphen := by
  induction rs with
  | nil => simp
  | cons r rs ih =>
    obtain ⟨above, ascending⟩ := List.pairwise_cons.1 ascending
    have first_le := le r List.mem_cons_self
    have ih := ih (fun r mem => le r (List.mem_cons_of_mem _ mem)) ascending
    rw [List.exists_mem_cons_iff]
    by_cases inside : r.Contains hyphen
    · rw [List.flatMap_cons, getLast?_takeWhile_of_contains inside above]
      exact iff_of_true (.inl inside) rfl
    rw [or_iff_right inside]
    rcases Nat.lt_or_ge r.last.toNat hyphen.toNat with before | reaches
    · -- The run ends below the hyphen, so the bytes for it are passed over.
      have low := le_hyphen_of_mem_written first_le (Nat.le_of_lt before)
      have not_last : r.last ≠ hyphen := fun last => Nat.ne_of_lt before (congrArg UInt8.toNat last)
      rw [ih, List.flatMap_cons, List.takeWhile_append_of_pos low, List.getLast?_append,
        getLast?_written]
      cases ((rs.flatMap written).takeWhile fun b => decide (b ≤ hyphen)).getLast? with
      | none => simpa using not_last
      | some b => exact Iff.rfl
    · -- The run begins above the hyphen, and so do all that follow.
      have high : hyphen.toNat < r.first.toNat :=
        Nat.lt_of_not_le fun from_first => inside ⟨from_first, reaches⟩
      have all_high : ∀ s ∈ r :: rs, hyphen.toNat < s.first.toNat := by
        intro s mem
        rcases List.mem_cons.1 mem with rfl | mem
        · exact high
        · exact Nat.lt_of_le_of_lt reaches (above s mem)
      rw [takeWhile_written_eq_nil all_high]
      refine iff_of_false (fun found => ?_) (fun last => nomatch last)
      obtain ⟨s, mem, from_first, -⟩ := found
      exact Nat.not_le_of_lt (all_high s (List.mem_cons_of_mem _ mem)) from_first

end ByteRun

/-! ## Written classes -/

namespace ByteClasses

open ByteRun ValueText

variable {classes other : ByteClasses} {b c : UInt8}

/-- The bytes that are written for a class. -/
def written (classes : ByteClasses) (c : UInt8) : List UInt8 :=
  (classes.elementRuns c).flatMap ByteRun.written

theorem get_eq_iff : classes.get b = c ↔ ∃ run ∈ classes.elementRuns c, run.Contains b := by
  have keyed : classes.get b = c ↔
      (if classes.get b = c then some () else none) = some () := by
    split
    · rename_i here
      exact iff_of_true here rfl
    · rename_i elsewhere
      exact iff_of_false elsewhere (fun none_some => nomatch none_some)
  have inside := @Runs.key_eq_some_iff _ (fun b => if classes.get b = c then some () else none) b () _
  rw [keyed, inside]
  simp [elementRuns]

/-- The class of the hyphen can be read off the text. -/
theorem get_hyphen_iff :
    classes.get hyphen = c ↔
      ((classes.written c).takeWhile fun b => decide (b ≤ hyphen)).getLast? = some hyphen := by
  have describe := Runs.describe_runs fun b => if classes.get b = c then some () else none
  exact get_eq_iff.trans (contains_hyphen_iff describe.first_le_last describe.ascending)

theorem first_ne_hyphen (without : classes.get hyphen ≠ c) :
    ∀ run ∈ classes.elementRuns c, run.first ≠ hyphen := by
  intro run mem begins
  have describe := Runs.describe_runs fun b => if classes.get b = c then some () else none
  have le := describe.first_le_last run mem
  rw [begins] at le
  exact without (get_eq_iff.2 ⟨run, mem, begins ▸ Nat.le_refl _, le⟩)

/-- A class without the hyphen can be read back. -/
theorem get_eq_iff_of_written (without : classes.get hyphen ≠ c) (without' : other.get hyphen ≠ c)
    (same : classes.written c = other.written c) : classes.get b = c ↔ other.get b = c := by
  have ends_eq : (classes.elementRuns c).map ends = (other.elementRuns c).map ends :=
    ends_eq_of_written (first_ne_hyphen without) (first_ne_hyphen without') same
  rw [get_eq_iff, get_eq_iff, exists_contains_iff, exists_contains_iff, ends_eq]

/-- Classes can be read back from what is written for each of them. -/
theorem eq_of_written (below : ∀ b, (classes.get b).toNat < classes.alphabetLen)
    (below' : ∀ b, (other.get b).toNat < classes.alphabetLen)
    (same : ∀ c : UInt8, c.toNat < classes.alphabetLen → classes.written c = other.written c) :
    classes = other := by
  have hyphens : classes.get hyphen = other.get hyphen := by
    have last := get_hyphen_iff.1 (rfl : classes.get hyphen = _)
    rw [same _ (below hyphen)] at last
    exact (get_hyphen_iff.2 last).symm
  have elsewhere {c : UInt8} (small : c.toNat < classes.alphabetLen)
      (without : classes.get hyphen ≠ c) (b : UInt8) : classes.get b = c ↔ other.get b = c :=
    get_eq_iff_of_written without (hyphens ▸ without) (same c small)
  refine ByteClasses.ext fun b => ?_
  by_cases with_hyphen : classes.get hyphen = classes.get b
  · -- What is in none of the other classes is in this one.
    apply Classical.byContradiction
    intro differ
    have without : classes.get hyphen ≠ other.get b := fun eq => differ (with_hyphen.symm.trans eq)
    exact differ ((elsewhere (below' b) without b).2 rfl)
  · exact ((elsewhere (below b) with_hyphen b).1 rfl).symm

/-! ## The whole text -/

theorem toList_join_text (runs : List (ByteRun Unit)) :
    (String.join (runs.map ByteRun.text)).toList =
      (runs.flatMap ByteRun.written).flatMap Byte.escapedChars := by
  rw [String.toList_join, List.flatMap_map, List.flatMap_assoc]
  simp only [toList_text]

theorem toList_classText (classes : ByteClasses) (c : UInt8) :
    (classes.classText c).toList =
      ((toString c.toNat).toList ++ " => [".toList) ++
        ((classes.written c).flatMap Byte.escapedChars ++ [']']) := by
  unfold classText written
  rw [String.toList_append, String.toList_append, String.toList_append, toList_join_text,
    List.append_assoc _ _ "]".toList]
  rfl

theorem classText_ne_empty (classes : ByteClasses) (c : UInt8) : classes.classText c ≠ "" := by
  intro blank
  have chars := toList_classText classes c
  rw [blank] at chars
  exact absurd (List.append_eq_nil_iff.1 (List.append_eq_nil_iff.1 chars.symm).1).2 (by decide)

theorem unbroken_classText (classes : ByteClasses) (c : UInt8) :
    Unbroken (classes.classText c).toList := by
  have no_comma : ',' ∉ (toString c.toNat).toList ++ " => [".toList := by
    rw [List.mem_append]
    intro mem
    rcases mem with digit | sign
    · exact absurd (isDigit_of_mem_toString digit) (by decide)
    · exact absurd sign (by decide)
  rw [toList_classText, unbroken_append_iff]
  refine ⟨unbroken_of_not_mem no_comma, Byte.unbroken_flatMap_escapedChars _, ?_⟩
  intro a last b _ separator
  exact no_comma (separator.1 ▸ List.mem_of_getLast? last)

theorem written_eq_of_classText (same : classes.classText c = other.classText c) :
    classes.written c = other.written c := by
  have chars := congrArg String.toList same
  rw [toList_classText, toList_classText] at chars
  exact Byte.eq_of_flatMap_escapedChars (List.append_cancel_right (List.append_cancel_left chars))

theorem items_classText (classes : ByteClasses) (codes : List UInt8) :
    ∀ x ∈ codes.map classes.classText, x ≠ "" ∧ Unbroken x.toList := by
  intro x mem
  obtain ⟨c, -, rfl⟩ := List.mem_map.1 mem
  exact ⟨classText_ne_empty classes c, unbroken_classText classes c⟩

theorem debug_of_several (several : classes.isSingletons = false) :
    classes.debug =
      "ByteClasses(" ++ String.intercalate ", " (classes.toList.map classes.classText) ++ ")" := by
  rw [debug, several]
  rfl

/-- The text of classes that do not claim to be as many as the bytes tells what they are. -/
theorem eq_of_debug_eq (below : ∀ b, (classes.get b).toNat < classes.alphabetLen)
    (below' : ∀ b, (other.get b).toNat < other.alphabetLen)
    (several : classes.isSingletons = false) (several' : other.isSingletons = false)
    (same : classes.debug = other.debug) : classes = other := by
  rw [debug_of_several several, debug_of_several several', String.append_left_inj,
    String.append_right_inj] at same
  have texts := eq_of_intercalate_eq (items_classText _ _) (items_classText _ _) same
  have length : classes.alphabetLen = other.alphabetLen := by
    have lengths := congrArg List.length texts
    simpa [toList] using lengths
  refine eq_of_written below (length ▸ below') fun c small => ?_
  have codes : other.toList = classes.toList := by rw [toList, toList, length]
  rw [codes] at texts
  have mem : c ∈ classes.toList :=
    List.mem_map.2 ⟨c.toNat, List.mem_range.2 small, UInt8.ofNat_toNat⟩
  exact written_eq_of_classText (List.map_inj_left.1 texts c mem)

/-- The text of several classes begins with the number of the first one. -/
theorem debug_ne_of_isSingletons (single : classes.isSingletons = true)
    (several : other.isSingletons = false) : classes.debug ≠ other.debug := by
  intro same
  have short : classes.debug = "ByteClasses(" ++ "\x7bsingletons\x7d" ++ ")" := by
    rw [debug, single]
    rfl
  obtain ⟨rest, codes⟩ : ∃ rest, other.toList = 0 :: rest := by
    rw [toList, alphabetLen, List.range_succ_eq_map]
    exact ⟨_, rfl⟩
  rw [short, debug_of_several several, String.append_left_inj, String.append_right_inj,
    codes] at same
  have begins := toList_intercalate_cons (other.classText 0) (rest.map other.classText)
  rw [List.map_cons] at same
  rw [← same, toList_classText] at begins
  have heads : some '\x7b' = some '0' := congrArg List.head? begins
  exact absurd heads (by decide)

/-- Two texts of classes are equal exactly if the classes are, or both claim to be as many as the
bytes. -/
theorem debug_eq_iff (below : ∀ b, (classes.get b).toNat < classes.alphabetLen)
    (below' : ∀ b, (other.get b).toNat < other.alphabetLen) :
    classes.debug = other.debug ↔
      classes = other ∨ (classes.isSingletons = true ∧ other.isSingletons = true) := by
  constructor
  · intro same
    cases single : classes.isSingletons with
    | true =>
      cases single' : other.isSingletons with
      | true => exact .inr ⟨rfl, rfl⟩
      | false => exact absurd same (debug_ne_of_isSingletons single single')
    | false =>
      cases single' : other.isSingletons with
      | true => exact absurd same.symm (debug_ne_of_isSingletons single' single)
      | false => exact .inl (eq_of_debug_eq below below' single single' same)
  · intro alike
    rcases alike with rfl | ⟨single, single'⟩
    · rfl
    · rw [debug, debug, if_pos single, if_pos single']

end ByteClasses
end ByteDFA
