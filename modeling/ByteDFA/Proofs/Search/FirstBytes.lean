import Mathlib.Data.Set.Card
import ByteDFA.Proofs.Byte.ClassCount
import ByteDFA.Proofs.Search.PassedOver

/-!
# The bytes on which a match can begin

An attempt at an offset other than 0 comes from the unanchored start state to one of three entries.
If all that it can come to there are matchers that do not accept, then the bytes on which one of
these goes on are all on which a match can begin (`Automaton.CanBegin`). The accelerator consists of
exactly these bytes, and it exists exactly if there are at most three of them
(`accelerator_firstBytes`). That the loops which gather the bytes come to this, whatever they meet
first, is known from `Accelerator.gather?_eq_some_iff`; here it is said of an automaton as a whole.

That a match begins on such a byte is no matter of acceleration. Whatever decides a search, with or
without the accelerator, is decided at an offset that the accelerator does not pass over.
-/

set_option autoImplicit false

namespace ByteDFA

/-! ## Sets of bytes -/

theorem ByteSet.encard_setOf (set : ByteSet) : {b | set.contains b = true}.encard = set.size := by
  have same : {b | set.contains b = true} = (set.toList.toFinset : Set UInt8) := by
    ext b
    rw [Set.mem_ofPred_eq, Finset.mem_coe, List.mem_toFinset, mem_toList]
  rw [same, Set.encard_coe_eq_coe_finsetCard, size_eq_length,
    List.toFinset_card_of_nodup (Byte.nodup_of_pairwise set.pairwise_toList)]

/-- A property of bytes has no more than `n` of them if it is that of a set of this size. -/
theorem ByteSet.exists_size_le_iff {p : UInt8 → Prop} {n : Nat} :
    (∃ set : ByteSet, set.size ≤ n ∧ ∀ b, set.contains b = true ↔ p b) ↔
      {b | p b}.encard ≤ n := by
  constructor
  · rintro ⟨set, few, contains⟩
    simp only [← contains, encard_setOf]
    exact Nat.cast_le.2 few
  · intro few
    obtain ⟨set, contains⟩ := exists_contains_iff p
    simp only [← contains, encard_setOf] at few
    exact ⟨set, Nat.cast_le.1 few, contains⟩

/-! ## What the accelerator consists of -/

theorem State.exists_role_iff {state : State} :
    (∃ slots, state.role = .matcher slots none) ↔ state.kind = .matcher ∧ state.accept = none := by
  obtain ⟨id, table, role⟩ := state
  cases role <;> simp [kind, accept, Role.kind, Role.accept]

namespace Automaton

variable {automaton : Automaton} {accelerator : Accelerator} {config : StartConfig} {b : UInt8}
  {state : State}

/-- The entry of the unanchored start state for a configuration. -/
def entryId? (automaton : Automaton) (config : StartConfig) : Option StateId :=
  (automaton.state? automaton.unanchoredStart).bind fun start => start.table.get? config.index

/-- The entry for a configuration leads to this state, which is a matcher that does not accept. -/
def EntersMatcher (automaton : Automaton) (config : StartConfig) (state : State) : Prop :=
  ∃ entry, automaton.entryId? config = some entry ∧ automaton.state? entry = some state ∧
    state.kind = .matcher ∧ state.accept = none

/-- In some configuration of a later offset than 0, the matcher that is entered goes on with the
byte. -/
def CanBegin (automaton : Automaton) (b : UInt8) : Prop :=
  ∃ config state, config ≠ .text ∧ automaton.EntersMatcher config state ∧
    (state.table.get? (automaton.classes.get b).toNat).isSome = true

section Start

variable {start : State} {table : TransitionTable}
  (found : automaton.state? automaton.unanchoredStart = some start)

include found

theorem entryId?_of_found : automaton.entryId? config = start.table.get? config.index := by
  rw [entryId?, found, Option.bind_some]

theorem enters_iff_exists :
    Accelerator.Enters automaton.state? start.table config table ↔
      ∃ state, automaton.EntersMatcher config state ∧ state.table = table := by
  constructor
  · rintro ⟨entry, at_config, at_entry⟩
    obtain ⟨id, slots, here⟩ := Accelerator.entryTable?_eq_some_iff.1 at_entry
    exact ⟨_, ⟨entry, (entryId?_of_found found).trans at_config, here, rfl, rfl⟩, rfl⟩
  · rintro ⟨⟨id, table, role⟩, ⟨entry, at_config, here, kind, accept⟩, rfl⟩
    obtain ⟨slots, rfl⟩ := State.exists_role_iff.2 ⟨kind, accept⟩
    exact ⟨entry, (entryId?_of_found found).symm.trans at_config,
      Accelerator.entryTable?_eq_some_iff.2 ⟨id, slots, here⟩⟩

theorem suits_iff_exists :
    Accelerator.Suits automaton.state? start.table config ↔
      automaton.entryId? config = none ∨ ∃ state, automaton.EntersMatcher config state := by
  rw [Accelerator.Suits, entryId?_of_found found]
  simp only [enters_iff_exists found]
  refine or_congr_right ?_
  constructor
  · rintro ⟨_, state, enters, -⟩
    exact ⟨state, enters⟩
  · rintro ⟨state, enters⟩
    exact ⟨_, state, enters, rfl⟩

theorem exists_begins_iff :
    (∃ config, config ≠ .text ∧
        Accelerator.Begins automaton.classes automaton.state? start.table config b) ↔
      automaton.CanBegin b := by
  simp only [Accelerator.Begins, enters_iff_exists found]
  constructor
  · rintro ⟨config, later, _, ⟨state, enters, rfl⟩, goes_on⟩
    exact ⟨config, state, later, enters, goes_on⟩
  · rintro ⟨config, state, later, enters, goes_on⟩
    exact ⟨config, later, _, ⟨state, enters, rfl⟩, goes_on⟩

end Start

/-- The needles are the bytes on which a match can begin, in ascending order. -/
theorem needles_of_accelerator (known : automaton.accelerator = some accelerator) :
    (∀ b, b ∈ accelerator.needles ↔ automaton.CanBegin b) ∧
      accelerator.needles.Pairwise (· < ·) := by
  obtain ⟨start, found, of_start⟩ := Option.bind_eq_some_iff.1 known
  obtain ⟨-, -, needles, ascending⟩ := Accelerator.exists_of_ofStart? of_start
  exact ⟨fun b => (needles b).trans (exists_begins_iff found), ascending⟩

theorem accelerator_isSome_iff (wf : automaton.WellFormed) :
    automaton.accelerator.isSome = true ↔
      (∀ config, config ≠ .text →
        automaton.entryId? config = none ∨ ∃ state, automaton.EntersMatcher config state) ∧
      {b | automaton.CanBegin b}.encard ≤ 3 := by
  obtain ⟨start, found, kind⟩ := wf.unanchored
  rw [Automaton.accelerator, found, Option.bind_some, Accelerator.ofStart?_isSome_iff,
    and_iff_right kind]
  simp only [suits_iff_exists found, exists_begins_iff found]
  exact and_congr_right fun _ => ByteSet.exists_size_le_iff

end Automaton

/-! ## Where a search is decided -/

namespace Search

variable {search : Search} {accelerator : Accelerator} {more offset i cursor : Nat}
  {tried : List Nat} {ending : Ending} {saved : Option Slots}

/-- A verdict that an attempt has decided comes from this attempt. -/
theorem Course.exists_tries
    (course : search.Course more offset tried (.decided i ending cursor saved)) :
    ∃ offset', search.Tries offset' i ending ∧
      ending.decides (search.single i).frame = true := by
  generalize verdict : Verdict.decided i ending cursor saved = decided at course
  induction course with
  | lost | exhausted => cases verdict
  | decided tries decides =>
    cases verdict
    exact ⟨_, tries, decides⟩
  | next _ _ _ ih => exact ih verdict

end Search

namespace Executor

variable {executor : Executor} {automaton : Automaton} {input : Input} {accelerator : Accelerator}
  {i cursor : Nat} {ending : Ending} {saved : Option Slots}

/-- If a search is decided, then its course is, and the limit has not been in the way. -/
theorem exists_course_of_decided (wf : automaton.WellFormed)
    (decided : (executor.report automaton input).verdict = .decided i ending cursor saved) :
    ∃ more tried, (executor.plan automaton input).Course more input.start tried
      (.decided i ending cursor saved) := by
  by_cases inside : input.start ≤ input.haystack.size
  · obtain ⟨tried, verdict, visits, follows⟩ := exists_follows wf executor inside
    rw [report_eq_underBudget inside] at decided
    rcases Nat.lt_or_ge (executor.budgetFor input) visits.length with short | enough
    · have cut := follows.underBudget_of_getElem? wf (List.getElem?_eq_getElem short)
      cases cut.symm.trans decided
    · rw [follows.underBudget_of_length_le wf enough] at decided
      cases decided
      exact ⟨_, tried, follows.course⟩
  · rw [report, if_pos (Nat.lt_of_not_le inside)] at decided
    cases decided

/-- Whatever decides an unanchored search after offset 0 begins with a needle. -/
theorem exists_needle_of_decided (wf : automaton.WellFormed)
    (known : automaton.accelerator = some accelerator) (unanchored : input.anchored = false)
    (decided : (executor.report automaton input).verdict = .decided i ending cursor saved)
    (later : 0 < i) : ∃ b, input.haystack[i]? = some b ∧ b ∈ accelerator.needles := by
  obtain ⟨more, tried, course⟩ := exists_course_of_decided wf decided
  obtain ⟨offset, tries, decides⟩ := course.exists_tries
  have entry : (executor.plan automaton input).entry = automaton.unanchoredStart := by
    rw [plan, Automaton.startFor, unanchored]
    rfl
  cases admitted : accelerator.admits input.haystack i with
  | false =>
    have vain := Search.vain_of_not_admits entry known tries.inside tries.ended admitted
    cases vain.symm.trans decides
  | true =>
    rcases Accelerator.admits_iff.1 admitted with first | needle
    · exact absurd first (Nat.ne_of_gt later)
    · exact needle

end Executor

/-! ## The accelerator -/

namespace Automaton

variable {automaton : Automaton}

/-- An automaton has an accelerator exactly if every entry after offset 0 is absent or leads to a
matcher that does not accept, and there are at most three bytes on which one of these matchers goes
on. The accelerator consists of these bytes, and every match that an unanchored search reports from
an attempt after offset 0 begins with one of them. -/
theorem accelerator_firstBytes {builder : Builder} (built : builder.build = .ok automaton) :
    (automaton.accelerator.isSome = true ↔
        (∀ config, config ≠ .text →
          automaton.entryId? config = none ∨ ∃ state, automaton.EntersMatcher config state) ∧
        {b | automaton.CanBegin b}.encard ≤ 3) ∧
      ∀ accelerator, automaton.accelerator = some accelerator →
        (∀ b, b ∈ accelerator.needles ↔ automaton.CanBegin b) ∧
        accelerator.needles.Pairwise (· < ·) ∧
        ∀ (executor : Executor) (haystack : Haystack) (start : Nat) (captures : Captures),
          executor.search automaton ⟨haystack, start, false⟩ = .ok (some captures) →
            ∃ i ending cursor,
              (executor.report automaton ⟨haystack, start, false⟩).verdict =
                .decided i ending cursor (some captures.slots) ∧
              start ≤ i ∧ (0 < i → ∃ b, haystack[i]? = some b ∧ b ∈ accelerator.needles) := by
  have wf := WellFormed.of_build built
  refine ⟨accelerator_isSome_iff wf, fun accelerator known => ?_⟩
  obtain ⟨needles, ascending⟩ := needles_of_accelerator known
  refine ⟨needles, ascending, fun executor haystack start captures found => ?_⟩
  obtain ⟨i, ending, cursor, decided, le, -⟩ := Executor.exists_decided_of_search_eq_some wf found
  exact ⟨i, ending, cursor, decided, le, Executor.exists_needle_of_decided wf known rfl decided⟩

/-- In the automaton for one or more of `a`, a match can begin on an `a` only. -/
theorem accelerator_firstBytes_aPlus :
    {b | (Builder.aPlus.freeze (.ofNat 0) (.ofNat 0)).CanBegin b}.encard ≤ 3 ∧
      ∀ b, (Builder.aPlus.freeze (.ofNat 0) (.ofNat 0)).CanBegin b ↔ b = 0x61 := by
  obtain ⟨exists_iff, needles⟩ := accelerator_firstBytes Builder.build_aPlus
  have known := Executor.accelerator_aPlus
  refine ⟨(exists_iff.1 (Option.isSome_of_eq_some known)).2, fun b => ?_⟩
  exact ((needles _ known).1 b).symm.trans List.mem_singleton

end Automaton
end ByteDFA
