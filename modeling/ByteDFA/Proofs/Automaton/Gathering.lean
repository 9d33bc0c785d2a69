import ByteDFA.Automaton.Accelerator
import ByteDFA.Proofs.Byte.Sets

/-!
# Gathering the bytes of an accelerator

The bytes on which an attempt has to begin are gathered by a loop over the entries of a start state,
in which there is a loop over all bytes. Both loops add bytes to a set, and both give up early: one
where the set gets too large, the other also where an entry leads to a state of the wrong kind. What
one step adds and what it asks for is said once for each loop (`gatherByte?_eq_some_iff`,
`gatherConfig?_eq_some_iff`), and what a loop of such steps comes to is the same for both of them
(`foldlM_eq_some_iff`): it has to be allowed every step, and the bytes that it ends with, if they
are few enough, are those of all steps. So it does not matter in which order the bytes were found,
or which of several reasons to give up was met first.

In the end the set is put into a buffer, which has room for all of its bytes (`needles_ofSet`).
-/

set_option autoImplicit false

namespace ByteDFA

open Cursor

theorem ByteSet.exists_contains_iff (p : UInt8 → Prop) :
    ∃ set : ByteSet, ∀ b, set.contains b = true ↔ p b := by
  classical
  refine ⟨(∅ : ByteSet).addAll (Byte.all.filter (decide <| p ·)), fun b => ?_⟩
  rw [contains_added, List.mem_filter, decide_eq_true_iff]
  exact and_iff_right (Byte.mem_all b)

theorem StartConfig.mem_all (config : StartConfig) : config ∈ all := by
  cases config <;> decide

namespace Accelerator

variable {classes : ByteClasses} {state? : StateId → Option State} {table : TransitionTable}
  {entries : TransitionTable} {config : StartConfig} {start : State} {set found : ByteSet}
  {accelerator : Accelerator} {b : UInt8} {p q : UInt8 → Prop}

/-! ## Adding bytes to a set -/

/-- What is found are the bytes of the set and those with the property, and these are not too
many. -/
structure Gathers (set found : ByteSet) (p : UInt8 → Prop) : Prop where
  few : found.size ≤ limit
  contains_iff : ∀ b, found.contains b = true ↔ set.contains b = true ∨ p b

theorem gathers_congr (same : ∀ b, p b ↔ q b) : Gathers set found p ↔ Gathers set found q := by
  obtain rfl : p = q := funext fun b => propext (same b)
  exact Iff.rfl

theorem gathers_nothing (few : set.size ≤ limit) (nothing : ∀ b, ¬p b) :
    Gathers set found p ↔ set = found := by
  constructor
  · intro gathers
    refine ByteSet.ext fun b => Bool.eq_iff_iff.2 ?_
    rw [gathers.contains_iff, or_iff_left (nothing b)]
  · rintro rfl
    exact ⟨few, fun b => (or_iff_left (nothing b)).symm⟩

/-- Bytes may be added in two turns. The set in between is no larger than the last one. -/
theorem exists_gathers_iff :
    (∃ between, Gathers set between p ∧ Gathers between found q) ↔
      Gathers set found fun b => p b ∨ q b := by
  constructor
  · rintro ⟨between, first, second⟩
    refine ⟨second.few, fun b => ?_⟩
    rw [second.contains_iff, first.contains_iff, or_assoc]
  · intro gathers
    obtain ⟨between, contains⟩ := ByteSet.exists_contains_iff fun b => set.contains b = true ∨ p b
    have among : between.size ≤ found.size := ByteSet.size_le fun b mem => by
      rw [gathers.contains_iff, ← or_assoc]
      exact .inl ((contains b).1 mem)
    refine ⟨between, ⟨Nat.le_trans among gathers.few, contains⟩, gathers.few, fun b => ?_⟩
    rw [gathers.contains_iff, contains, or_assoc]

/-- What a loop comes to if each of its steps asks for something and adds some bytes. This is an
induction on the steps that are left; each of them begins with a set that is not too large. -/
theorem foldlM_eq_some_iff {ι : Type} {step : ByteSet → ι → Option ByteSet} {allowed : ι → Prop}
    {adds : ι → UInt8 → Prop}
    (steps : ∀ {set found : ByteSet} (item : ι), set.size ≤ limit →
      (step set item = some found ↔ allowed item ∧ Gathers set found (adds item)))
    (items : List ι) (few : set.size ≤ limit) :
    items.foldlM step set = some found ↔
      (∀ item ∈ items, allowed item) ∧ Gathers set found fun b => ∃ item ∈ items, adds item b := by
  induction items generalizing set with
  | nil =>
    rw [gathers_nothing few (by simp)]
    exact ⟨fun same => ⟨nofun, Option.some.inj same⟩, fun same => congrArg some same.2⟩
  | cons item items ih =>
    have together : ∀ b, (∃ item' ∈ item :: items, adds item' b) ↔
        adds item b ∨ ∃ item' ∈ items, adds item' b := fun b => List.exists_mem_cons_iff ..
    rw [List.foldlM_cons, gathers_congr together, ← exists_gathers_iff, List.forall_mem_cons]
    constructor
    · intro ends
      obtain ⟨between, first, ends⟩ := Option.bind_eq_some_iff.1 ends
      obtain ⟨here, first⟩ := (steps item few).1 first
      obtain ⟨later, rest⟩ := (ih first.few).1 ends
      exact ⟨⟨here, later⟩, between, first, rest⟩
    · rintro ⟨⟨here, later⟩, between, first, rest⟩
      exact Option.bind_eq_some_iff.2 ⟨between, (steps item few).2 ⟨here, first⟩,
        (ih first.few).2 ⟨later, rest⟩⟩

/-! ## One byte, one entry -/

theorem gatherByte?_eq_some_iff (b : UInt8) (few : set.size ≤ limit) :
    gatherByte? classes table set b = some found ↔
      True ∧ Gathers set found fun c =>
        c = b ∧ (table.get? (classes.get b).toNat).isSome = true := by
  rw [true_and]
  unfold gatherByte?
  by_cases goes_on : (table.get? (classes.get b).toNat).isSome = true
  · have added : ∀ c, (set.add b).contains c = true ↔
        set.contains c = true ∨ c = b ∧ (table.get? (classes.get b).toNat).isSome = true := by
      intro c
      rw [ByteSet.contains_add, Bool.or_eq_true, decide_eq_true_iff, and_iff_left goes_on,
        eq_comm (a := b)]
    rw [if_pos goes_on]
    dsimp only
    split
    · rename_i many
      refine iff_of_false (fun absurd => nomatch absurd) fun gathers => ?_
      -- Every set with the byte is at least as large as the one that is given up.
      have among : (set.add b).size ≤ found.size := ByteSet.size_le fun c mem =>
        (gathers.contains_iff c).2 ((added c).1 mem)
      exact Nat.not_le_of_lt many (Nat.le_trans among gathers.few)
    · rename_i not_many
      constructor
      · rintro ⟨⟩
        exact ⟨Nat.le_of_not_lt not_many, added⟩
      · intro gathers
        refine congrArg some (ByteSet.ext fun c => Bool.eq_iff_iff.2 ?_)
        rw [added, gathers.contains_iff]
  · rw [if_neg goes_on, gathers_nothing few fun c here => goes_on here.2]
    exact (Option.some.injEq ..).to_iff

/-- The loop over all bytes adds those for which the table has a successor. -/
theorem gatherBytes_eq_some_iff (few : set.size ≤ limit) :
    Byte.all.foldlM (gatherByte? classes table) set = some found ↔
      Gathers set found fun b => (table.get? (classes.get b).toNat).isSome = true := by
  have same : ∀ b, (∃ c ∈ Byte.all, b = c ∧ (table.get? (classes.get c).toNat).isSome = true) ↔
      (table.get? (classes.get b).toNat).isSome = true := by
    intro b
    constructor
    · rintro ⟨c, -, rfl, goes_on⟩
      exact goes_on
    · intro goes_on
      exact ⟨b, Byte.mem_all b, rfl, goes_on⟩
  rw [foldlM_eq_some_iff gatherByte?_eq_some_iff _ few, gathers_congr same,
    and_iff_right fun _ _ => trivial]

/-- The entry for a configuration leads to a matcher that does not accept and has this table. -/
def Enters (state? : StateId → Option State) (entries : TransitionTable) (config : StartConfig)
    (table : TransitionTable) : Prop :=
  ∃ entry, entries.get? config.index = some entry ∧ entryTable? state? entry = some table

theorem enters_iff :
    Enters state? entries config table ↔
      (entries.get? config.index).bind (entryTable? state?) = some table :=
  Option.bind_eq_some_iff.symm

theorem enters_iff_of_entry {entry : StateId} (here : entries.get? config.index = some entry) :
    Enters state? entries config table ↔ entryTable? state? entry = some table := by
  rw [enters_iff, here, Option.bind_some]

theorem not_enters_of_missing (missing : entries.get? config.index = none) :
    ¬Enters state? entries config table := by
  rw [enters_iff, missing]
  exact fun absurd => nomatch absurd

/-- The entry for a configuration does not rule acceleration out. -/
def Suits (state? : StateId → Option State) (entries : TransitionTable) (config : StartConfig) :
    Prop :=
  entries.get? config.index = none ∨ ∃ table, Enters state? entries config table

/-- The matcher that is entered in a configuration goes on with the byte. -/
def Begins (classes : ByteClasses) (state? : StateId → Option State) (entries : TransitionTable)
    (config : StartConfig) (b : UInt8) : Prop :=
  ∃ table, Enters state? entries config table ∧ (table.get? (classes.get b).toNat).isSome = true

theorem gatherConfig?_eq_some_iff (config : StartConfig) (few : set.size ≤ limit) :
    gatherConfig? classes state? entries set config = some found ↔
      (config ≠ .text → Suits state? entries config) ∧
        Gathers set found fun b => config ≠ .text ∧ Begins classes state? entries config b := by
  unfold gatherConfig?
  by_cases first : config = .text
  · rw [if_pos first, gathers_nothing few fun b begins => begins.1 first,
      and_iff_right fun later => absurd first later]
    exact (Option.some.injEq ..).to_iff
  rw [if_neg first]
  cases here : entries.get? config.index with
  | none =>
    have nothing : ∀ b, ¬(config ≠ .text ∧ Begins classes state? entries config b) := by
      rintro b ⟨-, table, enters, -⟩
      exact not_enters_of_missing here enters
    rw [gathers_nothing few nothing, and_iff_right fun _ => .inl here]
    exact (Option.some.injEq ..).to_iff
  | some entry =>
    dsimp only
    cases at_entry : entryTable? state? entry with
    | none =>
      refine iff_of_false (fun absurd => nomatch absurd) fun suits => ?_
      rcases suits.1 first with missing | ⟨table, enters⟩
      · cases here.symm.trans missing
      · cases at_entry.symm.trans ((enters_iff_of_entry here).1 enters)
    | some table =>
      have enters : Enters state? entries config table := (enters_iff_of_entry here).2 at_entry
      have same : ∀ b, (table.get? (classes.get b).toNat).isSome = true ↔
          config ≠ .text ∧ Begins classes state? entries config b := by
        intro b
        constructor
        · intro goes_on
          exact ⟨first, table, enters, goes_on⟩
        · rintro ⟨-, other, enters', goes_on⟩
          cases at_entry.symm.trans ((enters_iff_of_entry here).1 enters')
          exact goes_on
      rw [Option.bind_eq_bind, Option.bind_some, gatherBytes_eq_some_iff few, gathers_congr same,
        and_iff_right fun _ => .inr ⟨table, enters⟩]

/-! ## All entries -/

theorem gather?_eq_some_iff :
    gather? classes state? start = some set ↔
      start.kind = .start ∧ (∀ config, config ≠ .text → Suits state? start.table config) ∧
        set.size ≤ limit ∧ ∀ b, set.contains b = true ↔
          ∃ config, config ≠ .text ∧ Begins classes state? start.table config b := by
  have run : StartConfig.all.foldlM (gatherConfig? classes state? start.table) ∅ = some set ↔
      (∀ config, config ≠ .text → Suits state? start.table config) ∧ set.size ≤ limit ∧
        ∀ b, set.contains b = true ↔
          ∃ config, config ≠ .text ∧ Begins classes state? start.table config b := by
    have few : (∅ : ByteSet).size ≤ limit := ByteSet.size_empty ▸ Nat.zero_le limit
    rw [foldlM_eq_some_iff gatherConfig?_eq_some_iff _ few]
    simp only [StartConfig.mem_all, forall_const, true_and]
    refine and_congr_right fun _ => ⟨fun gathers => ⟨gathers.few, fun b => ?_⟩,
      fun gathers => ⟨gathers.1, fun b => ?_⟩⟩
    · rw [gathers.contains_iff, ByteSet.contains_empty, or_iff_right Bool.false_ne_true]
    · rw [gathers.2, ByteSet.contains_empty, or_iff_right Bool.false_ne_true]
  obtain ⟨id, table, role⟩ := start
  cases role with
  | start slots => exact run.trans (and_iff_right rfl).symm
  | matcher | final | traceFinder =>
    exact iff_of_false (fun absurd => nomatch absurd) fun described => nomatch described.1

/-! ## The buffer -/

theorem needles_empty : empty.needles = [] := rfl

theorem needles_push (room : accelerator.needles.length < limit) (b : UInt8) :
    (accelerator.push b).needles = accelerator.needles ++ [b] := by
  rw [length_needles] at room
  have inside : accelerator.count < (accelerator.buffer.toList.set accelerator.count b).length := by
    rw [List.length_set, Vector.length_toList]
    exact room
  rw [push, dif_pos room]
  unfold needles
  rw [Vector.toList_set]
  show List.take (accelerator.count + 1) _ = _
  rw [List.take_succ_eq_append_getElem inside, List.getElem_set_self,
    List.take_set_of_le (Nat.le_refl _)]

theorem needles_foldl_push (bytes : List UInt8)
    (room : accelerator.needles.length + bytes.length ≤ limit) :
    (bytes.foldl push accelerator).needles = accelerator.needles ++ bytes := by
  induction bytes generalizing accelerator with
  | nil => exact (List.append_nil _).symm
  | cons b bytes ih =>
    rw [List.length_cons] at room
    have room_for_one : accelerator.needles.length < limit := by omega
    have pushed := needles_push room_for_one b
    have room' : (accelerator.push b).needles.length + bytes.length ≤ limit := by
      rw [pushed, List.length_append, List.length_singleton]
      omega
    rw [List.foldl_cons, ih room', pushed, List.append_assoc, List.singleton_append]

theorem fill_eq_foldl {cursor : ByteCursor} {bytes : List UInt8}
    (lists : Lists ByteCursor.next cursor bytes) (accelerator : Accelerator) :
    accelerator.fill cursor = bytes.foldl push accelerator := by
  induction bytes generalizing cursor accelerator with
  | nil =>
    obtain ⟨asked, -⟩ := lists_iff.1 lists
    rw [fill]
    split
    · rfl
    · rename_i answer
      rw [answer] at asked
      cases asked
  | cons b bytes ih =>
    obtain ⟨asked, rest⟩ := lists_iff.1 lists
    rw [fill]
    split
    · rename_i answer
      rw [answer] at asked
      cases asked
    · rename_i answer
      rw [answer] at asked rest
      cases asked
      exact ih rest _

/-- A set that is not too large fits into the buffer. -/
theorem needles_ofSet (few : set.size ≤ limit) : (ofSet set).needles = set.toList := by
  rw [ByteSet.size_eq_length] at few
  rw [ofSet, fill_eq_foldl set.lists_cursor, needles_foldl_push, needles_empty, List.nil_append]
  rw [needles_empty, List.length_nil, Nat.zero_add]
  exact few

/-! ## What the accelerator consists of -/

theorem ofStart?_isSome_iff :
    (ofStart? classes state? start).isSome = true ↔
      start.kind = .start ∧ (∀ config, config ≠ .text → Suits state? start.table config) ∧
        ∃ set : ByteSet, set.size ≤ limit ∧ ∀ b, set.contains b = true ↔
          ∃ config, config ≠ .text ∧ Begins classes state? start.table config b := by
  rw [ofStart?, Option.isSome_map, Option.isSome_iff_exists]
  simp only [gather?_eq_some_iff, exists_and_left]

theorem exists_of_ofStart? (known : ofStart? classes state? start = some accelerator) :
    start.kind = .start ∧ (∀ config, config ≠ .text → Suits state? start.table config) ∧
      (∀ b, b ∈ accelerator.needles ↔
        ∃ config, config ≠ .text ∧ Begins classes state? start.table config b) ∧
      accelerator.needles.Pairwise (· < ·) := by
  obtain ⟨set, gathered, rfl⟩ := Option.map_eq_some_iff.1 known
  obtain ⟨kind, suits, few, contains⟩ := gather?_eq_some_iff.1 gathered
  rw [needles_ofSet few]
  exact ⟨kind, suits, fun b => ByteSet.mem_toList.trans (contains b), set.pairwise_toList⟩

end Accelerator
end ByteDFA
