import Mathlib.Data.List.Basic
import Mathlib.Data.List.Count
import ByteDFA.Cursor
import ByteDFA.TransitionTable

/-!
# Tables as lists of optional successors

A recipe makes a table and changes it entry by entry, and the same recipe can be read as one for a
list of optional successors. In this list the mark for having no successor does not occur: wherever
it stands for an identifier, it means that there is none. A recipe that sets only entries that exist
makes a table (`Recipe.exists_make?_eq_some`), and whatever the table is asked, it answers as the
list does (`made_entries`).
-/

set_option autoImplicit false

namespace ByteDFA

open Cursor

theorem StateId.successor?_injective : Function.Injective StateId.successor? :=
  Function.LeftInverse.injective ofSuccessor_successor?

namespace TransitionTable

variable {table : TransitionTable} {id source : StateId} {next : Option StateId}

/-! ## The views of a table -/

theorem lists_cursor (table : TransitionTable) :
    Lists TransitionCursor.next table.cursor table.toList := by
  unfold cursor toList
  induction table.packed.toList with
  | nil =>
    refine @lists_nil _ _ _ _ (fun cursor => cursor.left = []) (fun cursor finished => ?_) rfl
    rw [TransitionCursor.next, finished]
    exact ⟨rfl, finished⟩
  | cons id left ih => exact Lists.cons rfl ih

theorem packed_eq (table : TransitionTable) :
    table.packed.toList = table.toList.map StateId.ofSuccessor := by
  rw [toList, List.map_map]
  exact (List.map_id'' StateId.ofSuccessor_successor? _).symm

theorem contains_iff_mem_toList : table.contains id = true ↔ id.successor? ∈ table.toList := by
  rw [contains_iff, toList, List.mem_map_of_injective StateId.successor?_injective,
    Array.mem_toList_iff]

theorem occurrences_eq (table : TransitionTable) (id : StateId) :
    table.occurrences id = table.toList.count id.successor? := by
  rw [toList, List.count_map_of_injective _ _ StateId.successor?_injective, Array.count_toList]
  rfl

/-- Redirecting replaces the entries that mean the same as the source. -/
theorem toList_redirect_eq_map (table : TransitionTable) (source : StateId)
    (next : Option StateId) :
    (table.redirect source next).toList = table.toList.map fun entry =>
      if entry = source.successor? then next.bind StateId.successor? else entry := by
  rw [toList_redirect, toList, List.map_map]
  refine List.map_congr_left fun id _ => ?_
  rw [Function.comp_apply]
  exact if_congr StateId.successor?_injective.eq_iff.symm rfl rfl

/-- Nothing leads to the source any more, unless it has been replaced by itself. -/
theorem contains_redirect_source :
    (table.redirect source next).contains source = true ↔
      source.successor? ∈ table.toList ∧ next.bind StateId.successor? = source.successor? := by
  rw [contains_iff_mem_toList, toList_redirect_eq_map, List.mem_map]
  constructor
  · rintro ⟨entry, mem, same⟩
    split at same
    · rename_i here
      exact ⟨here ▸ mem, same⟩
    · rename_i other
      exact absurd same other
  · rintro ⟨mem, same⟩
    exact ⟨_, mem, (if_pos rfl).trans same⟩

/-! ## Tables that are made and changed -/

/-- How a table is made, and what is changed in it afterwards. -/
inductive Recipe where
  | blank (size : Nat)
  | ofList (successors : List (Option StateId))
  | copy (original : Recipe)
  | set (recipe : Recipe) (index : Nat) (next : Option StateId)
  | redirect (recipe : Recipe) (source : StateId) (next : Option StateId)

namespace Recipe

/-- The table, unless an entry is to be set that does not exist. -/
def make? : Recipe → Option TransitionTable
  | blank size => some (.blank size)
  | ofList successors => some (.ofList successors)
  | copy original => return (← original.make?).copy
  | set recipe index next => do (← recipe.make?).set? index next
  | redirect recipe source next => return (← recipe.make?).redirect source next

/-- The list of optional successors. -/
def entries : Recipe → List (Option StateId)
  | blank size => List.replicate size none
  | ofList successors => successors.map (·.bind StateId.successor?)
  | copy original => original.entries
  | set recipe index next => recipe.entries.set index (next.bind StateId.successor?)
  | redirect recipe source next => recipe.entries.map fun entry =>
    if entry = source.successor? then next.bind StateId.successor? else entry

/-- Whether only entries are set that exist. -/
def InRange : Recipe → Prop
  | blank _ => True
  | ofList _ => True
  | copy original => original.InRange
  | set recipe index _ => recipe.InRange ∧ index < recipe.entries.length
  | redirect recipe _ _ => recipe.InRange

variable {recipe : Recipe} {table : TransitionTable}

theorem toList_of_make? (made : recipe.make? = some table) : table.toList = recipe.entries := by
  induction recipe generalizing table with
  | blank size =>
    cases made
    exact toList_blank size
  | ofList successors =>
    cases made
    exact toList_ofList successors
  | copy original ih =>
    obtain ⟨start, found, result⟩ := Option.bind_eq_some_iff.1 made
    cases result
    rw [copy_eq, ih found, entries]
  | set recipe index next ih =>
    obtain ⟨start, found, result⟩ := Option.bind_eq_some_iff.1 made
    rw [toList_set? result, ih found, entries]
  | redirect recipe source next ih =>
    obtain ⟨start, found, result⟩ := Option.bind_eq_some_iff.1 made
    cases result
    rw [toList_redirect_eq_map, ih found, entries]

theorem exists_make?_eq_some (inRange : recipe.InRange) : ∃ table, recipe.make? = some table := by
  induction recipe with
  | blank size => exact ⟨_, rfl⟩
  | ofList successors => exact ⟨_, rfl⟩
  | copy original ih =>
    obtain ⟨start, found⟩ := ih inRange
    exact ⟨start.copy, Option.bind_eq_some_iff.2 ⟨start, found, rfl⟩⟩
  | set recipe index next ih =>
    obtain ⟨start, found⟩ := ih inRange.1
    have inside : index < start.size := by
      rw [← length_toList, toList_of_make? found]
      exact inRange.2
    obtain ⟨changed, set⟩ :=
      Option.ne_none_iff_exists'.1 (mt set?_eq_none_iff.1 (Nat.not_le_of_lt inside))
    exact ⟨changed, Option.bind_eq_some_iff.2 ⟨start, found, set⟩⟩
  | redirect recipe source next ih =>
    obtain ⟨start, found⟩ := ih inRange
    exact ⟨start.redirect source next, Option.bind_eq_some_iff.2 ⟨start, found, rfl⟩⟩

end Recipe

/-- A table that is made and changed only where it has entries is a list of optional successors. It
has as many entries as the list, looking one up or going through them gives what is in the list,
which is never the mark for having no successor, and tables are equal if and only if the lists are.
Redirecting replaces the entries that are the source, or those without a successor if the source is
the mark, and no others. It reports how many of them there were, and afterwards the source does not
occur unless it was replaced by itself. -/
theorem made_entries (recipe : Recipe) (inRange : recipe.InRange) :
    ∃ table, recipe.make? = some table ∧
      table.size = recipe.entries.length ∧
      (∀ index, table.get? index = recipe.entries[index]?.join) ∧
      Lists TransitionCursor.next table.cursor recipe.entries ∧
      some StateId.noSuccessor ∉ recipe.entries ∧
      table.packed.toList = recipe.entries.map StateId.ofSuccessor ∧
      (∀ id, table.contains id = true ↔ id.successor? ∈ recipe.entries) ∧
      (∀ (other : Recipe) table', other.make? = some table' →
        (table = table' ↔ recipe.entries = other.entries)) ∧
      ∀ source next,
        table.redirectCounting source next =
          (table.redirect source next, recipe.entries.count source.successor?) ∧
        (table.redirect source next).size = table.size ∧
        (table.redirect source next).toList = recipe.entries.map (fun entry =>
          if entry = source.successor? then next.bind StateId.successor? else entry) ∧
        ((table.redirect source next).contains source = true ↔
          source.successor? ∈ recipe.entries ∧
            next.bind StateId.successor? = source.successor?) := by
  obtain ⟨table, made⟩ := Recipe.exists_make?_eq_some inRange
  have entries := Recipe.toList_of_make? made
  refine ⟨table, made, ?_⟩
  rw [← entries]
  refine ⟨table.length_toList.symm, table.get?_eq_toList, table.lists_cursor,
    table.some_noSuccessor_not_mem_toList, table.packed_eq, fun id => contains_iff_mem_toList,
    fun other table' made' => ?_, fun source next => ⟨?_, table.size_redirect source next,
      table.toList_redirect_eq_map source next, contains_redirect_source⟩⟩
  · rw [← Recipe.toList_of_make? made']
    exact ⟨congrArg toList, toList_injective⟩
  · rw [redirectCounting_eq, occurrences_eq]

/-- The mark is given as a successor, set as one and redirected: each time it stands for having
none, so the entries without a successor are the ones that lead to the new one. Then all three are
replaced again, and nothing leads there any more. -/
theorem made_entries_mark :
    ∃ table, (Recipe.redirect (.set (.copy (.ofList [some (.ofNat 1), some .noSuccessor,
        some (.ofNat 2), none])) 0 (some .noSuccessor)) .noSuccessor (some (.ofNat 7))).make? =
          some table ∧
      Lists TransitionCursor.next table.cursor
        [some (.ofNat 7), some (.ofNat 7), some (.ofNat 2), some (.ofNat 7)] ∧
      table.get? 2 = some (.ofNat 2) ∧ table.get? 4 = none ∧
      (table.redirectCounting (.ofNat 7) none).2 = 3 ∧
      (table.redirect (.ofNat 7) none).toList = [none, none, some (.ofNat 2), none] ∧
      (table.redirect (.ofNat 7) none).contains (.ofNat 7) = false := by
  have entries : (Recipe.redirect (.set (.copy (.ofList [some (.ofNat 1), some .noSuccessor,
      some (.ofNat 2), none])) 0 (some .noSuccessor)) .noSuccessor (some (.ofNat 7))).entries =
        [some (.ofNat 7), some (.ofNat 7), some (.ofNat 2), some (.ofNat 7)] := by decide
  obtain ⟨table, made, -, get, lists, -, -, -, -, redirects⟩ := made_entries
    (.redirect (.set (.copy (.ofList [some (.ofNat 1), some .noSuccessor, some (.ofNat 2), none])) 0
      (some .noSuccessor)) .noSuccessor (some (.ofNat 7))) ⟨trivial, by decide⟩
  rw [entries] at lists
  simp only [entries] at get redirects
  obtain ⟨counted, -, changed, contained⟩ := redirects (.ofNat 7) none
  refine ⟨table, made, lists, get 2, get 4, ?_, ?_, ?_⟩
  · rw [counted]
    rfl
  · rw [changed]
    decide
  · rw [Bool.eq_false_iff, ne_eq, contained]
    decide

end TransitionTable
end ByteDFA
