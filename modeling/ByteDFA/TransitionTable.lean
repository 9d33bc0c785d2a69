import ByteDFA.StateId
import ByteDFA.Text.Value

/-!
# Transition tables

A transition table is a sequence of optional successors, packed as identifiers in which
`StateId.noSuccessor` stands for having none. Its view is `toList`, or `get?` at an index. The
packing is invisible: no entry reads as a successor with the number of the mark, and tables with the
same view are equal (`toList_injective`).
-/

set_option autoImplicit false

namespace ByteDFA

/-- A sequence of successors, each of which may be missing. -/
structure TransitionTable where
  packed : Array StateId
  deriving DecidableEq

namespace TransitionTable

/-- The table of the given size without any successor. -/
def blank (size : Nat) : TransitionTable := ⟨Array.replicate size StateId.noSuccessor⟩

/-- The table with the given successors. -/
def ofList (successors : List (Option StateId)) : TransitionTable :=
  ⟨(successors.map StateId.ofSuccessor).toArray⟩

/-- The number of entries. -/
def size (table : TransitionTable) : Nat := table.packed.size

/-- Whether there is no entry. -/
def isEmpty (table : TransitionTable) : Bool := table.packed.isEmpty

/-- The successor at an index; there is none beyond the last entry. -/
def get? (table : TransitionTable) (index : Nat) : Option StateId :=
  (table.packed[index]?).bind StateId.successor?

/-- The successors, in order. -/
def toList (table : TransitionTable) : List (Option StateId) :=
  table.packed.toList.map StateId.successor?

/-- The table with one entry replaced, if there is such an entry. -/
def set? (table : TransitionTable) (index : Nat) (next : Option StateId) :
    Option TransitionTable :=
  if h : index < table.packed.size then
    some ⟨table.packed.set index (StateId.ofSuccessor next) h⟩
  else none

/-- Whether some entry holds an identifier. The mark for having no successor is held by the
entries without one. -/
def contains (table : TransitionTable) (id : StateId) : Bool := table.packed.contains id

/-- The table with every entry that holds `source` replaced. -/
def redirect (table : TransitionTable) (source : StateId) (next : Option StateId) :
    TransitionTable :=
  let target := StateId.ofSuccessor next
  ⟨table.packed.map fun id => if id = source then target else id⟩

/-- The table built anew from its entries. -/
def copy (table : TransitionTable) : TransitionTable := ⟨table.packed.toList.toArray⟩

/-- The number of entries that hold an identifier, which is how many of them `redirect` replaces. -/
def occurrences (table : TransitionTable) (id : StateId) : Nat := table.packed.count id

/-- One more entry taken over from a table, with the number of those that have been replaced. -/
def redirectEntry (source target : StateId) (done : Array StateId × Nat) (id : StateId) :
    Array StateId × Nat :=
  if id = source then (done.1.push target, done.2 + 1) else (done.1.push id, done.2)

/-- The table with every entry that holds `source` replaced, and the number of these entries, in one
pass (`redirectCounting_eq`). -/
def redirectCounting (table : TransitionTable) (source : StateId) (next : Option StateId) :
    TransitionTable × Nat :=
  let done := table.packed.foldl (redirectEntry source (StateId.ofSuccessor next)) (#[], 0)
  (⟨done.1⟩, done.2)

/-- The text of one entry. -/
def entryText (next : Option StateId) : String :=
  match next with
  | none => "-"
  | some id => toString id

/-- The text of the table as a value. -/
def debug (table : TransitionTable) : String := ValueText.list (table.toList.map entryText)

theorem get?_eq_toList (table : TransitionTable) (index : Nat) :
    table.get? index = table.toList[index]?.join := by
  simp only [get?, toList, List.getElem?_map, Array.getElem?_toList]
  cases table.packed[index]? <;> rfl

theorem some_mem_toList_iff {table : TransitionTable} {next : StateId} :
    some next ∈ table.toList ↔ ∃ index, table.get? index = some next := by
  simp only [List.mem_iff_getElem?, get?_eq_toList, Option.join_eq_some_iff]

@[simp] theorem length_toList (table : TransitionTable) : table.toList.length = table.size := by
  simp [toList, size]

theorem toList_injective {a b : TransitionTable} (h : a.toList = b.toList) : a = b := by
  have unpack : ∀ t : TransitionTable,
      t.toList.map StateId.ofSuccessor = t.packed.toList := by
    intro t
    simp [toList, Function.comp_def]
  have := congrArg (List.map StateId.ofSuccessor) h
  rw [unpack, unpack] at this
  cases a; cases b
  exact congrArg mk (Array.toList_inj.1 this)

theorem some_noSuccessor_not_mem_toList (table : TransitionTable) :
    some StateId.noSuccessor ∉ table.toList := by
  intro h
  obtain ⟨id, -, hid⟩ := List.mem_map.1 h
  exact StateId.successor?_ne_some_noSuccessor id hid

theorem contains_iff {table : TransitionTable} {id : StateId} :
    table.contains id = true ↔ id ∈ table.packed :=
  Array.contains_iff_mem

theorem copy_eq (table : TransitionTable) : table.copy = table := by
  rw [copy, Array.toArray_toList]

@[simp] theorem toList_blank (size : Nat) :
    (blank size).toList = List.replicate size none := by
  simp [blank, toList]

/-- A table has the successors that it was made from, except that the mark for having none is not
a successor. -/
theorem toList_ofList (successors : List (Option StateId)) :
    (ofList successors).toList = successors.map (·.bind StateId.successor?) := by
  simp only [ofList, toList, List.map_map]
  exact List.map_congr_left fun next _ => StateId.successor?_ofSuccessor next

theorem toList_set? {table changed : TransitionTable} {index : Nat} {next : Option StateId}
    (h : table.set? index next = some changed) :
    changed.toList = table.toList.set index (next.bind StateId.successor?) := by
  simp only [set?] at h
  split at h
  · cases h
    simp [toList, List.map_set, StateId.successor?_ofSuccessor]
  · cases h

theorem set?_eq_none_iff {table : TransitionTable} {index : Nat} {next : Option StateId} :
    table.set? index next = none ↔ table.size ≤ index := by
  simp [set?, size]

theorem toList_redirect (table : TransitionTable) (source : StateId) (next : Option StateId) :
    (table.redirect source next).toList = table.packed.toList.map fun id =>
      if id = source then next.bind StateId.successor? else id.successor? := by
  simp only [redirect, toList, Array.toList_map, List.map_map]
  refine List.map_congr_left fun id _ => ?_
  by_cases h : id = source <;> simp [h, StateId.successor?_ofSuccessor]

@[simp] theorem size_redirect (table : TransitionTable) (source : StateId)
    (next : Option StateId) : (table.redirect source next).size = table.size := by
  simp [redirect, size]

/-- Redirecting replaces the successors that are the source, and no others. -/
theorem get?_redirect {source : StateId} (valid : source ≠ StateId.noSuccessor)
    (table : TransitionTable) (next : Option StateId) (index : Nat) :
    (table.redirect source next).get? index = (table.get? index).bind fun id =>
      if id = source then next.bind StateId.successor? else some id := by
  unfold get? redirect
  rw [Array.getElem?_map]
  cases table.packed[index]? with
  | none => rfl
  | some id =>
    by_cases here : id = source
    · subst here
      simp [StateId.successor?_ofSuccessor, StateId.successor?_of_ne valid]
    · by_cases rejects : id = StateId.noSuccessor
      · simp [rejects, Ne.symm valid]
      · simp [here, StateId.successor?_of_ne rejects]

theorem redirect_self (table : TransitionTable) (source : StateId) :
    table.redirect source (some source) = table := by
  unfold redirect
  have same : (fun id => if id = source then StateId.ofSuccessor (some source) else id) = id := by
    funext id
    split
    · rename_i here
      rw [here]
      rfl
    · rfl
  dsimp only
  rw [same, Array.map_id]

/-- A pass through some entries takes them over behind those before them, and adds to their number
the replaced ones. -/
theorem foldl_redirectEntry (source target : StateId) (entries : List StateId)
    (done : Array StateId × Nat) :
    entries.foldl (redirectEntry source target) done =
      (done.1 ++ (entries.map fun id => if id = source then target else id).toArray,
        done.2 + entries.count source) := by
  induction entries generalizing done with
  | nil => simp
  | cons id entries ih =>
    rw [List.foldl_cons, ih, redirectEntry]
    by_cases here : id = source
    · subst here
      have counted : done.2 + 1 + entries.count id = done.2 + (id :: entries).count id := by
        rw [List.count_cons_self]
        omega
      rw [if_pos rfl, counted]
      simp
    · simp [here]

theorem redirectCounting_eq (table : TransitionTable) (source : StateId) (next : Option StateId) :
    table.redirectCounting source next =
      (table.redirect source next, table.occurrences source) := by
  rw [redirectCounting, ← Array.foldl_toList, foldl_redirectEntry, ← Array.toList_map,
    Array.toArray_toList, Array.empty_append, Array.count_toList, Nat.zero_add]
  rfl

end TransitionTable

/-- The entries of a table from some index on. -/
structure TransitionCursor where
  left : List StateId
  deriving DecidableEq

/-- The successor at the next entry, if there is one more entry, and the cursor behind it. -/
def TransitionCursor.next (cursor : TransitionCursor) :
    Option (Option StateId) × TransitionCursor :=
  match cursor.left with
  | [] => (none, cursor)
  | id :: left => (some id.successor?, ⟨left⟩)

/-- The cursor at the first entry of a table. -/
def TransitionTable.cursor (table : TransitionTable) : TransitionCursor := ⟨table.packed.toList⟩

end ByteDFA
