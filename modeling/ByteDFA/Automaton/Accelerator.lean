import ByteDFA.Byte.Classes
import ByteDFA.Byte.Find
import ByteDFA.Byte.Set
import ByteDFA.State.Basic

/-!
# Accelerators

Most attempts of an unanchored search fail on their first byte. If every way into the automaton,
except at the beginning of the haystack, leads to a matcher that does not accept, then an attempt
gets anywhere only on a byte for which one of these matchers has a successor. When there are at most
three such bytes, a search looks for them instead of trying every offset.

The bytes are gathered entry by entry and byte by byte into a set (`Accelerator.gather?`), which is
given up as soon as it has too many of them. Entries to other states rule acceleration out as well:
executing such a state can report a match or end the search before any byte is read. What has been
gathered is then put into a buffer (`Accelerator.ofSet`).
-/

set_option autoImplicit false

namespace ByteDFA

/-- The largest number of bytes that are worth looking for. -/
def Accelerator.limit : Nat := 3

/-- The bytes on which an attempt has to begin, unless it begins where the haystack does: as many
bytes of the buffer as the count says. -/
structure Accelerator where
  buffer : Vector UInt8 Accelerator.limit
  count : Fin (Accelerator.limit + 1)
  deriving DecidableEq

namespace Accelerator

/-! ## The buffer -/

/-- The accelerator without bytes. -/
def empty : Accelerator := ⟨Vector.replicate limit 0, 0⟩

/-- The bytes to look for. -/
def needles (accelerator : Accelerator) : List UInt8 :=
  accelerator.buffer.toList.take accelerator.count

/-- The accelerator with one more byte behind the others, if the buffer is not full. -/
def push (accelerator : Accelerator) (b : UInt8) : Accelerator :=
  if room : accelerator.count < limit then
    ⟨accelerator.buffer.set accelerator.count b, accelerator.count + 1, Nat.succ_lt_succ room⟩
  else accelerator

/-- Puts the bytes that a cursor has left behind the others. -/
def fill (accelerator : Accelerator) (cursor : ByteCursor) : Accelerator :=
  match _asked : cursor.next with
  | (none, _) => accelerator
  | (some b, rest) => (accelerator.push b).fill rest
termination_by 256 - cursor.position
decreasing_by
  have passed := ByteCursor.position_lt_of_next _asked
  omega

/-- The accelerator for the bytes of a set, in ascending order. -/
def ofSet (set : ByteSet) : Accelerator := empty.fill set.cursor

/-! ## The bytes -/

/-- The start configurations at offsets other than 0. -/
def configs : List StartConfig := [.nonWordByte, .wordByte, .line]

/-- The table that reads the first byte after an entry, if the entry leads to a matcher that does
not accept. -/
def entryTable? (state? : StateId → Option State) (entry : StateId) : Option TransitionTable :=
  match state? entry with
  | some ⟨_, table, .matcher _ none⟩ => some table
  | _ => none

/-- Adds a byte if the table has a successor for it. There is no set if it has too many bytes
then. -/
def gatherByte? (classes : ByteClasses) (table : TransitionTable) (set : ByteSet) (b : UInt8) :
    Option ByteSet :=
  if (table.get? (classes.get b).toNat).isSome then
    let set := set.add b
    if limit < set.size then none else some set
  else some set

/-- Adds the bytes for one of the entries. The configuration at offset 0 does not count, and an
entry that is missing adds nothing. There is no set if the entry rules acceleration out. -/
def gatherConfig? (classes : ByteClasses) (state? : StateId → Option State)
    (entries : TransitionTable) (set : ByteSet) (config : StartConfig) : Option ByteSet :=
  if config = .text then some set
  else
    match entries.get? config.index with
    | none => some set
    | some entry => do
      let table ← entryTable? state? entry
      Byte.all.foldlM (gatherByte? classes table) set

/-- The bytes on which an attempt has to begin, if they can be told and are few enough. -/
def gather? (classes : ByteClasses) (state? : StateId → Option State) (start : State) :
    Option ByteSet :=
  match start.role with
  | .start _ => StartConfig.all.foldlM (gatherConfig? classes state? start.table) ∅
  | _ => none

/-- The accelerator for attempts that begin in a start state, if there is one. -/
def ofStart? (classes : ByteClasses) (state? : StateId → Option State) (start : State) :
    Option Accelerator :=
  (gather? classes state? start).map ofSet

/-! ## Looking for them -/

/-- The first offset, from the given one on, at which an attempt can get anywhere. -/
def find? (accelerator : Accelerator) (haystack : Haystack) (offset : Nat) : Option Nat :=
  Finder.scan.find? accelerator.needles haystack offset

/-- The text of the accelerator as a value. -/
def debug (accelerator : Accelerator) : String :=
  ValueText.list (accelerator.needles.map Byte.escaped)

variable {accelerator : Accelerator} {haystack : Haystack} {offset i : Nat}

theorem length_needles (accelerator : Accelerator) :
    accelerator.needles.length = accelerator.count := by
  rw [needles, List.length_take, Vector.length_toList]
  exact Nat.min_eq_left (Nat.le_of_lt_succ accelerator.count.isLt)

theorem length_needles_le (accelerator : Accelerator) : accelerator.needles.length ≤ limit := by
  rw [length_needles]
  exact Nat.le_of_lt_succ accelerator.count.isLt

/-- It makes no difference by which routines the bytes are looked for. -/
theorem find?_eq_of_firstPosition {finder : Finder} (first : finder.FirstPosition)
    (accelerator : Accelerator) (haystack : Haystack) (offset : Nat) :
    finder.find? accelerator.needles haystack offset = accelerator.find? haystack offset := by
  rw [Finder.firstPosition_iff.1 first, find?]

theorem find?_eq_some_iff :
    accelerator.find? haystack offset = some i ↔
      haystack.FirstFrom accelerator.needles offset i :=
  Finder.scan_firstPosition.find?_eq_some_iff accelerator.length_needles_le

theorem find?_bounds (finds : accelerator.find? haystack offset = some i) :
    offset ≤ i ∧ i < haystack.size := by
  have first := find?_eq_some_iff.1 finds
  obtain ⟨b, -, at_i⟩ := first.here
  exact ⟨first.le, (Array.getElem?_eq_some_iff.1 at_i).1⟩

end Accelerator
end ByteDFA
