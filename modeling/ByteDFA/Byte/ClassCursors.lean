import ByteDFA.Byte.Classes

/-!
# Cursors over byte classes

The classes, the bytes of a class and the runs of these bytes can be asked for one by one. The
cursor for the bytes goes through all of them and passes over those of other classes. The cursor for
the runs asks it in turn and keeps the run that the last byte belongs to, since only the byte after
the run tells that the run is complete.
-/

set_option autoImplicit false

namespace ByteDFA

/-! ## Classes -/

/-- The classes from an index on. -/
structure ClassCursor where
  count : Nat
  index : Nat
  deriving DecidableEq

/-- The next class, if there is one, and the cursor behind it. -/
def ClassCursor.next (cursor : ClassCursor) : Option UInt8 × ClassCursor :=
  if cursor.index < cursor.count then
    (some (UInt8.ofNat cursor.index), { cursor with index := cursor.index + 1 })
  else (none, cursor)

/-! ## Bytes -/

/-- The bytes of a class from a position on. -/
structure ElementCursor where
  classes : ByteClasses
  byteClass : UInt8
  position : Nat
  deriving DecidableEq

namespace ElementCursor

/-- The cursor with the byte at its position passed over. -/
def pass (cursor : ElementCursor) : ElementCursor :=
  { cursor with position := cursor.position + 1 }

/-- The next byte of the class, if there is one, and the cursor behind it. -/
def next (cursor : ElementCursor) : Option UInt8 × ElementCursor :=
  if cursor.position < 256 then
    let b := UInt8.ofNat cursor.position
    if cursor.classes.get b = cursor.byteClass then (some b, cursor.pass) else cursor.pass.next
  else (none, cursor)
termination_by 256 - cursor.position
decreasing_by
  show 256 - (cursor.position + 1) < 256 - cursor.position
  omega

variable {cursor rest : ElementCursor} {b : UInt8}

theorem next_of_le (finished : 256 ≤ cursor.position) : cursor.next = (none, cursor) := by
  rw [next, if_neg (Nat.not_lt_of_le finished)]

theorem next_of_get_eq (more : cursor.position < 256)
    (here : cursor.classes.get (UInt8.ofNat cursor.position) = cursor.byteClass) :
    cursor.next = (some (UInt8.ofNat cursor.position), cursor.pass) := by
  rw [next, if_pos more]
  exact if_pos here

theorem next_of_get_ne (more : cursor.position < 256)
    (elsewhere : cursor.classes.get (UInt8.ofNat cursor.position) ≠ cursor.byteClass) :
    cursor.next = cursor.pass.next := by
  rw [next, if_pos more]
  exact if_neg elsewhere

/-- A byte is given only if the cursor goes on behind it. -/
theorem position_lt_of_next (given : cursor.next = (some b, rest)) :
    cursor.position < rest.position ∧ rest.position ≤ 256 := by
  fun_induction next cursor with
  | case1 cursor more b here =>
    obtain ⟨-, rfl⟩ := Prod.mk.inj given
    exact ⟨Nat.lt_succ_self _, more⟩
  | case2 cursor more b elsewhere ih =>
    obtain ⟨lt, le⟩ := ih given
    exact ⟨Nat.lt_of_succ_lt lt, le⟩
  | case3 cursor finished => cases given

end ElementCursor

/-! ## Runs -/

/-- The runs of bytes of a class, from those bytes on that are still to be given. A pending run is
the one that the last byte belongs to. -/
structure RunCursor where
  elements : ElementCursor
  pending : Option (ByteRun Unit)
  deriving DecidableEq

namespace RunCursor

/-- The next run, if there is one, and the cursor behind it. -/
def next (cursor : RunCursor) : Option (ByteRun Unit) × RunCursor :=
  match _asked : cursor.elements.next with
  | (none, rest) => (cursor.pending, ⟨rest, none⟩)
  | (some b, rest) =>
    match cursor.pending with
    | none => next ⟨rest, some ⟨b, b, ()⟩⟩
    | some run =>
      if run.last.toNat + 1 ≠ b.toNat then (some run, ⟨rest, some ⟨b, b, ()⟩⟩)
      else next ⟨rest, some { run with last := b }⟩
termination_by 256 - cursor.elements.position
decreasing_by
  all_goals
    have passed := ElementCursor.position_lt_of_next _asked
    omega

variable {elements rest : ElementCursor} {pending : Option (ByteRun Unit)} {run : ByteRun Unit}
  {b : UInt8}

/-- When there are no more bytes, the pending run is complete. -/
theorem next_of_finished (asked : elements.next = (none, rest)) :
    next ⟨elements, pending⟩ = (pending, ⟨rest, none⟩) := by
  rw [next]
  split
  · rename_i answer
    cases asked.symm.trans answer
    rfl
  · rename_i answer
    cases asked.symm.trans answer

theorem next_of_none (asked : elements.next = (some b, rest)) :
    next ⟨elements, none⟩ = next ⟨rest, some ⟨b, b, ()⟩⟩ := by
  rw [next]
  split
  · rename_i answer
    cases asked.symm.trans answer
  · rename_i answer
    cases asked.symm.trans answer
    rfl

theorem next_of_some (asked : elements.next = (some b, rest)) :
    next ⟨elements, some run⟩ =
      if run.last.toNat + 1 ≠ b.toNat then (some run, ⟨rest, some ⟨b, b, ()⟩⟩)
      else next ⟨rest, some { run with last := b }⟩ := by
  rw [next]
  split
  · rename_i answer
    cases asked.symm.trans answer
  · rename_i answer
    cases asked.symm.trans answer
    rfl

end RunCursor

namespace ByteClasses

/-- The cursor at the first class. -/
def classCursor (classes : ByteClasses) : ClassCursor := ⟨classes.alphabetLen, 0⟩

/-- The cursor at the first byte of a class. -/
def elementCursor (classes : ByteClasses) (c : UInt8) : ElementCursor := ⟨classes, c, 0⟩

/-- The cursor at the first run of bytes of a class. -/
def runCursor (classes : ByteClasses) (c : UInt8) : RunCursor := ⟨classes.elementCursor c, none⟩

end ByteClasses
end ByteDFA
