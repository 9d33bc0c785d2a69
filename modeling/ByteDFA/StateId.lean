/-!
# State identifiers

A state is named by a 16-bit number. The largest of these numbers, `StateId.noSuccessor`, names no
state: in a transition table it stands for rejection. A state may therefore have a number up to
`StateId.max`, and an automaton at most `StateId.limit` states.

`successor?` and `ofSuccessor` are the two directions between an identifier as it stands in a table
and an optional successor; they are inverse to each other except that `some noSuccessor` is read
back as `none` (`successor?_ofSuccessor`, `ofSuccessor_successor?`).
-/

set_option autoImplicit false

namespace ByteDFA

/-- The identifier of a state, or the mark for having no successor. -/
structure StateId where
  toUInt16 : UInt16
  deriving DecidableEq

namespace StateId

/-- The identifier that stands for rejection where a successor is expected. -/
def noSuccessor : StateId := ⟨65535⟩

/-- The identifier as a natural number. -/
def toNat (id : StateId) : Nat := id.toUInt16.toNat

/-- The number of states that identifiers can tell apart. -/
def limit : Nat := 65535

/-- The number of bytes that one identifier takes in a packed table. -/
def byteSize : Nat := 2

/-- The identifier with the low 16 bits of `n`. -/
def ofNat (n : Nat) : StateId := ⟨UInt16.ofNat n⟩

/-- The largest identifier of a state. -/
def max : StateId := ofNat (limit - 1)

/-- One more than the identifier: the size of the smallest collection that it indexes. -/
def oneMore (id : StateId) : Nat := id.toNat + 1

instance : Inhabited StateId := ⟨ofNat 0⟩

instance : ToString StateId := ⟨fun id => toString id.toNat⟩

instance : Ord StateId := ⟨fun a b => compare a.toNat b.toNat⟩

/-- The text of an identifier as a value. -/
def debug (id : StateId) : String := s!"StateID({id})"

/-- The successor that an identifier in a table stands for. -/
def successor? (id : StateId) : Option StateId :=
  if id = noSuccessor then none else some id

/-- The identifier that stands in a table for a successor. -/
def ofSuccessor (next : Option StateId) : StateId :=
  next.getD noSuccessor

/-- The item of `items` at an identifier. -/
def lookup? {α : Type} (items : Array α) (id : StateId) : Option α :=
  items[id.toNat]?

/-- `items` with the item at an identifier replaced, if there is one. -/
def assign? {α : Type} (items : Array α) (id : StateId) (item : α) : Option (Array α) :=
  if h : id.toNat < items.size then some (items.set id.toNat item h) else none

theorem toNat_injective {a b : StateId} (h : a.toNat = b.toNat) : a = b := by
  cases a; cases b; simpa [toNat, UInt16.toNat_inj] using h

theorem toNat_ofNat (n : Nat) : (ofNat n).toNat = n % 65536 := by
  simp [toNat, ofNat]

theorem toNat_ofNat_of_lt {n : Nat} (lt : n < limit) : (ofNat n).toNat = n := by
  rw [toNat_ofNat]
  exact Nat.mod_eq_of_lt (Nat.lt_succ_of_lt lt)

theorem ofNat_ne_noSuccessor {n : Nat} (lt : n < limit) : ofNat n ≠ noSuccessor := by
  intro mark
  have number := congrArg toNat mark
  rw [toNat_ofNat_of_lt lt] at number
  exact Nat.ne_of_lt lt number

theorem ofNat_toNat (id : StateId) : ofNat id.toNat = id := by
  simp [toNat, ofNat]

theorem toNat_le (id : StateId) : id.toNat ≤ limit :=
  Nat.le_of_lt_succ id.toUInt16.toNat_lt

theorem toNat_lt_of_ne {id : StateId} (h : id ≠ noSuccessor) : id.toNat < limit :=
  Nat.lt_of_le_of_ne (toNat_le id) fun e => h (toNat_injective e)

@[simp] theorem successor?_noSuccessor : noSuccessor.successor? = none := rfl

theorem successor?_of_ne {id : StateId} (h : id ≠ noSuccessor) : id.successor? = some id := by
  simp [successor?, h]

@[simp] theorem ofSuccessor_successor? (id : StateId) : ofSuccessor id.successor? = id := by
  by_cases h : id = noSuccessor <;> simp [successor?, ofSuccessor, h]

/-- A successor survives being stored unless it is the mark for having none. -/
theorem successor?_ofSuccessor (next : Option StateId) :
    (ofSuccessor next).successor? = next.bind successor? := by
  cases next <;> simp [ofSuccessor]

theorem successor?_ne_some_noSuccessor (id : StateId) : id.successor? ≠ some noSuccessor := by
  by_cases h : id = noSuccessor <;> simp [successor?, h]

end StateId

/-- A number that is too large for a state identifier. -/
structure StateIdError where
  attempted : Nat
  deriving DecidableEq

namespace StateIdError

/-- The sentence that reports the number. -/
def message (error : StateIdError) : String :=
  s!"failed to create state ID from {error.attempted}, which exceeds {StateId.max.debug}"

/-- The text of the error as a value. -/
def debug (error : StateIdError) : String :=
  s!"StateIDError \x7b attempted: {error.attempted} \x7d"

/-- The sentence that reports the number where only a valid identifier is acceptable. -/
def refusal (error : StateIdError) : String :=
  s!"invalid state ID: {error.debug}"

end StateIdError

/-- The identifier with the number `n`, which must be the number of a state. -/
def StateId.checked (n : Nat) : Except StateIdError StateId :=
  if n < limit then .ok (ofNat n) else .error ⟨n⟩

end ByteDFA
