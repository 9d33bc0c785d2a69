import ByteDFA.Byte.Runs

/-!
# Byte classes

A `ByteClasses` gives every byte a class. Transition tables are indexed by classes, so bytes of one
class have the same successor everywhere, and a table needs only as many entries as there are
classes. The number of classes is read off the last byte: this is right for classes that grow with
the bytes, and an automaton is only built over classes that are all below it.
-/

set_option autoImplicit false

namespace ByteDFA

/-- A class for every byte. -/
structure ByteClasses where
  table : Vector UInt8 256
  deriving DecidableEq

namespace ByteClasses

/-- The classes that a function gives to the bytes. -/
def ofFn (f : UInt8 → UInt8) : ByteClasses :=
  ⟨⟨(Byte.all.map f).toArray, by simp [Byte.length_all]⟩⟩

/-- The class of a byte. -/
def get (classes : ByteClasses) (b : UInt8) : UInt8 :=
  have : b.toNat < 256 := b.toNat_lt
  classes.table[b.toNat]

/-- The classes with that of one byte replaced. -/
def set (classes : ByteClasses) (b c : UInt8) : ByteClasses :=
  ⟨classes.table.set b.toNat c b.toNat_lt⟩

/-- All bytes in one class. -/
def empty : ByteClasses := ofFn fun _ => 0

/-- Every byte in a class of its own. -/
def singletons : ByteClasses := ofFn id

/-- One more than the class of the last byte. -/
def alphabetLen (classes : ByteClasses) : Nat := (classes.get 255).toNat + 1

/-- Whether there are as many classes as bytes. -/
def isSingletons (classes : ByteClasses) : Bool := classes.alphabetLen == 256

/-- The classes, in ascending order. -/
def toList (classes : ByteClasses) : List UInt8 :=
  (List.range classes.alphabetLen).map UInt8.ofNat

/-- The bytes of a class, in ascending order. -/
def elements (classes : ByteClasses) (c : UInt8) : List UInt8 :=
  Byte.all.filter fun b => classes.get b == c

/-- The maximal stretches of consecutive bytes of a class, in ascending order. -/
def elementRuns (classes : ByteClasses) (c : UInt8) : List (ByteRun Unit) :=
  runs fun b => if classes.get b = c then some () else none

/-- The text of one class: its number and the stretches of its bytes, one after the other. -/
def classText (classes : ByteClasses) (c : UInt8) : String :=
  toString c.toNat ++ " => [" ++ String.join ((classes.elementRuns c).map ByteRun.text) ++ "]"

/-- The text of the classes as a value. -/
def debug (classes : ByteClasses) : String :=
  if classes.isSingletons then "ByteClasses(\x7bsingletons\x7d)"
  else "ByteClasses(" ++ String.intercalate ", " (classes.toList.map classes.classText) ++ ")"

theorem ext {a b : ByteClasses} (h : ∀ x, a.get x = b.get x) : a = b := by
  cases a; cases b
  refine congrArg mk (Vector.ext fun i hi => ?_)
  have := h (UInt8.ofNat i)
  simpa [get, Nat.mod_eq_of_lt hi] using this

@[simp] theorem get_ofFn (f : UInt8 → UInt8) (b : UInt8) : (ofFn f).get b = f b := by
  simp [get, ofFn, Byte.all]

@[simp] theorem get_set (classes : ByteClasses) (b c x : UInt8) :
    (classes.set b c).get x = if b = x then c else classes.get x := by
  simp [get, set, Vector.getElem_set, UInt8.toNat_inj]

theorem alphabetLen_le (classes : ByteClasses) : classes.alphabetLen ≤ 256 :=
  (classes.get 255).toNat_lt

end ByteClasses
end ByteDFA
