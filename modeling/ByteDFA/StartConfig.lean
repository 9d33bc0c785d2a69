import ByteDFA.Byte.Basic

/-!
# Start configurations

What precedes an offset decides how an automaton is entered there. A start state has one entry for
each of four configurations: the beginning of the haystack, the byte after a line feed, the byte
after a word byte, and everything else.
-/

set_option autoImplicit false

namespace ByteDFA

/-- What precedes the offset at which a start state is executed. -/
inductive StartConfig
  /-- A byte that is neither a word byte nor a line feed. -/
  | nonWordByte
  /-- A word byte of ASCII. -/
  | wordByte
  /-- Nothing: the offset is the beginning of the haystack. -/
  | text
  /-- A line feed. -/
  | line
  deriving DecidableEq

namespace StartConfig

/-- Every configuration, in the order of the entries of a start state. -/
def all : List StartConfig := [nonWordByte, wordByte, text, line]

/-- The number of configurations. -/
def count : Nat := all.length

/-- The place of a configuration among the entries of a start state. -/
def index : StartConfig → Nat
  | nonWordByte => 0
  | wordByte => 1
  | text => 2
  | line => 3

/-- The configuration with the given place. -/
def ofIndex? (n : Nat) : Option StartConfig := all[n]?

/-- The name by which a configuration is shown. -/
def name : StartConfig → String
  | nonWordByte => "NonWordByte"
  | wordByte => "WordByte"
  | text => "Text"
  | line => "Line"

/-- The configuration with the given name. -/
def ofName? (name : String) : Option StartConfig := all.find? (·.name == name)

/-- The configuration after a byte. -/
def afterByte (b : UInt8) : StartConfig :=
  if b = 0x0A then line else if Byte.isWord b then wordByte else nonWordByte

/-- The configuration at an offset of a haystack; there is none beyond its end. -/
def ofOffset? (haystack : Haystack) : Nat → Option StartConfig
  | 0 => some text
  | n + 1 => (haystack[n]?).map afterByte

theorem ofIndex?_index (config : StartConfig) : ofIndex? config.index = some config := by
  cases config <;> rfl

theorem index_lt (config : StartConfig) : config.index < count := by
  cases config <;> decide

theorem ofOffset?_isSome {haystack : Haystack} {offset : Nat} :
    (ofOffset? haystack offset).isSome ↔ offset ≤ haystack.size := by
  cases offset with
  | zero => simp [ofOffset?]
  | succ n =>
    rw [ofOffset?, Option.isSome_map, isSome_getElem?]
    exact Nat.succ_le_iff.symm

/-- What lies behind an offset does not matter. -/
theorem ofOffset?_append {haystack : Haystack} {offset : Nat}
    (inside : offset ≤ haystack.size) (suffix : Haystack) :
    ofOffset? (haystack ++ suffix) offset = ofOffset? haystack offset := by
  cases offset with
  | zero => rfl
  | succ n => rw [ofOffset?, ofOffset?, Array.getElem?_append_left inside]

end StartConfig
end ByteDFA
