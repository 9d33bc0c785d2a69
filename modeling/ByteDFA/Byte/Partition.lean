import ByteDFA.Byte.Classes
import ByteDFA.Byte.Set

/-!
# Partitions of the bytes

While an automaton is designed, a `BytePartition` notes after which bytes a new class has to begin.
A range of bytes that some transition treats alike needs a cut below its first byte and one after
its last. The classes of the partition count the cuts below a byte, so only consecutive bytes share
a class, and two neighbours share one exactly if there is no cut between them.
-/

set_option autoImplicit false

namespace ByteDFA

/-- The bytes after which a new class begins. -/
structure BytePartition where
  cuts : ByteSet
  deriving DecidableEq

namespace BytePartition

/-- The partition with all bytes in one class. -/
def empty : BytePartition := ⟨∅⟩

/-- The partition refined so that no class reaches across an end of the range. -/
def setRange (partition : BytePartition) (first last : UInt8) : BytePartition :=
  let below := if first = 0 then partition.cuts else partition.cuts.add (first - 1)
  ⟨below.add last⟩

/-- The partition with the ends of every range of a list. -/
def ofRanges (ranges : List (UInt8 × UInt8)) : BytePartition :=
  ranges.foldl (fun partition range => partition.setRange range.1 range.2) empty

/-- The number of cuts below a byte. -/
def cutsBelow (partition : BytePartition) (b : UInt8) : Nat :=
  (List.range b.toNat).countP fun n => partition.cuts.contains (UInt8.ofNat n)

/-- The classes of the partition, numbered from the lowest bytes up. -/
def classes (partition : BytePartition) : ByteClasses :=
  ByteClasses.ofFn fun b => UInt8.ofNat (partition.cutsBelow b)

end BytePartition
end ByteDFA
