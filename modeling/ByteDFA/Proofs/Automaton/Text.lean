import ByteDFA.Automaton.Text
import ByteDFA.Proofs.Builder.Literal
import ByteDFA.Proofs.Byte.ClassCount
import ByteDFA.Proofs.Byte.ClassesText
import ByteDFA.Proofs.State.Text

/-!
# Reading the outline of an automaton back

The outline of an automaton shows its groups, its starts, its states and the text of its classes.
All of it can be read back, except for classes that say of themselves that there are as many of them
as bytes: they are all shown alike (`outline_eq_iff`). This would do no harm if only one choice of
classes said so. But the last byte alone decides what they say, and so two automata with the same
outline may differ in what they find (`exists_outline_eq`).
-/

set_option autoImplicit false

namespace ByteDFA

/-! ## Classes to try things on -/

namespace ByteClasses

variable {p : UInt8 → Bool} {b : UInt8}

/-- The bytes that satisfy a predicate in one class, and the others, with the last byte among them,
in another. -/
def parted (p : UInt8 → Bool) : ByteClasses := .ofFn fun b => if p b && b != 255 then 0 else 1

theorem get_parted_eq_zero_iff : (parted p).get b = 0 ↔ (p b && b != 255) = true := by
  rw [parted, get_ofFn]
  split
  · rename_i part
    exact iff_of_true rfl part
  · rename_i other
    exact iff_of_false (by decide) other

theorem alphabetLen_parted (p : UInt8 → Bool) : (parted p).alphabetLen = 2 := by
  rw [alphabetLen, parted, get_ofFn, if_neg (by simp)]
  rfl

theorem get_parted_lt (p : UInt8 → Bool) (b : UInt8) :
    ((parted p).get b).toNat < (parted p).alphabetLen := by
  rw [alphabetLen_parted, parted, get_ofFn]
  split
  · decide
  · decide

theorem classText_parted (p : UInt8 → Bool) :
    (parted p).classText 0 = "0 => [" ++
      String.join ((runs fun b => if p b && b != 255 then some () else none).map ByteRun.text) ++
      "]" := by
  unfold classText elementRuns
  simp only [get_parted_eq_zero_iff]
  rfl

end ByteClasses

theorem Literal.states_merged :
    Literal.states .merged [0x62] = Literal.states .singletons [0x62] := by
  have readers : Literal.reader .merged 1 0x62 = Literal.reader .singletons 1 0x62 := by
    rw [Literal.reader, Literal.reader, ByteClasses.alphabetLen_merged,
      ByteClasses.get_merged (by decide)]
  rw [Literal.states, Literal.states, Literal.chain, Literal.chain, readers]
  rfl

/-! ## What an outline tells -/

namespace Automaton

variable {left right : Automaton}

theorem outline_eq_iff_debug :
    left.outline = right.outline ↔
      left.groupCount = right.groupCount ∧ left.anchoredStart = right.anchoredStart ∧
        left.unanchoredStart = right.unanchoredStart ∧ left.states = right.states ∧
        left.classes.debug = right.classes.debug := by
  constructor
  · intro same
    obtain ⟨-, properties, children⟩ := Outline.node.inj same
    obtain ⟨groups, properties⟩ := List.cons.inj properties
    obtain ⟨anchored, properties⟩ := List.cons.inj properties
    obtain ⟨unanchored, properties⟩ := List.cons.inj properties
    obtain ⟨classes, -⟩ := List.cons.inj properties
    have states : left.states.toList = right.states.toList :=
      List.map_injective_iff.2 (fun _ _ => State.outline_inj.1) children
    exact ⟨ValueText.toString_injective (Prod.mk.inj groups).2,
      StateId.toString_injective (Prod.mk.inj anchored).2,
      StateId.toString_injective (Prod.mk.inj unanchored).2, Array.toList_inj.1 states,
      (Prod.mk.inj classes).2⟩
  · intro same
    obtain ⟨groups, anchored, unanchored, states, classes⟩ := same
    unfold outline
    rw [groups, anchored, unanchored, states, classes]

theorem byteClass_of_build {builder : Builder} (built : builder.build = .ok left) :
    ∀ b, (left.classes.get b).toNat < left.classes.alphabetLen := by
  obtain ⟨anchored, -, valid, rfl⟩ := Builder.build_eq_ok_iff.1 built
  exact valid.byteClass

/-- What the outline of a built automaton tells about it: everything but the classes, and the
classes as well unless they claim to be as many as the bytes. Where such classes are not confused
with others, automata with the same outline are the same and do the same in every search. -/
theorem outline_eq_iff {builder builder' : Builder} (built : builder.build = .ok left)
    (built' : builder'.build = .ok right) :
    (left.outline = right.outline ↔
      left.groupCount = right.groupCount ∧ left.anchoredStart = right.anchoredStart ∧
        left.unanchoredStart = right.unanchoredStart ∧ left.states = right.states ∧
        (left.classes = right.classes ∨
          (left.classes.isSingletons = true ∧ right.classes.isSingletons = true))) ∧
    ((left.classes.isSingletons = true → right.classes.isSingletons = true →
        left.classes = right.classes) →
      left.outline = right.outline →
        left = right ∧ ∀ (executor : Executor) (input : Input),
          executor.report left input = executor.report right input) := by
  have tells := @outline_eq_iff_debug left right
  rw [ByteClasses.debug_eq_iff (byteClass_of_build built) (byteClass_of_build built')] at tells
  refine ⟨tells, fun told_apart same => ?_⟩
  obtain ⟨groups, anchored, unanchored, states, alike⟩ := tells.1 same
  have classes : left.classes = right.classes := by
    rcases alike with classes | ⟨single, single'⟩
    · exact classes
    · exact told_apart single single'
  have equal : left = right := by
    cases left
    cases right
    rw [Automaton.mk.injEq]
    exact ⟨classes, groups, states, anchored, unanchored⟩
  exact ⟨equal, fun executor input => by rw [equal]⟩

/-- Three bytes and the range between the outer ones are written alike, as `+-a`. The outlines of
automata over these classes differ all the same. -/
theorem outline_eq_iff_plusToA :
    (ByteClasses.parted fun b => b == 0x2B || b == 0x2D || b == 0x61).classText 0 =
        (ByteClasses.parted fun b => 0x2B ≤ b && b ≤ 0x61).classText 0 ∧
      ((Literal.assembled (.parted fun b => b == 0x2B || b == 0x2D || b == 0x61) [0x61]).freeze
          (.ofNat 0) (.ofNat 0)).outline ≠
        ((Literal.assembled (.parted fun b => 0x2B ≤ b && b ≤ 0x61) [0x61]).freeze
          (.ofNat 0) (.ofNat 0)).outline := by
  constructor
  · rw [ByteClasses.classText_parted, ByteClasses.classText_parted]
    decide +kernel
  intro same
  have room : [(0x61 : UInt8)].length + 2 ≤ StateId.limit := by decide
  obtain ⟨tells, -⟩ := outline_eq_iff (Literal.build_assembled (ByteClasses.get_parted_lt _) room)
    (Literal.build_assembled (ByteClasses.get_parted_lt _) room)
  obtain ⟨-, -, -, -, classes | ⟨single, -⟩⟩ := tells.1 same
  · have comma : (ByteClasses.parted fun b => b == 0x2B || b == 0x2D || b == 0x61).get 0x2C = 0 := by
      have at_comma := congrArg (fun classes => classes.get 0x2C) classes
      exact at_comma.trans (ByteClasses.get_parted_eq_zero_iff.2 (by decide))
    exact absurd (ByteClasses.get_parted_eq_zero_iff.1 comma) (by decide)
  · have many : (ByteClasses.parted fun b => b == 0x2B || b == 0x2D || b == 0x61).alphabetLen =
        256 := beq_iff_eq.1 single
    rw [ByteClasses.alphabetLen_parted] at many
    exact absurd many (by decide)

/-- Two built automata with the same outline that differ in their classes and in what they find. In
the one, every byte has a class of its own; in the other, the byte `a` is taken for `b`. -/
theorem exists_outline_eq :
    ∃ (builder builder' : Builder) (left right : Automaton) (input : Input),
      builder.build = .ok left ∧ builder'.build = .ok right ∧ left.outline = right.outline ∧
        left.classes ≠ right.classes ∧
        Executor.search {} left input ≠ Executor.search {} right input := by
  have small := ByteClasses.lt_alphabetLen_of_isSingletons ByteClasses.isSingletons_singletons
  have small' := ByteClasses.lt_alphabetLen_of_isSingletons ByteClasses.isSingletons_merged
  have room : [(0x62 : UInt8)].length + 2 ≤ StateId.limit := by decide
  refine ⟨_, _, _, _, ⟨#[0x61], 0, true⟩, Literal.build_assembled small room,
    Literal.build_assembled small' room, ?_, ByteClasses.merged_ne_singletons, ?_⟩
  · refine outline_eq_iff_debug.2 ⟨(rfl : 1 = 1), (rfl : StateId.ofNat 0 = .ofNat 0),
      (rfl : StateId.ofNat 0 = .ofNat 0), ?_, ?_⟩
    · unfold Builder.freeze
      dsimp only
      rw [Literal.places_assembled, Literal.places_assembled, Literal.states_merged]
    · exact (ByteClasses.debug_eq_iff small small').2
        (.inr ⟨ByteClasses.isSingletons_singletons, ByteClasses.isSingletons_merged⟩)
  · have missed : (Executor.report {}
        ((Literal.assembled .singletons [0x62]).freeze (.ofNat 0) (.ofNat 0))
        ⟨#[0x61], 0, true⟩).verdict = .exhausted := by decide +kernel
    have found : (Executor.report {}
        ((Literal.assembled .merged [0x62]).freeze (.ofNat 0) (.ofNat 0))
        ⟨#[0x61], 0, true⟩).verdict =
        .decided 0 .accepted 1 (some #[Offset.ofNat? 0, Offset.ofNat? 1]) := by decide +kernel
    intro same
    rw [Executor.search, Executor.search, Report.outcome, Report.outcome, missed, found] at same
    cases same

end Automaton
end ByteDFA
