import ByteDFA.Proofs.Automaton.ByteTables
import ByteDFA.Proofs.Builder.Literal

/-!
# Classes that are accepted although they have a gap

Classes come with all bytes in one class, with a class for every byte, or from a partition, and they
can be edited byte by byte. A builder accepts the result if every class is below the length of the
alphabet (`exists_build_iff_below`), which is all that its tables need. It does not follow that the
length of the alphabet is the number of classes. It is if there is no gap, and then it is also true
what is said about every byte having a class of its own (`setAll_tells_iff_gapless`). No gap is
there to begin with, and edits leave none that take bytes out of the company of others
(`SparesClasses`). But an edit may take the only byte out of a class, and nobody notices
(`exists_built_with_gap`).
-/

set_option autoImplicit false

namespace ByteDFA.ByteClasses

variable {classes source : ByteClasses} {edits : List (UInt8 × UInt8)} {b c : UInt8}

/-! ## Sources -/

/-- The classes that one starts with. -/
inductive Source : ByteClasses → Prop
  | empty : Source empty
  | singletons : Source singletons
  | partition (partition : BytePartition) : Source partition.classes

theorem Source.gapless (is_source : Source source) : source.Gapless := by
  cases is_source with
  | empty =>
    intro c small
    rw [alphabetLen, ByteClasses.empty, get_ofFn] at small
    refine ⟨0, ?_⟩
    rw [ByteClasses.empty, get_ofFn]
    exact (UInt8.toNat_inj.1 (Nat.lt_one_iff.1 small)).symm
  | singletons => exact fun c _ => ⟨c, get_singletons c⟩
  | partition partition => exact partition.stepwise_classes.gapless

/-! ## Edits -/

/-- The classes after the classes of some bytes have been replaced, one after the other. -/
def setAll (classes : ByteClasses) (edits : List (UInt8 × UInt8)) : ByteClasses :=
  edits.foldl (fun classes edit => classes.set edit.1 edit.2) classes

theorem setAll_cons (classes : ByteClasses) (b c : UInt8) (edits : List (UInt8 × UInt8)) :
    classes.setAll ((b, c) :: edits) = (classes.set b c).setAll edits := rfl

theorem alphabetLen_set (not_last : b ≠ 255) :
    (classes.set b c).alphabetLen = classes.alphabetLen := by
  rw [alphabetLen, alphabetLen, get_set, if_neg not_last]

theorem Below.set (below : classes.Below) (not_last : b ≠ 255)
    (small : c.toNat < classes.alphabetLen) : (classes.set b c).Below := by
  intro other
  rw [alphabetLen_set not_last, get_set]
  split
  · exact small
  · exact below other

/-- No edit takes the only byte out of a class, and none puts the last byte beyond the first class
that is not in use. -/
def SparesClasses (classes : ByteClasses) : List (UInt8 × UInt8) → Prop
  | [] => True
  | (b, c) :: edits =>
    (∃ other ≠ b, classes.get other = classes.get b) ∧
      (b = 255 → c.toNat ≤ classes.alphabetLen) ∧ (classes.set b c).SparesClasses edits

/-- An edit brings in no class but the one that it names. -/
theorem lt_alphabetLen_of_set {d : UInt8} (last : b = 255 → c.toNat ≤ classes.alphabetLen)
    (other : d ≠ c) (small : d.toNat < (classes.set b c).alphabetLen) :
    d.toNat < classes.alphabetLen := by
  by_cases is_last : b = 255
  · rw [alphabetLen, get_set, if_pos is_last] at small
    have ne : d.toNat ≠ c.toNat := fun same => other (UInt8.toNat_inj.1 same)
    have le := last is_last
    omega
  · rwa [alphabetLen_set is_last] at small

/-- A byte that shares its class can be put into another one without leaving a gap. -/
theorem Gapless.set (gapless : classes.Gapless)
    (shared : ∃ other ≠ b, classes.get other = classes.get b)
    (last : b = 255 → c.toNat ≤ classes.alphabetLen) : (classes.set b c).Gapless := by
  obtain ⟨other, ne, same⟩ := shared
  intro d small
  by_cases new : d = c
  · exact ⟨b, by rw [get_set, if_pos rfl, new]⟩
  obtain ⟨a, at_a⟩ := gapless d (lt_alphabetLen_of_set last new small)
  by_cases here : b = a
  · -- The class that the byte leaves still has the other one.
    subst here
    exact ⟨other, by rw [get_set, if_neg (Ne.symm ne), same, at_a]⟩
  · exact ⟨a, by rw [get_set, if_neg here, at_a]⟩

theorem Gapless.setAll (gapless : classes.Gapless) (spares : classes.SparesClasses edits) :
    (classes.setAll edits).Gapless := by
  induction edits generalizing classes with
  | nil => exact gapless
  | cons edit rest ih =>
    obtain ⟨b, c⟩ := edit
    obtain ⟨shared, last, spares⟩ := spares
    rw [setAll_cons]
    exact ih (gapless.set shared last) spares

/-! ## What is accepted -/

/-- A builder with these classes can be frozen exactly if every class is below the length of the
alphabet. -/
theorem exists_build_iff_below :
    (∃ (builder : Builder) (automaton : Automaton),
        builder.classes = classes ∧ builder.build = .ok automaton) ↔ classes.Below := by
  constructor
  · intro accepted
    obtain ⟨builder, automaton, rfl, built⟩ := accepted
    obtain ⟨anchored, -, valid, -⟩ := Builder.build_eq_ok_iff.1 built
    exact valid.byteClass
  · intro below
    exact ⟨Literal.assembled classes [], _, rfl, Literal.build_assembled below (by decide)⟩

/-- If classes are accepted, the length of the alphabet is the number of classes exactly if there is
no gap. With a gap it is too large, and then every byte may be said to have a class of its own
although two bytes share one; it is never the other way round. Edits that spare the classes leave no
gap. -/
theorem setAll_tells_iff_gapless (is_source : Source source) (made : source.setAll edits = classes)
    (below : ∀ b, (classes.get b).toNat < classes.alphabetLen) :
    (classes.alphabetLen = classes.inUse.card ↔ classes.Gapless) ∧
      ((classes.isSingletons = true ↔ Function.Injective classes.get) ↔
        (classes.isSingletons = true → classes.Gapless)) ∧
      classes.inUse.card ≤ classes.alphabetLen ∧
      (Function.Injective classes.get → classes.isSingletons = true) ∧
      (source.SparesClasses edits → classes.Gapless) := by
  have singletons := injective_iff below
  refine ⟨alphabetLen_eq_card_iff below, ?_, card_inUse_le below,
    fun injective => (singletons.1 injective).1, fun spares => ?_⟩
  · rw [singletons]
    exact iff_self_and
  · subst made
    exact is_source.gapless.setAll spares

/-- The underscore can be put into the class of the letters, out of the company of all bytes below
it. There are three classes before and after. -/
theorem setAll_tells_iff_gapless_underscore :
    ((BytePartition.ofRanges [(0x61, 0x7A)]).classes.setAll [(0x5F, 1)]).alphabetLen = 3 ∧
      ((BytePartition.ofRanges [(0x61, 0x7A)]).classes.setAll [(0x5F, 1)]).inUse.card = 3 := by
  have length : (BytePartition.ofRanges [(0x61, 0x7A)]).classes.alphabetLen = 3 := by
    rw [alphabetLen, BytePartition.toNat_get_classes]
    decide +kernel
  have length' :
      ((BytePartition.ofRanges [(0x61, 0x7A)]).classes.setAll [(0x5F, 1)]).alphabetLen = 3 :=
    (alphabetLen_set (by decide)).trans length
  have below : (BytePartition.ofRanges [(0x61, 0x7A)]).classes.Below :=
    BytePartition.get_classes_lt_alphabetLen _
  have below' : ((BytePartition.ofRanges [(0x61, 0x7A)]).classes.setAll [(0x5F, 1)]).Below :=
    below.set (by decide) (by rw [length]; decide)
  have shared : (BytePartition.ofRanges [(0x61, 0x7A)]).classes.get 0x5E =
      (BytePartition.ofRanges [(0x61, 0x7A)]).classes.get 0x5F := by
    rw [← UInt8.toNat_inj, BytePartition.toNat_get_classes, BytePartition.toNat_get_classes]
    decide +kernel
  obtain ⟨tells, -, -, -, spared⟩ := setAll_tells_iff_gapless (.partition _) rfl below'
  have gapless := spared ⟨⟨0x5E, by decide, shared⟩, fun last => absurd last (by decide), trivial⟩
  exact ⟨length', (tells.2 gapless).symm.trans length'⟩

/-- Classes that are accepted although `a` is in the class of `b`, which leaves a class without a
byte. There are said to be as many classes as bytes, one for each. -/
theorem exists_built_with_gap :
    ∃ (builder : Builder) (automaton : Automaton),
      builder.classes = singletons.setAll [(0x61, 0x62)] ∧ builder.build = .ok automaton ∧
        (∀ b, (builder.classes.get b).toNat < builder.classes.alphabetLen) ∧
        builder.classes.alphabetLen ≠ builder.classes.inUse.card ∧
        builder.classes.isSingletons = true ∧ ¬Function.Injective builder.classes.get := by
  have below : merged.Below := lt_alphabetLen_of_isSingletons isSingletons_merged
  have not_injective : ¬Function.Injective merged.get := by
    intro injective
    have at_a : merged.get 0x61 = 0x62 := by rw [merged, get_set, if_pos rfl]
    have at_b : merged.get 0x62 = 0x62 := by rw [get_merged (by decide), get_singletons]
    exact absurd (injective (at_a.trans at_b.symm)) (by decide)
  refine ⟨Literal.assembled merged [], _, rfl, Literal.build_assembled below (by decide), below, ?_,
    isSingletons_merged, not_injective⟩
  show merged.alphabetLen ≠ merged.inUse.card
  intro same
  have gapless := (alphabetLen_eq_card_iff below).1 same
  exact not_injective ((injective_iff below).2 ⟨isSingletons_merged, gapless⟩)

end ByteDFA.ByteClasses
