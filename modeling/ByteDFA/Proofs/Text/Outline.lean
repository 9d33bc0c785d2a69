import ByteDFA.Outline
import ByteDFA.Proofs.Text.Value

/-!
# Reading a displayed outline back

An outline is displayed as lines: one for the name of each node, one for each of its properties, and
then those of the nodes below it, which are indented further. The lines determine the outline,
because a property follows the name of its node and the children of a node are deeper than what
comes after them (`lines_append_inj`). The text determines the lines if the outline is `Legible`:
no name and no key is broken by a colon or a line feed or begins with a blank, and no value has a
line feed. Values may well contain blanks and colons. So legible outlines are displayed alike only
if they are equal (`display_inj`).
-/

set_option autoImplicit false

namespace ByteDFA.Outline

open ValueText

/-- A line of a displayed outline: the name of a node, or the key of a property with its value. -/
structure Line where
  depth : Nat
  label : String
  value? : Option String

/-! ## The lines of an outline -/

/-- The line for a property of a node at the given depth. -/
def propertyOf (depth : Nat) (property : String × String) : Line :=
  ⟨depth + 1, property.1, some property.2⟩

mutual
/-- The lines of an outline at the given depth. -/
def lines (depth : Nat) : Outline → List Line
  | node name properties children =>
    ⟨depth, name, none⟩ :: (properties.map (propertyOf depth) ++ linesAll (depth + 1) children)

/-- The lines of several outlines at the given depth. -/
def linesAll (depth : Nat) : List Outline → List Line
  | [] => []
  | outline :: rest => lines depth outline ++ linesAll depth rest
end

theorem propertyOf_injective (depth : Nat) : Function.Injective (propertyOf depth) := by
  intro p q same
  obtain ⟨-, key, value⟩ := Line.mk.inj same
  exact Prod.ext key (Option.some.inj value)

/-- The lines do not begin with a property, nor with a name that is deeper than `depth`: nothing
in them belongs to a node at that depth whose lines come before. -/
def Leaves (depth : Nat) (rest : List Line) : Prop :=
  ∀ line ∈ rest.head?, line.depth ≤ depth ∧ line.value? = none

variable {depth : Nat} {rest rest' : List Line}

theorem leaves_nil (depth : Nat) : Leaves depth [] := by
  intro line here
  cases here

theorem Leaves.deeper (leaves : Leaves depth rest) : Leaves (depth + 1) rest :=
  fun line here => ⟨Nat.le_succ_of_le (leaves line here).1, (leaves line here).2⟩

theorem leaves_lines_append (depth : Nat) (outline : Outline) (rest : List Line) :
    Leaves depth (lines depth outline ++ rest) := by
  cases outline with
  | node name properties children =>
    intro line here
    rw [lines] at here
    cases here
    exact ⟨Nat.le_refl depth, rfl⟩

theorem leaves_linesAll_append (outlines : List Outline) (leaves : Leaves depth rest) :
    Leaves depth (linesAll depth outlines ++ rest) := by
  cases outlines with
  | nil => exact leaves
  | cons outline others =>
    rw [linesAll, List.append_assoc]
    exact leaves_lines_append depth outline _

/-- What comes after the children of a node does not begin with a further child. -/
theorem not_leaves_lines_append (depth : Nat) (outline : Outline) (rest : List Line) :
    ¬Leaves depth (lines (depth + 1) outline ++ rest) := by
  cases outline with
  | node name properties children =>
    intro leaves
    rw [lines] at leaves
    exact absurd (leaves _ rfl).1 (Nat.not_succ_le_self depth)

/-- The properties of a node end where a name follows. -/
theorem properties_append_inj {ps qs : List (String × String)} (leaves : Leaves depth rest)
    (leaves' : Leaves depth rest') {level : Nat}
    (same : ps.map (propertyOf level) ++ rest = qs.map (propertyOf level) ++ rest') :
    ps = qs ∧ rest = rest' := by
  have shown (ps : List (String × String)) :
      ∀ line ∈ ps.map (propertyOf level), line.value?.isSome = true := by
    intro line mem
    obtain ⟨property, -, rfl⟩ := List.mem_map.1 mem
    rfl
  have named {rest : List Line} (leaves : Leaves depth rest) :
      ∀ line ∈ rest.head?, line.value?.isSome = false := by
    intro line here
    rw [(leaves line here).2]
    rfl
  obtain ⟨texts, rests⟩ := run_append_inj (shown ps) (shown qs) (named leaves) (named leaves') same
  exact ⟨List.map_injective_iff.2 (propertyOf_injective level) texts, rests⟩

mutual
/-- The lines of an outline tell the outline and where it ends. -/
theorem lines_append_inj : ∀ {a b : Outline} {depth : Nat} {rest rest' : List Line},
    Leaves depth rest → Leaves depth rest' →
    lines depth a ++ rest = lines depth b ++ rest' → a = b ∧ rest = rest'
  | node name properties children, node name' properties' children', depth, rest, rest',
    leaves, leaves', same => by
    rw [lines, lines, List.cons_append, List.cons_append, List.append_assoc,
      List.append_assoc] at same
    obtain ⟨first, others⟩ := List.cons.inj same
    obtain ⟨properties_eq, below⟩ := properties_append_inj
      (leaves_linesAll_append children leaves.deeper)
      (leaves_linesAll_append children' leaves'.deeper) others
    obtain ⟨children_eq, rests⟩ := linesAll_append_inj leaves leaves' below
    rw [(Line.mk.inj first).2.1, properties_eq, children_eq]
    exact ⟨rfl, rests⟩

/-- The lines of the children of a node tell the children and where they end. -/
theorem linesAll_append_inj : ∀ {as bs : List Outline} {depth : Nat} {rest rest' : List Line},
    Leaves depth rest → Leaves depth rest' →
    linesAll (depth + 1) as ++ rest = linesAll (depth + 1) bs ++ rest' → as = bs ∧ rest = rest'
  | [], [], _, _, _, _, _, same => ⟨rfl, same⟩
  | [], b :: bs, depth, rest, rest', leaves, _, same => by
    -- A further child would be deeper than anything that may come after the children.
    rw [linesAll, linesAll, List.append_assoc, List.nil_append] at same
    rw [same] at leaves
    exact absurd leaves (not_leaves_lines_append depth b _)
  | a :: as, [], depth, rest, rest', _, leaves', same => by
    rw [linesAll, linesAll, List.append_assoc, List.nil_append] at same
    rw [← same] at leaves'
    exact absurd leaves' (not_leaves_lines_append depth a _)
  | a :: as, b :: bs, depth, rest, rest', leaves, leaves', same => by
    rw [linesAll, linesAll, List.append_assoc, List.append_assoc] at same
    obtain ⟨firsts, others⟩ := lines_append_inj (leaves_linesAll_append as leaves.deeper)
      (leaves_linesAll_append bs leaves'.deeper) same
    obtain ⟨tails, rests⟩ := linesAll_append_inj leaves leaves' others
    rw [firsts, tails]
    exact ⟨rfl, rests⟩
end

/-! ## The text of a line -/

namespace Line

/-- What comes after the label of a line. -/
def ending (value? : Option String) : String :=
  match value? with
  | none => "\n"
  | some value => ": " ++ value ++ "\n"

/-- The text of a line. -/
def text (line : Line) : String := indent line.depth ++ line.label ++ ending line.value?

theorem text_name (depth : Nat) (name : String) : text ⟨depth, name, none⟩ = nameLine depth name :=
  rfl

theorem text_propertyOf (depth : Nat) (property : String × String) :
    (propertyOf depth property).text = propertyLine depth property := by
  unfold text ending propertyLine propertyOf
  rw [← String.append_assoc, ← String.append_assoc]

end Line

theorem foldl_propertyLine (depth : Nat) (properties : List (String × String)) (before : String) :
    properties.foldl (fun text p => text ++ propertyLine depth p) before =
      before ++ String.join ((properties.map (propertyOf depth)).map Line.text) := by
  induction properties generalizing before with
  | nil => exact String.append_empty.symm
  | cons p rest ih =>
    rw [List.foldl_cons, ih, List.map_cons, List.map_cons, String.join_cons, Line.text_propertyOf,
      String.append_assoc]

mutual
theorem appendTo_eq : ∀ (outline : Outline) (before : String) (depth : Nat),
    appendTo before depth outline = before ++ String.join ((lines depth outline).map Line.text)
  | node name properties children, before, depth => by
    rw [appendTo, lines, appendAllTo_eq children, foldl_propertyLine, List.map_cons, List.map_append,
      String.join_cons, String.join_append, Line.text_name, String.append_assoc,
      String.append_assoc]

theorem appendAllTo_eq : ∀ (outlines : List Outline) (before : String) (depth : Nat),
    appendAllTo before depth outlines =
      before ++ String.join ((linesAll depth outlines).map Line.text)
  | [], before, depth => by
    rw [appendAllTo, linesAll]
    exact String.append_empty.symm
  | outline :: rest, before, depth => by
    rw [appendAllTo, linesAll, appendAllTo_eq rest, appendTo_eq outline, List.map_append,
      String.join_append, String.append_assoc]
end

theorem display_eq (outline : Outline) :
    outline.display = String.join ((outline.lines 0).map Line.text) := by
  rw [display, appendTo_eq, String.empty_append]

/-! ## Legible lines -/

/-- A name or a key whose beginning and end show in a line. -/
structure IsLabel (label : String) : Prop where
  unindented : ∀ c ∈ label.toList.head?, c ≠ ' '
  unbroken : ∀ c ∈ label.toList, c ≠ ':' ∧ c ≠ '\n'

/-- Words of letters and digits are labels. -/
theorem IsLabel.of_isAlphanum {label : String}
    (word : label.toList.all Char.isAlphanum = true) : IsLabel label := by
  have other {c : Char} (mark : c.isAlphanum = false) : ∀ d ∈ label.toList, d ≠ c := by
    intro d mem same
    rw [← same] at mark
    exact absurd (List.all_eq_true.1 word d mem) (Bool.eq_false_iff.1 mark)
  exact ⟨fun c here => other rfl c (List.mem_of_mem_head? here),
    fun c mem => ⟨other rfl c mem, other rfl c mem⟩⟩

namespace Line

variable {line line' : Line} {s t : List Char}

/-- The parts of the line show in its text. -/
structure Legible (line : Line) : Prop where
  label : IsLabel line.label
  value : ∀ value ∈ line.value?, '\n' ∉ value.toList

/-- The characters that come after the label of a line. -/
def endingChars (value? : Option String) : List Char :=
  match value? with
  | none => ['\n']
  | some value => ':' :: ' ' :: (value.toList ++ ['\n'])

theorem endingChars_some_append (value : String) (s : List Char) :
    endingChars (some value) ++ s = ':' :: ' ' :: (value.toList ++ '\n' :: s) := by
  rw [endingChars, List.cons_append, List.cons_append, List.append_assoc, List.singleton_append]

theorem toList_ending (value? : Option String) : (ending value?).toList = endingChars value? := by
  cases value? with
  | none => rfl
  | some value =>
    rw [ending, String.toList_append, String.toList_append]
    rfl

theorem toList_text (line : Line) :
    line.text.toList =
      List.replicate (2 * line.depth) ' ' ++ (line.label.toList ++ endingChars line.value?) := by
  rw [text, String.toList_append, String.toList_append, toList_ending, indent, String.toList_ofList,
    List.append_assoc]

theorem toList_text_ne_nil (line : Line) : line.text.toList ≠ [] := by
  intro blank
  rw [toList_text] at blank
  have ending := (List.append_eq_nil_iff.1 (List.append_eq_nil_iff.1 blank).2).2
  cases value : line.value? <;> rw [value] at ending <;> cases ending

/-- The value ends with the line. -/
theorem endingChars_append_inj {a b : Option String} (legible : ∀ value ∈ a, '\n' ∉ value.toList)
    (legible' : ∀ value ∈ b, '\n' ∉ value.toList)
    (same : endingChars a ++ s = endingChars b ++ t) : a = b ∧ s = t := by
  cases a with
  | none =>
    cases b with
    | none => exact ⟨rfl, (List.cons.inj same).2⟩
    | some value' => exact absurd (List.cons.inj same).1 (by decide)
  | some value =>
    cases b with
    | none => exact absurd (List.cons.inj same).1 (by decide)
    | some value' =>
      rw [endingChars_some_append, endingChars_some_append] at same
      have chars := (List.cons.inj (List.cons.inj same).2).2
      have inside {value : String} (unbroken : '\n' ∉ value.toList) :
          ∀ c ∈ value.toList, (c != '\n') = true :=
        fun c mem => bne_iff_ne.2 fun same => unbroken (same ▸ mem)
      obtain ⟨values, rests⟩ := run_append_inj (inside (legible value rfl))
        (inside (legible' value' rfl)) (by rintro c ⟨⟩; rfl) (by rintro c ⟨⟩; rfl) chars
      rw [String.toList_injective values]
      exact ⟨rfl, (List.cons.inj rests).2⟩

/-- The label ends where a colon or a line feed follows. -/
theorem label_append_inj (legible : line.Legible) (legible' : line'.Legible)
    (same : line.label.toList ++ (endingChars line.value? ++ s) =
      line'.label.toList ++ (endingChars line'.value? ++ t)) :
    line.label = line'.label ∧ line.value? = line'.value? ∧ s = t := by
  have inside {label : String} (isLabel : IsLabel label) :
      ∀ c ∈ label.toList, (c != ':' && c != '\n') = true := fun c mem =>
    Bool.and_eq_true_iff.2
      ⟨bne_iff_ne.2 (isLabel.unbroken c mem).1, bne_iff_ne.2 (isLabel.unbroken c mem).2⟩
  have stops (value? : Option String) (s : List Char) :
      ∀ c ∈ (endingChars value? ++ s).head?, (c != ':' && c != '\n') = false := by
    cases value? <;> rintro c ⟨⟩ <;> rfl
  obtain ⟨labels, endings⟩ := run_append_inj (inside legible.label) (inside legible'.label)
    (stops _ s) (stops _ t) same
  exact ⟨String.toList_injective labels,
    endingChars_append_inj legible.value legible'.value endings⟩

/-- The blanks in front of a line end with its label, or with what follows an empty one. -/
theorem not_blank_of_head? (legible : line.Legible) :
    ∀ c ∈ (line.label.toList ++ (endingChars line.value? ++ s)).head?, (c == ' ') = false := by
  intro c here
  cases chars : line.label.toList with
  | nil =>
    rw [chars] at here
    cases value : line.value? <;> rw [value] at here <;> cases here <;> rfl
  | cons d ds =>
    rw [chars] at here
    cases here
    exact beq_false_of_ne (legible.label.unindented c (by rw [chars]; rfl))

/-- A legible line can be told from what follows it. -/
theorem text_append_inj (legible : line.Legible) (legible' : line'.Legible)
    (same : line.text.toList ++ s = line'.text.toList ++ t) : line = line' ∧ s = t := by
  rw [toList_text, toList_text, List.append_assoc, List.append_assoc, List.append_assoc,
    List.append_assoc] at same
  have blank (n : Nat) : ∀ c ∈ List.replicate n ' ', (c == ' ') = true :=
    fun c mem => beq_iff_eq.2 (List.eq_of_mem_replicate mem)
  obtain ⟨blanks, texts⟩ := run_append_inj (blank _) (blank _) (not_blank_of_head? legible)
    (not_blank_of_head? legible') same
  have depths : 2 * line.depth = 2 * line'.depth := by
    have lengths := congrArg List.length blanks
    rwa [List.length_replicate, List.length_replicate] at lengths
  obtain ⟨labels, values, rests⟩ := label_append_inj legible legible' texts
  refine ⟨?_, rests⟩
  cases line
  cases line'
  rw [Line.mk.injEq]
  exact ⟨Nat.eq_of_mul_eq_mul_left (by decide) depths, labels, values⟩

theorem join_text_ne_empty (line : Line) (rest : List Line) :
    String.join ((line :: rest).map text) ≠ "" := by
  intro blank
  have chars := congrArg String.toList blank
  rw [List.map_cons, String.join_cons, String.toList_append] at chars
  exact toList_text_ne_nil line (List.append_eq_nil_iff.1 chars).1

/-- Legible lines can be read back from their text. -/
theorem eq_of_join_text {ls ls' : List Line} (legible : ∀ line ∈ ls, line.Legible)
    (legible' : ∀ line ∈ ls', line.Legible)
    (same : String.join (ls.map text) = String.join (ls'.map text)) : ls = ls' := by
  induction ls generalizing ls' with
  | nil =>
    cases ls' with
    | nil => rfl
    | cons line' rest' => exact absurd same.symm (join_text_ne_empty line' rest')
  | cons line rest ih =>
    cases ls' with
    | nil => exact absurd same (join_text_ne_empty line rest)
    | cons line' rest' =>
      have chars := congrArg String.toList same
      rw [List.map_cons, List.map_cons, String.join_cons, String.join_cons, String.toList_append,
        String.toList_append] at chars
      obtain ⟨rfl, tails⟩ := text_append_inj (legible line List.mem_cons_self)
        (legible' line' List.mem_cons_self) chars
      have rests : rest = rest' := ih (fun l mem => legible l (List.mem_cons_of_mem _ mem))
        (fun l mem => legible' l (List.mem_cons_of_mem _ mem)) (String.toList_injective tails)
      rw [rests]

end Line

/-! ## Legible outlines -/

/-- The names, the keys and the values of the outline show in its text. -/
inductive Legible : Outline → Prop
  | node {name : String} {properties : List (String × String)} {children : List Outline}
    (name_isLabel : IsLabel name)
    (properties_legible : ∀ p ∈ properties, IsLabel p.1 ∧ '\n' ∉ p.2.toList)
    (children_legible : ∀ child ∈ children, Legible child) :
    Legible (node name properties children)

mutual
theorem legible_of_mem_lines : ∀ {outline : Outline} {depth : Nat} {line : Line},
    outline.Legible → line ∈ outline.lines depth → line.Legible
  | node name properties children, depth, line, legible, mem => by
    obtain ⟨name_isLabel, properties_legible, children_legible⟩ := legible
    rw [lines, List.mem_cons, List.mem_append] at mem
    rcases mem with rfl | shown | below
    · exact ⟨name_isLabel, fun value absent => by cases absent⟩
    · obtain ⟨p, of_properties, rfl⟩ := List.mem_map.1 shown
      obtain ⟨key, value⟩ := properties_legible p of_properties
      exact ⟨key, fun _ shown => Option.mem_some.1 shown ▸ value⟩
    · exact legible_of_mem_linesAll children_legible below

theorem legible_of_mem_linesAll : ∀ {outlines : List Outline} {depth : Nat} {line : Line},
    (∀ outline ∈ outlines, outline.Legible) → line ∈ linesAll depth outlines → line.Legible
  | outline :: rest, depth, line, legible, mem => by
    rw [linesAll, List.mem_append] at mem
    rcases mem with first | later
    · exact legible_of_mem_lines (legible outline List.mem_cons_self) first
    · exact legible_of_mem_linesAll (fun o mem => legible o (List.mem_cons_of_mem _ mem)) later
end

/-- Legible outlines are displayed alike only if they are equal. -/
theorem display_inj {a b : Outline} (legible : a.Legible) (legible' : b.Legible) :
    a.display = b.display ↔ a = b := by
  constructor
  · intro same
    rw [display_eq, display_eq] at same
    have texts : a.lines 0 = b.lines 0 := Line.eq_of_join_text
      (fun _ => legible_of_mem_lines legible) (fun _ => legible_of_mem_lines legible') same
    have alone : a.lines 0 ++ [] = b.lines 0 ++ [] := by rw [texts]
    exact (lines_append_inj (leaves_nil 0) (leaves_nil 0) alone).1
  · intro same
    rw [same]

theorem Legible.without {outline : Outline} (legible : outline.Legible) (key : String) :
    (outline.without key).Legible := by
  obtain ⟨name_isLabel, properties_legible, children_legible⟩ := legible
  exact .node name_isLabel (fun p mem => properties_legible p (List.mem_filter.1 mem).1)
    children_legible

end ByteDFA.Outline
