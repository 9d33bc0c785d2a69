import ByteDFA.Proofs.State.Text
import ByteDFA.Proofs.Text.Outline

/-!
# Reading the displayed outline of a state back

The names and keys in the outline of a state are words or numbers, and its values are numbers, sets
and a few fixed words, so the outline is legible (`State.outline_legible`). Its text therefore
determines the state, and without the identifier it determines all the rest of the state
(`State.display_eq_iff`).
-/

set_option autoImplicit false

namespace ByteDFA

open ValueText Outline

/-! ## The texts of the parts -/

theorem isAlphanum_of_mem_toString {n : Nat} {c : Char} (mem : c ∈ (toString n).toList) :
    c.isAlphanum = true :=
  Bool.or_eq_true_iff.2 (.inr (isDigit_of_mem_toString mem))

theorem lineFeed_not_mem_toString (n : Nat) : '\n' ∉ (toString n).toList :=
  fun mem => absurd (isDigit_of_mem_toString mem) (by decide)

theorem Kind.name_isLabel (kind : Kind) : IsLabel kind.name :=
  .of_isAlphanum (by cases kind <;> rfl)

theorem StartConfig.name_isLabel (config : StartConfig) : IsLabel config.name :=
  .of_isAlphanum (by cases config <;> rfl)

theorem Role.entryKey_isLabel (role : Role) (index : Nat) : IsLabel (role.entryKey index) := by
  have number : IsLabel (toString index) :=
    .of_isAlphanum (List.all_eq_true.2 fun _ => isAlphanum_of_mem_toString)
  cases role with
  | start slots =>
    change IsLabel (((StartConfig.ofIndex? index).map StartConfig.name).getD (toString index))
    cases StartConfig.ofIndex? index with
    | none => exact number
    | some config => exact config.name_isLabel
  | matcher | final | traceFinder => exact number

theorem TransitionTable.lineFeed_not_mem_entryText (next : Option StateId) :
    '\n' ∉ (entryText next).toList := by
  cases next with
  | none => decide
  | some id => exact lineFeed_not_mem_toString id.toNat

namespace SlotSet

theorem lineFeed_not_mem_debug (set : SlotSet) : '\n' ∉ set.debug.toList := by
  rw [debug, ValueText.set, String.toList_append, String.toList_append]
  intro mem
  rcases List.mem_append.1 mem with inside | brace
  · rcases List.mem_append.1 inside with brace | inside
    · exact absurd brace (by decide)
    · rcases mem_intercalate inside with comma | blank | ⟨text, member, inside⟩
      · exact absurd comma (by decide)
      · exact absurd blank (by decide)
      · obtain ⟨slot, -, rfl⟩ := List.mem_map.1 member
        exact lineFeed_not_mem_toString slot inside
  · exact absurd brace (by decide)

theorem lineFeed_not_mem_accept (accept : Option SlotSet) :
    '\n' ∉ ((accept.map SlotSet.debug).getD "none").toList := by
  cases accept with
  | none => decide
  | some set => exact set.lineFeed_not_mem_debug

end SlotSet

/-! ## The outline -/

theorem Role.properties_legible (role : Role) :
    ∀ p ∈ role.properties, IsLabel p.1 ∧ '\n' ∉ p.2.toList := by
  have slots_isLabel : IsLabel "slots" := .of_isAlphanum rfl
  have accept_isLabel : IsLabel "accept" := .of_isAlphanum rfl
  intro p mem
  cases role with
  | matcher slots accept =>
    rcases List.mem_cons.1 mem with rfl | mem
    · exact ⟨slots_isLabel, slots.lineFeed_not_mem_debug⟩
    · rw [List.mem_singleton.1 mem]
      exact ⟨accept_isLabel, SlotSet.lineFeed_not_mem_accept accept⟩
  | start slots | final slots =>
    rw [List.mem_singleton.1 mem]
    exact ⟨slots_isLabel, slots.lineFeed_not_mem_debug⟩
  | traceFinder =>
    rw [List.mem_singleton.1 mem]
    exact ⟨slots_isLabel, SlotSet.lineFeed_not_mem_debug ∅⟩

namespace State

theorem transitionsOutline_legible (state : State) : state.transitionsOutline.Legible := by
  refine .node (.of_isAlphanum rfl) (fun p mem => ?_) (fun _ none => by cases none)
  obtain ⟨i, inside, rfl⟩ := List.mem_mapIdx.1 mem
  exact ⟨state.role.entryKey_isLabel i, TransitionTable.lineFeed_not_mem_entryText _⟩

theorem outline_legible (state : State) : state.outline.Legible := by
  have id_isLabel : IsLabel "id" := .of_isAlphanum rfl
  refine .node state.kind.name_isLabel (fun p mem => ?_) (fun child mem => ?_)
  · rcases List.mem_cons.1 mem with rfl | mem
    · exact ⟨id_isLabel, lineFeed_not_mem_toString state.id.toNat⟩
    · exact state.role.properties_legible p mem
  · rw [List.mem_singleton.1 mem]
    exact state.transitionsOutline_legible

/-! ## The outline without the identifier -/

theorem outline_without_id (state : State) :
    state.outline.without "id" =
      .node state.kind.name state.role.properties [state.transitionsOutline] := by
  have others : ∀ p ∈ state.role.properties, (p.1 != "id") = true := by
    cases state.role <;> simp [Role.properties]
  change Outline.node state.kind.name
    ((("id", toString state.id) :: state.role.properties).filter (·.1 != "id"))
    [state.transitionsOutline] = _
  rw [List.filter_cons_of_neg (by simp), List.filter_eq_self.2 others]

variable {s t : State}

/-- Without the identifier, the outlines of two states are equal only if the states are equal up to
it. -/
theorem outline_without_id_inj :
    s.outline.without "id" = t.outline.without "id" ↔ s.withId t.id = t := by
  constructor
  · intro same
    rw [outline_without_id, outline_without_id] at same
    obtain ⟨name, properties, children⟩ := Outline.node.inj same
    refine outline_inj.1 ?_
    change Outline.node s.kind.name (("id", toString t.id) :: s.role.properties)
      [s.transitionsOutline] = t.outline
    rw [name, properties, children]
    rfl
  · intro same
    rw [← same, outline_without_id, outline_without_id]
    rfl

/-- The text of the outline is the same for all copies of a state but for the identifier. -/
theorem exists_display_withId (state : State) :
    ∃ before after : String, ∀ id : StateId,
      (state.withId id).outline.display = before ++ toString id ++ after := by
  let below := state.role.properties.map (propertyOf 0) ++ linesAll 1 [state.transitionsOutline]
  refine ⟨nameLine 0 state.kind.name ++ (indent 1 ++ "id" ++ ": "),
    "\n" ++ String.join (below.map Line.text), fun id => ?_⟩
  have lines_eq : (state.withId id).outline.lines 0 =
      ⟨0, state.kind.name, none⟩ :: propertyOf 0 ("id", toString id) :: below := rfl
  rw [display_eq, lines_eq, List.map_cons, List.map_cons, String.join_cons, String.join_cons,
    Line.text_name, Line.text_propertyOf, propertyLine]
  simp only [String.append_assoc]

/-- The text of the outline determines the state. Without the identifier, the outline and its text
determine the state up to it. So a copy under another identifier is shown like its source, except
that it shows its own identifier. -/
theorem display_eq_iff (s t : State) :
    (s.outline.display = t.outline.display ↔ s = t) ∧
    (s.outline.without "id" = t.outline.without "id" ↔ s.withId t.id = t) ∧
    ((s.outline.without "id").display = (t.outline.without "id").display ↔ s.withId t.id = t) ∧
    (∀ id : StateId, (s.withId id).outline.without "id" = s.outline.without "id" ∧
      (s.withId id).outline.get? "id" = some (toString id)) ∧
    ∃ before after : String, ∀ id : StateId,
      (s.withId id).outline.display = before ++ toString id ++ after := by
  refine ⟨?_, outline_without_id_inj, ?_, fun id => ⟨?_, ?_⟩, s.exists_display_withId⟩
  · rw [display_inj s.outline_legible t.outline_legible, outline_inj]
  · rw [display_inj (s.outline_legible.without "id") (t.outline_legible.without "id"),
      outline_without_id_inj]
  · rw [outline_without_id, outline_without_id]
    rfl
  · rfl

example : (State.matcher (.ofNat 3) (.ofList [none]) ∅ none).outline.display =
    "Matcher\n  id: 3\n  slots: \x7b\x7d\n  accept: none\n  transitions\n    0: -\n" := by
  cbv

end State
end ByteDFA
