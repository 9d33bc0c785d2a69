import ByteDFA.Proofs.Text.Value
import ByteDFA.State.Text

/-!
# Reading the outline of a state back

No two states have the same outline (`outline_inj`): its name tells the kind, and its properties and
the table below it tell the rest, each of them as a text that can be read back. The keys of a table
play no part in this; they count the entries.
-/

set_option autoImplicit false

namespace ByteDFA

open ValueText

/-! ## The texts of the parts -/

theorem StateId.toString_injective {a b : StateId} (same : toString a = toString b) : a = b :=
  StateId.toNat_injective (ValueText.toString_injective same)

namespace SlotSet

variable {a b : SlotSet}

theorem items_debug (set : SlotSet) :
    ∀ x ∈ set.toList.map fun slot => toString slot, x ≠ "" ∧ Unbroken x.toList := by
  intro x mem
  obtain ⟨slot, -, rfl⟩ := List.mem_map.1 mem
  exact ⟨toString_ne_empty slot, unbroken_toString slot⟩

theorem debug_injective (same : a.debug = b.debug) : a = b := by
  unfold debug ValueText.set at same
  rw [String.append_left_inj, String.append_right_inj] at same
  have members := eq_of_intercalate_eq (items_debug a) (items_debug b) same
  have lists : a.toList = b.toList := List.map_injective_iff.2 (fun _ _ => toString_injective) members
  refine BitSet.ext fun slot => Bool.eq_iff_iff.2 ?_
  rw [← BitSet.mem_toList, ← BitSet.mem_toList, lists]

/-- The text for not accepting is not that of any set. -/
theorem debug_ne_none (set : SlotSet) : set.debug ≠ "none" := by
  intro same
  have heads : some '\x7b' = some 'n' := by
    have chars := congrArg (fun text => text.toList.head?) same
    rw [debug, ValueText.set, String.toList_append, String.toList_append] at chars
    exact chars
  exact absurd heads (by decide)

end SlotSet

namespace TransitionTable

variable {table table' : TransitionTable} {a b : Option StateId}

theorem toString_ne_dash (n : Nat) : toString n ≠ "-" := by
  intro dash
  have digit : '-'.isDigit = true := isDigit_of_mem_toString (n := n) (by rw [dash]; decide)
  exact absurd digit (by decide)

theorem entryText_injective (same : entryText a = entryText b) : a = b := by
  cases a with
  | none =>
    cases b with
    | none => rfl
    | some id => exact absurd same.symm (toString_ne_dash id.toNat)
  | some id =>
    cases b with
    | none => exact absurd same (toString_ne_dash id.toNat)
    | some id' => rw [StateId.toString_injective same]

/-- The entries can be read back, whatever their keys are. -/
theorem eq_of_entries {key key' : Nat → String}
    (same : (table.toList.mapIdx fun i next => (key i, entryText next)) =
      table'.toList.mapIdx fun i next => (key' i, entryText next)) : table = table' := by
  have texts (key : Nat → String) (table : TransitionTable) :
      (table.toList.mapIdx fun i next => (key i, entryText next)).map Prod.snd =
        table.toList.map entryText := by
    refine List.ext_getElem? fun i => ?_
    rw [List.getElem?_map, List.getElem?_mapIdx, List.getElem?_map, Option.map_map]
    rfl
  have values := congrArg (List.map Prod.snd) same
  rw [texts, texts] at values
  exact toList_injective (List.map_injective_iff.2 (fun _ _ => entryText_injective) values)

end TransitionTable

/-! ## States -/

theorem Kind.name_injective {a b : Kind} (same : a.name = b.name) : a = b := by
  cases a <;> cases b <;> first | rfl | exact absurd same (by decide)

/-- The text for the accept slots of a matcher can be read back. -/
theorem SlotSet.accept_injective {a b : Option SlotSet}
    (same : (a.map SlotSet.debug).getD "none" = (b.map SlotSet.debug).getD "none") : a = b := by
  cases a with
  | none =>
    cases b with
    | none => rfl
    | some set => exact absurd same.symm set.debug_ne_none
  | some set =>
    cases b with
    | none => exact absurd same set.debug_ne_none
    | some set' => rw [SlotSet.debug_injective same]

/-- The properties of a role tell what it is among the roles of its kind. -/
theorem Role.eq_of_properties {a b : Role} (kind : a.kind = b.kind)
    (same : a.properties = b.properties) : a = b := by
  cases a with
  | start slots =>
    cases b with
    | start slots' =>
      have recorded : slots.debug = slots'.debug := (Prod.mk.inj (List.cons.inj same).1).2
      rw [SlotSet.debug_injective recorded]
    | matcher | final | traceFinder => cases kind
  | matcher slots accept =>
    cases b with
    | matcher slots' accept' =>
      obtain ⟨first, rest⟩ := List.cons.inj same
      have accepted := (Prod.mk.inj (List.cons.inj rest).1).2
      rw [SlotSet.debug_injective (Prod.mk.inj first).2, SlotSet.accept_injective accepted]
    | start | final | traceFinder => cases kind
  | final slots =>
    cases b with
    | final slots' =>
      have recorded : slots.debug = slots'.debug := (Prod.mk.inj (List.cons.inj same).1).2
      rw [SlotSet.debug_injective recorded]
    | start | matcher | traceFinder => cases kind
  | traceFinder =>
    cases b with
    | traceFinder => rfl
    | start | matcher | final => cases kind

/-- No two states have the same outline. -/
theorem State.outline_inj {s t : State} : s.outline = t.outline ↔ s = t := by
  constructor
  · intro same
    obtain ⟨name, properties, children⟩ := Outline.node.inj same
    obtain ⟨id, properties⟩ := List.cons.inj properties
    have entries := (Outline.node.inj (List.cons.inj children).1).2.1
    have ids := StateId.toString_injective (Prod.mk.inj id).2
    have tables := TransitionTable.eq_of_entries entries
    have roles := Role.eq_of_properties (Kind.name_injective name) properties
    cases s
    cases t
    rw [State.mk.injEq]
    exact ⟨ids, tables, roles⟩
  · intro same
    rw [same]

end ByteDFA
