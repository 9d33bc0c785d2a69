import ByteDFA.Proofs.Builder.Refusals

/-!
# Places are only added

Nothing that can be asked of a builder takes a place away or empties one, and none is taken beyond
the names that there are (`Grows.afterOne`). So what has been said of a place once can still be said
after any further requests (`Grows.after`).
-/

set_option autoImplicit false

namespace ByteDFA
namespace Builder

variable {builder older newer : Builder} {id : StateId} {state : State}

theorem size_grow (builder : Builder) (count : Nat) :
    (builder.grow count).places.size = max builder.places.size count := by
  simp [grow]
  omega

theorem toNat_lt_size_grow (builder : Builder) (id : StateId) :
    id.toNat < (builder.grow id.oneMore).places.size := by
  rw [size_grow]
  exact Nat.lt_of_lt_of_le (Nat.lt_succ_self _) (Nat.le_max_right _ _)

theorem size_add (builder : Builder) (state : State) :
    ((builder.grow state.id.oneMore).put state.id state).places.size =
      max builder.places.size state.id.oneMore := by
  simp only [put, Array.size_setIfInBounds]
  exact size_grow builder _

/-- No place is taken away or emptied, and there are names for all places if there were before. -/
structure Grows (older newer : Builder) : Prop where
  size_le : older.places.size ≤ newer.places.size
  few : older.places.size ≤ StateId.limit → newer.places.size ≤ StateId.limit
  filled : ∀ {id : StateId} {state : State}, older.state? id = some state →
    ∃ state', newer.state? id = some state'

namespace Grows

theorem refl (builder : Builder) : builder.Grows builder :=
  ⟨Nat.le_refl _, fun few => few, fun found => ⟨_, found⟩⟩

theorem trans {newest : Builder} (grows : older.Grows newer) (grows' : newer.Grows newest) :
    older.Grows newest := by
  refine ⟨Nat.le_trans grows.size_le grows'.size_le, fun few => grows'.few (grows.few few), ?_⟩
  intro id state found
  obtain ⟨state', found'⟩ := grows.filled found
  exact grows'.filled found'

theorem reserve (room : builder.places.size < StateId.limit) : builder.Grows builder.reserve := by
  have size : builder.reserve.places.size = builder.places.size + 1 := Array.size_push _
  refine ⟨by omega, fun _ => by omega, ?_⟩
  intro id state found
  exact ⟨state, by rw [state?_reserve, found]⟩

theorem grow (builder : Builder) {count : Nat} (few : count ≤ StateId.limit) :
    builder.Grows (builder.grow count) := by
  refine ⟨?_, ?_, ?_⟩
  · rw [size_grow]
    exact Nat.le_max_left _ _
  · intro few'
    rw [size_grow]
    exact Nat.max_le.2 ⟨few', few⟩
  · intro id state found
    exact ⟨state, by rw [state?_grow, found]⟩

theorem put (builder : Builder) (state : State) (inside : id.toNat < builder.places.size) :
    builder.Grows (builder.put id state) := by
  have size : (builder.put id state).places.size = builder.places.size := by simp [Builder.put]
  refine ⟨Nat.le_of_eq size.symm, fun few => size ▸ few, ?_⟩
  intro x old found
  rw [state?_put inside]
  split
  · exact ⟨state, rfl⟩
  · exact ⟨old, found⟩

theorem edit (builder : Builder) (id : StateId) (change : State → State) :
    builder.Grows (builder.edit id change) := by
  refine ⟨Nat.le_of_eq (size_edit ..).symm, fun few => (size_edit ..).symm ▸ few, ?_⟩
  intro x old found
  rw [state?_edit, found]
  split
  · exact ⟨change old, rfl⟩
  · exact ⟨old, rfl⟩

theorem add (proper : state.id ≠ StateId.noSuccessor) :
    builder.Grows ((builder.grow state.id.oneMore).put state.id state) := by
  have grown := Grows.grow builder (StateId.toNat_lt_of_ne proper)
  exact grown.trans (.put _ _ (builder.toNat_lt_size_grow state.id))

theorem unrolled {copies : Nat} (loopEnd : LoopEnd) (can : builder.CanUnroll id state copies) :
    builder.Grows (builder.unrolled id state copies loopEnd) := by
  have room := can.room
  refine ⟨by rw [size_unrolled]; omega, fun few => by rw [size_unrolled]; omega, ?_⟩
  intro x old found
  by_cases mem : x ∈ builder.chainOf id copies
  · obtain ⟨t, found', -⟩ := can.state?_of_mem loopEnd mem
    exact ⟨t, found'⟩
  · have other : x ≠ id := fun here => mem (List.mem_cons.2 (.inl here))
    exact ⟨old, by rw [can.state?_of_ne (toNat_lt_size found) other, found]⟩

theorem of_granted {request : Request} {answer : Array StateId}
    (granted : request.Granted older answer newer) : older.Grows newer := by
  induction granted with
  | nextId room => exact .reserve room
  | add proper vacant => exact .add proper
  | duplicate found added ih => exact ih
  | unroll can => exact .unrolled _ can
  | edit => exact .edit ..
  | anchoredStart => exact ⟨Nat.le_refl _, fun few => few, fun found => ⟨_, found⟩⟩
  | unanchoredStart => exact ⟨Nat.le_refl _, fun few => few, fun found => ⟨_, found⟩⟩

/-- No request takes a place away, whether it succeeds or not. -/
theorem afterOne (builder : Builder) (request : Request) :
    builder.Grows (builder.afterOne request) := by
  rcases builder.afterOne_eq_or_granted request with same | ⟨answer, granted⟩
  · rw [same]
    exact .refl builder
  · exact .of_granted granted

theorem after (builder : Builder) (requests : List Request) :
    builder.Grows (builder.after requests) := by
  induction requests generalizing builder with
  | nil => exact .refl builder
  | cons request rest ih => exact (Grows.afterOne builder request).trans (ih _)

end Grows

end Builder
end ByteDFA
