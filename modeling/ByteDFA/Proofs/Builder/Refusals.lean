import ByteDFA.Proofs.Builder.Requests

/-!
# Requests that are refused

A request that is refused leaves the builder as it is. This is not plain for two of the requests.
One is to add a state: places are taken before it turns out that there is a state already, but then
there was no place to take (`atomic_add`). The other is to unroll a state, which takes and fills one
place after the other. What might be refused on the way is looked at before (`CanUnroll.round`), so
there is never anything to be taken back (`unroll_eq_error_iff`).
-/

set_option autoImplicit false

namespace ByteDFA
namespace Builder

variable {builder builder' : Builder} {id : StateId} {state : State} {copies : Nat}
  {loopEnd : LoopEnd} {error : BuildError}

/-- A request that changes nothing if it is refused. -/
def Atomic {α : Type} (action : BuildM α) : Prop :=
  ∀ builder error builder', action builder = .error error builder' → builder' = builder

theorem Atomic.map {α β : Type} {action : BuildM α} (atomic : Atomic action) (answer : α → β) :
    Atomic (do return answer (← action)) := by
  intro builder error builder' refused
  change EStateM.bind action (fun value => pure (answer value)) builder = _ at refused
  unfold EStateM.bind at refused
  cases first : action builder with
  | ok =>
    rw [first] at refused
    cases refused
  | error =>
    rw [first] at refused
    cases refused
    exact atomic builder _ _ first

/-! ## States -/

theorem atomic_nextId : Atomic nextId := by
  intro builder error builder' refused
  unfold nextId at refused
  split at refused
  · cases refused
  · cases refused
    rfl

theorem atomic_add (state : State) : Atomic (add state) := by
  intro builder error builder' refused
  unfold add at refused
  split at refused
  · cases refused
    rfl
  · dsimp only at refused
    split at refused
    · rename_i found
      cases refused
      rw [state?_grow] at found
      exact grow_of_le (toNat_lt_size found)
    · cases refused

theorem atomic_duplicate (source copy : StateId) : Atomic (duplicate source copy) := by
  intro builder error builder' refused
  unfold duplicate at refused
  split at refused
  · cases refused
    rfl
  · exact atomic_add _ builder error builder' refused

/-! ## Loops -/

/-- If a state can be unrolled, then however many copies have been made of it so far, the next place
can be taken and filled. -/
theorem CanUnroll.round (can : builder.CanUnroll id state copies) {done : Nat}
    (more : done < copies) :
    ∃ chain between copy reserved filled,
      addCopies id done #[id] builder = .ok chain between ∧
        nextId between = .ok copy reserved ∧ duplicate id copy reserved = .ok () filled ∧
        addCopies id (done + 1) #[id] builder = .ok (chain.push copy) filled := by
  have room := can.room
  have size := size_withCopies builder state done
  have free : (builder.withCopies state done).places.size < StateId.limit := by omega
  have still : (builder.withCopies state done).state? id = some state := by
    rw [state?_withCopies (by omega), if_neg, can.found]
    intro next
    exact Nat.not_le_of_lt (toNat_lt_size can.found) ((mem_nextIds (by omega)).1 next).1
  refine ⟨_, _, _, _, _, addCopies_eq can.found (by omega) #[id], nextId_of_lt free,
    duplicate_reserve still free, ?_⟩
  rw [addCopies_eq can.found (by omega), size, nextIds_succ_last, withCopies_succ_last]
  simp

/-- What is reported are the checks that come first. -/
theorem unroll_eq_error_iff :
    unroll id copies loopEnd builder = .error error builder' ↔
      builder.unrollError? id copies = some error ∧ builder' = builder := by
  cases check : builder.unrollError? id copies with
  | some error' =>
    unfold unroll
    rw [check]
    constructor
    · intro refused
      cases refused
      exact ⟨rfl, rfl⟩
    · intro same
      obtain ⟨⟨⟩, rfl⟩ := same
      rfl
  | none =>
    obtain ⟨state, can⟩ := unrollError?_eq_none_iff.1 check
    rw [unroll_eq_ok_iff.2 ⟨state, can, rfl, rfl⟩]
    exact iff_of_false (fun refused => nomatch refused) fun same => nomatch same.1

theorem atomic_unroll (id : StateId) (copies : Nat) (loopEnd : LoopEnd) :
    Atomic (unroll id copies loopEnd) :=
  fun _ _ _ refused => (unroll_eq_error_iff.1 refused).2

/-! ## Requests -/

theorem atomic_perform (request : Request) : Atomic request.perform := by
  cases request with
  | nextId => exact atomic_nextId.map _
  | add state => exact (atomic_add state).map fun _ => #[]
  | duplicate source copy => exact (atomic_duplicate source copy).map fun _ => #[]
  | unroll id copies loopEnd => exact atomic_unroll id copies loopEnd
  | edit | anchoredStart | unanchoredStart => exact fun _ _ _ refused => nomatch refused

theorem afterOne_of_error {request : Request}
    (refused : request.perform builder = .error error builder') :
    builder.afterOne request = builder := by
  unfold afterOne left
  rw [refused]
  exact atomic_perform request builder error builder' refused

theorem afterOne_of_ok {request : Request} {answer : Array StateId}
    (ok : request.perform builder = .ok answer builder') :
    builder.afterOne request = builder' := by
  unfold afterOne left
  rw [ok]

/-- Either nothing is changed, or the request has been granted. -/
theorem afterOne_eq_or_granted (builder : Builder) (request : Request) :
    builder.afterOne request = builder ∨
      ∃ answer, request.Granted builder answer (builder.afterOne request) := by
  cases result : request.perform builder with
  | ok answer builder' =>
    right
    rw [afterOne_of_ok result]
    exact ⟨answer, .of_ok result⟩
  | error error builder' =>
    left
    exact afterOne_of_error result

/-- Nothing is changed by a request that is refused. A state is unrolled unless one of the checks
that come first fails: its copies can all be made, one after the other. -/
theorem refused_unchanged :
    Atomic nextId ∧ (∀ state, Atomic (add state)) ∧
      (∀ source copy, Atomic (duplicate source copy)) ∧
      (∀ id copies loopEnd, Atomic (unroll id copies loopEnd)) ∧
      ∀ (builder : Builder) (id : StateId) (copies : Nat),
        (∀ loopEnd error builder', unroll id copies loopEnd builder = .error error builder' →
          builder.unrollError? id copies = some error) ∧
        (builder.unrollError? id copies = none →
          (∃ chain copied, addCopies id copies #[id] builder = .ok chain copied) ∧
          ∀ done < copies, ∃ chain between copy reserved filled,
            addCopies id done #[id] builder = .ok chain between ∧
              nextId between = .ok copy reserved ∧ duplicate id copy reserved = .ok () filled ∧
              addCopies id (done + 1) #[id] builder = .ok (chain.push copy) filled) := by
  refine ⟨atomic_nextId, atomic_add, atomic_duplicate, atomic_unroll, ?_⟩
  intro builder id copies
  refine ⟨fun _ _ _ refused => (unroll_eq_error_iff.1 refused).1, ?_⟩
  intro passes
  obtain ⟨state, can⟩ := unrollError?_eq_none_iff.1 passes
  exact ⟨⟨_, _, addCopies_eq can.found can.room #[id]⟩, fun done more => can.round more⟩

/-- For the builder for one or more of `a`: a second state in place 1 is refused, and so is one copy
too many of the state in place 2. All copies for which there is room can be made. -/
theorem refused_unchanged_aPlus :
    (∃ builder', add (.final (.ofNat 1) ∅) aPlus = .error (.duplicateState (.ofNat 1)) builder' ∧
      builder' = aPlus) ∧
    (∃ builder', unroll (.ofNat 2) 65533 .keep aPlus = .error .tooManyStates builder' ∧
      builder' = aPlus ∧ aPlus.unrollError? (.ofNat 2) 65533 = some .tooManyStates) ∧
    ∃ chain copied, addCopies (.ofNat 2) 65532 #[.ofNat 2] aPlus = .ok chain copied := by
  obtain ⟨-, added, -, unrolled, loops⟩ := refused_unchanged
  have twice : ∃ builder', add (.final (.ofNat 1) ∅) aPlus =
      .error (.duplicateState (.ofNat 1)) builder' := ⟨_, rfl⟩
  have crowded : ∃ builder', unroll (.ofNat 2) 65533 .keep aPlus =
      .error .tooManyStates builder' := ⟨_, unroll_eq_error_iff.2 ⟨by decide +kernel, rfl⟩⟩
  have fits : aPlus.unrollError? (.ofNat 2) 65532 = none := by decide +kernel
  obtain ⟨builder', twice⟩ := twice
  obtain ⟨builder'', crowded⟩ := crowded
  obtain ⟨early, -⟩ := loops aPlus (.ofNat 2) 65533
  obtain ⟨-, rounds⟩ := loops aPlus (.ofNat 2) 65532
  exact ⟨⟨builder', twice, added _ _ _ _ twice⟩,
    ⟨builder'', crowded, unrolled _ _ _ _ _ _ crowded, early _ _ _ crowded⟩, (rounds fits).1⟩

end Builder
end ByteDFA
