import ByteDFA.Proofs.Builder.Growth

/-!
# Fresh identifiers

A builder hands out an identifier by taking the next place, so a new identifier is the number of
places at that time. Nothing that was handed out or added before reaches that far
(`lt_size_of_mem_history`), since requests only ever add places (`Grows.afterOne`). So no identifier
is handed out twice, and none that has a state (`fresh_after`). Places never run past the limit:
`StateId.noSuccessor` is the number of none of them.
-/

set_option autoImplicit false

namespace ByteDFA

/-- The identifiers under which a request asks for states of its own. -/
def Request.chosen : Request → List StateId
  | add state => [state.id]
  | duplicate _ copy => [copy]
  | _ => []

/-- The identifiers in an answer that are new. A chain begins with the state that is unrolled. -/
def Request.fresh : Request → Array StateId → List StateId
  | unroll _ _ _, chain => chain.toList.tail
  | _, answer => answer.toList

namespace Builder

variable {builder builder' : Builder} {id : StateId} {state : State} {request : Request}
  {answer : Array StateId}

/-- The identifiers that a request hands out. -/
def handedOut (builder : Builder) (request : Request) : List StateId :=
  match request.perform builder with
  | .ok answer _ => request.fresh answer
  | .error _ _ => []

/-- The identifiers under which a request adds states, if it is not refused. -/
def added (builder : Builder) (request : Request) : List StateId :=
  match request.perform builder with
  | .ok _ _ => request.chosen
  | .error _ _ => []

/-- All identifiers that some requests, made one after the other, hand out or add states under. -/
def history (builder : Builder) : List Request → List StateId
  | [] => []
  | request :: rest =>
    builder.handedOut request ++ builder.added request ++ (builder.afterOne request).history rest

/-! ## What is handed out and added -/

/-- What a request that succeeds has handed out and added. -/
structure Allots (request : Request) (builder builder' : Builder) (answer : Array StateId) :
    Prop where
  nodup : (request.fresh answer).Nodup
  new : ∀ id ∈ request.fresh answer,
    builder.places.size ≤ id.toNat ∧ id.toNat < builder'.places.size ∧ id.toNat < StateId.limit
  chosen : ∀ id ∈ request.chosen, id.toNat < builder'.places.size

theorem Allots.of_granted (granted : request.Granted builder answer builder') :
    Allots request builder builder' answer := by
  induction granted with
  | nextId room =>
    refine ⟨List.pairwise_singleton _ _, ?_, fun _ mem => absurd mem List.not_mem_nil⟩
    intro id mem
    rw [List.mem_singleton.1 mem, StateId.toNat_ofNat_of_lt room]
    simp only [reserve, Array.size_push]
    exact ⟨Nat.le_refl _, Nat.lt_succ_self _, room⟩
  | add proper vacant =>
    refine ⟨List.nodup_nil, fun _ mem => absurd mem List.not_mem_nil, ?_⟩
    intro id mem
    rw [List.mem_singleton.1 mem, size_add]
    exact Nat.lt_of_lt_of_le (Nat.lt_succ_self _) (Nat.le_max_right _ _)
  | duplicate found added ih => exact ⟨ih.nodup, ih.new, ih.chosen⟩
  | unroll can =>
    have room := can.room
    refine ⟨nodup_nextIds room, ?_, fun _ mem => absurd mem List.not_mem_nil⟩
    intro x mem
    obtain ⟨le, lt⟩ := (mem_nextIds room).1 mem
    rw [size_unrolled]
    exact ⟨le, lt, by omega⟩
  | edit | anchoredStart | unanchoredStart =>
    exact ⟨List.nodup_nil, fun _ mem => absurd mem List.not_mem_nil,
      fun _ mem => absurd mem List.not_mem_nil⟩

theorem nodup_handedOut (builder : Builder) (request : Request) :
    (builder.handedOut request).Nodup := by
  unfold handedOut
  split
  · rename_i ok
    exact (Allots.of_granted (.of_ok ok)).nodup
  · exact List.nodup_nil

/-- What is handed out is the number of a place that is only there afterwards. -/
theorem bounds_of_mem_handedOut (mem : id ∈ builder.handedOut request) :
    builder.places.size ≤ id.toNat ∧ id.toNat < (builder.afterOne request).places.size ∧
      id.toNat < StateId.limit := by
  unfold handedOut at mem
  split at mem
  · rename_i ok
    rw [afterOne_of_ok ok]
    exact (Allots.of_granted (.of_ok ok)).new id mem
  · cases mem

theorem lt_size_of_mem_added (mem : id ∈ builder.added request) :
    id.toNat < (builder.afterOne request).places.size := by
  unfold added at mem
  split at mem
  · rename_i ok
    rw [afterOne_of_ok ok]
    exact (Allots.of_granted (.of_ok ok)).chosen id mem
  · cases mem

/-- Whatever has been handed out or added is the number of a place. -/
theorem lt_size_of_mem_history {requests : List Request}
    (mem : id ∈ builder.history requests) : id.toNat < (builder.after requests).places.size := by
  induction requests generalizing builder with
  | nil => cases mem
  | cons request rest ih =>
    have later : (builder.afterOne request).places.size ≤
        (builder.after (request :: rest)).places.size := (Grows.after _ rest).size_le
    rcases List.mem_append.1 mem with now | mem
    · rcases List.mem_append.1 now with new | chosen
      · exact Nat.lt_of_lt_of_le (bounds_of_mem_handedOut new).2.1 later
      · exact Nat.lt_of_lt_of_le (lt_size_of_mem_added chosen) later
    · exact ih mem

theorem state?_eq_none_of_size_le (beyond : builder.places.size ≤ id.toNat) :
    builder.state? id = none := by
  unfold state?
  rw [Array.getElem?_eq_none beyond]
  rfl

/-- Identifiers are fresh and never used again. After any requests to an empty builder there are no
more places than identifiers, so there is never a state without a proper one. Whatever is requested
next, no place is taken away or emptied, and each identifier that it hands out has a proper number,
has no state, and has neither been handed out nor added before. -/
theorem fresh_after (classes : ByteClasses) (groupCount : Nat) (requests : List Request) :
    ((empty classes groupCount).after requests).places.size ≤ 65535 ∧
      ((empty classes groupCount).after requests).state? .noSuccessor = none ∧
      ∀ request,
        ((empty classes groupCount).after requests).places.size ≤
            (((empty classes groupCount).after requests).afterOne request).places.size ∧
          (∀ id state, ((empty classes groupCount).after requests).state? id = some state →
            ∃ state', (((empty classes groupCount).after requests).afterOne request).state? id =
              some state') ∧
          (((empty classes groupCount).after requests).handedOut request).Nodup ∧
          ∀ id ∈ ((empty classes groupCount).after requests).handedOut request,
            id.toNat ≤ 65534 ∧ ((empty classes groupCount).after requests).state? id = none ∧
              id ∉ (empty classes groupCount).history requests := by
  have few : ((empty classes groupCount).after requests).places.size ≤ StateId.limit :=
    (Grows.after _ requests).few (Nat.zero_le _)
  refine ⟨few, state?_eq_none_of_size_le few, ?_⟩
  intro request
  have grows := Grows.afterOne ((empty classes groupCount).after requests) request
  refine ⟨grows.size_le, fun _ _ => grows.filled, nodup_handedOut _ _, ?_⟩
  intro id mem
  obtain ⟨new, -, proper⟩ := bounds_of_mem_handedOut mem
  refine ⟨Nat.le_of_lt_succ proper, state?_eq_none_of_size_le new, ?_⟩
  intro old
  exact Nat.not_lt_of_le new (lt_size_of_mem_history old)

/-- A matcher that loops is added in place 1, and place 2 is taken. -/
def loopInPlaceOne : List Request :=
  [.add (.matcher (.ofNat 1) (.ofList [some (.ofNat 1)]) ∅ none), .nextId]

/-- Two copies of the loop get the places after that, which are new. -/
theorem fresh_after_loopInPlaceOne :
    (empty .empty 0).history loopInPlaceOne = [.ofNat 1, .ofNat 2] ∧
      ((empty .empty 0).after loopInPlaceOne).handedOut (.unroll (.ofNat 1) 2 .keep) =
        [.ofNat 3, .ofNat 4] ∧
      .ofNat 4 ∉ (empty .empty 0).history loopInPlaceOne := by
  have chain : ((empty .empty 0).after loopInPlaceOne).handedOut (.unroll (.ofNat 1) 2 .keep) =
      [.ofNat 3, .ofNat 4] := by decide +kernel
  obtain ⟨-, -, next⟩ := fresh_after .empty 0 loopInPlaceOne
  obtain ⟨-, -, -, fresh⟩ := next (.unroll (.ofNat 1) 2 .keep)
  rw [chain] at fresh
  exact ⟨by decide +kernel, chain, (fresh (.ofNat 4) (by decide)).2.2⟩

end Builder
end ByteDFA
