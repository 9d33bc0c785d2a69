import ByteDFA.Proofs.Builder.Freshness
import ByteDFA.Proofs.Builder.Missing

/-!
# States that are missing

Of a state that is missing there are two things to report: that its identifier has been reserved,
and that there has never been such an identifier. Builders do not keep a record of what has been
reserved; they report what has a place (`Builder.missing`). Every place comes from an identifier
that has been handed out or added, but adding a state takes all places before its own along
(`exists_mem_history`). What is passed over in this way is reported like what has been reserved, and
nothing else is confused (`lt_size_iff_of_absent`).
-/

set_option autoImplicit false

namespace ByteDFA
namespace Builder

/-- The identifiers that a request reserves for a state that is to be added later. -/
def reservedBy (builder : Builder) : Request → List StateId
  | .nextId => builder.handedOut .nextId
  | _ => []

/-- All identifiers that some requests, made one after the other, reserve. -/
def reserved (builder : Builder) : List Request → List StateId
  | [] => []
  | request :: rest => builder.reservedBy request ++ (builder.afterOne request).reserved rest

/-- An identifier that has neither been handed out nor added, when a larger one has. -/
def PassedOver (builder : Builder) (requests : List Request) (id : StateId) : Prop :=
  id ∉ builder.history requests ∧ ∃ x ∈ builder.history requests, id.toNat < x.toNat

variable {builder builder' : Builder} {id x : StateId} {request : Request}
  {requests : List Request} {answer : Array StateId} {error : BuildError}

/-! ## Where places come from -/

theorem handedOut_append_added_of_ok (ok : request.perform builder = .ok answer builder') :
    builder.handedOut request ++ builder.added request =
      request.fresh answer ++ request.chosen := by
  unfold handedOut added
  rw [ok]

theorem handedOut_append_added_of_error
    (refused : request.perform builder = .error error builder') :
    builder.handedOut request ++ builder.added request = [] := by
  unfold handedOut added
  rw [refused]
  rfl

/-- Places are taken up to an identifier that is handed out or added. -/
theorem exists_le_of_granted (granted : request.Granted builder answer builder') {number : Nat}
    (old : builder.places.size ≤ number) (new : number < builder'.places.size) :
    ∃ x ∈ request.fresh answer ++ request.chosen, number ≤ x.toNat := by
  induction granted with
  | nextId room =>
    refine ⟨_, List.mem_append_left _ (List.mem_singleton.2 rfl), ?_⟩
    rw [StateId.toNat_ofNat_of_lt room]
    simp only [reserve, Array.size_push] at new
    exact Nat.le_of_lt_succ new
  | @add builder state proper vacant =>
    refine ⟨state.id, List.mem_append_right _ (List.mem_singleton.2 rfl), ?_⟩
    rw [size_add] at new
    unfold StateId.oneMore at new
    omega
  | duplicate found added ih => exact ih old new
  | @unroll builder id state copies loopEnd can =>
    have room := can.room
    rw [size_unrolled] at new
    have number_of : (StateId.ofNat number).toNat = number :=
      StateId.toNat_ofNat_of_lt (by omega)
    refine ⟨.ofNat number, List.mem_append_left _ ((mem_nextIds room).2 ?_),
      Nat.le_of_eq number_of.symm⟩
    rw [number_of]
    exact ⟨old, new⟩
  | edit =>
    rw [size_edit] at new
    exact absurd new (Nat.not_lt_of_le old)
  | anchoredStart | unanchoredStart => exact absurd new (Nat.not_lt_of_le old)

/-- A place that has been taken is the one of an identifier that has been handed out or added, or it
comes before such a place. -/
theorem exists_mem_history {number : Nat} (old : builder.places.size ≤ number)
    (new : number < (builder.after requests).places.size) :
    ∃ x ∈ builder.history requests, number ≤ x.toNat := by
  induction requests generalizing builder with
  | nil => exact absurd new (Nat.not_lt_of_le old)
  | cons request rest ih =>
    by_cases later : (builder.afterOne request).places.size ≤ number
    · obtain ⟨x, mem, le⟩ := ih later new
      exact ⟨x, List.mem_append_right _ mem, le⟩
    · have now : number < (builder.afterOne request).places.size := Nat.lt_of_not_le later
      cases result : request.perform builder with
      | error =>
        rw [afterOne_of_error result] at now
        exact absurd now (Nat.not_lt_of_le old)
      | ok answer builder' =>
        rw [afterOne_of_ok result] at now
        obtain ⟨x, mem, le⟩ := exists_le_of_granted (.of_ok result) old now
        rw [← handedOut_append_added_of_ok result] at mem
        exact ⟨x, List.mem_append_left _ mem, le⟩

/-! ## Where states come from -/

/-- Only what is reserved is left without a state. -/
theorem exists_state?_of_granted (granted : request.Granted builder answer builder')
    (mem : x ∈ request.fresh answer ++ request.chosen) (other : request ≠ .nextId) :
    ∃ state, builder'.state? x = some state := by
  induction granted with
  | nextId room => exact absurd rfl other
  | @add builder state proper vacant =>
    rcases List.mem_append.1 mem with new | chosen
    · cases new
    · cases List.mem_singleton.1 chosen
      exact ⟨state, by rw [state?_put (builder.toNat_lt_size_grow state.id), if_pos rfl]⟩
  | duplicate found added ih => exact ih mem (fun same => nomatch same)
  | unroll can =>
    rcases List.mem_append.1 mem with new | chosen
    · exact ⟨_, can.state?_member _ (List.mem_cons_of_mem _ new)⟩
    · cases chosen
  | edit | anchoredStart | unanchoredStart => cases mem

theorem mem_reservedBy_or_exists_state?
    (mem : x ∈ builder.handedOut request ++ builder.added request) :
    x ∈ builder.reservedBy request ∨ ∃ state, (builder.afterOne request).state? x = some state := by
  cases result : request.perform builder with
  | error =>
    rw [handedOut_append_added_of_error result] at mem
    cases mem
  | ok answer builder' =>
    by_cases reserves : request = .nextId
    · subst reserves
      left
      rcases List.mem_append.1 mem with new | chosen
      · exact new
      · unfold added at chosen
        rw [result] at chosen
        cases chosen
    · right
      rw [handedOut_append_added_of_ok result] at mem
      rw [afterOne_of_ok result]
      exact exists_state?_of_granted (.of_ok result) mem reserves

/-- What has been handed out or added has been reserved, or there is a state under it from then
on. -/
theorem mem_reserved_or_exists_state? (mem : x ∈ builder.history requests) :
    x ∈ builder.reserved requests ∨ ∃ state, (builder.after requests).state? x = some state := by
  induction requests generalizing builder with
  | nil => cases mem
  | cons request rest ih =>
    rcases List.mem_append.1 mem with now | later
    · rcases mem_reservedBy_or_exists_state? now with here | ⟨state, found⟩
      · exact .inl (List.mem_append_left _ here)
      · exact .inr ((Grows.after _ rest).filled found)
    · rcases ih later with here | found
      · exact .inl (List.mem_append_right _ here)
      · exact .inr found

theorem mem_history_of_mem_reserved (mem : x ∈ builder.reserved requests) :
    x ∈ builder.history requests := by
  induction requests generalizing builder with
  | nil => cases mem
  | cons request rest ih =>
    rcases List.mem_append.1 mem with now | later
    · cases request with
      | nextId => exact List.mem_append_left _ (List.mem_append_left _ now)
      | _ => cases now
    · exact List.mem_append_right _ (ih later)

theorem mem_reserved_iff_of_absent (absent : (builder.after requests).state? id = none) :
    id ∈ builder.reserved requests ↔ id ∈ builder.history requests := by
  refine ⟨mem_history_of_mem_reserved, ?_⟩
  intro old
  rcases mem_reserved_or_exists_state? old with here | ⟨state, found⟩
  · exact here
  · rw [absent] at found
    cases found

/-- A place without a state has been reserved or passed over. -/
theorem lt_size_iff_of_absent {classes : ByteClasses} {groupCount : Nat}
    (absent : ((empty classes groupCount).after requests).state? id = none) :
    id.toNat < ((empty classes groupCount).after requests).places.size ↔
      id ∈ (empty classes groupCount).reserved requests ∨
        (empty classes groupCount).PassedOver requests id := by
  constructor
  · intro inside
    obtain ⟨x, mem, le⟩ := exists_mem_history (Nat.zero_le _) inside
    by_cases old : id ∈ (empty classes groupCount).history requests
    · exact .inl ((mem_reserved_iff_of_absent absent).2 old)
    · refine .inr ⟨old, x, mem, Nat.lt_of_le_of_ne le ?_⟩
      intro same
      exact old (StateId.toNat_injective same ▸ mem)
  · intro reached
    rcases reached with here | ⟨-, x, mem, lt⟩
    · exact lt_size_of_mem_history (mem_history_of_mem_reserved here)
    · exact Nat.lt_trans lt (lt_size_of_mem_history mem)

/-! ## Reports -/

theorem message_unknownState_ne (id : StateId) :
    (BuildError.unknownState id).message ≠ (BuildError.noSuchState id).message := by
  intro same
  unfold BuildError.message at same
  dsimp only at same
  rw [String.append_right_inj] at same
  exact absurd same (by decide)

theorem message_missing_eq_reserved_iff :
    (builder.missing id).message = s!"state {id} was reserved but never added" ↔
      id.toNat < builder.places.size := by
  unfold missing
  split
  · rename_i inside
    exact iff_of_true rfl inside
  · rename_i outside
    exact iff_of_false (fun same => message_unknownState_ne id same.symm) outside

theorem message_missing_eq_unknown_iff :
    (builder.missing id).message = s!"state {id} does not exist" ↔
      ¬id.toNat < builder.places.size := by
  unfold missing
  split
  · rename_i inside
    exact iff_of_false (message_unknownState_ne id) (not_not_intro inside)
  · rename_i outside
    exact iff_of_true rfl outside

theorem duplicate_of_absent (absent : builder.state? id = none) (copy : StateId) :
    duplicate id copy builder = .error (builder.missing id) builder := by
  unfold duplicate
  rw [absent]

theorem unroll_of_absent (absent : builder.state? id = none) (copies : Nat) (loopEnd : LoopEnd) :
    unroll id copies loopEnd builder = .error (builder.missing id) builder := by
  refine unroll_eq_error_iff.2 ⟨?_, rfl⟩
  unfold unrollError?
  rw [absent]

/-- Whichever request finds a state missing reports it alike, and so does freezing. What is reported
as reserved has been reserved or passed over. What is reported not to exist has neither been handed
out nor added, nor passed over. -/
theorem absence_reported {classes : ByteClasses} {groupCount : Nat} {requests : List Request}
    {builder : Builder} (made : builder = (empty classes groupCount).after requests) :
    (∀ id, builder.state? id = none → ∃ error : BuildError,
        (∀ copy, duplicate id copy builder = .error error builder) ∧
        (∀ copies loopEnd, unroll id copies loopEnd builder = .error error builder) ∧
        (builder.Lacks id → builder.build = .error error) ∧
        (error.message = s!"state {id} was reserved but never added" ↔
          id ∈ (empty classes groupCount).reserved requests ∨
            (empty classes groupCount).PassedOver requests id) ∧
        (error.message = s!"state {id} does not exist" ↔
          id ∉ (empty classes groupCount).history requests ∧
            ¬(empty classes groupCount).PassedOver requests id)) ∧
      ∀ id error, builder.build = .error error → error.absent? = some id → builder.Lacks id := by
  subst made
  have few : ((empty classes groupCount).after requests).places.size ≤ StateId.limit :=
    (Grows.after _ requests).few (Nat.zero_le _)
  constructor
  · intro id absent
    refine ⟨_, duplicate_of_absent absent, unroll_of_absent absent, ?_, ?_, ?_⟩
    · intro lacks
      exact (build_eq_error_iff_of_absent? few (absent?_missing _ id)).2 ⟨rfl, lacks⟩
    · rw [message_missing_eq_reserved_iff, lt_size_iff_of_absent absent]
    · rw [message_missing_eq_unknown_iff, lt_size_iff_of_absent absent, not_or,
        mem_reserved_iff_of_absent absent]
  · intro id error failed reports
    exact ((build_eq_error_iff_of_absent? few reports).1 failed).2

/-- Place 0 is reserved. A final state is added in place 2, so that place 1 is passed over. -/
def placeOnePassedOver : List Request :=
  [.nextId, .add (.final (.ofNat 2) ∅), .anchoredStart (.ofNat 0)]

/-- State 0 is reported as reserved, also when the builder is frozen. -/
theorem absence_reported_placeOnePassedOver :
    ∃ error : BuildError,
      duplicate (.ofNat 0) (.ofNat 3) ((empty .empty 0).after placeOnePassedOver) =
          .error error ((empty .empty 0).after placeOnePassedOver) ∧
        ((empty .empty 0).after placeOnePassedOver).build = .error error ∧
        error.message = "state 0 was reserved but never added" := by
  obtain ⟨reports, -⟩ := absence_reported (rfl : _ = (empty .empty 0).after placeOnePassedOver)
  have absent : ((empty .empty 0).after placeOnePassedOver).state? (.ofNat 0) = none := by
    decide +kernel
  have lacks : ((empty .empty 0).after placeOnePassedOver).Lacks (.ofNat 0) := by
    refine ⟨by decide +kernel, ?_, ⟨.ofNat 0, rfl⟩, absent, .inl ⟨by decide +kernel, ?_⟩⟩
    · intro b
      have classes : ((empty .empty 0).after placeOnePassedOver).classes = .empty := rfl
      rw [classes]
      simp [ByteClasses.alphabetLen, ByteClasses.empty]
    · intro x before
      cases before
  have here : .ofNat 0 ∈ (empty .empty 0).reserved placeOnePassedOver := by decide +kernel
  obtain ⟨error, copied, -, frozen, reserved, -⟩ := reports (.ofNat 0) absent
  exact ⟨error, copied (.ofNat 3), frozen lacks, reserved.2 (.inl here)⟩

/-- State 1 is reported as reserved as well, but nobody has reserved it. -/
theorem exists_passed_over_reported_as_reserved :
    ∃ error : BuildError,
      duplicate (.ofNat 1) (.ofNat 3) ((empty .empty 0).after placeOnePassedOver) =
          .error error ((empty .empty 0).after placeOnePassedOver) ∧
        error.message = "state 1 was reserved but never added" ∧
        .ofNat 1 ∉ (empty .empty 0).reserved placeOnePassedOver ∧
        .ofNat 1 ∉ (empty .empty 0).history placeOnePassedOver := by
  have absent : ((empty .empty 0).after placeOnePassedOver).state? (.ofNat 1) = none := by
    decide +kernel
  refine ⟨_, duplicate_of_absent absent (.ofNat 3), ?_, by decide +kernel, by decide +kernel⟩
  exact message_missing_eq_reserved_iff.2 (by decide +kernel)

end Builder
end ByteDFA
