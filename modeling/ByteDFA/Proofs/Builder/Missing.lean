import ByteDFA.Proofs.Builder.Completeness

/-!
# What is missing when a builder is frozen

The checks that a builder has to pass are made in a fixed order, and only the first defect is
reported. `Builder.Lacks` says of a state what it takes to be this defect, without a check:
everything that is looked at earlier is in order. Freezing reports a state as missing in this case
and in no other (`build_eq_error_iff_of_absent?`).
-/

set_option autoImplicit false

namespace ByteDFA

/-- The state that an error reports as missing. -/
def BuildError.absent? : BuildError → Option StateId
  | unknownState id => some id
  | noSuchState id => some id
  | _ => none

namespace Builder

/-- Freezing a builder fails for want of a state: nothing that is looked at earlier is wrong. -/
structure Lacks (builder : Builder) (id : StateId) : Prop where
  groups : builder.groupCount ≤ 32
  byteClass : ∀ b, (builder.classes.get b).toNat < builder.classes.alphabetLen
  chosen : ∃ anchored, builder.anchoredStart = some anchored
  absent : builder.state? id = none
  /-- Either its place is empty, and it is the first one where something is wrong, or nothing is
  wrong with any place, and it is a start. -/
  first : (id.toNat < builder.places.size ∧
      ∀ x, x.toNat < id.toNat → ∃ state, builder.state? x = some state ∧ state.Fits builder) ∨
    ((∀ number < builder.places.size, ∃ state,
        builder.places[number]? = some (some state) ∧ state.Fits builder) ∧
      (builder.anchoredStart = some id ∨ builder.unanchoredStart = some id ∧
        ∀ anchored, builder.anchoredStart = some anchored → builder.HasStart anchored))

variable {builder : Builder} {id x : StateId} {error : BuildError}

/-! ## Checks that report a state as missing -/

theorem absent?_missing (builder : Builder) (id : StateId) :
    (builder.missing id).absent? = some id := by
  unfold missing
  split
  · rfl
  · rfl

theorem absent?_of_byteDefect? {b : UInt8} (defect : builder.byteDefect? b = some error) :
    error.absent? = none := by
  unfold byteDefect? at defect
  dsimp only at defect
  split at defect
  · cases defect
    rfl
  · cases defect

theorem absent?_of_stateDefect? {state : State} (defect : builder.stateDefect? state = some error) :
    error.absent? = none := by
  unfold stateDefect? at defect
  dsimp only at defect
  split at defect
  · cases defect
    rfl
  · rcases Option.or_eq_some_iff.1 defect with successor | ⟨-, slot⟩
    · obtain ⟨next, -, wrong⟩ := List.exists_of_findSome?_eq_some successor
      unfold successorDefect? at wrong
      split at wrong
      · cases wrong
      · split at wrong
        · cases wrong
          rfl
        · split at wrong
          · cases wrong
            rfl
          · cases wrong
    · unfold slotDefect? at slot
      split at slot
      · cases slot
      · split at slot
        · cases slot
          rfl
        · cases slot

/-- What reports a state as missing when a place is looked at is that the place is empty. -/
theorem placeDefect?_eq_some_iff_of_absent? {place : Option State} {number : Nat}
    (reports : error.absent? = some id) :
    builder.placeDefect? place number = some error ↔
      place = none ∧ error = .unknownState (.ofNat number) := by
  cases place with
  | none => simp [placeDefect?, eq_comm]
  | some state =>
    apply iff_of_false
    · intro defect
      rw [absent?_of_stateDefect? defect] at reports
      cases reports
    · intro empty
      cases empty.1

theorem startDefect?_eq_some_iff_of_absent? (reports : error.absent? = some id) :
    builder.startDefect? x = some error ↔
      x = id ∧ builder.state? id = none ∧ error = builder.missing id := by
  unfold startDefect?
  cases found : builder.state? x with
  | none =>
    constructor
    · intro defect
      cases defect
      rw [absent?_missing] at reports
      cases reports
      exact ⟨rfl, found, rfl⟩
    · intro missing
      obtain ⟨rfl, -, rfl⟩ := missing
      rfl
  | some state =>
    apply iff_of_false
    · intro defect
      dsimp only at defect
      split at defect
      · cases defect
      · cases defect
        cases reports
    · intro missing
      obtain ⟨rfl, absent, -⟩ := missing
      rw [absent] at found
      cases found

/-! ## The first defect -/

theorem findSome?_zipIdx_eq_some_iff {α β : Type} {items : List α} {check : α → Nat → Option β}
    {result : β} :
    (items.zipIdx.findSome? fun p => check p.1 p.2) = some result ↔
      ∃ number item, items[number]? = some item ∧ check item number = some result ∧
        ∀ earlier < number, ∀ item', items[earlier]? = some item' → check item' earlier = none := by
  rw [List.findSome?_eq_some_iff]
  constructor
  · intro first
    obtain ⟨before, p, after, split, here, quiet⟩ := first
    obtain ⟨before, rest, rfl, rfl, tail⟩ := List.zipIdx_eq_append_iff.1 split
    obtain ⟨item, after, rfl, rfl, -⟩ := List.zipIdx_eq_cons_iff.1 tail.symm
    rw [Nat.zero_add] at here
    refine ⟨before.length, item, by simp, here, ?_⟩
    intro earlier lt item' at_earlier
    rw [List.getElem?_append_left lt] at at_earlier
    exact quiet (item', earlier) (List.mem_zipIdx_iff_getElem?.2 at_earlier)
  · intro first
    obtain ⟨number, item, at_number, here, quiet⟩ := first
    obtain ⟨inside, rfl⟩ := List.getElem?_eq_some_iff.1 at_number
    refine ⟨(items.take number).zipIdx, (items[number], number),
      (items.drop (number + 1)).zipIdx (number + 1), ?_, here, ?_⟩
    · refine List.zipIdx_eq_append_iff.2
        ⟨items.take number, items.drop number, (List.take_append_drop ..).symm, rfl, ?_⟩
      rw [List.drop_eq_getElem_cons inside, List.zipIdx_cons, List.length_take,
        Nat.min_eq_left (Nat.le_of_lt inside), Nat.zero_add]
    · intro p mem
      have at_earlier := List.mem_zipIdx_iff_getElem?.1 mem
      rw [List.getElem?_take] at at_earlier
      split at at_earlier
      · rename_i lt
        exact quiet p.2 lt p.1 at_earlier
      · cases at_earlier

/-- The first defect of the places is that one is empty: those before are not, and nothing is wrong
with the states there. -/
theorem findSome?_placeDefect?_eq_some_iff (few : builder.places.size ≤ StateId.limit)
    (reports : error.absent? = some id) :
    (builder.places.toList.zipIdx.findSome? fun p => builder.placeDefect? p.1 p.2) = some error ↔
      error = .unknownState id ∧ builder.state? id = none ∧ id.toNat < builder.places.size ∧
        ∀ x, x.toNat < id.toNat → ∃ state, builder.state? x = some state ∧ state.Fits builder := by
  rw [findSome?_zipIdx_eq_some_iff]
  simp only [Array.getElem?_toList, placeDefect?_eq_some_iff_of_absent? reports]
  constructor
  · intro first
    obtain ⟨number, place, at_number, ⟨rfl, rfl⟩, quiet⟩ := first
    cases reports
    obtain ⟨inside, -⟩ := Array.getElem?_eq_some_iff.1 at_number
    have number_of : (StateId.ofNat number).toNat = number :=
      StateId.toNat_ofNat_of_lt (Nat.lt_of_lt_of_le inside few)
    refine ⟨rfl, ?_, number_of.symm ▸ inside, ?_⟩
    · unfold state?
      rw [number_of, at_number]
      rfl
    · intro x lt
      rw [number_of] at lt
      obtain ⟨place, at_x⟩ : ∃ place, builder.places[x.toNat]? = some place :=
        ⟨_, Array.getElem?_eq_getElem (Nat.lt_trans lt inside)⟩
      have fine := quiet x.toNat lt place at_x
      cases place with
      | none => cases fine
      | some state =>
        refine ⟨state, ?_, stateOk_iff_fits.1 (stateDefect?_eq_none_iff.1 fine)⟩
        unfold state?
        rw [at_x]
        rfl
  · intro lacks
    obtain ⟨rfl, absent, inside, before⟩ := lacks
    refine ⟨id.toNat, none, ?_, ⟨rfl, by rw [StateId.ofNat_toNat]⟩, ?_⟩
    · unfold state? at absent
      rw [Array.getElem?_eq_getElem inside] at absent ⊢
      exact congrArg some absent
    · intro earlier lt place at_earlier
      have earlier_of : (StateId.ofNat earlier).toNat = earlier :=
        StateId.toNat_ofNat_of_lt (by omega)
      obtain ⟨state, found, fits⟩ := before (.ofNat earlier) (by rw [earlier_of]; exact lt)
      unfold state? at found
      rw [earlier_of, at_earlier] at found
      cases found
      exact stateDefect?_eq_none_iff.2 (stateOk_iff_fits.2 fits)

theorem findSome?_byteDefect?_ne_some (reports : error.absent? = some id) :
    Byte.all.findSome? builder.byteDefect? ≠ some error := by
  intro defect
  obtain ⟨b, -, wrong⟩ := List.exists_of_findSome?_eq_some defect
  rw [absent?_of_byteDefect? wrong] at reports
  cases reports

theorem defect?_eq_some_iff_of_absent? {anchored : StateId}
    (few : builder.places.size ≤ StateId.limit) (groups : builder.groupCount ≤ SlotSet.groupLimit)
    (chosen : builder.anchoredStart = some anchored) (reports : error.absent? = some id) :
    builder.defect? anchored (builder.unanchoredStart.getD anchored) = some error ↔
      error = builder.missing id ∧ builder.Lacks id := by
  unfold defect?
  simp only [Option.or_eq_some_iff, findSome?_byteDefect?_ne_some reports, false_or,
    findSome?_byteDefect?_eq_none_iff, findSome?_placeDefect?_eq_some_iff few reports,
    findSome?_placeDefect?_eq_none_iff, ← places_fit_iff,
    startDefect?_eq_some_iff_of_absent? reports]
  constructor
  · intro defect
    obtain ⟨classes, place | ⟨places, start | ⟨start, start'⟩⟩⟩ := defect
    · obtain ⟨rfl, absent, inside, before⟩ := place
      refine ⟨(if_pos inside).symm, groups, classes, ⟨anchored, chosen⟩, absent, ?_⟩
      exact .inl ⟨inside, before⟩
    · obtain ⟨rfl, absent, rfl⟩ := start
      exact ⟨rfl, groups, classes, ⟨anchored, chosen⟩, absent, .inr ⟨places, .inl chosen⟩⟩
    · obtain ⟨here, absent, rfl⟩ := start'
      have has_start : builder.HasStart anchored := startDefect?_eq_none_iff.1 start
      refine ⟨rfl, groups, classes, ⟨anchored, chosen⟩, absent, .inr ⟨places, .inr ⟨?_, ?_⟩⟩⟩
      · cases other : builder.unanchoredStart with
        | some unanchored =>
          rw [other] at here
          exact congrArg some here
        | none =>
          -- Then both starts are the same, and there is one.
          rw [other] at here
          obtain ⟨state, found, -⟩ := has_start
          subst here
          rw [Option.getD_none, found] at absent
          cases absent
      · intro anchored' chosen'
        rw [chosen] at chosen'
        cases chosen'
        exact has_start
  · intro missing
    obtain ⟨rfl, lacks⟩ := missing
    refine ⟨lacks.byteClass, ?_⟩
    rcases lacks.first with ⟨inside, before⟩ | ⟨places, start⟩
    · exact .inl ⟨if_pos inside, lacks.absent, inside, before⟩
    · refine .inr ⟨places, ?_⟩
      rcases start with start | ⟨start, has_start⟩
      · rw [chosen] at start
        cases start
        exact .inl ⟨rfl, lacks.absent, rfl⟩
      · refine .inr ⟨startDefect?_eq_none_iff.2 (has_start anchored chosen), ?_, lacks.absent, rfl⟩
        rw [start]
        rfl

/-- Freezing reports a state as missing exactly if it is for want of it that freezing fails. -/
theorem build_eq_error_iff_of_absent? (few : builder.places.size ≤ StateId.limit)
    (reports : error.absent? = some id) :
    builder.build = .error error ↔ error = builder.missing id ∧ builder.Lacks id := by
  unfold build
  split
  · rename_i many
    apply iff_of_false
    · intro failed
      cases failed
      cases reports
    · intro missing
      exact Nat.not_le_of_lt many missing.2.groups
  · rename_i groups
    cases chosen : builder.anchoredStart with
    | none =>
      apply iff_of_false
      · intro failed
        cases failed
        cases reports
      · intro missing
        obtain ⟨anchored, chosen'⟩ := missing.2.chosen
        rw [chosen] at chosen'
        cases chosen'
    | some anchored =>
      rw [← defect?_eq_some_iff_of_absent? few (Nat.le_of_not_lt groups) chosen reports]
      dsimp only
      cases builder.defect? anchored (builder.unanchoredStart.getD anchored) with
      | none => exact iff_of_false (fun failed => nomatch failed) fun failed => nomatch failed
      | some defect => rw [Except.error.injEq, Option.some.injEq]

end Builder
end ByteDFA
