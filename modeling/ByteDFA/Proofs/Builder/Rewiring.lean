import ByteDFA.Proofs.Builder.Validity
import ByteDFA.Proofs.Search.Bisimulation

/-!
# Rewired builders

A builder may be changed by adding versions of states that it has and by leading transitions to
other versions of where they led before. As long as every state remains a version of one that was
there, the builder stays valid (`Valid.of_versions`). If no transition gets lost on the way either,
then the automaton that is built from it cannot be told apart from the one before
(`build_of_rewires`).
-/

set_option autoImplicit false

namespace ByteDFA
namespace Builder

variable {builder changed : Builder} {R : StateId → StateId → Prop}
  {anchored anchored' unanchored unanchored' : StateId}

/-- The second state has the role of the first one, and leads at most to versions of where that one
leads. -/
structure Version (R : StateId → StateId → Prop) (s t : State) : Prop where
  role : t.role = s.role
  size : t.table.size = s.table.size
  target : ∀ {index : Nat} {y : StateId}, t.table.get? index = some y →
    ∃ x, s.table.get? index = some x ∧ R x y

/-- Every state of the changed builder is a version of a state of the other one. -/
structure Covers (builder changed : Builder) (R : StateId → StateId → Prop) : Prop where
  classes : changed.classes = builder.classes
  groups : changed.groupCount = builder.groupCount
  small : changed.places.size ≤ StateId.limit
  every : ∀ y : StateId, y.toNat < changed.places.size → ∃ x, R x y
  version : ∀ {x y : StateId}, R x y →
    ∃ s t, builder.state? x = some s ∧ changed.state? y = some t ∧ Version R s t

/-- Where two tables lead to related states throughout, neither of them leads anywhere alone. -/
theorem exists_left_of_rel {a b : Option StateId} {y : StateId} (rel : Option.Rel R a b)
    (right : b = some y) : ∃ x, a = some x ∧ R x y := by
  cases rel with
  | none => cases right
  | some related =>
    cases right
    exact ⟨_, rfl, related⟩

theorem exists_right_of_rel {a b : Option StateId} {x : StateId} (rel : Option.Rel R a b)
    (left : a = some x) : ∃ y, b = some y := by
  cases rel with
  | none => cases left
  | some => exact ⟨_, rfl⟩

/-! ## Validity -/

/-- Where there are identifiers for all places, a place can be told by the identifier for it. -/
theorem exists_state?_eq (small : builder.places.size ≤ StateId.limit) {place : Option State}
    (mem : place ∈ builder.places) :
    ∃ y : StateId, y.toNat < builder.places.size ∧ builder.state? y = place := by
  obtain ⟨number, inside, rfl⟩ := Array.mem_iff_getElem.1 mem
  have to_nat : (StateId.ofNat number).toNat = number :=
    StateId.toNat_ofNat_of_lt (Nat.lt_of_lt_of_le inside small)
  refine ⟨.ofNat number, by rw [to_nat]; exact inside, ?_⟩
  unfold state?
  rw [to_nat, Array.getElem?_eq_getElem inside]
  rfl

theorem Covers.exists_of_mem_places (covers : builder.Covers changed R) {place : Option State}
    (mem : place ∈ changed.places) :
    ∃ x s t, builder.state? x = some s ∧ place = some t ∧ Version R s t := by
  obtain ⟨y, inside, here⟩ := exists_state?_eq covers.small mem
  obtain ⟨x, related⟩ := covers.every y inside
  obtain ⟨s, t, at_x, at_y, version⟩ := covers.version related
  exact ⟨x, s, t, at_x, here.symm.trans at_y, version⟩

/-- Every place of the changed builder holds a version of a state of the other one, and what may be
led to is of the same kind as before. This does not need identifiers for all places. -/
structure Versions (builder changed : Builder) (R : StateId → StateId → Prop) : Prop where
  classes : changed.classes = builder.classes
  groups : changed.groupCount = builder.groupCount
  kind : ∀ {x y : StateId} {s : State}, R x y → builder.state? x = some s →
    ∃ t, changed.state? y = some t ∧ t.kind = s.kind
  place : ∀ place ∈ changed.places,
    ∃ s t, some s ∈ builder.places ∧ place = some t ∧ Version R s t

theorem Covers.versions (covers : builder.Covers changed R) : builder.Versions changed R := by
  refine ⟨covers.classes, covers.groups, fun {x y s} related at_x => ?_, fun place mem => ?_⟩
  · obtain ⟨s', t, at_x', at_y, version⟩ := covers.version related
    cases at_x.symm.trans at_x'
    exact ⟨t, at_y, congrArg Role.kind version.role⟩
  · obtain ⟨x, s, t, at_x, here, version⟩ := covers.exists_of_mem_places mem
    exact ⟨s, t, some_mem_places at_x, here, version⟩

theorem Versions.stateOk (versions : builder.Versions changed R) {s t : State}
    (ok : builder.StateOk s) (version : Version R s t) : changed.StateOk t := by
  have kind : t.kind = s.kind := congrArg Role.kind version.role
  have tableSize : changed.tableSize s.kind = builder.tableSize s.kind := by
    unfold tableSize
    rw [versions.classes]
  refine ⟨?_, ?_, ?_⟩
  · rw [version.size, kind, tableSize]
    exact ok.size
  · intro index next leads
    obtain ⟨x, leads', related⟩ := version.target leads
    obtain ⟨target, found, not_both⟩ := ok.target leads'
    obtain ⟨target', found', kind'⟩ := versions.kind related found
    refine ⟨target', found', ?_⟩
    rw [kind, kind']
    exact not_both
  · intro slot
    unfold State.slots State.accept
    rw [version.role, versions.groups]
    exact ok.slot

theorem Valid.of_versions (valid : builder.Valid anchored unanchored)
    (versions : builder.Versions changed R) (related : R anchored anchored')
    (related' : R unanchored unanchored') : changed.Valid anchored' unanchored' := by
  have start {x y : StateId} (related : R x y)
      (start : ∃ s, builder.state? x = some s ∧ s.kind = .start) :
      ∃ t, changed.state? y = some t ∧ t.kind = .start := by
    obtain ⟨s, at_x, kind⟩ := start
    obtain ⟨t, at_y, same⟩ := versions.kind related at_x
    exact ⟨t, at_y, same.trans kind⟩
  refine ⟨?_, ?_, ?_, ?_, start related valid.anchored, start related' valid.unanchored⟩
  · rw [versions.groups]
    exact valid.groups
  · rw [versions.classes]
    exact valid.byteClass
  · intro place mem
    obtain ⟨-, t, -, rfl, -⟩ := versions.place place mem
    exact ⟨t, rfl⟩
  · intro state mem
    obtain ⟨s, t, in_place, here, version⟩ := versions.place _ mem
    cases here
    exact versions.stateOk (valid.stateOk in_place) version

/-! ## Behaviour -/

/-- No transition of a state is lost in a version of it. -/
def Keeps (builder changed : Builder) (R : StateId → StateId → Prop) : Prop :=
  ∀ {x y : StateId} {s t : State} {index : Nat} {next : StateId}, R x y →
    builder.state? x = some s → changed.state? y = some t → s.table.get? index = some next →
      ∃ next', t.table.get? index = some next'

theorem bisimulation_of_covers (valid : builder.Valid anchored unanchored)
    (valid' : changed.Valid anchored' unanchored') (covers : builder.Covers changed R)
    (keeps : builder.Keeps changed R) :
    (builder.freeze anchored unanchored).Bisimulation (changed.freeze anchored' unanchored') R := by
  constructor
  intro x y related
  obtain ⟨s, t, at_x, at_y, version⟩ := covers.version related
  have next : ∀ index, Option.Rel R (s.table.get? index) (t.table.get? index) := by
    intro index
    cases leads : t.table.get? index with
    | some y' =>
      obtain ⟨x', leads', related'⟩ := version.target leads
      rw [leads']
      exact .some related'
    | none =>
      -- Had the state a successor here, its version would have one as well.
      cases leads' : s.table.get? index with
      | none => exact .none
      | some x' =>
        obtain ⟨y', kept⟩ := keeps related at_x at_y leads'
        cases leads.symm.trans kept
  refine ⟨s, t, ?_, ?_, version.role.symm, fun _ config => next _, fun _ b => ?_⟩
  · rw [state?_freeze valid]
    exact at_x
  · rw [state?_freeze valid']
    exact at_y
  · show Option.Rel R (s.table.get? (builder.classes.get b).toNat)
      (t.table.get? (changed.classes.get b).toNat)
    rw [covers.classes]
    exact next _

/-- A rewired builder is built into an automaton that cannot be told apart. -/
theorem build_of_rewires {automaton : Automaton} (built : builder.build = .ok automaton)
    (covers : builder.Covers changed R) (keeps : builder.Keeps changed R)
    (starts : ∀ x, builder.anchoredStart = some x → ∃ y, changed.anchoredStart = some y ∧ R x y ∧
      R (builder.unanchoredStart.getD x) (changed.unanchoredStart.getD y)) :
    ∃ automaton', changed.build = .ok automaton' ∧
      automaton'.accelerator = automaton.accelerator ∧
      ∀ (executor : Executor) (input : Input),
        executor.search automaton' input = executor.search automaton input := by
  obtain ⟨x, at_start, valid, rfl⟩ := build_eq_ok_iff.1 built
  obtain ⟨y, at_start', related, related'⟩ := starts x at_start
  have valid' := valid.of_versions covers.versions related related'
  have bisimulation := bisimulation_of_covers valid valid' covers keeps
  refine ⟨_, build_eq_ok_iff.2 ⟨y, at_start', valid', rfl⟩, ?_, ?_⟩
  · exact (bisimulation.accelerator_eq related').symm
  · intro executor input
    exact (Executor.search_eq bisimulation covers.groups.symm related related' executor input).symm

end Builder
end ByteDFA
