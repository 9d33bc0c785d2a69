import ByteDFA.Builder.Build
import ByteDFA.Proofs.Builder.Unroll

/-!
# Sequences of requests

A builder comes about by requests, any of which may be refused. What a refused request leaves behind
counts as well, so a request is told here by the builder that is there afterwards, whichever way it
went (`Builder.afterOne`). What every request keeps holds after every sequence of them
(`Builder.holds_after`).

To keep something means little for most requests: a place is taken, a state is put into a place that
was vacant, or a state is edited where it stands. Only `unroll` does several of these things.
`Request.Granted` lists what there is to do for requests that succeed.
-/

set_option autoImplicit false

namespace ByteDFA

/-- What can be asked of a builder. An edit is whatever is done to a state where it stands: it may
set an entry of the table, replace the table, or replace the state by another one. -/
inductive Request
  | nextId
  | add (state : State)
  | duplicate (source copy : StateId)
  | unroll (id : StateId) (copies : Nat) (loopEnd : LoopEnd)
  | edit (id : StateId) (change : State → State)
  | anchoredStart (id : StateId)
  | unanchoredStart (id : StateId)

/-- Makes the request. The answer consists of the identifiers that it hands out. -/
def Request.perform : Request → BuildM (Array StateId)
  | nextId => do return #[← Builder.nextId]
  | add state => do
    Builder.add state
    return #[]
  | duplicate source copy => do
    Builder.duplicate source copy
    return #[]
  | unroll id copies loopEnd => Builder.unroll id copies loopEnd
  | edit id change => fun builder => .ok #[] (builder.edit id change)
  | anchoredStart id => fun builder => .ok #[] (builder.withAnchoredStart id)
  | unanchoredStart id => fun builder => .ok #[] (builder.withUnanchoredStart id)

namespace Builder

variable {builder builder' : Builder} {id : StateId} {state : State}

/-- The builder that an action leaves behind, whether it succeeds or not. -/
def left {α : Type} : EStateM.Result BuildError Builder α → Builder
  | .ok _ builder => builder
  | .error _ builder => builder

/-- The builder after a request. -/
def afterOne (builder : Builder) (request : Request) : Builder := left (request.perform builder)

/-- The builder after some requests, one after the other. -/
def after (builder : Builder) (requests : List Request) : Builder := requests.foldl afterOne builder

theorem holds_after {P : Builder → Prop} {requests : List Request} (start : P builder)
    (step : ∀ request ∈ requests, ∀ builder, P builder → P (builder.afterOne request)) :
    P (builder.after requests) := by
  induction requests generalizing builder with
  | nil => exact start
  | cons request rest ih =>
    refine ih (step request List.mem_cons_self builder start) ?_
    intro request' mem
    exact step request' (List.mem_cons_of_mem _ mem)

/-! ## Requests that succeed -/

theorem add_eq_ok_iff :
    add state builder = .ok () builder' ↔
      state.id ≠ StateId.noSuccessor ∧ builder.state? state.id = none ∧
        builder' = (builder.grow state.id.oneMore).put state.id state := by
  unfold add
  by_cases mark : state.id = StateId.noSuccessor
  · rw [if_pos mark]
    exact iff_of_false (by simp) fun added => added.1 mark
  · rw [if_neg mark]
    dsimp only
    rw [state?_grow]
    cases vacant : builder.state? state.id with
    | none => simp [mark, eq_comm]
    | some => simp

theorem duplicate_eq_ok_iff {source copy : StateId} :
    duplicate source copy builder = .ok () builder' ↔
      ∃ state, builder.state? source = some state ∧
        add (state.withId copy) builder = .ok () builder' := by
  unfold duplicate
  cases builder.state? source with
  | none => simp
  | some state => simp

end Builder

/-- What a request does if it succeeds, and what it answers. -/
inductive Request.Granted : Request → Builder → Array StateId → Builder → Prop
  | nextId {builder : Builder} (room : builder.places.size < StateId.limit) :
    Granted .nextId builder #[.ofNat builder.places.size] builder.reserve
  | add {builder : Builder} {state : State} (proper : state.id ≠ StateId.noSuccessor)
    (vacant : builder.state? state.id = none) :
    Granted (.add state) builder #[] ((builder.grow state.id.oneMore).put state.id state)
  | duplicate {builder builder' : Builder} {source copy : StateId} {state : State}
    (found : builder.state? source = some state)
    (added : Granted (.add (state.withId copy)) builder #[] builder') :
    Granted (.duplicate source copy) builder #[] builder'
  | unroll {builder : Builder} {id : StateId} {state : State} {copies : Nat} {loopEnd : LoopEnd}
    (can : builder.CanUnroll id state copies) :
    Granted (.unroll id copies loopEnd) builder (builder.chainOf id copies).toArray
      (builder.unrolled id state copies loopEnd)
  | edit {builder : Builder} {id : StateId} {change : State → State} :
    Granted (.edit id change) builder #[] (builder.edit id change)
  | anchoredStart {builder : Builder} {id : StateId} :
    Granted (.anchoredStart id) builder #[] (builder.withAnchoredStart id)
  | unanchoredStart {builder : Builder} {id : StateId} :
    Granted (.unanchoredStart id) builder #[] (builder.withUnanchoredStart id)

theorem Request.Granted.of_add {builder builder' : Builder} {state : State}
    (ok : Builder.add state builder = .ok () builder') :
    Granted (.add state) builder #[] builder' := by
  obtain ⟨proper, vacant, rfl⟩ := Builder.add_eq_ok_iff.1 ok
  exact .add proper vacant

theorem Request.Granted.of_ok {request : Request} {builder builder' : Builder}
    {answer : Array StateId} (ok : request.perform builder = .ok answer builder') :
    request.Granted builder answer builder' := by
  cases request with
  | nextId =>
    obtain ⟨_, _, taken, ⟨⟩⟩ := Builder.exists_of_bind_eq_ok ok
    obtain ⟨room, rfl, rfl⟩ := Builder.nextId_eq_ok_iff.1 taken
    exact .nextId room
  | add state =>
    obtain ⟨_, _, added, ⟨⟩⟩ := Builder.exists_of_bind_eq_ok ok
    exact .of_add added
  | duplicate source copy =>
    obtain ⟨_, _, copied, ⟨⟩⟩ := Builder.exists_of_bind_eq_ok ok
    obtain ⟨state, found, added⟩ := Builder.duplicate_eq_ok_iff.1 copied
    exact .duplicate found (.of_add added)
  | unroll id copies loopEnd =>
    obtain ⟨state, can, rfl, rfl⟩ := Builder.unroll_eq_ok_iff.1 ok
    exact .unroll can
  | edit id change =>
    cases ok
    exact .edit
  | anchoredStart id =>
    cases ok
    exact .anchoredStart
  | unanchoredStart id =>
    cases ok
    exact .unanchoredStart

end ByteDFA
