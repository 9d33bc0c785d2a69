import ByteDFA.Builder.Unroll
import ByteDFA.Proofs.Builder.Validity

/-!
# What unrolling does to a builder

Unrolling a state works in two passes, and here each of them is told as one change of the builder.
The first pass puts copies into the next places (`addCopies_eq`). No step of it can fail, since the
room for the copies has been checked before. The second pass redirects the self-transitions along
the chain: what a member leads to is its `link` (`state?_redirectChain`). `unroll_eq_ok_iff` puts
the two together.
-/

set_option autoImplicit false

namespace ByteDFA

/-- Where a member of a chain leads instead of to the unrolled state. -/
def LoopEnd.link (loopEnd : LoopEnd) (x : StateId) : List StateId → Option StateId
  | [] => none
  | [last] => loopEnd.target last
  | member :: next :: rest => if x = member then some next else loopEnd.link x (next :: rest)

/-- Every member leads to the next one, and the last one to the target of the loop end. -/
theorem LoopEnd.link_of_getElem? (loopEnd : LoopEnd) {x : StateId} :
    ∀ {chain : List StateId} {place : Nat}, chain.Nodup → chain[place]? = some x →
      loopEnd.link x chain = chain[place + 1]?.or (loopEnd.target x)
  | [], _, _, at_place => by cases at_place
  | [last], 0, _, at_place => by
    cases at_place
    rfl
  | [last], place + 1, _, at_place => by cases at_place
  | member :: next :: rest, 0, _, at_place => by
    cases at_place
    exact if_pos rfl
  | member :: next :: rest, place + 1, nodup, at_place => by
    obtain ⟨once, nodup'⟩ := List.nodup_cons.1 nodup
    have later : x ≠ member := by
      intro here
      subst here
      exact once (List.mem_of_getElem? at_place)
    rw [LoopEnd.link, if_neg later]
    exact link_of_getElem? loopEnd nodup' at_place

namespace Builder

variable {builder : Builder} {id x : StateId} {state : State} {count copies : Nat}

/-! ## Copies in the next places -/

/-- The identifiers of the places that are taken next. -/
def nextIds (builder : Builder) (count : Nat) : List StateId :=
  (List.range' builder.places.size count).map StateId.ofNat

/-- The builder with a state in the next place. -/
def push (builder : Builder) (state : State) : Builder :=
  { builder with places := builder.places.push (some state) }

/-- The builder with copies of a state in the next places. -/
def withCopies (builder : Builder) (state : State) : Nat → Builder
  | 0 => builder
  | count + 1 =>
    (builder.push (state.withId (.ofNat builder.places.size))).withCopies state count

theorem nextIds_succ (builder : Builder) (state : State) (count : Nat) :
    builder.nextIds (count + 1) =
      .ofNat builder.places.size :: (builder.push state).nextIds count := by
  unfold nextIds push
  rw [List.range'_succ, List.map_cons, Array.size_push]

theorem size_push (builder : Builder) (state : State) :
    (builder.push state).places.size = builder.places.size + 1 :=
  Array.size_push _

theorem size_withCopies (builder : Builder) (state : State) (count : Nat) :
    (builder.withCopies state count).places.size = builder.places.size + count := by
  induction count generalizing builder with
  | zero => rfl
  | succ count ih =>
    rw [withCopies, ih, size_push]
    omega

theorem getElem?_withCopies {number : Nat} (old : number < builder.places.size) :
    (builder.withCopies state count).places[number]? = builder.places[number]? := by
  induction count generalizing builder with
  | zero => rfl
  | succ count ih =>
    rw [withCopies, ih (by rw [size_push]; exact Nat.lt_succ_of_lt old), push,
      Array.getElem?_push, if_neg (Nat.ne_of_lt old)]

theorem withCopies_eq_with_places (builder : Builder) (state : State) (count : Nat) :
    builder.withCopies state count =
      { builder with places := (builder.withCopies state count).places } := by
  induction count generalizing builder with
  | zero => rfl
  | succ count ih => exact ih _

/-! The copies are made in order, so what is said of the first of them can be said of the last. -/

theorem nextIds_succ_last (builder : Builder) (count : Nat) :
    builder.nextIds (count + 1) = builder.nextIds count ++ [.ofNat (builder.places.size + count)] := by
  unfold nextIds
  rw [List.range'_1_concat, List.map_append]
  rfl

theorem withCopies_succ_last (builder : Builder) (state : State) (count : Nat) :
    builder.withCopies state (count + 1) = (builder.withCopies state count).push
      (state.withId (.ofNat (builder.places.size + count))) := by
  induction count generalizing builder with
  | zero => rfl
  | succ count ih =>
    rw [withCopies, ih, size_push, withCopies, Nat.add_right_comm, Nat.add_assoc]

theorem mem_nextIds (room : count ≤ StateId.limit - builder.places.size) :
    x ∈ builder.nextIds count ↔
      builder.places.size ≤ x.toNat ∧ x.toNat < builder.places.size + count := by
  unfold nextIds
  rw [List.mem_map]
  constructor
  · intro found
    obtain ⟨n, mem, rfl⟩ := found
    rw [List.mem_range'_1] at mem
    rw [StateId.toNat_ofNat_of_lt (by omega)]
    exact mem
  · intro inside
    exact ⟨x.toNat, List.mem_range'_1.2 inside, x.ofNat_toNat⟩

theorem nodup_nextIds (room : count ≤ StateId.limit - builder.places.size) :
    (builder.nextIds count).Nodup := by
  unfold nextIds List.Nodup
  rw [List.pairwise_map]
  refine List.Pairwise.imp_of_mem ?_ List.nodup_range'
  intro a b mem_a mem_b ne eq
  rw [List.mem_range'_1] at mem_a mem_b
  have numbers := congrArg StateId.toNat eq
  rw [StateId.toNat_ofNat_of_lt (by omega), StateId.toNat_ofNat_of_lt (by omega)] at numbers
  exact ne numbers

theorem state?_push (room : builder.places.size < StateId.limit) :
    (builder.push state).state? x =
      if x = .ofNat builder.places.size then some state else builder.state? x := by
  unfold state? push
  rw [Array.getElem?_push]
  by_cases last : x = .ofNat builder.places.size
  · subst last
    rw [if_pos (StateId.toNat_ofNat_of_lt room), if_pos rfl]
    rfl
  · rw [if_neg last, if_neg]
    intro number
    exact last (by rw [← number, StateId.ofNat_toNat])

theorem state?_withCopies (room : count ≤ StateId.limit - builder.places.size) :
    (builder.withCopies state count).state? x =
      if x ∈ builder.nextIds count then some (state.withId x) else builder.state? x := by
  induction count generalizing builder with
  | zero => rfl
  | succ count ih =>
    have room' : count ≤ StateId.limit -
        (builder.push (state.withId (.ofNat builder.places.size))).places.size := by
      rw [size_push]
      omega
    rw [withCopies, ih room', state?_push (by omega),
      nextIds_succ builder (state.withId (.ofNat builder.places.size))]
    by_cases first : x = .ofNat builder.places.size
    · subst first
      rw [if_pos rfl, if_pos List.mem_cons_self]
      split
      · rfl
      · rfl
    · simp only [List.mem_cons, first, if_false, false_or]

/-- The builder with the next place taken. -/
def reserve (builder : Builder) : Builder :=
  { builder with places := builder.places.push none }

theorem state?_reserve (builder : Builder) (id : StateId) :
    builder.reserve.state? id = builder.state? id := by
  unfold state? reserve
  rw [Array.getElem?_push]
  split
  · rename_i next
    rw [next, Array.getElem?_eq_none (Nat.le_refl _)]
    rfl
  · rfl

theorem bind_of_ok {α β : Type} {request : BuildM α} {rest : α → BuildM β} {builder' : Builder}
    {answer : α} (ok : request builder = .ok answer builder') :
    (request >>= rest) builder = rest answer builder' := by
  show EStateM.bind request rest builder = _
  unfold EStateM.bind
  rw [ok]

theorem exists_of_bind_eq_ok {α β : Type} {action : BuildM α} {rest : α → BuildM β} {result : β}
    {builder' : Builder}
    (ok : (action >>= rest) builder = .ok result builder') :
    ∃ value between, action builder = .ok value between ∧
      rest value between = .ok result builder' := by
  change EStateM.bind action rest builder = _ at ok
  unfold EStateM.bind at ok
  cases first : action builder with
  | ok value between =>
    rw [first] at ok
    exact ⟨value, between, rfl, ok⟩
  | error =>
    rw [first] at ok
    cases ok

theorem nextId_of_lt (room : builder.places.size < StateId.limit) :
    nextId builder = .ok (.ofNat builder.places.size) builder.reserve :=
  if_pos room

theorem nextId_eq_ok_iff {reserved : Builder} :
    nextId builder = .ok id reserved ↔ builder.places.size < StateId.limit ∧
      id = .ofNat builder.places.size ∧ reserved = builder.reserve := by
  by_cases room : builder.places.size < StateId.limit
  · rw [nextId_of_lt room]
    constructor
    · intro taken
      cases taken
      exact ⟨room, rfl, rfl⟩
    · intro taken
      obtain ⟨-, rfl, rfl⟩ := taken
      rfl
  · have refused : nextId builder = .error .tooManyStates builder := if_neg room
    rw [refused]
    exact iff_of_false (fun taken => nomatch taken) fun taken => room taken.1

theorem grow_of_le {size : Nat} (enough : size ≤ builder.places.size) :
    builder.grow size = builder := by
  unfold grow
  rw [Nat.sub_eq_zero_of_le enough]
  simp

/-- A place that has just been taken can be filled. -/
theorem add_reserve (room : builder.places.size < StateId.limit)
    (last : state.id = .ofNat builder.places.size) :
    add state builder.reserve = .ok () (builder.push state) := by
  have number : state.id.toNat = builder.places.size := by
    rw [last, StateId.toNat_ofNat_of_lt room]
  have valid : state.id ≠ StateId.noSuccessor := by
    rw [last]
    exact StateId.ofNat_ne_noSuccessor room
  have size : builder.reserve.places.size = builder.places.size + 1 := Array.size_push _
  have grown : builder.reserve.grow state.id.oneMore = builder.reserve := by
    apply grow_of_le
    rw [size, ← number]
    exact Nat.le_refl _
  have vacant : builder.reserve.state? state.id = none := by
    unfold state? reserve
    rw [Array.getElem?_push, if_pos number]
    rfl
  unfold add
  rw [if_neg valid]
  dsimp only
  rw [grown, vacant]
  dsimp only
  unfold put reserve push
  rw [number, Array.setIfInBounds_def, dif_pos (by simp), Array.set_push,
    dif_neg (Nat.lt_irrefl _)]

theorem duplicate_reserve (found : builder.state? id = some state)
    (room : builder.places.size < StateId.limit) :
    duplicate id (.ofNat builder.places.size) builder.reserve =
      .ok () (builder.push (state.withId (.ofNat builder.places.size))) := by
  unfold duplicate
  rw [state?_reserve, found]
  exact add_reserve room rfl

theorem state?_push_of_found {added : State} (found : builder.state? id = some state) :
    (builder.push added).state? id = some state := by
  unfold state? push
  rw [Array.getElem?_push, if_neg (Nat.ne_of_lt (toNat_lt_size found))]
  exact found

/-- With room for the copies, the first pass succeeds. -/
theorem addCopies_eq (found : builder.state? id = some state)
    (room : count ≤ StateId.limit - builder.places.size) (chain : Array StateId) :
    addCopies id count chain builder =
      .ok (chain ++ (builder.nextIds count).toArray) (builder.withCopies state count) := by
  induction count generalizing builder chain with
  | zero =>
    show EStateM.Result.ok chain builder = _
    rw [nextIds, List.range'_zero]
    simp [withCopies]
  | succ count ih =>
    have copy := duplicate_reserve found (by omega)
    have room' : count ≤ StateId.limit -
        (builder.push (state.withId (.ofNat builder.places.size))).places.size := by
      rw [size_push]
      omega
    rw [addCopies, bind_of_ok (nextId_of_lt (by omega)), bind_of_ok copy,
      ih (state?_push_of_found found) room',
      nextIds_succ builder (state.withId (.ofNat builder.places.size))]
    simp [withCopies]

/-! ## Self-transitions along the chain -/

theorem redirectChain_eq_with_places (id : StateId) (loopEnd : LoopEnd) :
    ∀ (builder : Builder) (chain : List StateId),
      redirectChain id loopEnd builder chain =
        { builder with places := (redirectChain id loopEnd builder chain).places }
  | _, [] => rfl
  | _, [_] => rfl
  | builder, member :: next :: rest =>
    redirectChain_eq_with_places id loopEnd (builder.edit member (·.redirect id (some next)))
      (next :: rest)

theorem size_redirectChain (id : StateId) (loopEnd : LoopEnd) :
    ∀ (builder : Builder) (chain : List StateId),
      (redirectChain id loopEnd builder chain).places.size = builder.places.size
  | _, [] => rfl
  | builder, [last] => builder.size_edit last _
  | builder, member :: next :: rest => by
    rw [redirectChain, size_redirectChain, size_edit]

/-- Only the places of the members are touched. -/
theorem getElem?_redirectChain (id : StateId) (loopEnd : LoopEnd) {number : Nat} :
    ∀ (builder : Builder) {chain : List StateId}, (∀ x ∈ chain, x.toNat ≠ number) →
      (redirectChain id loopEnd builder chain).places[number]? = builder.places[number]?
  | _, [], _ => rfl
  | builder, [last], outside => by
    rw [redirectChain, edit, Array.getElem?_modify, if_neg (outside last List.mem_cons_self)]
  | builder, member :: next :: rest, outside => by
    rw [redirectChain, getElem?_redirectChain id loopEnd _
      fun x mem => outside x (List.mem_cons_of_mem _ mem)]
    rw [edit, Array.getElem?_modify, if_neg (outside member List.mem_cons_self)]

/-- In a chain without repetitions every member is redirected once. -/
theorem state?_redirectChain (id : StateId) (loopEnd : LoopEnd) (x : StateId) :
    ∀ (builder : Builder) {chain : List StateId}, chain.Nodup →
      (redirectChain id loopEnd builder chain).state? x =
        if x ∈ chain then (builder.state? x).map (·.redirect id (loopEnd.link x chain))
        else builder.state? x
  | _, [], _ => rfl
  | builder, [last], _ => by
    rw [redirectChain, state?_edit]
    simp only [List.mem_singleton, eq_comm, LoopEnd.link]
  | builder, member :: next :: rest, nodup => by
    obtain ⟨once, nodup'⟩ := List.nodup_cons.1 nodup
    rw [redirectChain, state?_redirectChain id loopEnd x _ nodup', state?_edit]
    by_cases first : x = member
    -- The first member does not occur again, so nothing overwrites its redirection.
    · subst first
      rw [if_neg once, if_pos rfl, if_pos List.mem_cons_self, LoopEnd.link, if_pos rfl]
    · rw [if_neg (Ne.symm first), LoopEnd.link, if_neg first]
      simp only [List.mem_cons, first, false_or]

/-! ## Unrolling -/

/-- The members of the chain that a state is unrolled into. -/
def chainOf (builder : Builder) (id : StateId) (copies : Nat) : List StateId :=
  id :: builder.nextIds copies

/-- What a builder becomes when a state in it is unrolled. -/
def unrolled (builder : Builder) (id : StateId) (state : State) (copies : Nat)
    (loopEnd : LoopEnd) : Builder :=
  (builder.withCopies state copies).redirectChain id loopEnd (builder.chainOf id copies)

theorem length_chainOf : (builder.chainOf id copies).length = copies + 1 := by
  rw [chainOf, List.length_cons, nextIds, List.length_map, List.length_range']

/-- A state that has a loop, and room for the copies of it. -/
structure CanUnroll (builder : Builder) (id : StateId) (state : State) (copies : Nat) : Prop where
  found : builder.state? id = some state
  loops : state.table.contains id = true
  room : copies ≤ StateId.limit - builder.places.size

theorem CanUnroll.nodup_chainOf (can : builder.CanUnroll id state copies) :
    (builder.chainOf id copies).Nodup := by
  apply List.nodup_cons.2
  refine ⟨?_, nodup_nextIds can.room⟩
  intro mem
  exact Nat.not_le_of_lt (toNat_lt_size can.found) ((mem_nextIds can.room).1 mem).1

theorem CanUnroll.toNat_lt (can : builder.CanUnroll id state copies)
    (mem : x ∈ builder.chainOf id copies) : x.toNat < builder.places.size + copies := by
  rcases List.mem_cons.1 mem with rfl | mem
  · exact Nat.lt_add_right copies (toNat_lt_size can.found)
  · exact ((mem_nextIds can.room).1 mem).2

theorem CanUnroll.ne_noSuccessor (can : builder.CanUnroll id state copies) (copied : 0 < copies)
    (mem : x ∈ builder.chainOf id copies) : x ≠ StateId.noSuccessor := by
  intro mark
  have lt := can.toNat_lt mem
  have room := can.room
  have limit : x.toNat = StateId.limit := by rw [mark]; rfl
  omega

theorem unrollError?_eq_none_iff :
    builder.unrollError? id copies = none ↔ ∃ state, builder.CanUnroll id state copies := by
  have fields : (∃ state, builder.CanUnroll id state copies) ↔
      ∃ state, builder.state? id = some state ∧ state.table.contains id = true ∧
        copies ≤ StateId.limit - builder.places.size := by
    constructor
    · intro h
      obtain ⟨state, can⟩ := h
      exact ⟨state, can.found, can.loops, can.room⟩
    · intro h
      obtain ⟨state, found, loops, room⟩ := h
      exact ⟨state, found, loops, room⟩
  rw [fields]
  unfold unrollError?
  cases found : builder.state? id with
  | none => simp
  | some state =>
    cases loops : state.table.contains id with
    | false => simp [loops]
    | true => simp [loops]

/-- When a state can be unrolled, and everything that there is to say about the result. -/
theorem unroll_eq_ok_iff {loopEnd : LoopEnd} {chain : Array StateId} {unrolled : Builder} :
    unroll id copies loopEnd builder = .ok chain unrolled ↔
      ∃ state, builder.CanUnroll id state copies ∧
        chain = (builder.chainOf id copies).toArray ∧
        unrolled = builder.unrolled id state copies loopEnd := by
  unfold unroll
  cases error : builder.unrollError? id copies with
  | some error' =>
    apply iff_of_false (by simp)
    intro unrolls
    obtain ⟨state, can, -⟩ := unrolls
    rw [unrollError?_eq_none_iff.2 ⟨state, can⟩] at error
    cases error
  | none =>
    obtain ⟨state, can⟩ := unrollError?_eq_none_iff.1 error
    have all : #[id] ++ (builder.nextIds copies).toArray = (builder.chainOf id copies).toArray := by
      simp [chainOf]
    dsimp only
    rw [addCopies_eq can.found can.room, all]
    constructor
    · intro unrolls
      cases unrolls
      exact ⟨state, can, rfl, rfl⟩
    · intro unrolls
      obtain ⟨state', can', rfl, rfl⟩ := unrolls
      cases can.found.symm.trans can'.found
      rfl

theorem CanUnroll.unroll_eq_ok (can : builder.CanUnroll id state copies) (loopEnd : LoopEnd) :
    unroll id copies loopEnd builder =
      .ok (builder.chainOf id copies).toArray (builder.unrolled id state copies loopEnd) :=
  unroll_eq_ok_iff.2 ⟨state, can, rfl, rfl⟩

/-! ## The states afterwards -/

variable {loopEnd : LoopEnd}

/-- Without a copy, unrolling that keeps the loop changes nothing. -/
theorem unrolled_zero : builder.unrolled id state 0 .keep = builder :=
  edit_of_same fun s => s.redirect_self id

theorem unrolled_eq_with_places :
    builder.unrolled id state copies loopEnd =
      { builder with places := (builder.unrolled id state copies loopEnd).places } := by
  unfold unrolled
  rw [redirectChain_eq_with_places, withCopies_eq_with_places]

theorem size_unrolled :
    (builder.unrolled id state copies loopEnd).places.size = builder.places.size + copies := by
  unfold unrolled
  rw [size_redirectChain, size_withCopies]

/-- The states outside the chain stay as they are. -/
theorem CanUnroll.state?_of_not_mem (can : builder.CanUnroll id state copies)
    (not_member : x ∉ builder.chainOf id copies) :
    (builder.unrolled id state copies loopEnd).state? x = builder.state? x := by
  have not_next : x ∉ builder.nextIds copies := fun mem => not_member (List.mem_cons_of_mem _ mem)
  unfold unrolled
  rw [state?_redirectChain _ _ _ _ can.nodup_chainOf, if_neg not_member,
    state?_withCopies can.room, if_neg not_next]

theorem CanUnroll.state?_of_ne (can : builder.CanUnroll id state copies)
    (old : x.toNat < builder.places.size) (ne : x ≠ id) :
    (builder.unrolled id state copies loopEnd).state? x = builder.state? x := by
  apply can.state?_of_not_mem
  intro mem
  rcases List.mem_cons.1 mem with here | next
  · exact ne here
  · exact Nat.not_le_of_lt old ((mem_nextIds can.room).1 next).1

/-- The members of the chain differ from the unrolled state in nothing but their names and where
they lead instead of to it. -/
theorem CanUnroll.state?_member (can : builder.CanUnroll id state copies) (loopEnd : LoopEnd)
    (mem : x ∈ builder.chainOf id copies) :
    (builder.unrolled id state copies loopEnd).state? x =
      some ((if x = id then state else state.withId x).redirect id
        (loopEnd.link x (builder.chainOf id copies))) := by
  have copy : (builder.withCopies state copies).state? x =
      some (if x = id then state else state.withId x) := by
    rw [state?_withCopies can.room]
    rcases List.mem_cons.1 mem with here | next
    · subst here
      rw [if_neg (List.nodup_cons.1 can.nodup_chainOf).1, if_pos rfl]
      exact can.found
    · have other : x ≠ id := by
        intro here
        subst here
        exact (List.nodup_cons.1 can.nodup_chainOf).1 next
      rw [if_pos next, if_neg other]
  unfold unrolled
  rw [state?_redirectChain _ _ _ _ can.nodup_chainOf, if_pos mem, copy]
  rfl

theorem CanUnroll.state?_of_mem (can : builder.CanUnroll id state copies) (loopEnd : LoopEnd)
    (mem : x ∈ builder.chainOf id copies) :
    ∃ t, (builder.unrolled id state copies loopEnd).state? x = some t ∧ t.role = state.role ∧
      t.table = state.table.redirect id (loopEnd.link x (builder.chainOf id copies)) := by
  refine ⟨_, can.state?_member loopEnd mem, ?_⟩
  split
  · exact ⟨rfl, rfl⟩
  · exact ⟨rfl, rfl⟩

end Builder
end ByteDFA
