import ByteDFA.Proofs.Builder.Requests
import ByteDFA.Proofs.Byte.Coarsest
import ByteDFA.Proofs.Search.Spelling

/-!
# Assembling a literal

The automaton for a literal is a chain: a start state, a matcher for each byte, and a final state.
`Literal.assemble` asks a builder for it, request by request. All places are taken first, so that
every state can name the next one, and then they are filled from the first to the last. None of the
requests is refused as long as there are places (`assemble_eq_ok`), the builder can be frozen
(`build_assembled`), and the automaton searches for the literal (`runMatch_leftmost`).
-/

set_option autoImplicit false

namespace ByteDFA

/-! ## Tables with a single successor -/

namespace TransitionTable

variable {size index : Nat} {next : StateId}

/-- The table with one successor. -/
def single (size index : Nat) (next : StateId) : TransitionTable :=
  ⟨(Array.replicate size StateId.noSuccessor).setIfInBounds index next⟩

theorem set?_blank (inside : index < size) :
    (blank size).set? index (some next) = some (single size index next) := by
  unfold set? blank single
  rw [dif_pos (by rwa [Array.size_replicate]), Array.setIfInBounds_def,
    dif_pos (by rwa [Array.size_replicate])]
  rfl

@[simp] theorem size_single : (single size index next).size = size := by
  simp [single, TransitionTable.size]

theorem get?_single (inside : index < size) (proper : next ≠ StateId.noSuccessor) (i : Nat) :
    (single size index next).get? i = if i = index then some next else none := by
  unfold get? single
  by_cases here : i = index
  · subst here
    simp [inside, StateId.successor?_of_ne proper]
  · rw [if_neg here, Array.getElem?_setIfInBounds_ne (Ne.symm here), Array.getElem?_replicate]
    split
    · rfl
    · rfl

end TransitionTable

/-! ## The requests -/

namespace Builder

/-- Takes the next places, one after the other. -/
def nextIdents : Nat → BuildM (List StateId)
  | 0 => return []
  | count + 1 => do
    let id ← nextId
    let rest ← nextIdents count
    return id :: rest

/-- Adds a matcher that is left by one byte alone. It is refused if tables have no entry for the
class of the byte. -/
def addReader (id next : StateId) (b : UInt8) : BuildM Unit := fun builder =>
  match builder.blankTable.set? (builder.classes.get b).toNat (some next) with
  | none => .error (.invalidByteClass b (builder.classes.get b) builder.classes.alphabetLen) builder
  | some table => add (.matcher id table ∅ none) builder

/-- Adds a matcher for each byte of a word, the first of them under the given identifier and the
others under those that follow, and a final state under the last one. -/
def addChain (id : StateId) : List UInt8 → List StateId → BuildM Unit
  | [], _ => add (.final id (BitSet.empty.insert 1))
  | b :: rest, next :: following => do
    addReader id next b
    addChain next rest following
  | _ :: _, [] => throw (.noSuchState id)

end Builder

theorem Captures.overall?_pair {start stop : Nat} (start_lt : start < Offset.limit)
    (stop_lt : stop < Offset.limit) :
    (Captures.mk #[Offset.ofNat? start, Offset.ofNat? stop]).overall? = some ⟨start, stop⟩ := by
  have first : (Captures.mk #[Offset.ofNat? start, Offset.ofNat? stop]).offset? 0 = some start :=
    Offset.map_toNat_ofNat? start_lt
  have second : (Captures.mk #[Offset.ofNat? start, Offset.ofNat? stop]).offset? 1 = some stop :=
    Offset.map_toNat_ofNat? stop_lt
  rw [overall?, group?, first, second]
  rfl

namespace Literal

/-- The classes in which every byte of a literal is told from all others. -/
def classes (literal : List UInt8) : ByteClasses :=
  (BytePartition.ofRanges (literal.map fun b => (b, b))).classes

/-- Asks for the states of the automaton for a literal. -/
def assemble (literal : List UInt8) : BuildM Unit := do
  let start ← Builder.nextId
  let first ← Builder.nextId
  let following ← Builder.nextIdents literal.length
  Builder.add (.start start (some first) (BitSet.empty.insert 0))
  Builder.addChain first literal following
  modify fun builder => builder.withAnchoredStart start

/-! ## The states -/

/-- The matcher in a place that reads one byte and leads to the next place. -/
def reader (classes : ByteClasses) (place : Nat) (b : UInt8) : State :=
  .matcher (.ofNat place)
    (.single classes.alphabetLen (classes.get b).toNat (.ofNat (place + 1))) ∅ none

/-- The states that read a word, in the places from a given one on. -/
def chain (classes : ByteClasses) : (place : Nat) → List UInt8 → List State
  | place, [] => [.final (.ofNat place) (BitSet.empty.insert 1)]
  | place, b :: rest => reader classes place b :: chain classes (place + 1) rest

/-- The start state, in the first place of all. -/
def entry : State := .start (.ofNat 0) (some (.ofNat 1)) (BitSet.empty.insert 0)

/-- The states of the automaton for a literal, over some classes. -/
def states (classes : ByteClasses) (literal : List UInt8) : List State :=
  entry :: chain classes 1 literal

/-- A builder with some states in its first places and nothing in the others. -/
def holding (classes : ByteClasses) (done : List State) (vacant : Nat) : Builder where
  classes
  groupCount := 1
  places := (done.map some ++ List.replicate vacant none).toArray
  anchoredStart := none
  unanchoredStart := none

theorem length_chain (classes : ByteClasses) (place : Nat) (word : List UInt8) :
    (chain classes place word).length = word.length + 1 := by
  induction word generalizing place with
  | nil => rfl
  | cons b rest ih => rw [chain, List.length_cons, ih, List.length_cons]

/-! ## No request is refused -/

variable {byteClasses : ByteClasses} {done : List State} {vacant : Nat} {state : State}

theorem size_holding : (holding byteClasses done vacant).places.size = done.length + vacant := by
  simp [holding]

theorem nextId_holding (room : vacant < StateId.limit) :
    Builder.nextId (holding byteClasses [] vacant) =
      .ok (.ofNat vacant) (holding byteClasses [] (vacant + 1)) := by
  have size : (holding byteClasses [] vacant).places.size = vacant := by simp [size_holding]
  refine Builder.nextId_eq_ok_iff.2 ⟨by rwa [size], by rw [size], ?_⟩
  unfold Builder.reserve holding
  rw [List.map_nil, List.nil_append, List.nil_append, List.replicate_succ', List.push_toArray]

theorem nextIdents_holding {count : Nat} (room : vacant + count ≤ StateId.limit) :
    Builder.nextIdents count (holding byteClasses [] vacant) =
      .ok ((List.range' vacant count).map .ofNat) (holding byteClasses [] (vacant + count)) := by
  induction count generalizing vacant with
  | zero => rfl
  | succ count ih =>
    have rest : Builder.nextIdents count (holding byteClasses [] (vacant + 1)) = _ :=
      ih (by omega)
    rw [Builder.nextIdents, Builder.bind_of_ok (nextId_holding (by omega)),
      Builder.bind_of_ok rest, List.range'_succ, Nat.add_assoc, Nat.add_comm 1]
    rfl

/-- A state fills the first vacant place. -/
theorem add_holding (room : done.length < StateId.limit) (named : state.id = .ofNat done.length) :
    Builder.add state (holding byteClasses done (vacant + 1)) =
      .ok () (holding byteClasses (done ++ [state]) vacant) := by
  have number : state.id.toNat = done.length := by
    rw [named, StateId.toNat_ofNat_of_lt room]
  refine Builder.add_eq_ok_iff.2 ⟨?_, ?_, ?_⟩
  · rw [named]
    exact StateId.ofNat_ne_noSuccessor room
  · simp [Builder.state?, number, holding]
  · have grown : (holding byteClasses done (vacant + 1)).grow state.id.oneMore =
        holding byteClasses done (vacant + 1) := by
      have enough : state.id.oneMore - (holding byteClasses done (vacant + 1)).places.size = 0 := by
        rw [size_holding, StateId.oneMore, number]
        omega
      rw [Builder.grow, enough]
      simp
    rw [grown]
    simp [Builder.put, number, holding, List.replicate_succ]

theorem addReader_holding {b : UInt8} (room : done.length < StateId.limit)
    (entry : (byteClasses.get b).toNat < byteClasses.alphabetLen) :
    Builder.addReader (.ofNat done.length) (.ofNat (done.length + 1)) b
        (holding byteClasses done (vacant + 1)) =
      .ok () (holding byteClasses (done ++ [reader byteClasses done.length b]) vacant) := by
  have table : (holding byteClasses done (vacant + 1)).blankTable.set?
      (byteClasses.get b).toNat (some (.ofNat (done.length + 1))) =
      some (.single byteClasses.alphabetLen (byteClasses.get b).toNat
        (.ofNat (done.length + 1))) := TransitionTable.set?_blank entry
  unfold Builder.addReader
  show (match (holding byteClasses done (vacant + 1)).blankTable.set?
      (byteClasses.get b).toNat (some (.ofNat (done.length + 1))) with
    | none => _
    | some table => _) = _
  rw [table]
  exact add_holding room rfl

theorem addChain_holding {word : List UInt8}
    (small : ∀ b, (byteClasses.get b).toNat < byteClasses.alphabetLen)
    (room : done.length + word.length < StateId.limit) :
    Builder.addChain (.ofNat done.length) word
        ((List.range' (done.length + 1) word.length).map .ofNat)
        (holding byteClasses done (word.length + 1)) =
      .ok () (holding byteClasses (done ++ chain byteClasses done.length word) 0) := by
  induction word generalizing done with
  | nil => exact add_holding room rfl
  | cons b rest ih =>
    rw [List.length_cons] at room ⊢
    have later : Builder.addChain _ rest _
        (holding byteClasses (done ++ [reader byteClasses done.length b]) (rest.length + 1)) = _ :=
      ih (by rw [List.length_append, List.length_singleton]; omega)
    rw [List.length_append, List.length_singleton, List.append_assoc] at later
    rw [List.range'_succ, List.map_cons, Builder.addChain,
      Builder.bind_of_ok (addReader_holding (by omega) (small b))]
    exact later

/-- The builder with the states of the automaton for a literal. -/
def assembled (classes : ByteClasses) (literal : List UInt8) : Builder :=
  (holding classes (states classes literal) 0).withAnchoredStart (.ofNat 0)

/-- With room for a state for each byte and two more, every request succeeds. -/
theorem assemble_eq_ok {literal : List UInt8}
    (small : ∀ b, (byteClasses.get b).toNat < byteClasses.alphabetLen)
    (room : literal.length + 2 ≤ StateId.limit) :
    assemble literal (.empty byteClasses 1) = .ok () (assembled byteClasses literal) := by
  have start : Builder.nextId (holding byteClasses [] 0) =
      .ok (.ofNat 0) (holding byteClasses [] 1) := nextId_holding (by decide)
  have first : Builder.nextId (holding byteClasses [] 1) =
      .ok (.ofNat 1) (holding byteClasses [] 2) := nextId_holding (by decide)
  have following : Builder.nextIdents literal.length (holding byteClasses [] 2) =
      .ok ((List.range' 2 literal.length).map .ofNat)
        (holding byteClasses [] (literal.length + 1 + 1)) := by
    have places : 2 + literal.length = literal.length + 1 + 1 := by omega
    rw [nextIdents_holding (by omega), places]
  have head : Builder.add entry (holding byteClasses [] (literal.length + 1 + 1)) =
      .ok () (holding byteClasses [entry] (literal.length + 1)) :=
    add_holding (by decide) rfl
  have others : Builder.addChain (.ofNat 1) literal ((List.range' 2 literal.length).map .ofNat)
      (holding byteClasses [entry] (literal.length + 1)) =
      .ok () (holding byteClasses (states byteClasses literal) 0) := by
    refine @addChain_holding _ [entry] literal small ?_
    rw [List.length_singleton]
    omega
  have blank : Builder.empty byteClasses 1 = holding byteClasses [] 0 := rfl
  rw [blank, assemble, Builder.bind_of_ok start, Builder.bind_of_ok first,
    Builder.bind_of_ok following]
  show (Builder.add entry >>= _) _ = _
  rw [Builder.bind_of_ok head, Builder.bind_of_ok others]
  rfl

/-! ## The builder can be frozen -/

variable {literal word : List UInt8} {place k : Nat}

theorem mem_chain (mem : state ∈ chain byteClasses place word) :
    (∃ k b, k < word.length ∧ state = reader byteClasses (place + k) b) ∨
      state = .final (.ofNat (place + word.length)) (BitSet.empty.insert 1) := by
  induction word generalizing place with
  | nil => exact .inr (List.mem_singleton.1 mem)
  | cons b rest ih =>
    rw [List.length_cons]
    rcases List.mem_cons.1 mem with here | later
    · exact .inl ⟨0, b, Nat.succ_pos _, here⟩
    · rcases ih later with ⟨k, c, lt, is_reader⟩ | is_final
      · exact .inl ⟨k + 1, c, Nat.succ_lt_succ lt, by rw [is_reader, Nat.add_assoc, Nat.add_comm 1]⟩
      · exact .inr (by rw [is_final, Nat.add_assoc, Nat.add_comm 1])

theorem mem_states (mem : state ∈ states byteClasses literal) :
    state = entry ∨
      (∃ k b, k < literal.length ∧ state = reader byteClasses (1 + k) b) ∨
      state = .final (.ofNat (1 + literal.length)) (BitSet.empty.insert 1) :=
  (List.mem_cons.1 mem).imp id mem_chain

theorem state?_holding {n : Nat} (small : n < StateId.limit) :
    (holding byteClasses done vacant).state? (.ofNat n) = done[n]? := by
  unfold Builder.state? holding
  rw [StateId.toNat_ofNat_of_lt small, List.getElem?_toArray, List.getElem?_append,
    List.length_map]
  split
  · rw [List.getElem?_map]
    cases done[n]? with
    | none => rfl
    | some state => rfl
  · rename_i beyond
    rw [List.getElem?_eq_none (Nat.le_of_not_lt beyond), List.getElem?_replicate]
    split
    · rfl
    · rfl

theorem state?_assembled (room : literal.length + 2 ≤ StateId.limit) (le : k ≤ literal.length) :
    (assembled byteClasses literal).state? (.ofNat (1 + k)) = (chain byteClasses 1 literal)[k]? := by
  have found : (holding byteClasses (states byteClasses literal) 0).state? (.ofNat (1 + k)) =
      (states byteClasses literal)[1 + k]? := state?_holding (by omega)
  rw [Nat.add_comm 1 k] at found ⊢
  exact found

theorem exists_state?_assembled (room : literal.length + 2 ≤ StateId.limit)
    (le : k ≤ literal.length) :
    ∃ state, (assembled byteClasses literal).state? (.ofNat (1 + k)) = some state := by
  have inside : k < (chain byteClasses 1 literal).length := by
    rw [length_chain]
    exact Nat.lt_succ_of_le le
  exact ⟨_, (state?_assembled room le).trans (List.getElem?_eq_getElem inside)⟩

/-- No slot but the two of the only group is recorded. -/
theorem lt_slotCount {slots : SlotSet} {slot i : Nat} (few : i < 2)
    (only : slots = ∅ ∨ slots = BitSet.empty.insert i)
    (recorded : (slots ∪ ∅).contains slot = true) :
    slot < (assembled byteClasses literal).groupCount * 2 := by
  rw [BitSet.contains_union, BitSet.contains_empty, Bool.or_false] at recorded
  rcases only with rfl | rfl
  · rw [BitSet.contains_empty] at recorded
    cases recorded
  · have none_before : (BitSet.empty : SlotSet).contains slot = false := BitSet.contains_empty slot
    rw [BitSet.contains_insert, none_before, Bool.false_or, Bool.and_eq_true] at recorded
    rw [← of_decide_eq_true recorded.2]
    exact few

theorem stateOk_entry (room : literal.length + 2 ≤ StateId.limit) :
    (assembled byteClasses literal).StateOk entry where
  size := rfl
  target {index next} leads := by
    have mem := TransitionTable.some_mem_toList_iff.2 ⟨index, leads⟩
    have successors : entry.table.toList = List.replicate 4 (some (.ofNat 1)) := by decide
    rw [successors] at mem
    cases List.eq_of_mem_replicate mem
    have found : (assembled byteClasses literal).state? (.ofNat 1) =
        (chain byteClasses 1 literal)[0]? := state?_assembled room (Nat.zero_le _)
    cases literal with
    | nil => exact ⟨_, found, fun starts => nomatch starts.2⟩
    | cons b rest => exact ⟨_, found, fun starts => nomatch starts.2⟩
  slot := lt_slotCount (by decide : 0 < 2) (.inr rfl)

theorem stateOk_reader {b : UInt8}
    (small : ∀ b, (byteClasses.get b).toNat < byteClasses.alphabetLen)
    (room : literal.length + 2 ≤ StateId.limit) (lt : k < literal.length) :
    (assembled byteClasses literal).StateOk (reader byteClasses (1 + k) b) where
  size := TransitionTable.size_single
  target {index next} leads := by
    have proper : StateId.ofNat (1 + k + 1) ≠ StateId.noSuccessor :=
      StateId.ofNat_ne_noSuccessor (by omega)
    have is_next := (TransitionTable.get?_single (small b) proper index).symm.trans leads
    split at is_next
    · cases is_next
      obtain ⟨target, found⟩ := exists_state?_assembled room (Nat.succ_le_of_lt lt)
      exact ⟨target, found, fun starts => nomatch starts.1⟩
    · cases is_next
  slot := lt_slotCount (by decide : 0 < 2) (.inl rfl)

theorem stateOk_final :
    (assembled byteClasses literal).StateOk
      (.final (.ofNat (1 + literal.length)) (BitSet.empty.insert 1)) where
  size := rfl
  target {index next} leads := nomatch leads
  slot := lt_slotCount (by decide : 1 < 2) (.inr rfl)

theorem state?_start : (assembled byteClasses literal).state? (.ofNat 0) = some entry := by
  have found : (holding byteClasses (states byteClasses literal) 0).state? (.ofNat 0) =
      (states byteClasses literal)[0]? := state?_holding (by decide)
  exact found

theorem places_assembled : (assembled byteClasses literal).places =
    ((states byteClasses literal).map some).toArray := by
  unfold assembled Builder.withAnchoredStart holding
  rw [List.replicate_zero, List.append_nil]

theorem mem_places_assembled {place : Option State} :
    place ∈ (assembled byteClasses literal).places ↔
      ∃ state ∈ states byteClasses literal, some state = place := by
  rw [places_assembled, List.mem_toArray, List.mem_map]

theorem valid_assembled (small : ∀ b, (byteClasses.get b).toNat < byteClasses.alphabetLen)
    (room : literal.length + 2 ≤ StateId.limit) :
    (assembled byteClasses literal).Valid (.ofNat 0) (.ofNat 0) where
  groups := (by decide : 1 ≤ SlotSet.groupLimit)
  byteClass := small
  filled place mem := by
    obtain ⟨state, -, is_state⟩ := mem_places_assembled.1 mem
    exact ⟨state, is_state.symm⟩
  stateOk {state} mem := by
    obtain ⟨_, mem, ⟨⟩⟩ := mem_places_assembled.1 mem
    rcases mem_states mem with rfl | ⟨k, b, lt, rfl⟩ | rfl
    · exact stateOk_entry room
    · exact stateOk_reader small room lt
    · exact stateOk_final
  anchored := ⟨entry, state?_start, rfl⟩
  unanchored := ⟨entry, state?_start, rfl⟩

theorem build_assembled (small : ∀ b, (byteClasses.get b).toNat < byteClasses.alphabetLen)
    (room : literal.length + 2 ≤ StateId.limit) :
    (assembled byteClasses literal).build =
      .ok ((assembled byteClasses literal).freeze (.ofNat 0) (.ofNat 0)) :=
  Builder.build_eq_ok_iff.2 ⟨_, rfl, valid_assembled small room, rfl⟩

/-! ## The automaton -/

/-- A chain of readers spells its word in an automaton that tells each byte of it from all other
bytes. -/
theorem spells_of_chain {automaton : Automaton} (room : place + word.length < StateId.limit)
    (small : ∀ b, (automaton.classes.get b).toNat < automaton.classes.alphabetLen)
    (alone : ∀ b ∈ word, ∀ c, automaton.classes.get c = automaton.classes.get b ↔ c = b)
    (found : ∀ k ≤ word.length,
      automaton.state? (.ofNat (place + k)) = (chain automaton.classes place word)[k]?) :
    automaton.Spells (.ofNat place) word := by
  induction word generalizing place with
  | nil => exact .done (found 0 (Nat.le_refl _)) rfl
  | cons b rest ih =>
    rw [List.length_cons] at room found
    have proper : StateId.ofNat (place + 1) ≠ StateId.noSuccessor :=
      StateId.ofNat_ne_noSuccessor (by omega)
    have tail : automaton.Spells (.ofNat (place + 1)) rest := by
      refine ih (by omega) (fun c mem => alone c (List.mem_cons_of_mem _ mem)) fun k le => ?_
      rw [Nat.add_assoc, Nat.add_comm 1]
      exact found (k + 1) (Nat.succ_le_succ le)
    refine .read (found 0 (Nat.zero_le _)) rfl (fun c => ?_) tail
    show (TransitionTable.single _ _ _).get? _ = _
    rw [TransitionTable.get?_single (small b) proper]
    simp only [UInt8.toNat_inj, alone b List.mem_cons_self c]

/-- The automaton for a literal recognizes it if the classes tell its bytes from all others. -/
theorem recognizes_freeze (small : ∀ b, (byteClasses.get b).toNat < byteClasses.alphabetLen)
    (alone : ∀ b ∈ literal, ∀ c, byteClasses.get c = byteClasses.get b ↔ c = b)
    (room : literal.length + 2 ≤ StateId.limit) :
    ((assembled byteClasses literal).freeze (.ofNat 0) (.ofNat 0)).Recognizes literal where
  wellFormed := .of_build (build_assembled small room)
  groupCount := rfl
  no_traceFinder state mem := by
    obtain ⟨_, mem, rfl⟩ := Array.mem_filterMap.1 mem
    obtain ⟨_, mem, ⟨⟩⟩ := mem_places_assembled.1 mem
    intro traceFinder
    rcases mem_states mem with rfl | ⟨k, b, -, rfl⟩ | rfl
    · cases traceFinder
    · cases traceFinder
    · cases traceFinder
  entry := by
    have valid := valid_assembled small room
    refine ⟨entry, .ofNat 1, ?_, rfl, ?_, spells_of_chain ?_ small alone fun k le => ?_⟩
    · exact (Builder.state?_freeze valid _).trans state?_start
    · intro config
      cases config <;> rfl
    · omega
    · exact (Builder.state?_freeze valid _).trans (state?_assembled room le)

/-- Searching for a literal, from the classes of the bytes to the captures. As long as identifiers
last, no request for the automaton is refused and the builder can be frozen. A search then reports
the leftmost occurrence from the start on, in the only group of the automaton, or nothing if the
literal does not occur there. -/
theorem runMatch_leftmost (literal : List UInt8) (room : literal.length + 2 ≤ StateId.limit) :
    ∃ builder automaton, assemble literal (.empty (classes literal) 1) = .ok () builder ∧
      builder.build = .ok automaton ∧
      ∀ (haystack : Haystack) (start : Nat), start ≤ haystack.size →
        (∀ i, IsFirst (OccursAt literal haystack) start haystack.size i →
          ∃ captures, automaton.runMatch haystack start false = .ok (some captures) ∧
            captures.slots = #[Offset.ofNat? i, Offset.ofNat? (i + literal.length)] ∧
            (haystack.size < Offset.limit →
              captures.overall? = some ⟨i, i + literal.length⟩)) ∧
        ((∀ i, start ≤ i → ¬OccursAt literal haystack i) →
          automaton.runMatch haystack start false = .ok none) := by
  have small := BytePartition.get_classes_lt_alphabetLen
    (.ofRanges (literal.map fun b => (b, b)))
  have recognizes := recognizes_freeze small
    (fun b mem c => BytePartition.get_classes_eq_iff_of_mem (List.mem_map_of_mem mem)) room
  refine ⟨_, _, assemble_eq_ok small room, build_assembled small room, ?_⟩
  intro haystack start inside
  refine ⟨fun i first => ?_, recognizes.runMatch_of_not_occursAt inside⟩
  refine ⟨_, recognizes.runMatch_of_isFirst inside first, rfl, fun fits => ?_⟩
  have le : i + literal.length ≤ haystack.size := (occursAt_iff.1 first.holds).1
  exact Captures.overall?_pair (by omega) (by omega)

/-- In the bytes `FF 00 00 FF 00 FF 00 FF`, the second of two overlapping occurrences of `FF 00 FF`
is the leftmost one from offset 4 on, and from offset 6 on there is none. -/
theorem runMatch_leftmost_overlapping :
    ∃ builder automaton,
      assemble [0xFF, 0x00, 0xFF] (.empty (classes [0xFF, 0x00, 0xFF]) 1) = .ok () builder ∧
        builder.build = .ok automaton ∧
        (∃ captures, automaton.runMatch #[0xFF, 0x00, 0x00, 0xFF, 0x00, 0xFF, 0x00, 0xFF] 4 false =
            .ok (some captures) ∧ captures.overall? = some ⟨5, 8⟩) ∧
        automaton.runMatch #[0xFF, 0x00, 0x00, 0xFF, 0x00, 0xFF, 0x00, 0xFF] 6 false = .ok none := by
  obtain ⟨builder, automaton, assembled, built, searches⟩ :=
    runMatch_leftmost [0xFF, 0x00, 0xFF] (by decide)
  refine ⟨builder, automaton, assembled, built, ?_, ?_⟩
  · obtain ⟨found, -⟩ := searches #[0xFF, 0x00, 0x00, 0xFF, 0x00, 0xFF, 0x00, 0xFF] 4 (by decide)
    have first : IsFirst (OccursAt [0xFF, 0x00, 0xFF]
        #[0xFF, 0x00, 0x00, 0xFF, 0x00, 0xFF, 0x00, 0xFF]) 4 8 5 := by
      refine ⟨by decide, by decide, by decide, fun j le lt => ?_⟩
      cases Nat.le_antisymm (Nat.le_of_lt_succ lt) le
      decide
    obtain ⟨captures, matched, -, overall⟩ := found 5 first
    exact ⟨captures, matched, overall (by decide)⟩
  · obtain ⟨-, absent⟩ := searches #[0xFF, 0x00, 0x00, 0xFF, 0x00, 0xFF, 0x00, 0xFF] 6 (by decide)
    refine absent fun i le occurs => ?_
    have reaches : i + 3 ≤ 8 := (occursAt_iff.1 occurs).1
    omega

end Literal
end ByteDFA
