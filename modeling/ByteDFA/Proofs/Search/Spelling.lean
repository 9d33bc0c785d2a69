import ByteDFA.Proofs.Search.Leftmost

/-!
# Searching for a word

A state spells a word if the only way on from it is to read that word byte by byte, and the match is
saved at the end. What comes before it in an automaton, and where the states of the chain stand,
does not matter: an unanchored search that enters such a chain finds the leftmost occurrence of the
word (`search_of_isFirst_occursAt`), and nothing if there is none (`search_of_not_occursAt`).
-/

set_option autoImplicit false

namespace ByteDFA

/-! ## Occurrences -/

/-- The bytes of the haystack from an offset on, as many as the word has, are the word. -/
def OccursAt (word : List UInt8) (haystack : Haystack) (i : Nat) : Prop :=
  Span.bytes? ⟨i, i + word.length⟩ haystack = some word.toArray

instance (word : List UInt8) (haystack : Haystack) (i : Nat) :
    Decidable (OccursAt word haystack i) :=
  inferInstanceAs (Decidable (_ = _))

variable {word rest : List UInt8} {haystack : Haystack} {b : UInt8} {i : Nat}

/-- An occurrence, byte by byte. -/
theorem occursAt_iff : OccursAt word haystack i ↔
    i + word.length ≤ haystack.size ∧ ∀ k < word.length, haystack[i + k]? = word[k]? := by
  have cut_out : OccursAt word haystack i ↔
      (if i ≤ i + word.length ∧ i + word.length ≤ haystack.size then
        some (haystack.extract i (i + word.length)) else none) = some word.toArray := Iff.rfl
  by_cases inside : i + word.length ≤ haystack.size
  · have size : (haystack.extract i (i + word.length)).size = word.length := by
      rw [Array.size_extract]
      omega
    rw [cut_out, if_pos ⟨Nat.le_add_right _ _, inside⟩, Option.some.injEq, and_iff_right inside]
    constructor
    · intro same k lt
      have at_k := congrArg (fun bytes => bytes[k]?) same
      rw [Array.getElem?_extract, if_pos (by omega)] at at_k
      exact at_k.trans List.getElem?_toArray
    · intro same
      refine Array.ext_getElem? fun k => ?_
      by_cases lt : k < word.length
      · rw [Array.getElem?_extract, if_pos (by omega)]
        exact (same k lt).trans List.getElem?_toArray.symm
      · rw [Array.getElem?_eq_none (by omega), Array.getElem?_eq_none]
        exact Nat.le_of_not_lt lt
  · rw [cut_out, if_neg fun within => inside within.2]
    exact iff_of_false (fun none_some => nomatch none_some) fun occurs => inside occurs.1

theorem occursAt_nil : OccursAt [] haystack i ↔ i ≤ haystack.size := by
  rw [occursAt_iff]
  simp

theorem occursAt_cons :
    OccursAt (b :: rest) haystack i ↔ haystack[i]? = some b ∧ OccursAt rest haystack (i + 1) := by
  rw [occursAt_iff, occursAt_iff, List.length_cons]
  constructor
  · intro occurs
    obtain ⟨inside, same⟩ := occurs
    refine ⟨same 0 (Nat.succ_pos _), by omega, fun k lt => ?_⟩
    rw [Nat.add_assoc, Nat.add_comm 1]
    exact same (k + 1) (Nat.succ_lt_succ lt)
  · intro occurs
    obtain ⟨first, inside, same⟩ := occurs
    refine ⟨by omega, fun k lt => ?_⟩
    cases k with
    | zero => exact first
    | succ k =>
      rw [← Nat.add_comm 1 k, ← Nat.add_assoc]
      rw [same k (by omega), Nat.add_comm 1 k]
      rfl

theorem Slots.record_empty (slots : Slots) (cursor : Nat) : slots.record ∅ cursor = slots := by
  refine Array.ext_getElem? fun slot => ?_
  rw [getElem?_record]
  simp

theorem Slots.record_single {slot : Nat} (small : slot < SlotSet.limit) (slots : Slots)
    (cursor : Nat) : slots.record (BitSet.empty.insert slot) cursor =
      slots.setIfInBounds slot (Offset.ofNat? cursor) := by
  have none_before (i : Nat) : (BitSet.empty : SlotSet).contains i = false := BitSet.contains_empty i
  refine Array.ext_getElem? fun i => ?_
  rw [getElem?_record, BitSet.contains_insert, none_before, Array.getElem?_setIfInBounds]
  by_cases here : slot = i
  · subst here
    by_cases inside : slot < slots.size <;> simp [inside, show slot < 64 from small]
  · simp [here]

namespace Automaton

variable {automaton : Automaton} {id : StateId} {cursor start : Nat}

/-! ## States that spell a word -/

/-- From the state with an identifier on, the bytes of a word are read, and the match ends after
the last of them. -/
inductive Spells (automaton : Automaton) : StateId → List UInt8 → Prop
  | done {id : StateId} {state : State} (found : automaton.state? id = some state)
      (role : state.role = .final (BitSet.empty.insert 1)) : Spells automaton id []
  | read {id next : StateId} {state : State} {b : UInt8} {rest : List UInt8}
      (found : automaton.state? id = some state) (role : state.role = .matcher ∅ none)
      (table : ∀ c, state.table.get? (automaton.classes.get c).toNat =
        if c = b then some next else none)
      (spells : Spells automaton next rest) : Spells automaton id (b :: rest)

/-- The automaton for a word: it has one group, for the match, and begins with a start state that
leads to a chain of states for the word in every configuration. -/
structure Recognizes (automaton : Automaton) (word : List UInt8) : Prop where
  wellFormed : automaton.WellFormed
  groupCount : automaton.groupCount = 1
  no_traceFinder : ∀ state ∈ automaton.states, state.kind ≠ .traceFinder
  entry : ∃ start first, automaton.state? automaton.unanchoredStart = some start ∧
    start.role = .start (BitSet.empty.insert 0) ∧
    (∀ config : StartConfig, start.table.get? config.index = some first) ∧
    automaton.Spells first word

/-- The run over a chain for a word saves a match exactly if the word is there, with the offset
after its last byte in slot 1, and all other slots as they have been. -/
theorem Spells.exists_run (spells : automaton.Spells id word) (inside : cursor ≤ haystack.size) :
    ∃ visits, automaton.Run haystack ⟨id, cursor⟩ visits ∧ ∀ frame,
      (automaton.replay frame visits).saved =
        if OccursAt word haystack cursor then
          some (frame.slots.record (BitSet.empty.insert 1) (cursor + word.length))
        else frame.saved := by
  induction spells generalizing cursor with
  | @done id state found role =>
    have accept : automaton.acceptAt ⟨id, cursor⟩ = some ∅ := by
      rw [acceptAt_of_found found, role]
      rfl
    have slots : automaton.slotsAt ⟨id, cursor⟩ = BitSet.empty.insert 1 := by
      rw [slotsAt_of_found found, role]
      rfl
    refine ⟨[⟨id, cursor⟩], .last fun w step => ?_, fun frame => ?_⟩
    · obtain ⟨state', found', moved⟩ := step_iff.1 step
      cases found.symm.trans found'
      rw [State.move, State.kind, role] at moved
      cases moved
    · rw [if_pos (occursAt_nil.2 inside), replay_cons, replay, List.foldl_nil, saved_visit, accept]
      dsimp only
      rw [Slots.record_empty, slots_visit, slots, List.length_nil, Nat.add_zero]
  | @read id next state b rest found role table spells ih =>
    have kind : state.kind = .matcher := by rw [State.kind, role, Role.kind]
    have accept : automaton.acceptAt ⟨id, cursor⟩ = none := by
      rw [acceptAt_of_found found, role]
      rfl
    have slots : automaton.slotsAt ⟨id, cursor⟩ = ∅ := by
      rw [slotsAt_of_found found, role]
      rfl
    by_cases byte : haystack[cursor]? = some b
    · -- The byte is there, so the rest of the chain decides.
      have step : automaton.Step haystack ⟨id, cursor⟩ ⟨next, cursor + 1⟩ :=
        .read found (.inl kind) byte (by rw [table, if_pos rfl])
      obtain ⟨visits, run, saved⟩ := ih (step.cursor_le inside)
      refine ⟨_, .step step run, fun frame => ?_⟩
      rw [replay_cons, saved, slots_visit, slots, Slots.record_empty, saved_visit, accept,
        List.length_cons, Nat.add_assoc, Nat.add_comm 1]
      simp only [occursAt_cons, byte, true_and]
    · have stuck : state.successor? automaton.classes haystack cursor = none := by
        cases read : state.successor? automaton.classes haystack cursor with
        | none => rfl
        | some target =>
          obtain ⟨c, here, entry⟩ := State.successor?_eq_some_iff.1 read
          rw [table] at entry
          split at entry
          · rename_i same
            exact absurd (same ▸ here) byte
          · cases entry
      have not_start : state.kind ≠ .start := by
        rw [kind]
        decide
      refine ⟨_, .last (not_step_of_successor?_eq_none found not_start stuck), fun frame => ?_⟩
      rw [if_neg fun occurs => byte (occursAt_cons.1 occurs).1, replay_cons, replay,
        List.foldl_nil, saved_visit, accept]

/-! ## Searches -/

namespace Recognizes

variable (recognizes : automaton.Recognizes word)

include recognizes

theorem slotCount_eq : automaton.slotCount = 2 := by
  rw [slotCount, recognizes.groupCount]

/-- An attempt reports an occurrence of the word at its offset. -/
theorem captures?_attemptAt (inside : i ≤ haystack.size) :
    (automaton.attemptAt haystack i).captures? =
      if OccursAt word haystack i then
        some ⟨#[Offset.ofNat? i, Offset.ofNat? (i + word.length)]⟩
      else none := by
  obtain ⟨start, first, found, role, table, spells⟩ := recognizes.entry
  obtain ⟨config, here⟩ := Option.isSome_iff_exists.1 (StartConfig.ofOffset?_isSome.2 inside)
  have kind : start.kind = .start := by rw [State.kind, role, Role.kind]
  have accept : automaton.acceptAt ⟨automaton.unanchoredStart, i⟩ = none := by
    rw [acceptAt_of_found found, role]
    rfl
  have slots : automaton.slotsAt ⟨automaton.unanchoredStart, i⟩ = BitSet.empty.insert 0 := by
    rw [slotsAt_of_found found, role]
    rfl
  obtain ⟨visits, run, saved⟩ := spells.exists_run inside
  have whole : automaton.Run haystack ⟨automaton.unanchoredStart, i⟩ (_ :: visits) :=
    .step (.enter found kind here (table config)) run
  obtain ⟨last, final, -, -, result⟩ := attemptFrom_of_run recognizes.wellFormed whole found inside
  unfold attemptAt Attempt.captures?
  rw [result]
  dsimp only
  rw [replay_cons, saved, slots_visit, slots, saved_visit, accept]
  split
  · rw [recognizes.slotCount_eq, Option.map_some, Slots.record_single (by decide),
      Slots.record_single (by decide)]
    rfl
  · rfl

/-- An attempt is decisive where the word occurs. -/
theorem decisive_iff (inside : i ≤ haystack.size) :
    (automaton.attemptAt haystack i).Decisive ↔ OccursAt word haystack i := by
  rw [decisive_iff_of_no_traceFinder recognizes.wellFormed recognizes.no_traceFinder inside,
    recognizes.captures?_attemptAt inside]
  split
  · rename_i occurs
    exact iff_of_true ⟨_, rfl⟩ occurs
  · rename_i absent
    exact iff_of_false (fun found => nomatch found.choose_spec) absent

theorem runMatch_of_isFirst (inside : start ≤ haystack.size)
    (first : IsFirst (OccursAt word haystack) start haystack.size i) :
    automaton.runMatch haystack start false =
      .ok (some ⟨#[Offset.ofNat? i, Offset.ofNat? (i + word.length)]⟩) := by
  have decisive : IsFirst (fun j => (automaton.attemptAt haystack j).Decisive) start
      haystack.size i := first.congr fun j _ inside => (recognizes.decisive_iff inside).symm
  rw [runMatch, Executor.search_of_isFirst_decisive recognizes.wellFormed rfl inside decisive,
    recognizes.captures?_attemptAt first.le_stop, if_pos first.holds]

theorem runMatch_of_not_occursAt (inside : start ≤ haystack.size)
    (absent : ∀ i, start ≤ i → ¬OccursAt word haystack i) :
    automaton.runMatch haystack start false = .ok none := by
  rw [runMatch]
  refine Executor.search_of_not_decisive recognizes.wellFormed rfl inside ?_
  intro j le inside decisive
  exact absent j le ((recognizes.decisive_iff inside).1 decisive)

end Recognizes
end Automaton
end ByteDFA
