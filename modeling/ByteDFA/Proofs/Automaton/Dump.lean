import ByteDFA.Proofs.Automaton.Safety
import ByteDFA.Proofs.Byte.ClassesText
import ByteDFA.Proofs.Byte.Sweep
import ByteDFA.Proofs.State.Text

/-!
# What the dump shows of the transitions

The dump has a line for every state. For a state that is not a start state, the line writes the
ranges of bytes that lead to one and the same successor, each with its ends and the successor. A
range can be told from what follows it, although there may be commas and blanks among the bytes
(`byteRunText_append_inj`), so the line can be read in one way only. What is read is the transition
function of the state, no more and no less (`dump_exact`).
-/

set_option autoImplicit false

namespace ByteDFA

open ValueText

theorem getElem?_of_mapM_eq_ok {ε α β : Type} {f : α → Except ε β} {items : List α}
    {results : List β} {i : Nat} {item : α} (mapped : items.mapM f = .ok results)
    (here : items[i]? = some item) : ∃ result, results[i]? = some result ∧ f item = .ok result := by
  induction items generalizing results i with
  | nil => cases here
  | cons first rest ih =>
    rw [List.mapM_cons] at mapped
    cases at_first : f first with
    | error e =>
      rw [at_first] at mapped
      cases mapped
    | ok result =>
      cases at_rest : rest.mapM f with
      | error e =>
        rw [at_first, at_rest] at mapped
        cases mapped
      | ok others =>
        rw [at_first, at_rest] at mapped
        cases mapped
        cases i with
        | zero =>
          cases here
          exact ⟨result, rfl, at_first⟩
        | succ i =>
          have later := ih at_rest here
          exact later

/-! ## Reading ranges -/

namespace Automaton

variable {automaton : Automaton} {state : State} {r s : ByteRun StateId} {cs ds : List Char}

theorem toList_byteRunText (r : ByteRun StateId) :
    (byteRunText r).toList =
      r.written.flatMap Byte.escapedChars ++
        ' ' :: '=' :: '>' :: ' ' :: (toString r.key.toNat).toList := by
  rw [byteRunText, String.toList_append, String.toList_append, ByteRun.toList_text,
    List.append_assoc]
  rfl

theorem byteRunText_ne_empty (r : ByteRun StateId) : byteRunText r ≠ "" := by
  intro blank
  have chars := toList_byteRunText r
  rw [blank] at chars
  exact absurd (List.append_eq_nil_iff.1 chars.symm).2 (List.cons_ne_nil _ _)

/-- A range with its successor can be told from what follows, unless that goes on with a digit. -/
theorem byteRunText_append_inj (ends : EndsNumber cs) (ends' : EndsNumber ds)
    (same : (byteRunText r).toList ++ cs = (byteRunText s).toList ++ ds) : r = s ∧ cs = ds := by
  rw [toList_byteRunText, toList_byteRunText, List.append_assoc, List.append_assoc] at same
  obtain ⟨written, tails⟩ := Byte.flatMap_escapedChars_append_inj Byte.head?_escapedChars same
  have numbers := (List.cons.inj (List.cons.inj (List.cons.inj tails).2).2).2
  obtain ⟨key, rests⟩ := toString_append_inj ends ends' numbers
  have alone : r.written ++ [] = s.written ++ [] := by rw [written]
  obtain ⟨range, -⟩ := ByteRun.written_append_inj (by simp) (by simp) alone
  obtain ⟨first, last⟩ := Prod.mk.inj range
  refine ⟨?_, rests⟩
  cases r
  cases s
  rw [ByteRun.mk.injEq]
  exact ⟨first, last, StateId.toNat_injective key⟩

/-! ## Lines -/

/-- The line that writes these ranges as the transitions of a state. -/
def rangesLine (automaton : Automaton) (state : State) (ranges : List (ByteRun StateId)) : String :=
  automaton.indicator state ++ sixDigits state.id.toNat ++ ": " ++
    String.intercalate ", " (ranges.map byteRunText) ++
    (if state.slots.isEmpty then "" else " (slots: " ++ state.slots.debug ++ ")") ++ "\n"

theorem rangesLine_injective {ranges ranges' : List (ByteRun StateId)}
    (same : automaton.rangesLine state ranges = automaton.rangesLine state ranges') :
    ranges = ranges' := by
  unfold rangesLine at same
  rw [String.append_left_inj, String.append_left_inj, String.append_right_inj] at same
  -- A comma may be a byte and a separator may follow it, so the ranges are read from the left.
  refine eq_of_intercalate_map_eq (fun r _ => byteRunText_ne_empty r)
    (fun r _ => byteRunText_ne_empty r) (fun r _ s _ rest rest' chars => ?_) same
  exact byteRunText_append_inj (endsNumber_following rest) (endsNumber_following rest') chars

theorem stateLine_of_kind_ne_start (kind : state.kind ≠ .start) :
    automaton.stateLine state = .ok (automaton.rangesLine state (automaton.byteRuns state)) := by
  unfold stateLine transitionsText
  cases role : state.role with
  | start slots => exact absurd (congrArg Role.kind role) kind
  | matcher => rfl
  | final => rfl
  | traceFinder => rfl

/-- The dump of a built automaton shows the transition function of every state that is not a start
state. Its line can be read as ranges with successors in one way only, which are the ranges that one
pass through the bytes finds, and they show exactly what successor the state has on which byte. -/
theorem dump_exact {builder : Builder} (built : builder.build = .ok automaton) :
    ∃ lines,
      automaton.states.toList.mapM automaton.stateLine = .ok lines ∧
      automaton.dump = .ok ("dfa::Automaton(\n" ++ String.join lines ++ automaton.footer) ∧
      ∀ id state, automaton.state? id = some state → state.kind ≠ .start →
        ∃ ranges,
          ranges = sweep (fun b => state.table.get? (automaton.classes.get b).toNat) none Byte.all ∧
          (∀ other,
            lines[id.toNat]? = some (automaton.rangesLine state other) ↔ other = ranges) ∧
          Runs.Exact (fun b => state.table.get? (automaton.classes.get b).toNat) ranges := by
  obtain ⟨anchored, -, valid, is_frozen⟩ := Builder.build_eq_ok_iff.1 built
  have entries : ∀ state ∈ automaton.states, state.kind = .start →
      state.table.size = StartConfig.count := by
    intro state mem kind
    rw [is_frozen] at mem
    exact (valid.stateOk_of_mem_freeze mem).size_of_start kind
  obtain ⟨lines, written⟩ := exists_lines_eq_ok entries
  refine ⟨lines, written, dump_of_lines written, ?_⟩
  intro id state found kind
  have listed : automaton.states.toList[id.toNat]? = some state :=
    Array.getElem?_toList.trans found
  obtain ⟨line, at_id, shows⟩ := getElem?_of_mapM_eq_ok written listed
  rw [stateLine_of_kind_ne_start kind] at shows
  cases shows
  refine ⟨automaton.byteRuns state, (sweep_all _).symm, fun other => ?_, Runs.exact_runs _⟩
  rw [at_id, Option.some_inj]
  constructor
  · intro same
    exact (rangesLine_injective same).symm
  · intro is_ranges
    rw [is_ranges]

/-- The automaton for one or more of `a` reads an `a` in the last state and returns to it. The line
says this and nothing else. -/
theorem dump_exact_aPlus :
    ∃ lines,
      (Builder.aPlus.freeze (.ofNat 0) (.ofNat 0)).dump =
        .ok ("dfa::Automaton(\n" ++ String.join lines ++
          (Builder.aPlus.freeze (.ofNat 0) (.ofNat 0)).footer) ∧
      lines[2]? = some "+*000002: a => 2\n" := by
  obtain ⟨lines, -, dumped, shown⟩ := dump_exact Builder.build_aPlus
  refine ⟨lines, dumped, ?_⟩
  obtain ⟨ranges, swept, read, -⟩ := shown (.ofNat 2)
    (.matcher (.ofNat 2) (.ofList [some (.ofNat 2), none]) ∅ (some (BitSet.empty.insert 1))) rfl
    (by decide)
  have only_a (b : UInt8) : (TransitionTable.ofList [some (.ofNat 2), none]).get?
      (Builder.aPlus.classes.get b).toNat = if b = 0x61 then some (.ofNat 2) else none := by
    rw [Builder.aPlus, ByteClasses.get_ofFn]
    split
    · rfl
    · rfl
  have is_ranges : ranges = [⟨0x61, 0x61, .ofNat 2⟩] := by
    rw [swept]
    show sweep (fun b => (TransitionTable.ofList [some (.ofNat 2), none]).get?
      (Builder.aPlus.classes.get b).toNat) none Byte.all = _
    rw [funext only_a]
    decide +kernel
  refine ((read _).2 is_ranges.symm).trans ?_
  decide +kernel

end Automaton
end ByteDFA
