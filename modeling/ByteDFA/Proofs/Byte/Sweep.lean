import ByteDFA.Proofs.Byte.Runs

/-!
# Runs found in one pass

Runs are defined from the last byte down, but they can be found in one pass up from the first byte
(`sweep_all`). The pass keeps the run that the last byte belongs to. It grows while the bytes go on
with its key, and is written when they do not or when there are no more.

A run that is still pending can be put in front of those that are found above it (`prependRun`),
where it may grow together with the first of them. This is what the pass comes to, whatever is
pending (`sweep_foldr`). The bytes without a key may as well be left out of the pass
(`sweep_filter`): the next byte with a key shows whether there was one before it.
-/

set_option autoImplicit false

namespace ByteDFA

variable {κ : Type} [DecidableEq κ] {key : UInt8 → Option κ} {b : UInt8} {k : κ}
  {run next : ByteRun κ} {above : List (ByteRun κ)}

/-- Finds runs in one pass. A pending run is the one that the last byte belongs to. -/
def sweep (key : UInt8 → Option κ) : (pending : Option (ByteRun κ)) → List UInt8 →
    List (ByteRun κ)
  | pending, [] => pending.toList
  | none, b :: rest => sweep key ((key b).map fun k => ⟨b, b, k⟩) rest
  | some run, b :: rest =>
    match key b with
    | none => run :: sweep key none rest
    | some k =>
      if run.key = k ∧ run.last.toNat + 1 = b.toNat then
        sweep key (some { run with last := b }) rest
      else run :: sweep key (some ⟨b, b, k⟩) rest

/-! ## A run in front of others -/

/-- The runs with one more in front. It becomes one with the first of them if they touch and share
their key. -/
def prependRun (run : ByteRun κ) : List (ByteRun κ) → List (ByteRun κ)
  | [] => [run]
  | next :: rest =>
    if run.key = next.key ∧ run.last.toNat + 1 = next.first.toNat then
      { run with last := next.last } :: rest
    else run :: next :: rest

theorem prependByte_eq_prependRun (keyed : key b = some k) :
    prependByte key b above = prependRun ⟨b, b, k⟩ above := by
  cases above with
  | nil => exact prependByte_nil keyed
  | cons next rest =>
    rw [prependByte_cons keyed, prependRun]
    split
    · rename_i joins
      rw [if_pos ⟨joins.1.symm, joins.2.symm⟩, ← joins.1]
    · rename_i apart
      rw [if_neg fun joins => apart ⟨joins.1.symm, joins.2.symm⟩]

theorem prependRun_of_apart (apart : ∀ next ∈ above, run.last.toNat + 1 ≠ next.first.toNat) :
    prependRun run above = run :: above := by
  cases above with
  | nil => rfl
  | cons next rest => exact if_neg fun joins => apart next List.mem_cons_self joins.2

theorem prependRun_of_joins {rest : List (ByteRun κ)} (same : run.key = next.key)
    (touch : run.last.toNat + 1 = next.first.toNat) :
    prependRun run (next :: rest) = { run with last := next.last } :: rest :=
  if_pos ⟨same, touch⟩

/-- Two runs that touch and share their key are put in front like one. -/
theorem prependRun_prependRun (same : run.key = next.key)
    (touch : run.last.toNat + 1 = next.first.toNat) :
    prependRun run (prependRun next above) = prependRun { run with last := next.last } above := by
  cases above with
  | nil => exact prependRun_of_joins same touch
  | cons top rest =>
    by_cases joins : next.key = top.key ∧ next.last.toNat + 1 = top.first.toNat
    · have all_three : prependRun run ({ next with last := top.last } :: rest) =
          { run with last := top.last } :: rest := prependRun_of_joins same touch
      rw [prependRun_of_joins joins.1 joins.2, all_three]
      exact (if_pos ⟨same.trans joins.1, joins.2⟩).symm
    · have apart : ¬(run.key = top.key ∧ next.last.toNat + 1 = top.first.toNat) := same ▸ joins
      rw [prependRun, if_neg joins, prependRun_of_joins same touch, prependRun, if_neg apart]

/-- A run does not grow if what follows begins with another key or does not touch it. -/
theorem prependRun_prependRun_of_apart
    (apart : ¬(run.key = next.key ∧ run.last.toNat + 1 = next.first.toNat)) :
    prependRun run (prependRun next above) = run :: prependRun next above := by
  have stays {last : UInt8} {rest : List (ByteRun κ)} :
      prependRun run ({ next with last } :: rest) = run :: { next with last } :: rest :=
    if_neg apart
  cases above with
  | nil => exact stays
  | cons top rest =>
    rw [prependRun]
    split
    · exact stays
    · exact stays

/-! ## The pass -/

/-- From some byte on, the pass finds the runs of the bytes that are left. The pending run, which
ends right below them, is put in front. -/
theorem sweep_foldr (key : UInt8 → Option κ) {n more : Nat} (reach : n + more = 256) :
    sweep key none ((List.range' n more).map UInt8.ofNat) =
        ((List.range' n more).map UInt8.ofNat).foldr (prependByte key) [] ∧
      ∀ run : ByteRun κ, run.last.toNat + 1 = n →
        sweep key (some run) ((List.range' n more).map UInt8.ofNat) =
          prependRun run (((List.range' n more).map UInt8.ofNat).foldr (prependByte key) []) := by
  induction more generalizing n with
  | zero => exact ⟨rfl, fun _ _ => rfl⟩
  | succ more ih =>
    have number : (UInt8.ofNat n).toNat = n := UInt8.toNat_ofNat_of_lt' (show n < 256 by omega)
    have later : n + 1 + more = 256 := by omega
    obtain ⟨without, pending⟩ := ih later
    have first : (UInt8.ofNat n).toNat + 1 = n + 1 := congrArg (· + 1) number
    rw [List.range'_succ, List.map_cons, List.foldr_cons]
    cases keyed : key (UInt8.ofNat n) with
    | none =>
      rw [prependByte_of_eq_none keyed]
      constructor
      · rw [sweep, keyed]
        exact without
      · intro run below
        -- The byte without a key keeps the pending run apart from those above.
        have above := (Runs.describe_foldr key later).from_le
        rw [sweep, keyed, prependRun_of_apart fun next mem touch => ?_]
        · exact congrArg (run :: ·) without
        · exact absurd (above next mem) (Nat.not_le_of_lt (by omega))
    | some k =>
      rw [prependByte_eq_prependRun keyed]
      have begun := pending ⟨UInt8.ofNat n, UInt8.ofNat n, k⟩ first
      constructor
      · rw [sweep, keyed]
        exact begun
      · intro run below
        have touch : run.last.toNat + 1 = (UInt8.ofNat n).toNat := below.trans number.symm
        rw [sweep, keyed]
        dsimp only
        split
        · rename_i joins
          rw [pending _ first, prependRun_prependRun joins.1 touch]
        · rename_i apart
          rw [begun, prependRun_prependRun_of_apart apart]

/-- One pass through all bytes finds the runs. -/
theorem sweep_all (key : UInt8 → Option κ) : sweep key none Byte.all = runs key := by
  unfold runs Byte.all
  rw [List.range_eq_range']
  exact (sweep_foldr key rfl).1

/-! ## Bytes without a key -/

/-- A pass that never sees the bytes without a key finds the same runs: what it sees next tells
whether the pending run was complete. -/
theorem sweep_filter_foldr (key : UInt8 → Option κ) {n more : Nat} (reach : n + more = 256)
    (below : run.last.toNat < n) :
    sweep key (some run) (((List.range' n more).map UInt8.ofNat).filter fun b => (key b).isSome) =
      prependRun run (((List.range' n more).map UInt8.ofNat).foldr (prependByte key) []) := by
  induction more generalizing n run with
  | zero => rfl
  | succ more ih =>
    have number : (UInt8.ofNat n).toNat = n := UInt8.toNat_ofNat_of_lt' (show n < 256 by omega)
    have later : n + 1 + more = 256 := by omega
    rw [List.range'_succ, List.map_cons, List.foldr_cons]
    cases keyed : key (UInt8.ofNat n) with
    | none =>
      rw [List.filter_cons_of_neg (by simp [keyed]), prependByte_of_eq_none keyed]
      exact ih later (Nat.lt_succ_of_lt below)
    | some k =>
      rw [List.filter_cons_of_pos (by simp [keyed]), prependByte_eq_prependRun keyed, sweep, keyed]
      dsimp only
      have ends : (UInt8.ofNat n).toNat < n + 1 := by omega
      split
      · rename_i joins
        have grown := @ih { run with last := UInt8.ofNat n } _ later ends
        rw [grown, prependRun_prependRun joins.1 joins.2]
      · rename_i apart
        have begun := @ih ⟨UInt8.ofNat n, UInt8.ofNat n, k⟩ _ later ends
        rw [begun, prependRun_prependRun_of_apart apart]

theorem sweep_none_filter_foldr (key : UInt8 → Option κ) {n more : Nat} (reach : n + more = 256) :
    sweep key none (((List.range' n more).map UInt8.ofNat).filter fun b => (key b).isSome) =
      ((List.range' n more).map UInt8.ofNat).foldr (prependByte key) [] := by
  induction more generalizing n with
  | zero => rfl
  | succ more ih =>
    have later : n + 1 + more = 256 := by omega
    rw [List.range'_succ, List.map_cons, List.foldr_cons]
    cases keyed : key (UInt8.ofNat n) with
    | none =>
      rw [List.filter_cons_of_neg (by simp [keyed]), prependByte_of_eq_none keyed]
      exact ih later
    | some k =>
      have number : (UInt8.ofNat n).toNat = n := UInt8.toNat_ofNat_of_lt' (show n < 256 by omega)
      have begun := @sweep_filter_foldr κ _ ⟨UInt8.ofNat n, UInt8.ofNat n, k⟩ key _ _ later
        (Nat.lt_succ_of_le (Nat.le_of_eq number))
      rw [List.filter_cons_of_pos (by simp [keyed]), prependByte_eq_prependRun keyed, sweep, keyed]
      exact begun

/-- One pass through the bytes that have a key finds the runs. -/
theorem sweep_filter (key : UInt8 → Option κ) :
    sweep key none (Byte.all.filter fun b => (key b).isSome) = runs key := by
  unfold runs Byte.all
  rw [List.range_eq_range']
  exact sweep_none_filter_foldr key rfl

end ByteDFA
