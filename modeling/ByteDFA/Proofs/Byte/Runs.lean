import ByteDFA.Byte.Runs

/-!
# What runs say about their key

The runs of a key say everything about it: a byte has a key exactly if it lies in a run with that
key (`key_eq_some_iff`). They stand in ascending order and do not overlap, and where two of them
touch they have different keys, so none could be longer (`exact_runs`). `Runs.Describe` collects
these facts for the bytes from some number on; it holds for the runs of these bytes because it is
kept whenever `prependByte` takes the next lower byte.
-/

set_option autoImplicit false

namespace ByteDFA

variable {κ : Type}

/-- The byte lies between the ends of the run. -/
def ByteRun.Contains (run : ByteRun κ) (b : UInt8) : Prop :=
  run.first.toNat ≤ b.toNat ∧ b.toNat ≤ run.last.toNat

/-! ## One byte more -/

section PrependByte

variable [DecidableEq κ] {key : UInt8 → Option κ} {b : UInt8} {k : κ}

theorem prependByte_of_eq_none (without : key b = none) (above : List (ByteRun κ)) :
    prependByte key b above = above := by
  unfold prependByte
  split
  · rfl
  · rename_i keyed
    cases without.symm.trans keyed
  · rename_i keyed
    cases without.symm.trans keyed

theorem prependByte_nil (keyed : key b = some k) : prependByte key b [] = [⟨b, b, k⟩] := by
  simp only [prependByte, keyed]

theorem prependByte_cons (keyed : key b = some k) (run : ByteRun κ) (rest : List (ByteRun κ)) :
    prependByte key b (run :: rest) =
      if run.key = k ∧ run.first.toNat = b.toNat + 1 then { run with first := b } :: rest
      else ⟨b, b, k⟩ :: run :: rest := by
  simp only [prependByte, keyed]

end PrependByte

namespace Runs

/-- A sequence of runs describes what a key says about the bytes from `n` on. -/
structure Describe (key : UInt8 → Option κ) (n : Nat) (runs : List (ByteRun κ)) : Prop where
  from_le : ∀ run ∈ runs, n ≤ run.first.toNat
  first_le_last : ∀ run ∈ runs, run.first.toNat ≤ run.last.toNat
  sound : ∀ run ∈ runs, ∀ b, run.Contains b → key b = some run.key
  complete : ∀ b k, n ≤ b.toNat → key b = some k → ∃ run ∈ runs, run.Contains b
  ascending : runs.Pairwise fun r s => r.last.toNat < s.first.toNat
  maximal : runs.Pairwise fun r s => s.first.toNat = r.last.toNat + 1 → r.key ≠ s.key

variable {key : UInt8 → Option κ} {b : UInt8} {k : κ} {run : ByteRun κ}
  {above rest : List (ByteRun κ)}

namespace Describe

theorem nil : Describe key 256 [] where
  from_le _ mem := absurd mem List.not_mem_nil
  first_le_last _ mem := absurd mem List.not_mem_nil
  sound _ mem := absurd mem List.not_mem_nil
  complete b _ le := absurd b.toNat_lt (Nat.not_lt_of_le le)
  ascending := List.Pairwise.nil
  maximal := List.Pairwise.nil

/-- A byte without a key is in no run. -/
theorem skip (describe : Describe key (b.toNat + 1) above) (without : key b = none) :
    Describe key b.toNat above where
  from_le run mem := Nat.le_of_succ_le (describe.from_le run mem)
  first_le_last := describe.first_le_last
  sound := describe.sound
  complete c k le keyed := by
    rcases Nat.lt_or_eq_of_le le with above | here
    · exact describe.complete c k above keyed
    · rw [← UInt8.toNat_inj.1 here, without] at keyed
      cases keyed
  ascending := describe.ascending
  maximal := describe.maximal

/-- A byte begins a run of its own unless the next one has the same key. -/
theorem begin (describe : Describe key (b.toNat + 1) above) (keyed : key b = some k)
    (apart : ∀ run ∈ above, run.first.toNat = b.toNat + 1 → k ≠ run.key) :
    Describe key b.toNat (⟨b, b, k⟩ :: above) where
  from_le run mem := by
    rcases List.mem_cons.1 mem with rfl | mem
    · exact Nat.le_refl _
    · exact Nat.le_of_succ_le (describe.from_le run mem)
  first_le_last run mem := by
    rcases List.mem_cons.1 mem with rfl | mem
    · exact Nat.le_refl _
    · exact describe.first_le_last run mem
  sound run mem c inside := by
    rcases List.mem_cons.1 mem with rfl | mem
    · rw [← UInt8.toNat_inj.1 (Nat.le_antisymm inside.1 inside.2)]
      exact keyed
    · exact describe.sound run mem c inside
  complete c k' le keyed' := by
    rcases Nat.lt_or_eq_of_le le with above | here
    · obtain ⟨run, mem, inside⟩ := describe.complete c k' above keyed'
      exact ⟨run, List.mem_cons_of_mem _ mem, inside⟩
    · exact ⟨_, List.mem_cons_self, Nat.le_of_eq here, Nat.le_of_eq here.symm⟩
  ascending := List.pairwise_cons.2 ⟨describe.from_le, describe.ascending⟩
  maximal := List.pairwise_cons.2 ⟨apart, describe.maximal⟩

/-- A byte joins the run that begins right above it if it has the same key. -/
theorem join (describe : Describe key (b.toNat + 1) (run :: rest)) (keyed : key b = some run.key)
    (next : run.first.toNat = b.toNat + 1) :
    Describe key b.toNat ({ run with first := b } :: rest) where
  from_le r mem := by
    rcases List.mem_cons.1 mem with rfl | mem
    · exact Nat.le_refl _
    · exact Nat.le_of_succ_le (describe.from_le r (List.mem_cons_of_mem _ mem))
  first_le_last r mem := by
    rcases List.mem_cons.1 mem with rfl | mem
    · have le := describe.first_le_last run List.mem_cons_self
      rw [next] at le
      exact Nat.le_of_succ_le le
    · exact describe.first_le_last r (List.mem_cons_of_mem _ mem)
  sound r mem c inside := by
    rcases List.mem_cons.1 mem with rfl | mem
    · obtain ⟨from_b, to_last⟩ := inside
      rcases Nat.lt_or_eq_of_le from_b with later | here
      · exact describe.sound run List.mem_cons_self c ⟨next ▸ later, to_last⟩
      · rw [← UInt8.toNat_inj.1 here]
        exact keyed
    · exact describe.sound r (List.mem_cons_of_mem _ mem) c inside
  complete c k le keyed' := by
    rcases Nat.lt_or_eq_of_le le with above | here
    · obtain ⟨r, mem, inside⟩ := describe.complete c k above keyed'
      rcases List.mem_cons.1 mem with rfl | mem
      · exact ⟨_, List.mem_cons_self, le, inside.2⟩
      · exact ⟨r, List.mem_cons_of_mem _ mem, inside⟩
    · have reach := describe.first_le_last run List.mem_cons_self
      refine ⟨_, List.mem_cons_self, le, ?_⟩
      show c.toNat ≤ run.last.toNat
      omega
  ascending := List.pairwise_cons.2 (List.pairwise_cons.1 describe.ascending)
  maximal := List.pairwise_cons.2 (List.pairwise_cons.1 describe.maximal)

variable [DecidableEq κ]

theorem prependByte (describe : Describe key (b.toNat + 1) above) :
    Describe key b.toNat (prependByte key b above) := by
  cases keyed : key b with
  | none =>
    rw [prependByte_of_eq_none keyed]
    exact describe.skip keyed
  | some k =>
    cases above with
    | nil =>
      rw [prependByte_nil keyed]
      exact describe.begin keyed fun run mem => absurd mem List.not_mem_nil
    | cons run rest =>
      rw [prependByte_cons keyed]
      split
      · rename_i joins
        obtain ⟨rfl, next⟩ := joins
        exact describe.join keyed next
      · rename_i apart
        refine describe.begin keyed fun r mem next same => ?_
        rcases List.mem_cons.1 mem with rfl | mem
        · exact apart ⟨same.symm, next⟩
        · -- The runs that follow the first one begin even higher.
          have from_le := describe.from_le run List.mem_cons_self
          have first_le := describe.first_le_last run List.mem_cons_self
          have lt := (List.pairwise_cons.1 describe.ascending).1 r mem
          omega

end Describe

variable [DecidableEq κ]

theorem describe_foldr (key : UInt8 → Option κ) {n more : Nat} (reach : n + more = 256) :
    Describe key n (((List.range' n more).map UInt8.ofNat).foldr (prependByte key) []) := by
  induction more generalizing n with
  | zero =>
    cases reach
    exact .nil
  | succ more ih =>
    have small : n < 256 := by omega
    have number : (UInt8.ofNat n).toNat = n := UInt8.toNat_ofNat_of_lt small
    have later := @ih ((UInt8.ofNat n).toNat + 1) (by omega)
    have whole := later.prependByte
    rw [number] at whole
    rw [List.range'_succ]
    exact whole

/-- The runs of a key describe it for all bytes. -/
theorem describe_runs (key : UInt8 → Option κ) : Describe key 0 (runs key) := by
  unfold runs Byte.all
  rw [List.range_eq_range']
  exact describe_foldr key rfl

/-- A byte has a key exactly if it lies in a run with that key. -/
theorem key_eq_some_iff :
    key b = some k ↔ ∃ run ∈ runs key, run.key = k ∧ run.Contains b := by
  have describe := describe_runs key
  constructor
  · intro keyed
    obtain ⟨run, mem, inside⟩ := describe.complete b k (Nat.zero_le _) keyed
    refine ⟨run, mem, ?_, inside⟩
    exact Option.some.inj ((describe.sound run mem b inside).symm.trans keyed)
  · intro found
    obtain ⟨run, mem, rfl, inside⟩ := found
    exact describe.sound run mem b inside

/-- A sequence of runs shows a key exactly: the runs ascend, none of them overlap, those that touch
have different keys, and they tell which key a byte has and whether it has one. -/
structure Exact (key : UInt8 → Option κ) (runs : List (ByteRun κ)) : Prop where
  first_le_last : ∀ run ∈ runs, run.first ≤ run.last
  ascending : runs.Pairwise fun r s => r.last < s.first
  disjoint : runs.Pairwise fun r s => ∀ b, ¬(r.Contains b ∧ s.Contains b)
  maximal : runs.Pairwise fun r s => s.first.toNat = r.last.toNat + 1 → r.key ≠ s.key
  key_eq_some_iff : ∀ b k, key b = some k ↔ ∃ run ∈ runs, run.key = k ∧ run.Contains b
  key_eq_none_iff : ∀ b, key b = none ↔ ∀ run ∈ runs, ¬run.Contains b

theorem exact_runs (key : UInt8 → Option κ) : Exact key (runs key) where
  first_le_last run mem := UInt8.le_iff_toNat_le.2 ((describe_runs key).first_le_last run mem)
  ascending := (describe_runs key).ascending.imp UInt8.lt_iff_toNat_lt.2
  disjoint := (describe_runs key).ascending.imp fun lt b both =>
    Nat.not_lt_of_le (Nat.le_trans both.2.1 both.1.2) lt
  maximal := (describe_runs key).maximal
  key_eq_some_iff _ _ := key_eq_some_iff
  key_eq_none_iff b := by
    rw [Option.eq_none_iff_forall_ne_some]
    constructor
    · intro without run mem inside
      exact without run.key (key_eq_some_iff.2 ⟨run, mem, rfl, inside⟩)
    · intro outside k keyed
      obtain ⟨run, mem, -, inside⟩ := key_eq_some_iff.1 keyed
      exact outside run mem inside

end Runs
end ByteDFA
