import ByteDFA.Proofs.Search.Course

/-!
# The offsets that are passed over

An accelerator saves attempts, and it saves exactly those that cannot get anywhere: it admits offset
0 and every offset of a needle. The accelerated search makes its attempts at the offsets of the
plain one that are admitted, in the same order (`Course.tried_accelerated`). The two courses are
followed side by side. Wherever the accelerated one does not stop, the attempt of the other is in
vain, so neither of them can be decided before the other comes to the same attempt.
-/

set_option autoImplicit false

namespace ByteDFA

/-- The accelerator does not pass over the offset: the haystack begins or has a needle there. -/
def Accelerator.admits (accelerator : Accelerator) (haystack : Haystack) (offset : Nat) : Bool :=
  offset == 0 || (haystack[offset]?).any accelerator.needles.contains

theorem Accelerator.admits_iff {accelerator : Accelerator} {haystack : Haystack} {offset : Nat} :
    accelerator.admits haystack offset = true ↔
      offset = 0 ∨ ∃ b, haystack[offset]? = some b ∧ b ∈ accelerator.needles := by
  simp [admits, Option.any_eq_true]

namespace Search

variable {search : Search} {accelerator : Accelerator} {more more' offset offset' i : Nat}
  {tried tried' : List Nat} {verdict verdict' : Verdict} {ending : Ending} {state : State}

/-! ## One round of a course -/

/-- Only the next candidate matters to the attempts, not the offset from which it was looked for. -/
theorem Course.congr (course : search.Course more offset tried verdict)
    (same : search.candidate? offset = search.candidate? offset') :
    ∃ verdict', search.Course more offset' tried verdict' := by
  cases course with
  | lost here => exact ⟨_, .lost (same ▸ here)⟩
  | decided tries decides =>
    exact ⟨_, .decided ⟨same ▸ tries.here, tries.inside, tries.ended⟩ decides⟩
  | exhausted tries vain =>
    exact ⟨_, .exhausted ⟨same ▸ tries.here, tries.inside, tries.ended⟩ vain⟩
  | next tries vain rest =>
    exact ⟨_, .next ⟨same ▸ tries.here, tries.inside, tries.ended⟩ vain rest⟩

theorem Course.tried_eq_nil (course : search.Course more offset tried verdict)
    (lost : search.candidate? offset = none) : tried = [] := by
  cases course with
  | lost => rfl
  | decided tries | exhausted tries | next tries => cases lost.symm.trans tries.here

theorem Tries.eq {i' : Nat} {ending' : Ending} (tries : search.Tries offset i ending)
    (tries' : search.Tries offset i' ending') : i = i' ∧ ending = ending' := by
  cases tries.here.symm.trans tries'.here
  cases tries.ended.symm.trans tries'.ended
  exact ⟨rfl, rfl⟩

/-- An attempt that decides the search is the last one. -/
theorem Course.tried_of_decides (course : search.Course more offset tried verdict)
    (tries : search.Tries offset i ending)
    (decides : ending.decides (search.single i).frame = true) : tried = [i] := by
  cases course with
  | lost here => cases here.symm.trans tries.here
  | decided tries' => rw [(tries.eq tries').1]
  | exhausted tries' vain | next tries' vain =>
    obtain ⟨rfl, rfl⟩ := tries.eq tries'
    cases vain.symm.trans decides

/-- After an attempt in vain the course goes on, as long as others are allowed. -/
theorem Course.tried_of_vain (course : search.Course more offset tried verdict)
    (tries : search.Tries offset i ending)
    (vain : ending.decides (search.single i).frame = false) :
    (more = 0 ∧ tried = [i]) ∨
      ∃ fewer rest, more = fewer + 1 ∧ tried = i :: rest ∧
        search.Course fewer (i + 1) rest verdict := by
  cases course with
  | lost here => cases here.symm.trans tries.here
  | decided tries' decides =>
    obtain ⟨rfl, rfl⟩ := tries.eq tries'
    cases vain.symm.trans decides
  | exhausted tries' => exact .inl ⟨rfl, by rw [(tries.eq tries').1]⟩
  | next tries' _ rest =>
    obtain ⟨rfl, rfl⟩ := tries.eq tries'
    exact .inr ⟨_, _, rfl, rfl, rest⟩

/-! ## Attempts in order -/

theorem Course.le_of_mem (course : search.Course more offset tried verdict) :
    ∀ j ∈ tried, offset ≤ j := by
  induction course with
  | lost =>
    intro j mem
    cases mem
  | decided tries | exhausted tries =>
    intro j mem
    rw [List.mem_singleton.1 mem]
    exact le_of_candidate? tries.here
  | next tries _ _ ih =>
    intro j mem
    have le := le_of_candidate? tries.here
    rcases List.mem_cons.1 mem with rfl | mem
    · exact le
    · exact Nat.le_of_succ_le (Nat.le_trans (Nat.succ_le_succ le) (ih j mem))

/-- A search goes through the haystack from left to right and never comes back. -/
theorem Course.pairwise_tried (course : search.Course more offset tried verdict) :
    tried.Pairwise (· < ·) := by
  induction course with
  | lost => exact .nil
  | decided | exhausted => exact List.pairwise_singleton _ _
  | next _ _ rest ih => exact .cons (fun j mem => rest.le_of_mem j mem) ih

/-! ## Two courses side by side -/

/-- An offset is where the accelerated search stops exactly if it is admitted. -/
theorem candidate?_accelerated_eq_self_iff :
    (search.accelerated accelerator).candidate? offset = some offset ↔
      accelerator.admits search.haystack offset = true := by
  rw [Accelerator.admits_iff]
  constructor
  · intro stays
    by_cases first : offset = 0
    · exact .inl first
    · right
      apply Classical.byContradiction
      intro without
      have not_needle : ∀ b, search.haystack[offset]? = some b → b ∉ accelerator.needles :=
        fun b byte mem => without ⟨b, byte, mem⟩
      rw [candidate?_accelerated_of_ne_zero first,
        Accelerator.find?_of_not_needle not_needle] at stays
      exact Nat.not_succ_le_self _ (Accelerator.find?_bounds stays).1
  · intro admitted
    rcases candidate?_accelerated search accelerator offset with stays | ⟨later, not_needle, -⟩
    · exact stays
    · rcases admitted with first | ⟨b, byte, mem⟩
      · exact absurd first later
      · exact absurd mem (not_needle b byte)

/-- Nothing is decided at an offset that is passed over. -/
theorem vain_of_not_admits (entry : search.entry = search.automaton.unanchoredStart)
    (known : search.automaton.accelerator = some accelerator) (inside : i ≤ search.haystack.size)
    (ended : (search.single i).stop = .ended ending)
    (skipped : accelerator.admits search.haystack i = false) :
    ending.decides (search.single i).frame = false := by
  have not_admitted := Bool.eq_false_iff.1 skipped
  rw [Ne, Accelerator.admits_iff] at not_admitted
  refine attempt_of_skipped entry known (fun first => not_admitted (.inl first)) inside ?_ ended
  intro b byte mem
  exact not_admitted (.inr ⟨b, byte, mem⟩)

theorem Tries.accelerated (tries : search.Tries offset i ending)
    (admitted : accelerator.admits search.haystack i = true) :
    (search.accelerated accelerator).Tries i i ending :=
  ⟨candidate?_accelerated_eq_self_iff.2 admitted, tries.inside, tries.ended⟩

/-- Where the accelerated search does not stop, its course is one from the next offset. -/
theorem Course.skip (fast : (search.accelerated accelerator).Course more offset tried verdict)
    (skipped : accelerator.admits search.haystack offset = false) :
    ∃ verdict', (search.accelerated accelerator).Course more (offset + 1) tried verdict' := by
  rcases candidate?_accelerated search accelerator offset with stays | ⟨-, -, skips⟩
  · rw [candidate?_accelerated_eq_self_iff, skipped] at stays
    cases stays
  · exact fast.congr skips

theorem Tries.eq_of_plain (tries : search.Tries offset i ending)
    (plain : search.accelerator = none) : i = offset := by
  have here := tries.here
  rw [candidate?, plain] at here
  cases here
  rfl

/-- The accelerated search makes the attempts of the plain one at the offsets that are admitted. -/
theorem Course.tried_accelerated (course : search.Course more offset tried verdict)
    (plain : search.accelerator = none)
    (entry : search.entry = search.automaton.unanchoredStart)
    (known : search.automaton.accelerator = some accelerator)
    (reach : offset + more = search.haystack.size) (longer : more ≤ more')
    (fast : (search.accelerated accelerator).Course more' offset tried' verdict') :
    tried' = tried.filter (accelerator.admits search.haystack) := by
  induction course generalizing more' tried' verdict' with
  | lost lost =>
    rw [candidate?, plain] at lost
    cases lost
  | @decided _ offset i _ tries decides =>
    obtain rfl := tries.eq_of_plain plain
    cases admitted : accelerator.admits search.haystack i with
    | false =>
      have vain := vain_of_not_admits entry known tries.inside tries.ended admitted
      cases vain.symm.trans decides
    | true =>
      rw [fast.tried_of_decides (tries.accelerated admitted) decides,
        List.filter_cons_of_pos admitted, List.filter_nil]
  | @exhausted offset i _ tries vain =>
    obtain rfl := tries.eq_of_plain plain
    -- However many attempts are allowed, no candidate is left past the haystack.
    have no_more {more : Nat} {tried : List Nat} {verdict : Verdict}
        (fast : (search.accelerated accelerator).Course more (i + 1) tried verdict) :
        tried = [] := by
      have beyond : search.haystack.size < i + 1 := Nat.lt_succ_of_le (Nat.le_of_eq reach.symm)
      exact fast.tried_eq_nil (candidate?_accelerated_of_size_lt beyond)
    cases admitted : accelerator.admits search.haystack i with
    | false =>
      obtain ⟨_, fast⟩ := fast.skip admitted
      rw [no_more fast, List.filter_cons_of_neg (Bool.eq_false_iff.1 admitted), List.filter_nil]
    | true =>
      rw [List.filter_cons_of_pos admitted, List.filter_nil]
      rcases fast.tried_of_vain (tries.accelerated admitted) vain with
        ⟨-, rfl⟩ | ⟨_, _, -, rfl, later⟩
      · rfl
      · rw [no_more later]
  | @next more offset i _ _ _ tries vain rest ih =>
    obtain rfl := tries.eq_of_plain plain
    cases admitted : accelerator.admits search.haystack i with
    | false =>
      obtain ⟨_, fast⟩ := fast.skip admitted
      rw [List.filter_cons_of_neg (Bool.eq_false_iff.1 admitted)]
      exact ih (by omega) (Nat.le_of_succ_le longer) fast
    | true =>
      rw [List.filter_cons_of_pos admitted]
      rcases fast.tried_of_vain (tries.accelerated admitted) vain with
        ⟨none_left, -⟩ | ⟨_, _, enough, rfl, later⟩
      · omega
      · rw [ih (by omega) (by omega) later]

end Search

/-! ## Whole searches -/

namespace Executor

variable {automaton : Automaton} {haystack : Haystack} {start : Nat} {accelerator : Accelerator}

theorem tried_of_lt {executor : Executor} {input : Input}
    (beyond : input.haystack.size < input.start) :
    (executor.report automaton input).tried = #[] := by
  rw [report, if_pos beyond]

/-- Acceleration skips exactly the attempts that cannot get anywhere. The plain search makes its
attempts from left to right. The accelerated one makes those of them, in the same order, that begin
at offset 0 or at a byte of the accelerator, and these are the ones that its messages tell of. -/
theorem tried_withAccelerate {builder : Builder} (built : builder.build = .ok automaton)
    (known : automaton.accelerator = some accelerator) (config : SearchConfig)
    (unlimited : config.stepLimit? = none) (haystack : Haystack) (start : Nat) :
    (report ⟨config.withAccelerate false⟩ automaton ⟨haystack, start, false⟩).tried.toList.Pairwise
        (· < ·) ∧
      (report ⟨config.withAccelerate true⟩ automaton ⟨haystack, start, false⟩).tried.toList =
        (report ⟨config.withAccelerate false⟩ automaton
            ⟨haystack, start, false⟩).tried.toList.filter
          (fun i => i = 0 ∨ ∃ b ∈ accelerator.needles, haystack[i]? = some b) ∧
      (report ⟨config.withAccelerate true⟩ automaton ⟨haystack, start, false⟩).messages =
        ((report ⟨config.withAccelerate false⟩ automaton
              ⟨haystack, start, false⟩).tried.toList.filter
            (fun i => i = 0 ∨ ∃ b ∈ accelerator.needles, haystack[i]? = some b)).map
          (fun i => s!"starting attempt at offset {i}") ++
        (report ⟨config.withAccelerate true⟩ automaton
          ⟨haystack, start, false⟩).verdict.message?.toList := by
  have wf := Automaton.WellFormed.of_build built
  have admitted : (fun i => decide (i = 0 ∨ ∃ b ∈ accelerator.needles, haystack[i]? = some b)) =
      accelerator.admits haystack := by
    funext i
    rw [Bool.eq_iff_iff, decide_eq_true_iff, Accelerator.admits_iff]
    simp only [and_comm]
  suffices tried : (report ⟨config.withAccelerate false⟩ automaton
        ⟨haystack, start, false⟩).tried.toList.Pairwise (· < ·) ∧
      (report ⟨config.withAccelerate true⟩ automaton ⟨haystack, start, false⟩).tried.toList =
        (report ⟨config.withAccelerate false⟩ automaton
          ⟨haystack, start, false⟩).tried.toList.filter (accelerator.admits haystack) by
    rw [admitted, Report.messages, tried.2]
    exact ⟨tried.1, rfl, rfl⟩
  by_cases inside : start ≤ haystack.size
  · obtain ⟨tried, verdict, visits, follows⟩ :=
      exists_follows wf ⟨config.withAccelerate false⟩
        (show (Input.mk haystack start false).start ≤ _ from inside)
    obtain ⟨tried', verdict', visits', follows'⟩ :=
      exists_follows wf ⟨config.withAccelerate true⟩
        (show (Input.mk haystack start false).start ≤ _ from inside)
    rw [follows.report_eq wf unlimited inside, follows'.report_eq wf unlimited inside]
    have fast := follows'.course
    have accelerated : plan ⟨config.withAccelerate true⟩ automaton ⟨haystack, start, false⟩ =
        (plan ⟨config.withAccelerate false⟩ automaton
          ⟨haystack, start, false⟩).accelerated accelerator := by
      simp [plan, Search.accelerated, known]
    rw [accelerated] at fast
    exact ⟨follows.course.pairwise_tried, follows.course.tried_accelerated
      (accelerator_plan_plain config automaton _) rfl known (Nat.add_sub_of_le inside)
      (Nat.le_refl _) fast⟩
  · have beyond : haystack.size < start := Nat.lt_of_not_le inside
    rw [tried_of_lt beyond, tried_of_lt beyond]
    exact ⟨.nil, rfl⟩

/-- The automaton for one or more of `a` has `a` for its only needle. -/
theorem accelerator_aPlus :
    (Builder.aPlus.freeze (.ofNat 0) (.ofNat 0)).accelerator = some ⟨#v[0x61, 0, 0], 1⟩ := by
  decide +kernel

/-- On `xxa`, an attempt is made at offset 0, whatever stands there, but the second `x` is passed
over. -/
theorem tried_withAccelerate_aPlus :
    (report ⟨SearchConfig.withAccelerate {} false⟩ (Builder.aPlus.freeze (.ofNat 0) (.ofNat 0))
        ⟨#[0x78, 0x78, 0x61], 0, false⟩).tried = #[0, 1, 2] ∧
      (report ⟨SearchConfig.withAccelerate {} true⟩ (Builder.aPlus.freeze (.ofNat 0) (.ofNat 0))
        ⟨#[0x78, 0x78, 0x61], 0, false⟩).tried = #[0, 2] := by
  have plain : (report ⟨SearchConfig.withAccelerate {} false⟩
      (Builder.aPlus.freeze (.ofNat 0) (.ofNat 0)) ⟨#[0x78, 0x78, 0x61], 0, false⟩).tried =
      #[0, 1, 2] := by decide +kernel
  obtain ⟨-, fast, -⟩ := tried_withAccelerate Builder.build_aPlus accelerator_aPlus {} rfl
    #[0x78, 0x78, 0x61] 0
  rw [plain] at fast
  exact ⟨plain, Array.toList_inj.1 (fast.trans (by decide +kernel))⟩

end Executor
end ByteDFA
