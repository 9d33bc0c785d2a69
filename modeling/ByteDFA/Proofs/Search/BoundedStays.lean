import Mathlib.Data.List.Induction
import ByteDFA.Proofs.Search.Bisimulation
import ByteDFA.Proofs.Search.Greedy

/-!
# Stays that are counted

In an automaton that loops in a state, a run may stay there for any number of steps. Another
automaton has a chain of states in the place of that state: the first visit in a row is one to the
head of the chain, each further one is one to the next member, and from the last member there is no
way to go on. The two runs then go side by side, for as long as the one with the loop does not stay
for longer than the chain allows (`Unrolls.exists_run`). Whether it comes back to the state later on
makes no difference, since every stay begins at the head of the chain.
-/

set_option autoImplicit false

namespace ByteDFA

/-! ## Visits in a row -/

/-- A run with these visits never takes more than `n` transitions in a row from a state to itself.
There is always one visit more than there are transitions between them. -/
def LoopsWithin (id : StateId) (n : Nat) (visits : List Visit) : Prop :=
  ∀ stay, stay <:+: visits → (∀ v ∈ stay, v.id = id) → stay.length ≤ n + 1

/-- With `v`, a run has taken `n` transitions in a row from a state to itself, and is about to take
one more for the first time. -/
structure FirstBeyond (id : StateId) (n : Nat) (visits before : List Visit) (v : Visit) :
    Prop where
  within : LoopsWithin id n (before ++ [v])
  full : ∃ stay, stay <:+ before ++ [v] ∧ stay.length = n + 1 ∧ ∀ u ∈ stay, u.id = id
  again : ∃ w after, visits = before ++ v :: w :: after ∧ w.id = id

/-- To go beyond the bound for the first time is to go beyond it. -/
theorem FirstBeyond.not_loopsWithin {id : StateId} {n : Nat} {visits before : List Visit}
    {v : Visit} (beyond : FirstBeyond id n visits before v) : ¬LoopsWithin id n visits := by
  obtain ⟨-, ⟨stay, last, length, all⟩, w, after, rfl, again⟩ := beyond
  have longer : stay ++ [w] <:+: before ++ v :: w :: after := by
    obtain ⟨early, split⟩ := last
    refine ⟨early, after, ?_⟩
    rw [← List.append_assoc, split]
    simp
  have all' : ∀ u ∈ stay ++ [w], u.id = id :=
    List.forall_mem_append.2 ⟨all, List.forall_mem_singleton.2 again⟩
  intro within
  have bound := within (stay ++ [w]) longer all'
  rw [List.length_append, length, List.length_singleton] at bound
  omega

/-! ## Visits along a chain -/

/-- The number of visits in a row to `id` after a visit to `x`, if there were `count` before it. A
visit to any other state takes the count back to zero. -/
def tally (id : StateId) (count : Nat) (x : StateId) : Nat := if x = id then count + 1 else 0

/-- The number of visits in a row to a state at the end of some visits, if there were `count` before
them. -/
def streakFrom (id : StateId) (count : Nat) (visits : List Visit) : Nat :=
  visits.foldl (fun count v => tally id count v.id) count

/-- What stands for a state where one of them, `id`, has been replaced by a chain: after `count`
visits in a row to `id`, this is the member of the chain with that number. -/
def member? (chain : List StateId) (id : StateId) (count : Nat) (x : StateId) : Option StateId :=
  if x = id then chain[count]? else some x

/-- The second visits are the first ones with the members of the chain, one after the other, in the
place of `id`. There were `count` visits in a row to `id` before. -/
inductive AlongChain (chain : List StateId) (id : StateId) :
    Nat → List Visit → List Visit → Prop
  | nil {count : Nat} : AlongChain chain id count [] []
  | cons {count : Nat} {v : Visit} {x : StateId} {visits visits' : List Visit}
      (here : member? chain id count v.id = some x)
      (rest : AlongChain chain id (tally id count v.id) visits visits') :
      AlongChain chain id count (v :: visits) (⟨x, v.cursor⟩ :: visits')

section Visits

variable {id x : StateId} {chain : List StateId} {count n : Nat} {v : Visit}
  {visits visits' before : List Visit}

/-- A stay begins at the head of the chain. -/
theorem member?_zero (head : chain[0]? = some id) (x : StateId) :
    member? chain id 0 x = some x := by
  unfold member?
  split
  · rename_i here
    rw [head, here]
  · rfl

theorem streakFrom_append (id : StateId) (count : Nat) (before after : List Visit) :
    streakFrom id count (before ++ after) = streakFrom id (streakFrom id count before) after :=
  List.foldl_append

theorem streakFrom_of_all (all : ∀ v ∈ visits, v.id = id) :
    streakFrom id count visits = count + visits.length := by
  induction visits generalizing count with
  | nil => rfl
  | cons v rest ih =>
    have one_more : tally id count v.id = count + 1 := if_pos (all v List.mem_cons_self)
    show streakFrom id (tally id count v.id) rest = _
    rw [one_more, ih fun u mem => all u (List.mem_cons_of_mem _ mem), List.length_cons]
    omega

/-- The visits that have been counted are the last ones. -/
theorem exists_suffix_of_streakFrom (id : StateId) (visits : List Visit) :
    ∃ stay, stay <:+ visits ∧ stay.length = streakFrom id 0 visits ∧ ∀ v ∈ stay, v.id = id := by
  induction visits using List.reverseRecOn with
  | nil => exact ⟨[], List.suffix_rfl, rfl, fun v mem => absurd mem List.not_mem_nil⟩
  | append_singleton before v ih =>
    obtain ⟨stay, ⟨early, rfl⟩, length, all⟩ := ih
    have counted : streakFrom id stay.length [v] = tally id stay.length v.id := rfl
    rw [streakFrom_append, ← length, counted, tally]
    by_cases stays : v.id = id
    · rw [if_pos stays]
      exact ⟨stay ++ [v], ⟨early, (List.append_assoc ..).symm⟩, List.length_append,
        List.forall_mem_append.2 ⟨all, List.forall_mem_singleton.2 stays⟩⟩
    · rw [if_neg stays]
      exact ⟨[], List.nil_suffix, rfl, fun v mem => absurd mem List.not_mem_nil⟩

theorem tally_le_length (here : member? chain id count v.id = some x) :
    tally id count v.id ≤ chain.length := by
  unfold tally
  unfold member? at here
  split at here
  · rename_i stays
    rw [if_pos stays]
    exact (List.getElem?_eq_some_iff.1 here).1
  · rename_i other
    rw [if_neg other]
    exact Nat.zero_le _

/-- No stay is longer than the chain. -/
theorem AlongChain.streakFrom_le (along : AlongChain chain id count visits visits')
    (le : count ≤ chain.length) (first : before <+: visits) :
    streakFrom id count before ≤ chain.length := by
  induction along generalizing before with
  | nil =>
    rw [List.prefix_nil.1 first]
    exact le
  | @cons count v x visits visits' here rest ih =>
    cases before with
    | nil => exact le
    | cons u before =>
      obtain ⟨rfl, first'⟩ := List.cons_prefix_cons.1 first
      exact ih (tally_le_length here) first'

theorem AlongChain.loopsWithin (along : AlongChain chain id 0 visits visits')
    (length : chain.length = n + 1) : LoopsWithin id n visits := by
  intro stay inside all
  obtain ⟨early, late, rfl⟩ := inside
  have bound := along.streakFrom_le (Nat.zero_le _) (List.prefix_append (early ++ stay) late)
  rw [streakFrom_append, streakFrom_of_all all, length] at bound
  omega

end Visits

/-! ## Runs side by side -/

/-- The second automaton has a chain in the place of a state of the first one, whose transitions to
itself lead from each member of the chain to the next. -/
structure Automaton.Unrolls (left right : Automaton) (chain : List StateId) (id : StateId) :
    Prop where
  classes : right.classes = left.classes
  groups : right.groupCount = left.groupCount
  anchored : right.anchoredStart = left.anchoredStart
  head : chain[0]? = some id
  state : ∀ {x y : StateId} {s : State} {count : Nat}, left.state? x = some s →
    member? chain id count x = some y →
      ∃ t, right.state? y = some t ∧ t.role = s.role ∧
        ∀ index, t.table.get? index =
          (s.table.get? index).bind (member? chain id (tally id count x))

namespace Automaton

variable {left right : Automaton} {chain : List StateId} {id x : StateId} {haystack : Haystack}
  {v w : Visit} {s : State} {count n : Nat} {visits visits' : List Visit}

/-- A step in the chain is a step of the other automaton for which there is a next member. -/
theorem Unrolls.step_iff (unrolls : left.Unrolls right chain id)
    (found : left.state? v.id = some s) (here : member? chain id count v.id = some x) :
    right.Step haystack ⟨x, v.cursor⟩ w ↔
      ∃ u, left.Step haystack v u ∧ member? chain id (tally id count v.id) u.id = some w.id ∧
        w.cursor = u.cursor := by
  obtain ⟨t, found', role, entry⟩ := unrolls.state found here
  have same : t.kind = s.kind := congrArg Role.kind role
  obtain ⟨y, cursor⟩ := v
  constructor
  · intro step
    cases step with
    | enter found'' kind config leads =>
      cases found'.symm.trans found''
      rw [entry] at leads
      obtain ⟨next, leads', is_next⟩ := Option.bind_eq_some_iff.1 leads
      exact ⟨⟨next, cursor⟩, .enter found (same ▸ kind) config leads', is_next, rfl⟩
    | read found'' kind byte leads =>
      cases found'.symm.trans found''
      rw [entry, unrolls.classes] at leads
      obtain ⟨next, leads', is_next⟩ := Option.bind_eq_some_iff.1 leads
      exact ⟨⟨next, cursor + 1⟩, .read found (same ▸ kind) byte leads', is_next, rfl⟩
  · intro follows
    obtain ⟨u, step, is_next, here'⟩ := follows
    obtain ⟨z, cursor'⟩ := w
    cases step with
    | enter found'' kind config leads =>
      cases found.symm.trans found''
      cases here'
      refine .enter found' (same ▸ kind) config ?_
      rw [entry, leads]
      exact is_next
    | read found'' kind byte leads =>
      cases found.symm.trans found''
      cases here'
      refine .read found' (same ▸ kind) byte ?_
      rw [entry, unrolls.classes, leads]
      exact is_next

/-- Next to a run there is one along the chain. It goes on to the end of the run, or stops in the
last member of the chain where the run goes on to the unrolled state once more. -/
theorem Unrolls.exists_run (unrolls : left.Unrolls right chain id) (wf : left.WellFormed)
    (run : left.Run haystack v visits) (found : left.state? v.id = some s)
    (here : member? chain id count v.id = some x) :
    ∃ visits', right.Run haystack ⟨x, v.cursor⟩ visits' ∧
      (AlongChain chain id count visits visits' ∨
        ∃ before w after, visits = before ++ w :: after ∧ w.id = id ∧
          AlongChain chain id count before visits' ∧
          streakFrom id count before = chain.length) := by
  induction run generalizing count x s with
  | @last v stuck =>
    refine ⟨[⟨x, v.cursor⟩], .last fun w step => ?_, .inl (.cons here .nil)⟩
    obtain ⟨u, step', -⟩ := (unrolls.step_iff found here).1 step
    exact stuck u step'
  | @step v w visits step run ih =>
    obtain ⟨target, reached⟩ := step.target wf
    cases next : member? chain id (tally id count v.id) w.id with
    | some y =>
      obtain ⟨visits', run', side_by_side⟩ := ih reached next
      have step' : right.Step haystack ⟨x, v.cursor⟩ ⟨y, w.cursor⟩ :=
        (unrolls.step_iff found here).2 ⟨w, step, next, rfl⟩
      refine ⟨_, .step step' run', ?_⟩
      rcases side_by_side with along | ⟨before, u, after, rfl, again, along, full⟩
      · exact .inl (.cons here along)
      · exact .inr ⟨v :: before, u, after, rfl, again, .cons here along, full⟩
    | none =>
      -- There is no next member, so the run is about to go on to the unrolled state again.
      have ends : w.id = id ∧ chain.length ≤ tally id count v.id := by
        unfold member? at next
        split at next
        · rename_i again
          exact ⟨again, List.getElem?_eq_none_iff.1 next⟩
        · cases next
      obtain ⟨rest, rfl⟩ := run.exists_eq_cons
      refine ⟨[⟨x, v.cursor⟩], .last fun w' step' => ?_,
        .inr ⟨[v], w, rest, rfl, ends.1, .cons here .nil, ?_⟩⟩
      · obtain ⟨u, step'', is_next, -⟩ := (unrolls.step_iff found here).1 step'
        cases step.unique step''
        cases next.symm.trans is_next
      · exact Nat.le_antisymm (tally_le_length here) ends.2

theorem Run.exists_state (wf : left.WellFormed) (run : left.Run haystack v visits)
    (found : left.state? v.id = some s) : ∀ u ∈ visits, ∃ t, left.state? u.id = some t := by
  induction run generalizing s with
  | last stuck =>
    intro u mem
    rw [List.mem_singleton.1 mem]
    exact ⟨s, found⟩
  | step step run ih =>
    intro u mem
    obtain ⟨target, reached⟩ := step.target wf
    rcases List.mem_cons.1 mem with rfl | mem
    · exact ⟨s, found⟩
    · exact ih reached u mem

/-- The members of the chain do to a frame what the unrolled state does. -/
theorem Unrolls.replay_eq (unrolls : left.Unrolls right chain id)
    (along : AlongChain chain id count visits visits')
    (present : ∀ v ∈ visits, ∃ s, left.state? v.id = some s) (frame : Frame) :
    right.replay frame visits' = left.replay frame visits := by
  induction along generalizing frame with
  | nil => rfl
  | @cons count v x visits visits' here rest ih =>
    obtain ⟨s, found⟩ := present v List.mem_cons_self
    obtain ⟨t, found', role, -⟩ := unrolls.state found here
    have same : right.visit frame ⟨x, v.cursor⟩ = left.visit frame v := by
      unfold visit
      rw [found, found']
      exact State.mark_congr role _
    show right.replay (right.visit frame ⟨x, v.cursor⟩) visits' =
      left.replay (left.visit frame v) visits
    rw [same]
    exact ih (fun u mem => present u (List.mem_cons_of_mem _ mem)) _

/-! ## Searches -/

/-- The search along the chain reports what has been saved when its run stops. -/
theorem Unrolls.search_of_alongChain (unrolls : left.Unrolls right chain id)
    (wf' : right.WellFormed) {executor : Executor} {start : Nat}
    (unlimited : executor.config.stepLimit? = none) (inside : start ≤ haystack.size)
    (run' : right.Run haystack ⟨right.anchoredStart, start⟩ visits')
    (along : AlongChain chain id 0 visits visits')
    (present : ∀ v ∈ visits, ∃ s, left.state? v.id = some s) :
    executor.search right ⟨haystack, start, true⟩ =
      .ok ((left.replay (.fresh left.slotCount start) visits).saved.map Captures.mk) := by
  have slotCount : right.slotCount = left.slotCount := by
    rw [Automaton.slotCount, Automaton.slotCount, unrolls.groups]
  rw [search_anchored_replay wf' unlimited inside run', unrolls.replay_eq along present,
    slotCount]

/-- An anchored search along a chain of `n + 1` members finds the same as the one with the loop if
the run takes at most `n` transitions in a row from the unrolled state to itself. Otherwise its run
stops where one more would be taken. -/
theorem Unrolls.exists_search_anchored (unrolls : left.Unrolls right chain id)
    (wf : left.WellFormed) (wf' : right.WellFormed) (length : chain.length = n + 1)
    {executor : Executor} {start : Nat} (unlimited : executor.config.stepLimit? = none)
    (inside : start ≤ haystack.size)
    (run : left.Run haystack ⟨left.anchoredStart, start⟩ visits) :
    ∃ visits', right.Run haystack ⟨right.anchoredStart, start⟩ visits' ∧
      ((AlongChain chain id 0 visits visits' ∧
          executor.search right ⟨haystack, start, true⟩ =
            executor.search left ⟨haystack, start, true⟩) ∨
        ∃ before v, FirstBeyond id n visits before v ∧
          AlongChain chain id 0 (before ++ [v]) visits' ∧
          executor.search right ⟨haystack, start, true⟩ =
            .ok ((left.replay (.fresh left.slotCount start) (before ++ [v])).saved.map
              Captures.mk)) := by
  obtain ⟨state, found, -⟩ := wf.anchored
  obtain ⟨visits', run', side_by_side⟩ :=
    unrolls.exists_run wf run found (member?_zero unrolls.head left.anchoredStart)
  have present := run.exists_state wf found
  rw [← unrolls.anchored] at run'
  refine ⟨visits', run', ?_⟩
  rcases side_by_side with along | ⟨before, w, after, rfl, again, along, full⟩
  · refine .inl ⟨along, ?_⟩
    rw [unrolls.search_of_alongChain wf' unlimited inside run' along present,
      search_anchored_replay wf unlimited inside run]
  · rw [length] at full
    obtain ⟨stay, last, counted, all⟩ := exists_suffix_of_streakFrom id before
    rw [full] at counted
    rcases List.eq_nil_or_concat before with rfl | ⟨early, v, rfl⟩
    · rw [List.suffix_nil.1 last] at counted
      cases counted
    rw [List.concat_eq_append] at *
    have split : early ++ [v] ++ w :: after = early ++ v :: w :: after := by simp
    refine .inr ⟨early, v, ⟨along.loopsWithin length, ⟨stay, last, counted, all⟩, w, after,
      split, again⟩, along, ?_⟩
    apply unrolls.search_of_alongChain wf' unlimited inside run' along
    intro u mem
    exact present u (List.mem_append_left _ mem)

end Automaton
end ByteDFA
