import ByteDFA.Proofs.Search.Safety

/-!
# What a search sees of a haystack

A run looks at a haystack in two ways: a matcher or trace finder looks at the class of the byte at
the cursor, and a start state at the start configuration there. An accelerator compares bytes, but
its needles are whole classes (`mem_needles_congr`). So two haystacks, each from an offset of its
own on, are searched alike if they have the same classes and configurations from there on
(`Alignment.Views`). All offsets that the two searches record, compare or report are then equally
far behind the two starts (`search_rel`).

Two consequences: a search knows of what lies before its start only the start configuration there
(`search_shift_invariant`), and it does not tell the bytes of a class apart
(`search_class_invariant`).
-/

set_option autoImplicit false

namespace ByteDFA

/-! ## Aligned data -/

/-- Two stretches of the same length, which begin at offsets of their own. -/
structure Alignment where
  left : Nat
  right : Nat
  ahead : Nat

namespace Alignment

/-- Two offsets equally far into the two stretches. -/
def OffsetRel (al : Alignment) (c c' : Nat) : Prop :=
  ∃ n ≤ al.ahead, c = al.left + n ∧ c' = al.right + n

/-- What is in two slots into which nothing but aligned offsets has been recorded. -/
def SlotRel (al : Alignment) (a b : Option Offset) : Prop :=
  ∃ o o', Option.Rel al.OffsetRel o o' ∧ a = o.bind Offset.ofNat? ∧ b = o'.bind Offset.ofNat?

def SlotsRel (al : Alignment) (a b : Slots) : Prop :=
  ∀ slot : Nat, Option.Rel al.SlotRel a[slot]? b[slot]?

structure FrameRel (al : Alignment) (a b : Frame) : Prop where
  cursor : al.OffsetRel a.cursor b.cursor
  slots : al.SlotsRel a.slots b.slots
  saved : Option.Rel al.SlotsRel a.saved b.saved

inductive MoveRel (al : Alignment) : Except Fault Move → Except Fault Move → Prop
  | stop (ending : Ending) : MoveRel al (.ok (.stop ending)) (.ok (.stop ending))
  | goto (id : StateId) {c c' : Nat} (cursor : al.OffsetRel c c') :
    MoveRel al (.ok (.goto id c)) (.ok (.goto id c'))

inductive VerdictRel (al : Alignment) : Verdict → Verdict → Prop
  | decided {i i' c c' : Nat} {saved saved' : Option Slots} (ending : Ending)
      (offset : al.OffsetRel i i') (cursor : al.OffsetRel c c')
      (slots : Option.Rel al.SlotsRel saved saved') :
    VerdictRel al (.decided i ending c saved) (.decided i' ending c' saved')
  | exhausted : VerdictRel al .exhausted .exhausted
  | noCandidate {i i' : Nat} (offset : al.OffsetRel i i') :
    VerdictRel al (.noCandidate i) (.noCandidate i')
  | cut (limit : Option Nat) {c c' : Nat} (cursor : al.OffsetRel c c') :
    VerdictRel al (.cut limit c) (.cut limit c')

/-- Two captures that are set in the same slots, to aligned offsets. Where all offsets of the two
stretches fit into a slot, that is what the slots report. -/
structure CapturesRel (al : Alignment) (a b : Captures) : Prop where
  slots : al.SlotsRel a.slots b.slots
  offset : al.left + al.ahead < Offset.limit → al.right + al.ahead < Offset.limit →
    ∀ slot, Option.Rel al.OffsetRel (a.offset? slot) (b.offset? slot)

/-- Two searches that come to the same, except that what they report is aligned. -/
inductive OutcomeRel (al : Alignment) :
    Except SearchError (Option Captures) → Except SearchError (Option Captures) → Prop
  | missing : OutcomeRel al (.ok none) (.ok none)
  | found {a b : Captures} (captures : al.CapturesRel a b) :
    OutcomeRel al (.ok (some a)) (.ok (some b))
  | exceeded (limit : Nat) {c c' : Nat} (cursor : al.OffsetRel c c') :
    OutcomeRel al (.error (.stepLimitExceeded limit c)) (.error (.stepLimitExceeded limit c'))

/-- Nothing that a run looks at tells two haystacks apart, each from its own start on. -/
structure Views (al : Alignment) (classes : ByteClasses) (h h' : Haystack) : Prop where
  size : h.size = al.left + al.ahead
  size' : h'.size = al.right + al.ahead
  byteClass : ∀ n, (h[al.left + n]?).map classes.get = (h'[al.right + n]?).map classes.get
  config : ∀ n ≤ al.ahead,
    StartConfig.ofOffset? h (al.left + n) = StartConfig.ofOffset? h' (al.right + n)

variable {al : Alignment} {c c' : Nat} {a b : Frame} {classes : ByteClasses} {h h' : Haystack}

theorem SlotsRel.record {a b : Slots} (slots : al.SlotsRel a b) (set : SlotSet)
    (cursor : al.OffsetRel c c') : al.SlotsRel (a.record set c) (b.record set c') := by
  intro slot
  have old := slots slot
  rw [Slots.getElem?_record, Slots.getElem?_record]
  generalize a[slot]? = x, b[slot]? = y at old
  cases old with
  | none => exact .none
  | some old =>
    refine .some ?_
    cases set.contains slot with
    | true => exact ⟨some c, some c', .some cursor, rfl, rfl⟩
    | false => exact old

theorem slotsRel_blank (al : Alignment) (count : Nat) :
    al.SlotsRel (.blank count) (.blank count) := by
  intro slot
  rw [Slots.blank, Array.getElem?_replicate]
  split
  · exact .some ⟨none, none, .none, rfl, rfl⟩
  · exact .none

theorem SlotsRel.size {a b : Slots} (slots : al.SlotsRel a b) : a.size = b.size := by
  have beyond (k : Nat) : a.size ≤ k ↔ b.size ≤ k := by
    have here := slots k
    rw [← Array.getElem?_eq_none_iff, ← Array.getElem?_eq_none_iff]
    generalize a[k]? = x, b[k]? = y at here
    cases here <;> simp
  exact Nat.le_antisymm ((beyond b.size).2 (Nat.le_refl _)) ((beyond a.size).1 (Nat.le_refl _))

theorem FrameRel.hasMatch (frames : al.FrameRel a b) : a.hasMatch = b.hasMatch := by
  rw [← Frame.isSome_saved, ← Frame.isSome_saved]
  have saved := frames.saved
  generalize a.saved = x, b.saved = y at saved
  cases saved <;> rfl

theorem FrameRel.decides (frames : al.FrameRel a b) (ending : Ending) :
    ending.decides a = ending.decides b := by
  cases ending with
  | accepted => rfl
  | rejected => exact frames.hasMatch
  | hopeless => rfl

theorem FrameRel.moveTo (frames : al.FrameRel a b) (cursor : al.OffsetRel c c') :
    al.FrameRel (a.moveTo c) (b.moveTo c') :=
  ⟨cursor, frames.slots, frames.saved⟩

theorem FrameRel.mark (frames : al.FrameRel a b) (state : State) :
    al.FrameRel (state.mark a) (state.mark b) := by
  have recorded := frames.slots.record state.slots frames.cursor
  unfold State.mark
  cases state.accept with
  | none => exact ⟨frames.cursor, recorded, frames.saved⟩
  | some extra =>
    exact ⟨frames.cursor, recorded, .some (recorded.record extra frames.cursor)⟩

/-- After a reset it does not matter what the frames have been used for. -/
theorem frameRel_reset (size : a.slots.size = b.slots.size) (cursor : al.OffsetRel c c') :
    al.FrameRel (a.reset c) (b.reset c') := by
  refine ⟨cursor, ?_, .none⟩
  show al.SlotsRel a.slots.clear b.slots.clear
  rw [Slots.clear_eq_blank, Slots.clear_eq_blank, size]
  exact al.slotsRel_blank _

/-! ## Moves and attempts -/

theorem successor?_eq_bind (classes : ByteClasses) (h : Haystack) (state : State) (offset : Nat) :
    state.successor? classes h offset =
      ((h[offset]?).map classes.get).bind fun k => state.table.get? k.toNat := by
  unfold State.successor?
  cases h[offset]? <;> rfl

theorem Views.read (views : al.Views classes h h') (state : State) (otherwise : Ending) {n : Nat} :
    al.MoveRel (.ok (state.read classes h (al.left + n) otherwise))
      (.ok (state.read classes h' (al.right + n) otherwise)) := by
  have same : state.successor? classes h' (al.right + n) =
      state.successor? classes h (al.left + n) := by
    rw [successor?_eq_bind, successor?_eq_bind, views.byteClass]
  unfold State.read
  rw [same]
  cases next : state.successor? classes h (al.left + n) with
  | none => exact .stop otherwise
  | some id =>
    -- A byte has been read, so the stretch is not over.
    obtain ⟨byte, at_cursor, -⟩ := State.successor?_eq_some_iff.1 next
    obtain ⟨inside, -⟩ := Array.getElem?_eq_some_iff.1 at_cursor
    have size := views.size
    exact .goto id ⟨n + 1, by omega, rfl, rfl⟩

theorem Views.move (views : al.Views classes h h') (state : State) (cursor : al.OffsetRel c c') :
    al.MoveRel (state.move classes h c) (state.move classes h' c') := by
  obtain ⟨n, le, rfl, rfl⟩ := cursor
  unfold State.move
  cases state.kind with
  | start =>
    have inside : al.left + n ≤ h.size := by rw [views.size]; omega
    obtain ⟨config, here⟩ :=
      Option.isSome_iff_exists.1 (StartConfig.ofOffset?_isSome.2 inside)
    rw [← views.config n le, here]
    dsimp only
    cases state.table.get? config.index with
    | none => exact .stop _
    | some next => exact .goto next ⟨n, le, rfl, rfl⟩
  | matcher => exact views.read state _
  | final => exact .stop _
  | traceFinder => exact views.read state _

theorem Views.attempt {automaton : Automaton} (views : al.Views automaton.classes h h')
    (budget : Nat) (id : StateId) (frames : al.FrameRel a b) :
    (automaton.attempt h budget id a).stop = (automaton.attempt h' budget id b).stop ∧
      (automaton.attempt h budget id a).left = (automaton.attempt h' budget id b).left ∧
      al.FrameRel (automaton.attempt h budget id a).frame
        (automaton.attempt h' budget id b).frame := by
  induction budget generalizing id a b with
  | zero => exact ⟨rfl, rfl, frames⟩
  | succ budget ih =>
    rw [Automaton.attempt, Automaton.attempt]
    cases automaton.state? id with
    | none => exact ⟨rfl, rfl, frames⟩
    | some state =>
      have marked := frames.mark state
      have moves := views.move state marked.cursor
      dsimp only
      generalize state.move automaton.classes h (state.mark a).cursor = m,
        state.move automaton.classes h' (state.mark b).cursor = m' at moves
      cases moves with
      | stop ending => exact ⟨rfl, rfl, marked⟩
      | goto next cursor => exact ih next (marked.moveTo cursor)

end Alignment

/-! ## Accelerators -/

/-- Whether a byte is a needle depends on its class alone. -/
theorem Automaton.mem_needles_congr {automaton : Automaton} {accelerator : Accelerator}
    (known : automaton.accelerator = some accelerator) {x y : UInt8}
    (same : automaton.classes.get x = automaton.classes.get y) :
    x ∈ accelerator.needles ↔ y ∈ accelerator.needles := by
  obtain ⟨start, -, of_start⟩ := Option.bind_eq_some_iff.1 known
  obtain ⟨-, -, needles, -⟩ := Accelerator.exists_of_ofStart? of_start
  simp only [needles, Accelerator.Begins, same]

theorem StartConfig.ofOffset?_eq_text_iff {haystack : Haystack} {offset : Nat} :
    ofOffset? haystack offset = some .text ↔ offset = 0 := by
  constructor
  · intro here
    apply Classical.byContradiction
    intro later
    exact ne_text_of_ofOffset? later here rfl
  · rintro rfl
    rfl

namespace Alignment

variable {al : Alignment} {c c' : Nat} {h h' : Haystack} {automaton : Automaton}
  {accelerator : Accelerator}

theorem Views.needle_iff (views : al.Views automaton.classes h h')
    (known : automaton.accelerator = some accelerator) (n : Nat) :
    (∃ b, h[al.left + n]? = some b ∧ b ∈ accelerator.needles) ↔
      ∃ b, h'[al.right + n]? = some b ∧ b ∈ accelerator.needles := by
  have same := views.byteClass n
  generalize h[al.left + n]? = x, h'[al.right + n]? = y at same
  cases x with
  | none =>
    cases y with
    | none => exact Iff.rfl
    | some y => cases same
  | some x =>
    cases y with
    | none => cases same
    | some y => simp [Automaton.mem_needles_congr known (Option.some.inj same)]

/-- The accelerator finds aligned offsets. This is an induction on what is ahead. -/
theorem Views.find? (views : al.Views automaton.classes h h')
    (known : automaton.accelerator = some accelerator) (count : Nat) {n : Nat}
    (reach : n + count = al.ahead) :
    Option.Rel al.OffsetRel (accelerator.find? h (al.left + n))
      (accelerator.find? h' (al.right + n)) := by
  induction count generalizing n with
  | zero =>
    have beyond : h.size ≤ al.left + n := by
      rw [views.size]
      omega
    have beyond' : h'.size ≤ al.right + n := by
      rw [views.size']
      omega
    rw [Accelerator.find?_of_size_le beyond, Accelerator.find?_of_size_le beyond']
    exact .none
  | succ count ih =>
    have needle_iff := views.needle_iff known n
    by_cases needle : ∃ b, h[al.left + n]? = some b ∧ b ∈ accelerator.needles
    · obtain ⟨b, byte, mem⟩ := needle
      obtain ⟨b', byte', mem'⟩ := needle_iff.1 ⟨b, byte, mem⟩
      rw [Accelerator.find?_of_needle byte mem, Accelerator.find?_of_needle byte' mem']
      exact .some ⟨n, by omega, rfl, rfl⟩
    · have without : ∀ b, h[al.left + n]? = some b → b ∉ accelerator.needles :=
        fun b byte mem => needle ⟨b, byte, mem⟩
      have without' : ∀ b, h'[al.right + n]? = some b → b ∉ accelerator.needles :=
        fun b byte mem => needle (needle_iff.2 ⟨b, byte, mem⟩)
      rw [Accelerator.find?_of_not_needle without, Accelerator.find?_of_not_needle without']
      exact @ih (n + 1) (by omega)

end Alignment

namespace Search

variable {search : Search} {al : Alignment} {h' : Haystack}

/-- The same search in another haystack. -/
def within (search : Search) (haystack : Haystack) : Search := { search with haystack }

theorem accelerator_within (search : Search) (haystack : Haystack) :
    (search.within haystack).accelerator = search.accelerator := rfl

theorem candidate?_within (views : al.Views search.automaton.classes search.haystack h')
    (known : ∀ accelerator, search.accelerator = some accelerator →
      search.automaton.accelerator = some accelerator) {i i' : Nat}
    (offset : al.OffsetRel i i') :
    Option.Rel al.OffsetRel (search.candidate? i) ((search.within h').candidate? i') := by
  obtain ⟨n, le, rfl, rfl⟩ := offset
  unfold candidate?
  rw [accelerator_within]
  cases on : search.accelerator with
  | none => exact .some ⟨n, le, rfl, rfl⟩
  | some accelerator =>
    -- Offset 0 can be told by its start configuration.
    have first : al.left + n = 0 ↔ al.right + n = 0 := by
      rw [← StartConfig.ofOffset?_eq_text_iff, views.config n le, StartConfig.ofOffset?_eq_text_iff]
    dsimp only
    by_cases zero : al.left + n = 0
    · rw [if_pos zero, if_pos (first.1 zero)]
      exact .some ⟨0, Nat.zero_le _, by omega, by omega⟩
    · rw [if_neg zero, if_neg (mt first.2 zero)]
      exact views.find? (known accelerator on) (al.ahead - n) (Nat.add_sub_of_le le)

theorem attempt_within (views : al.Views search.automaton.classes search.haystack h')
    (budget : Nat) {i i' : Nat} (offset : al.OffsetRel i i') {a b : Frame}
    (size : a.slots.size = b.slots.size) :
    (search.attempt budget i a).stop = ((search.within h').attempt budget i' b).stop ∧
      (search.attempt budget i a).left = ((search.within h').attempt budget i' b).left ∧
      al.FrameRel (search.attempt budget i a).frame
        ((search.within h').attempt budget i' b).frame :=
  views.attempt budget search.entry (Alignment.frameRel_reset size offset)

/-- Two searches that see the same come to the same, round by round. -/
theorem Ready.verdictRel {more i i' : Nat} {a b : Frame} (ready : search.Ready more i a)
    (wf : search.automaton.WellFormed) {state : State}
    (found : search.automaton.state? search.entry = some state)
    (views : al.Views search.automaton.classes search.haystack h')
    (known : ∀ accelerator, search.accelerator = some accelerator →
      search.automaton.accelerator = some accelerator)
    (offset : al.OffsetRel i i') (size : a.slots.size = b.slots.size) (budget : Nat)
    (tried tried' : Array Nat) :
    al.VerdictRel (search.run more i budget a tried).2.1
      ((search.within h').run more i' budget b tried').2.1 := by
  induction more using Nat.strongRecOn generalizing i i' budget a b tried tried' with
  | ind more ih =>
    obtain ⟨-, bounds⟩ := ready.candidate
    have candidates := candidate?_within views known offset
    rw [run.eq_def, run.eq_def (search.within h')]
    generalize here : search.candidate? i = x, (search.within h').candidate? i' = y at candidates
    cases candidates with
    | none => exact .noCandidate offset
    | @some j j' candidate =>
      obtain ⟨-, inside, next⟩ := bounds j here
      obtain ⟨stop, left, frames⟩ := attempt_within views budget candidate size
      have sound : (search.attempt budget j a).Sound search.automaton.slotCount j
          search.haystack.size :=
        (Automaton.guardedAttempt_eq wf budget found (ready.sized.reset inside)).2
      dsimp only
      generalize search.attempt budget j a = x, (search.within h').attempt budget j' b = y
        at stop left frames sound
      obtain ⟨ended, frame, rest⟩ := x
      obtain ⟨ended', frame', rest'⟩ := y
      cases stop
      cases left
      cases ended with
      | fault cause => exact absurd rfl (sound.no_fault cause)
      | cut => exact .cut search.limit frames.cursor
      | ended ending =>
        dsimp only
        rw [← frames.decides ending]
        split
        · exact .decided ending candidate frames.cursor frames.saved
        · cases more with
          | zero => exact .exhausted
          | succ more =>
            have ready' := next more frame rfl sound.within.sized
            have size' : frame.slots.size = frame'.slots.size := frames.slots.size
            obtain ⟨n, -, rfl, rfl⟩ := candidate
            have inside' := ready'.inside
            rw [views.size] at inside'
            exact ih more (Nat.lt_succ_self more) ready' ⟨n + 1, by omega, rfl, rfl⟩ size' rest _ _

end Search

/-! ## Outcomes -/

namespace Alignment

variable {al : Alignment} {h h' : Haystack} {automaton : Automaton}

theorem SlotRel.map_toNat {a b : Option Offset} (slot : al.SlotRel a b)
    (small : al.left + al.ahead < Offset.limit) (small' : al.right + al.ahead < Offset.limit) :
    Option.Rel al.OffsetRel (a.map Offset.toNat) (b.map Offset.toNat) := by
  obtain ⟨o, o', offsets, rfl, rfl⟩ := slot
  cases offsets with
  | none => exact .none
  | @some c c' offset =>
    obtain ⟨n, le, rfl, rfl⟩ := offset
    rw [Option.bind_some, Option.bind_some, Offset.map_toNat_ofNat? (by omega),
      Offset.map_toNat_ofNat? (by omega)]
    exact .some ⟨n, le, rfl, rfl⟩

theorem SlotsRel.captures {a b : Slots} (slots : al.SlotsRel a b) : al.CapturesRel ⟨a⟩ ⟨b⟩ := by
  refine ⟨slots, fun small small' slot => ?_⟩
  have here := slots slot
  unfold Captures.offset?
  dsimp only
  generalize a[slot]? = x, b[slot]? = y at here
  cases here with
  | none => exact .none
  | some here => exact here.map_toNat small small'

theorem VerdictRel.outcome {v v' : Verdict} (verdicts : al.VerdictRel v v')
    (ends : v.outcome ≠ .error (.fault .endless)) : al.OutcomeRel v.outcome v'.outcome := by
  cases verdicts with
  | decided ending _ _ saved =>
    cases saved with
    | none => exact .missing
    | some slots => exact .found slots.captures
  | exhausted => exact .missing
  | noCandidate => exact .missing
  | cut limit cursor =>
    cases limit with
    | none => exact absurd rfl ends
    | some limit => exact .exceeded limit cursor

end Alignment

namespace Executor

variable {executor : Executor} {automaton : Automaton} {al : Alignment} {h h' : Haystack}

theorem accelerator_eq_of_plan {input : Input} {accelerator : Accelerator}
    (planned : (executor.plan automaton input).accelerator = some accelerator) :
    automaton.accelerator = some accelerator := by
  unfold plan at planned
  dsimp only at planned
  split at planned
  · exact planned
  · cases planned

/-- Two inputs that look the same from their starts on have the same outcome, except that what is
reported is aligned. -/
theorem search_rel (wf : automaton.WellFormed) (executor : Executor)
    (views : al.Views automaton.classes h h') (anchored : Bool) :
    al.OutcomeRel (executor.search automaton ⟨h, al.left, anchored⟩)
      (executor.search automaton ⟨h', al.right, anchored⟩) := by
  obtain ⟨state, found⟩ := wf.exists_startFor anchored
  have inside : al.left ≤ h.size := by rw [views.size]; exact Nat.le_add_right ..
  have inside' : al.right ≤ h'.size := by rw [views.size']; exact Nat.le_add_right ..
  have length : h.size - al.left = al.ahead := by rw [views.size, Nat.add_sub_cancel_left]
  have length' : h'.size - al.right = al.ahead := by rw [views.size', Nat.add_sub_cancel_left]
  have ready : (executor.plan automaton ⟨h, al.left, anchored⟩).Ready _ _ _ :=
    ready_plan executor automaton inside
  have ends : executor.search automaton ⟨h, al.left, anchored⟩ ≠ .error (.fault .endless) :=
    search_ne_endless wf executor inside
  rw [search, report_of_le inside] at ends ⊢
  rw [search, report_of_le inside']
  dsimp only [Report.outcome] at ready ends ⊢
  rw [length] at ready ends ⊢
  rw [length']
  have size : (Frame.fresh automaton.slotCount al.left).slots.size =
      (Frame.fresh automaton.slotCount al.right).slots.size := rfl
  refine Alignment.VerdictRel.outcome ?_ ends
  exact ready.verdictRel wf found views (fun _ => accelerator_eq_of_plan)
    ⟨0, Nat.zero_le _, rfl, rfl⟩ size _ _ _

end Executor

/-! ## What lies before the start -/

theorem StartConfig.ofOffset?_append_add_succ (p s : Haystack) (n : Nat) :
    ofOffset? (p ++ s) (p.size + (n + 1)) = ofOffset? s (n + 1) := by
  show ((p ++ s)[p.size + n]?).map afterByte = _
  rw [Array.getElem?_append_right (Nat.le_add_right ..), Nat.add_sub_cancel_left]
  rfl

theorem Alignment.views_append (classes : ByteClasses) (p q s : Haystack)
    (same : StartConfig.ofOffset? p p.size = StartConfig.ofOffset? q q.size) :
    Alignment.Views ⟨p.size, q.size, s.size⟩ classes (p ++ s) (q ++ s) := by
  refine ⟨Array.size_append, Array.size_append, fun n => ?_, fun n _ => ?_⟩
  · simp [Array.getElem?_append_right]
  · cases n with
    | zero =>
      simp only [Nat.add_zero, StartConfig.ofOffset?_append (Nat.le_refl _)]
      exact same
    | succ n => simp only [StartConfig.ofOffset?_append_add_succ]

theorem Alignment.OffsetRel.eq_some {al : Alignment} {n : Nat} {found : Option Nat}
    (offsets : Option.Rel al.OffsetRel (some (al.left + n)) found) :
    found = some (al.right + n) := by
  cases offsets with
  | some offset =>
    obtain ⟨m, -, same, rfl⟩ := offset
    rw [Nat.add_left_cancel same]

namespace Executor

variable {builder : Builder} {automaton : Automaton}

/-- Of what lies before its start, a search sees only the start configuration there, and it does not
see how long it is: with the same bytes ahead and the same configuration at the start it has the
same outcome, where all offsets have moved along with the start. (Either both prefixes are empty or
none is, since the beginning of a haystack has a start configuration of its own.) -/
theorem search_shift_invariant (built : builder.build = .ok automaton) (executor : Executor)
    (p q s : Haystack) (same : StartConfig.ofOffset? p p.size = StartConfig.ofOffset? q q.size)
    (anchored : Bool) :
    Alignment.OutcomeRel ⟨p.size, q.size, s.size⟩
      (executor.search automaton ⟨p ++ s, p.size, anchored⟩)
      (executor.search automaton ⟨q ++ s, q.size, anchored⟩) :=
  search_rel (.of_build built) executor (Alignment.views_append automaton.classes p q s same)
    anchored

/-- The match in `xaax` after `x` is the match in it after `yyz`, two offsets further on. Both
searches begin behind offset 0, with an `x` that their accelerator passes over. -/
theorem search_shift_invariant_aPlus :
    ∃ captures, Executor.search {} (Builder.aPlus.freeze (.ofNat 0) (.ofNat 0))
        ⟨#[0x79, 0x79, 0x7A] ++ #[0x78, 0x61, 0x61, 0x78], 3, false⟩ = .ok (some captures) ∧
      captures.offset? 0 = some 4 ∧ captures.offset? 1 = some 6 := by
  have shifted := search_shift_invariant Builder.build_aPlus {} #[0x78] #[0x79, 0x79, 0x7A]
    #[0x78, 0x61, 0x61, 0x78] rfl false
  have verdict : (Executor.report ⟨SearchConfig.withAccelerate {} false⟩
      (Builder.aPlus.freeze (.ofNat 0) (.ofNat 0))
      ⟨#[0x78] ++ #[0x78, 0x61, 0x61, 0x78], 1, false⟩).verdict =
      .decided 2 .rejected 4 (some #[Offset.ofNat? 2, Offset.ofNat? 4]) := by decide +kernel
  have found : Executor.search {} (Builder.aPlus.freeze (.ofNat 0) (.ofNat 0))
      ⟨#[0x78] ++ #[0x78, 0x61, 0x61, 0x78], 1, false⟩ =
      .ok (some ⟨#[Offset.ofNat? 2, Offset.ofNat? 4]⟩) := by
    refine search_of_plain ?_
    rw [search, Report.outcome, verdict]
    rfl
  change Alignment.OutcomeRel _ (Executor.search {} _ ⟨_, 1, false⟩)
    (Executor.search {} _ ⟨_, 3, false⟩) at shifted
  rw [found] at shifted
  generalize Executor.search {} _
    ⟨#[0x79, 0x79, 0x7A] ++ #[0x78, 0x61, 0x61, 0x78], 3, false⟩ = outcome at shifted
  cases shifted with
  | @found _ captures aligned =>
    have offset := aligned.offset (by decide) (by decide)
    exact ⟨captures, rfl, Alignment.OffsetRel.eq_some (n := 1) (offset 0),
      Alignment.OffsetRel.eq_some (n := 3) (offset 1)⟩

end Executor

/-! ## Bytes of one class -/

namespace Alignment

variable {al : Alignment} {a b : Option Offset}

theorem OffsetRel.eq {c c' : Nat} (offset : al.OffsetRel c c') (still : al.left = al.right) :
    c = c' := by
  obtain ⟨n, -, rfl, rfl⟩ := offset
  rw [still]

theorem SlotRel.eq (slot : al.SlotRel a b) (still : al.left = al.right) : a = b := by
  obtain ⟨o, o', offsets, rfl, rfl⟩ := slot
  cases offsets with
  | none => rfl
  | some offset => rw [offset.eq still]

theorem SlotsRel.eq {a b : Slots} (slots : al.SlotsRel a b) (still : al.left = al.right) :
    a = b := by
  refine Array.ext_getElem? fun slot => ?_
  have here := slots slot
  generalize a[slot]? = x, b[slot]? = y at here
  cases here with
  | none => rfl
  | some here => rw [here.eq still]

theorem OutcomeRel.eq {o o' : Except SearchError (Option Captures)} (outcomes : al.OutcomeRel o o')
    (still : al.left = al.right) : o = o' := by
  cases outcomes with
  | missing => rfl
  | @found a b captures =>
    obtain ⟨a⟩ := a
    obtain ⟨b⟩ := b
    have same : a = b := captures.slots.eq still
    rw [same]
  | exceeded limit cursor => rw [cursor.eq still]

end Alignment

namespace Executor

variable {builder : Builder} {automaton : Automaton}

/-- A search does not tell the bytes of a class apart, as long as they give every offset the same
start configuration. -/
theorem search_class_invariant (built : builder.build = .ok automaton) {h h' : Haystack}
    (classes : h.map automaton.classes.get = h'.map automaton.classes.get)
    (configs : ∀ i ≤ h.size, StartConfig.ofOffset? h i = StartConfig.ofOffset? h' i)
    (executor : Executor) (start : Nat) (anchored : Bool) :
    executor.search automaton ⟨h, start, anchored⟩ =
      executor.search automaton ⟨h', start, anchored⟩ := by
  have size : h.size = h'.size := by simpa using congrArg Array.size classes
  by_cases inside : start ≤ h.size
  · have views : Alignment.Views ⟨start, start, h.size - start⟩ automaton.classes h h' := by
      refine ⟨by dsimp only; omega, by dsimp only; omega, fun n => ?_, fun n le => ?_⟩
      · simpa using congrArg (·[start + n]?) classes
      · dsimp only at le ⊢
        exact configs _ (by omega)
    exact (search_rel (.of_build built) executor views anchored).eq rfl
  · rw [search_of_lt (Nat.lt_of_not_le inside), search_of_lt (size ▸ Nat.lt_of_not_le inside), size]

/-- To the automaton for one or more of `a`, `zaab` and `yaac` are the same. -/
theorem search_class_invariant_aPlus :
    Executor.search {} (Builder.aPlus.freeze (.ofNat 0) (.ofNat 0))
        ⟨#[0x79, 0x61, 0x61, 0x63], 1, true⟩ =
      .ok (some ⟨#[Offset.ofNat? 1, Offset.ofNat? 3]⟩) := by
  have verdict : (Executor.report {} (Builder.aPlus.freeze (.ofNat 0) (.ofNat 0))
      ⟨#[0x7A, 0x61, 0x61, 0x62], 1, true⟩).verdict =
      .decided 1 .rejected 3 (some #[Offset.ofNat? 1, Offset.ofNat? 3]) := by decide +kernel
  have same := search_class_invariant Builder.build_aPlus
    (by decide +kernel : (#[0x7A, 0x61, 0x61, 0x62] : Haystack).map
        (Builder.aPlus.freeze (.ofNat 0) (.ofNat 0)).classes.get =
      (#[0x79, 0x61, 0x61, 0x63] : Haystack).map
        (Builder.aPlus.freeze (.ofNat 0) (.ofNat 0)).classes.get)
    (by decide) {} 1 true
  rw [← same, search, Report.outcome, verdict]
  rfl

end Executor
end ByteDFA
