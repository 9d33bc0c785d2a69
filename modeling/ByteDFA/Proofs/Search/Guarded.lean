import ByteDFA.Proofs.Search.Rounds

/-!
# Guarded searches

The operations of a search are total functions: looking for a byte from beyond the end of the
haystack, or copying slots into a buffer of another size, has a result like anything else. What they
are meant for is less than that. A guarded search makes the same attempts, but looks at the operands
of every operation first, and where these are not as they should be it stops and names the breach.
So a search uses all operations as they are meant to be used exactly if guarding it changes nothing.
-/

set_option autoImplicit false

namespace ByteDFA

/-- What stands in the way of an operation. -/
inductive Breach
  /-- The automaton is defective. -/
  | fault (cause : Fault)
  /-- A start state has no entry for a start configuration. -/
  | entryMissing (config : StartConfig)
  /-- There are more bytes to look for than an accelerator can hold. -/
  | tooManyNeedles (count : Nat)
  /-- The bytes from an offset on were asked for, but the haystack ends before it. -/
  | sliceOutOfRange (offset length : Nat)
  /-- Slots were to be copied into a buffer of another size. -/
  | copyMismatch (source target : Nat)
  /-- Captures were to be made of a number of slots that is not even. -/
  | oddSlots (count : Nat)
  /-- The written form of a byte does not fit into the buffer for it. -/
  | escapeTooLong (byte : UInt8)
  deriving DecidableEq

/-! ## Guarded operations -/

/-- Saves a match, for which the working slots are copied as a whole. -/
def Frame.guardedSave (frame : Frame) (extra : SlotSet) : Except Breach Frame :=
  if frame.slots.size = frame.matched.size then .ok (frame.save extra)
  else .error (.copyMismatch frame.slots.size frame.matched.size)

/-- What a state does to the frame before it moves on. -/
def State.guardedMark (state : State) (frame : Frame) : Except Breach Frame :=
  let frame := frame.record state.slots
  match state.accept with
  | none => .ok frame
  | some extra => frame.guardedSave extra

/-- Looks for a needle in the bytes from an offset on. There is a way to do so for up to
`Accelerator.limit` needles. -/
def Accelerator.guardedFind? (accelerator : Accelerator) (haystack : Haystack) (offset : Nat) :
    Except Breach (Option Nat) :=
  if limit < accelerator.needles.length then .error (.tooManyNeedles accelerator.needles.length)
  else if haystack.size < offset then .error (.sliceOutOfRange offset haystack.size)
  else .ok (accelerator.find? haystack offset)

/-- The first offset, from the given one on, at which an attempt is worth making. -/
def Search.guardedCandidate? (search : Search) (offset : Nat) : Except Breach (Option Nat) :=
  match search.accelerator with
  | none => .ok (some offset)
  | some accelerator =>
    if offset = 0 then .ok (some 0) else accelerator.guardedFind? search.haystack offset

/-! ## Guarded loops -/

/-- Executes states like `Automaton.attempt`. -/
def Automaton.guardedAttempt (automaton : Automaton) (haystack : Haystack) :
    (budget : Nat) → (id : StateId) → (frame : Frame) → Except Breach Attempt
  | 0, _, frame => .ok ⟨.cut, frame, 0⟩
  | budget + 1, id, frame =>
    match automaton.state? id with
    | none => .error (.fault (.missingState id))
    | some state =>
      match state.guardedMark frame with
      | .error breach => .error breach
      | .ok frame =>
        match state.move automaton.classes haystack frame.cursor with
        | .error cause => .error (.fault cause)
        | .ok (.stop ending) => .ok ⟨.ended ending, frame, budget⟩
        | .ok (.goto next cursor) =>
          automaton.guardedAttempt haystack budget next (frame.moveTo cursor)

/-- Makes attempts like `Search.run`. -/
def Search.guardedRun (search : Search) (more offset budget : Nat) (frame : Frame)
    (tried : Array Nat) : Except Breach (Array Nat × Verdict × Nat) :=
  match search.guardedCandidate? offset with
  | .error breach => .error breach
  | .ok none => .ok (tried, .noCandidate offset, budget)
  | .ok (some offset) =>
    let tried := tried.push offset
    match search.automaton.guardedAttempt search.haystack budget search.entry
        (frame.reset offset) with
    | .error breach => .error breach
    | .ok attempt =>
      match attempt.stop with
      | .fault cause => .error (.fault cause)
      | .cut => .ok (tried, .cut search.limit attempt.frame.cursor, attempt.left)
      | .ended ending =>
        if ending.decides attempt.frame then
          .ok (tried, .decided offset ending attempt.frame.cursor attempt.frame.saved,
            attempt.left)
        else
          match more with
          | 0 => .ok (tried, .exhausted, attempt.left)
          | more + 1 => search.guardedRun more (offset + 1) attempt.left attempt.frame tried

/-! ## Whole searches -/

/-- The outcome that a verdict stands for. Captures are made of two slots for each group. -/
def Verdict.guardedOutcome (verdict : Verdict) :
    Except Breach (Except SearchError (Option Captures)) :=
  match verdict with
  | .decided _ _ _ (some slots) =>
    if slots.size % 2 = 0 then .ok (.ok (some ⟨slots⟩)) else .error (.oddSlots slots.size)
  | .cut none _ => .error (.fault .endless)
  | .fault cause => .error (.fault cause)
  | verdict => .ok verdict.outcome

/-- Searches the input like `Executor.search`. -/
def Executor.guardedSearch (executor : Executor) (automaton : Automaton) (input : Input) :
    Except Breach (Except SearchError (Option Captures)) :=
  if input.haystack.size < input.start then
    .ok (.error (.invalidStart input.start input.haystack.size))
  else
    let ahead := input.haystack.size - input.start
    let budget := executor.config.stepLimit?.getD (stepBound ahead)
    let more := if input.anchored then 0 else ahead
    let frame := Frame.fresh automaton.slotCount input.start
    match (executor.plan automaton input).guardedRun more input.start budget frame #[] with
    | .error breach => .error breach
    | .ok (_, verdict, _) => verdict.guardedOutcome

end ByteDFA
