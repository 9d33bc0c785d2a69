/-!
# Cursors

A cursor is asked for one item after the other. Every answer comes with the cursor that is to be
asked next; where there is no item left, there may be one again later, unless something is said
against it. `Cursor.Lists` says which items a cursor has: it gives them in order, and nothing ever
after.
-/

set_option autoImplicit false

namespace ByteDFA.Cursor

variable {σ α : Type} {next : σ → Option α × σ} {cursor other : σ} {items : List α} {x : α}

/-- The answer to the question of the given number, where the first question has the number 0. -/
def answer (next : σ → Option α × σ) (cursor : σ) : Nat → Option α
  | 0 => (next cursor).1
  | number + 1 => answer next (next cursor).2 number

/-- The cursor gives these items one after the other, and none after the last of them however often
it is asked. -/
def Lists (next : σ → Option α × σ) (cursor : σ) (items : List α) : Prop :=
  ∀ number, answer next cursor number = items[number]?

/-- What a cursor lists can be told from one answer and the cursor that is asked next. -/
theorem lists_iff :
    Lists next cursor items ↔
      (next cursor).1 = items.head? ∧ Lists next (next cursor).2 items.tail := by
  constructor
  · intro lists
    refine ⟨(lists 0).trans List.head?_eq_getElem?.symm, fun number => ?_⟩
    rw [List.getElem?_tail]
    exact lists (number + 1)
  · intro answers number
    obtain ⟨first, later⟩ := answers
    cases number with
    | zero => exact first.trans List.head?_eq_getElem?
    | succ number =>
      have answered := later number
      rwa [List.getElem?_tail] at answered

theorem Lists.cons (asked : next cursor = (some x, other)) (lists : Lists next other items) :
    Lists next cursor (x :: items) := by
  rw [lists_iff, asked]
  exact ⟨rfl, lists⟩

theorem Lists.of_next_eq (same : next cursor = next other) (lists : Lists next other items) :
    Lists next cursor items := by
  rw [lists_iff, same]
  exact lists_iff.1 lists

/-- A cursor has no items if it gives none and is kept in a condition in which this is so. -/
theorem lists_nil {Finished : σ → Prop}
    (kept : ∀ cursor, Finished cursor → (next cursor).1 = none ∧ Finished (next cursor).2)
    (finished : Finished cursor) : Lists next cursor [] := by
  intro number
  induction number generalizing cursor with
  | zero => exact (kept cursor finished).1
  | succ number ih => exact ih (kept cursor finished).2

/-- A cursor that looks at one position after the other, up to a last one, and passes over some of
the items there, lists the others. This is an induction on the number of positions ahead. -/
theorem lists_scan (place : Nat → σ) (item : Nat → α) (keep : α → Bool) {stop : Nat}
    (given : ∀ n < stop, keep (item n) = true → next (place n) = (some (item n), place (n + 1)))
    (passed : ∀ n < stop, keep (item n) = false → next (place n) = next (place (n + 1)))
    (finished : next (place stop) = (none, place stop)) (ahead : Nat) {start : Nat}
    (reach : start + ahead = stop) :
    Lists next (place start) (((List.range' start ahead).map item).filter keep) := by
  induction ahead generalizing start with
  | zero =>
    obtain rfl : start = stop := reach
    refine @lists_nil _ _ _ _ (· = place start) (fun cursor here => ?_) rfl
    rw [here, finished]
    exact ⟨rfl, rfl⟩
  | succ ahead ih =>
    have inside : start < stop := by omega
    have later := @ih (start + 1) (by omega)
    rw [List.range'_succ, List.map_cons]
    cases kept : keep (item start) with
    | true =>
      rw [List.filter_cons_of_pos kept]
      exact Lists.cons (given start inside kept) later
    | false =>
      rw [List.filter_cons_of_neg (Bool.eq_false_iff.1 kept)]
      exact Lists.of_next_eq (passed start inside kept) later

end ByteDFA.Cursor
