import Mathlib.Data.List.Chain
import ByteDFA.Text.Value

/-!
# Reading the texts of values back

The items of a list or a set are separated by a comma and a blank. Their text can be taken apart
again if each item can be told from what follows it (`eq_of_intercalate_map_eq`). This is so for
items in which no comma is followed by a blank, as `Unbroken` says (`eq_of_intercalate_eq`).

A run of characters of one kind ends where a character of another kind follows (`run_append_inj`).
Numbers are written with digits, so they are unbroken, no two of them are written alike, and a
number ends where something else than a digit follows (`toString_append_inj`).
-/

set_option autoImplicit false

namespace ByteDFA.ValueText

variable {cs ds s t : List Char} {a b : Char} {m n : Nat} {x : String} {xs ys : List String}

/-! ## Where a run ends -/

section Runs

variable {α : Type} {p : α → Bool} {as bs rest rest' : List α}

theorem takeWhile_eq_nil (stops : ∀ a ∈ rest.head?, p a = false) : rest.takeWhile p = [] := by
  cases rest with
  | nil => rfl
  | cons a others => exact List.takeWhile_cons_of_neg (Bool.eq_false_iff.1 (stops a rfl))

/-- A run of members that `p` holds of ends where one follows that `p` does not hold of, or with
the sequence. -/
theorem run_append_inj (holds : ∀ a ∈ as, p a = true) (holds' : ∀ b ∈ bs, p b = true)
    (stops : ∀ a ∈ rest.head?, p a = false) (stops' : ∀ b ∈ rest'.head?, p b = false)
    (same : as ++ rest = bs ++ rest') : as = bs ∧ rest = rest' := by
  have runs := congrArg (List.takeWhile p) same
  rw [List.takeWhile_append_of_pos holds, List.takeWhile_append_of_pos holds',
    takeWhile_eq_nil stops, takeWhile_eq_nil stops', List.append_nil, List.append_nil] at runs
  rw [runs] at same
  exact ⟨runs, List.append_cancel_left same⟩

end Runs

/-! ## Items -/

theorem toList_intercalate_cons_cons (x y : String) (rest : List String) :
    (String.intercalate ", " (x :: y :: rest)).toList =
      x.toList ++ ',' :: ' ' :: (String.intercalate ", " (y :: rest)).toList := by
  rw [String.intercalate_cons_cons, String.toList_append, String.toList_append,
    List.append_assoc]
  rfl

/-- What follows the first item in the text of a sequence of items: a separator and the others, if
there are any. -/
def following : List String → List Char
  | [] => []
  | x :: rest => ',' :: ' ' :: (String.intercalate ", " (x :: rest)).toList

theorem toList_intercalate_cons (x : String) (rest : List String) :
    (String.intercalate ", " (x :: rest)).toList = x.toList ++ following rest := by
  cases rest with
  | nil => rw [String.intercalate_singleton, following, List.append_nil]
  | cons y rest => exact toList_intercalate_cons_cons x y rest

theorem intercalate_ne_empty (some_text : x ≠ "") (rest : List String) :
    String.intercalate ", " (x :: rest) ≠ "" := by
  intro blank
  have chars := toList_intercalate_cons x rest
  rw [blank] at chars
  exact some_text (String.toList_injective (List.append_eq_nil_iff.1 chars.symm).1)

theorem intercalate_eq_of_following_eq (same : following xs = following ys) :
    String.intercalate ", " xs = String.intercalate ", " ys := by
  cases xs with
  | nil =>
    cases ys with
    | nil => rfl
    | cons y ys => cases same
  | cons x xs =>
    cases ys with
    | nil => cases same
    | cons y ys => exact String.toList_injective (List.cons.inj (List.cons.inj same).2).2

/-- A character in the text of a sequence of items separates two of them or belongs to one. -/
theorem mem_intercalate (mem : a ∈ (String.intercalate ", " xs).toList) :
    a = ',' ∨ a = ' ' ∨ ∃ x ∈ xs, a ∈ x.toList := by
  induction xs with
  | nil => cases mem
  | cons x rest ih =>
    rw [toList_intercalate_cons, List.mem_append] at mem
    rcases mem with here | later
    · exact .inr (.inr ⟨x, List.mem_cons_self, here⟩)
    · cases rest with
      | nil => cases later
      | cons y rest =>
        rcases List.mem_cons.1 later with comma | later
        · exact .inl comma
        · rcases List.mem_cons.1 later with blank | later
          · exact .inr (.inl blank)
          · rcases ih later with comma | blank | ⟨z, among, here⟩
            · exact .inl comma
            · exact .inr (.inl blank)
            · exact .inr (.inr ⟨z, List.mem_cons_of_mem x among, here⟩)

/-- The text of a sequence of items can be taken apart again if each of them can be told from what
follows it. The items may well contain what separates them. -/
theorem eq_of_intercalate_map_eq {α : Type} {text : α → String} {items items' : List α}
    (some_text : ∀ item ∈ items, text item ≠ "") (some_text' : ∀ item ∈ items', text item ≠ "")
    (told : ∀ item ∈ items, ∀ item' ∈ items', ∀ rest rest',
      (text item).toList ++ following rest = (text item').toList ++ following rest' →
        item = item' ∧ following rest = following rest')
    (same : String.intercalate ", " (items.map text) = String.intercalate ", " (items'.map text)) :
    items = items' := by
  induction items generalizing items' with
  | nil =>
    cases items' with
    | nil => rfl
    | cons item' others' =>
      exact absurd same.symm (intercalate_ne_empty (some_text' item' List.mem_cons_self) _)
  | cons item others ih =>
    cases items' with
    | nil => exact absurd same (intercalate_ne_empty (some_text item List.mem_cons_self) _)
    | cons item' others' =>
      have chars := congrArg String.toList same
      rw [List.map_cons, List.map_cons, toList_intercalate_cons, toList_intercalate_cons] at chars
      obtain ⟨rfl, tails⟩ := told item List.mem_cons_self item' List.mem_cons_self _ _ chars
      have rests : others = others' := ih (fun x mem => some_text x (List.mem_cons_of_mem _ mem))
        (fun x mem => some_text' x (List.mem_cons_of_mem _ mem))
        (fun x mem y mem' => told x (List.mem_cons_of_mem _ mem) y (List.mem_cons_of_mem _ mem'))
        (intercalate_eq_of_following_eq tails)
      rw [rests]

/-! ## Unbroken items -/

/-- No comma is followed by a blank. -/
def Unbroken (cs : List Char) : Prop := cs.IsChain fun a b => ¬(a = ',' ∧ b = ' ')

theorem unbroken_append_iff :
    Unbroken (cs ++ ds) ↔ Unbroken cs ∧ Unbroken ds ∧
      ∀ a ∈ cs.getLast?, ∀ b ∈ ds.head?, ¬(a = ',' ∧ b = ' ') :=
  List.isChain_append

theorem unbroken_of_not_mem (no_comma : ',' ∉ cs) : Unbroken cs := by
  induction cs with
  | nil => exact .nil
  | cons c cs ih =>
    refine List.isChain_cons.2 ⟨fun b _ separator => ?_, ih fun mem => ?_⟩
    · exact no_comma (separator.1 ▸ List.mem_cons_self)
    · exact no_comma (List.mem_cons_of_mem c mem)

theorem not_unbroken_of_separator : ¬Unbroken (cs ++ ',' :: ' ' :: s) := by
  intro unbroken
  have separator := (unbroken_append_iff.1 unbroken).2.1
  exact (List.isChain_cons_cons.1 separator).1 ⟨rfl, rfl⟩

theorem eq_nil_of_unbroken_append (unbroken : Unbroken (cs ++ ds))
    (same : ',' :: ' ' :: s = ds ++ ',' :: ' ' :: t) : ds = [] ∧ s = t := by
  cases ds with
  | nil =>
    cases same
    exact ⟨rfl, rfl⟩
  | cons d ds =>
    cases ds with
    | nil => cases same
    | cons e ds =>
      cases same
      exact absurd unbroken not_unbroken_of_separator

/-- The first separator of a text ends its first item. -/
theorem split_at_separator (unbroken : Unbroken cs) (unbroken' : Unbroken ds)
    (same : cs ++ ',' :: ' ' :: s = ds ++ ',' :: ' ' :: t) : cs = ds ∧ s = t := by
  rcases List.append_eq_append_iff.1 same with ⟨more, rfl, tails⟩ | ⟨more, rfl, tails⟩
  · obtain ⟨rfl, rfl⟩ := eq_nil_of_unbroken_append unbroken' tails
    exact ⟨(List.append_nil cs).symm, rfl⟩
  · obtain ⟨rfl, rfl⟩ := eq_nil_of_unbroken_append unbroken tails
    exact ⟨List.append_nil ds, rfl⟩

/-- An unbroken item ends where the first separator follows, or with the text. -/
theorem unbroken_append_following_inj (unbroken : Unbroken cs) (unbroken' : Unbroken ds)
    (same : cs ++ following xs = ds ++ following ys) : cs = ds ∧ following xs = following ys := by
  cases xs with
  | nil =>
    rw [following, List.append_nil] at same
    cases ys with
    | nil =>
      rw [following, List.append_nil] at same
      exact ⟨same, rfl⟩
    | cons y ys => exact absurd (same ▸ unbroken) not_unbroken_of_separator
  | cons x xs =>
    cases ys with
    | nil =>
      rw [following, following, List.append_nil] at same
      exact absurd (same ▸ unbroken') not_unbroken_of_separator
    | cons y ys =>
      obtain ⟨items, rests⟩ := split_at_separator unbroken unbroken' same
      exact ⟨items, congrArg (',' :: ' ' :: ·) rests⟩

/-- The text of a sequence of unbroken items can be taken apart again. -/
theorem eq_of_intercalate_eq (items : ∀ x ∈ xs, x ≠ "" ∧ Unbroken x.toList)
    (items' : ∀ y ∈ ys, y ≠ "" ∧ Unbroken y.toList)
    (same : String.intercalate ", " xs = String.intercalate ", " ys) : xs = ys := by
  refine @eq_of_intercalate_map_eq String id xs ys (fun x mem => (items x mem).1)
    (fun y mem => (items' y mem).1) (fun x mem y mem' rest rest' chars => ?_)
    (by rwa [List.map_id, List.map_id])
  obtain ⟨texts, rests⟩ :=
    unbroken_append_following_inj (items x mem).2 (items' y mem').2 chars
  exact ⟨String.toList_injective texts, rests⟩

/-! ## Numbers -/

theorem isDigit_of_mem_toString (mem : a ∈ (toString n).toList) : a.isDigit = true := by
  rw [Nat.toString_eq_ofList_toDigits, String.toList_ofList] at mem
  exact Nat.isDigit_of_mem_toDigits (by decide) (Nat.le_refl _) mem

theorem toString_ne_empty (n : Nat) : toString n ≠ "" := by
  intro blank
  have digits := congrArg String.toList blank
  rw [Nat.toString_eq_ofList_toDigits, String.toList_ofList] at digits
  exact Nat.toDigits_ne_nil digits

theorem unbroken_toString (n : Nat) : Unbroken (toString n).toList :=
  unbroken_of_not_mem fun mem => absurd (isDigit_of_mem_toString mem) (by decide)

theorem toString_injective (same : toString m = toString n) : m = n := by
  rw [Nat.toString_eq_ofList_toDigits, Nat.toString_eq_ofList_toDigits] at same
  have digits := congrArg String.toList same
  rw [String.toList_ofList, String.toList_ofList] at digits
  have numbers := congrArg (fun cs => Nat.ofDigitChars 10 cs 0) digits
  rwa [Nat.ofDigitChars_ten_toDigits, Nat.ofDigitChars_ten_toDigits] at numbers

/-! ## Where a number ends -/

/-- The text does not begin with a digit, so that a number in front of it ends there. -/
def EndsNumber (s : List Char) : Prop := ∀ c ∈ s.head?, c.isDigit = false

theorem toString_append_inj (ends : EndsNumber s) (ends' : EndsNumber t)
    (same : (toString m).toList ++ s = (toString n).toList ++ t) : m = n ∧ s = t := by
  obtain ⟨digits, rests⟩ := run_append_inj (fun _ => isDigit_of_mem_toString)
    (fun _ => isDigit_of_mem_toString) ends ends' same
  exact ⟨toString_injective (String.toList_injective digits), rests⟩

theorem endsNumber_following (xs : List String) : EndsNumber (following xs) := by
  intro c here
  cases xs with
  | nil => cases here
  | cons x rest =>
    cases here
    decide

end ByteDFA.ValueText
