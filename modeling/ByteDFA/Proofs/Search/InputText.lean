import ByteDFA.Proofs.Byte.Writing
import ByteDFA.Proofs.Text.Value
import ByteDFA.Search.Input

/-!
# Reading the text of an input back

The text of an input writes the bytes of the haystack between quotes, one after the other and with
nothing in between. It can be read in one way only (`debug_faithful`): no written byte begins
another one, so the bytes can be read from the left, and none begins like the quote that follows
them. Behind the quote, the start ends where the comma stands.
-/

set_option autoImplicit false

namespace ByteDFA

open ValueText

theorem Byte.toList_join_escaped (bytes : List UInt8) :
    (String.join (bytes.map Byte.escaped)).toList = bytes.flatMap Byte.escapedChars := by
  rw [String.toList_join, List.flatMap_map]
  simp only [Byte.escaped, String.toList_ofList]

namespace Input

variable {x y : Input}

theorem toString_bool_injective {a b : Bool} (same : toString a = toString b) : a = b := by
  cases a <;> cases b <;> first | rfl | exact absurd same (by decide)

/-- What stands in front of the bytes of the haystack. -/
def opening : List Char :=
  "Input".toList ++ (" \x7b ".toList ++ ("haystack".toList ++ (": ".toList ++ "\"".toList)))

/-- What stands behind the closing quote. -/
def trailer (input : Input) : List Char :=
  ", ".toList ++ ("start".toList ++ (": ".toList ++ ((toString input.start).toList ++
    (", ".toList ++ ("anchored".toList ++ (": ".toList ++ ((toString input.anchored).toList ++
      " \x7d".toList)))))))

theorem toList_debug (input : Input) :
    input.debug.toList =
      opening ++ (input.haystack.toList.flatMap Byte.escapedChars ++ '\x22' :: input.trailer) := by
  have quote (rest : List Char) : "\"".toList ++ rest = '\x22' :: rest := rfl
  simp only [debug, fields, haystackText, opening, trailer, List.map_cons, List.map_nil,
    String.intercalate_cons_cons, String.intercalate_singleton, String.toList_append,
    List.append_assoc, List.cons_append, Byte.toList_join_escaped, quote]

theorem endsNumber_separator (s : List Char) : EndsNumber (", ".toList ++ s) := by
  intro c here
  cases here
  decide

theorem trailer_inj (same : x.trailer = y.trailer) :
    x.start = y.start ∧ x.anchored = y.anchored := by
  have numbers := List.append_cancel_left (List.append_cancel_left (List.append_cancel_left same))
  obtain ⟨start, rest⟩ :=
    toString_append_inj (endsNumber_separator _) (endsNumber_separator _) numbers
  have flags := List.append_cancel_left (List.append_cancel_left (List.append_cancel_left rest))
  exact ⟨start, toString_bool_injective (String.toList_injective (List.append_cancel_right flags))⟩

theorem eq_of_debug_eq (same : x.debug = y.debug) : x = y := by
  have chars := congrArg String.toList same
  rw [toList_debug, toList_debug] at chars
  obtain ⟨bytes, rest⟩ :=
    Byte.flatMap_escapedChars_append_inj Byte.quote_not_mem_head? (List.append_cancel_left chars)
  obtain ⟨start, anchored⟩ := trailer_inj rest
  cases x
  cases y
  rw [Input.mk.injEq]
  exact ⟨Array.toList_inj.1 bytes, start, anchored⟩

/-- Inputs are written alike exactly if they are the same in every respect. The written bytes of a
haystack alone tell what it is, and so does a text that goes on behind the quote that closes them,
since no byte is written with a quote at its beginning. Every byte is written as the escape of ASCII
has it but for the blank and for capital digits. -/
theorem debug_faithful (x y : Input) :
    (x.debug = y.debug ↔
      x.haystack = y.haystack ∧ x.start = y.start ∧ x.anchored = y.anchored) ∧
    (∀ bytes bytes' : List UInt8,
      String.join (bytes.map Byte.escaped) = String.join (bytes'.map Byte.escaped) ↔
        bytes = bytes') ∧
    (∀ (bytes bytes' : List UInt8) (rest rest' : List Char),
      bytes.flatMap Byte.escapedChars ++ '\x22' :: rest =
          bytes'.flatMap Byte.escapedChars ++ '\x22' :: rest' ↔
        bytes = bytes' ∧ rest = rest') ∧
    ∀ b, '\x22' ∉ (Byte.escapedChars b).head? ∧
      Byte.escapedChars b =
        if b = 0x20 then ['\x27', ' ', '\x27']
        else (Byte.asciiEscape b).mapIdx Byte.capitalizeDigit := by
  refine ⟨⟨?_, ?_⟩, fun bytes bytes' => ⟨?_, ?_⟩, fun bytes bytes' rest rest' => ⟨?_, ?_⟩,
    fun b => ?_⟩
  · intro same
    rw [eq_of_debug_eq same]
    exact ⟨rfl, rfl, rfl⟩
  · intro same
    obtain ⟨haystack, start, anchored⟩ := same
    rw [debug, debug, haystack, start, anchored]
  · intro same
    have chars := congrArg String.toList same
    rw [Byte.toList_join_escaped, Byte.toList_join_escaped] at chars
    exact Byte.eq_of_flatMap_escapedChars chars
  · intro same
    rw [same]
  · exact Byte.flatMap_escapedChars_append_inj Byte.quote_not_mem_head?
  · intro same
    rw [same.1, same.2]
  · exact ⟨Byte.quote_not_mem_head? b, Byte.escapedChars_eq_asciiEscape b⟩

end Input
end ByteDFA
