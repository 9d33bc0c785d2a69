/-!
# The text of a value

How lists, sets, optional values and values with named fields are written when they are shown.
-/

set_option autoImplicit false

namespace ByteDFA.ValueText

/-- Items between brackets. -/
def list (items : List String) : String :=
  "[" ++ String.intercalate ", " items ++ "]"

/-- Members between braces. -/
def set (members : List String) : String :=
  "\x7b" ++ String.intercalate ", " members ++ "\x7d"

/-- A value with a name in front. -/
def tagged (tag value : String) : String :=
  tag ++ "(" ++ value ++ ")"

/-- A value that may be absent. -/
def option (value : Option String) : String :=
  match value with
  | none => "None"
  | some value => tagged "Some" value

/-- A value with named fields. -/
def fields (name : String) (entries : List (String × String)) : String :=
  name ++ " \x7b " ++ String.intercalate ", " (entries.map fun e => e.1 ++ ": " ++ e.2) ++ " \x7d"

end ByteDFA.ValueText
