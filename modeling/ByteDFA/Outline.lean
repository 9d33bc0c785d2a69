/-!
# Outlines

An outline is a tree of named nodes. Each node has properties, which are pairs of a key and a value
in the order in which they were appended, and child outlines. Outlines compare structurally, and are
shown with one line per name and per property, indented by depth.
-/

set_option autoImplicit false

namespace ByteDFA

/-- A named node with properties and children. -/
inductive Outline
  | node (name : String) (properties : List (String × String)) (children : List Outline)

namespace Outline

/-- The outline with a name alone. -/
def named (name : String) : Outline := node name [] []

/-- The name of the topmost node. -/
def name : Outline → String
  | node name _ _ => name

/-- The properties of the topmost node, in order. -/
def properties : Outline → List (String × String)
  | node _ properties _ => properties

/-- The outlines right below the topmost node, in order. -/
def children : Outline → List Outline
  | node _ _ children => children

/-- The outline with a property appended. -/
def property : Outline → String → String → Outline
  | node name properties children, key, value => node name (properties ++ [(key, value)]) children

/-- The outline with a child appended. -/
def child : Outline → Outline → Outline
  | node name properties children, last => node name properties (children ++ [last])

/-- The outline without the properties that have a key. -/
def without : Outline → String → Outline
  | node name properties children, key => node name (properties.filter (·.1 != key)) children

/-- The value of the first property with a key. -/
def get? (outline : Outline) (key : String) : Option String :=
  (outline.properties.find? (·.1 == key)).map (·.2)

/-- The first child with a name. -/
def findChild? (outline : Outline) (name : String) : Option Outline :=
  outline.children.find? (·.name == name)

/-! ## Equality -/

mutual
/-- Whether two outlines are equal. -/
def beq : Outline → Outline → Bool
  | node name properties children, node name' properties' children' =>
    name == name' && properties == properties' && beqAll children children'

/-- Whether two sequences of outlines are equal. -/
def beqAll : List Outline → List Outline → Bool
  | [], [] => true
  | a :: as, b :: bs => beq a b && beqAll as bs
  | _, _ => false
end

mutual
theorem beq_iff : ∀ a b : Outline, beq a b = true ↔ a = b
  | node name properties children, node name' properties' children' => by
    simp [beq, beqAll_iff children children', and_assoc]

theorem beqAll_iff : ∀ as bs : List Outline, beqAll as bs = true ↔ as = bs
  | [], [] => by simp [beqAll]
  | [], _ :: _ => by simp [beqAll]
  | _ :: _, [] => by simp [beqAll]
  | a :: as, b :: bs => by simp [beqAll, beq_iff a b, beqAll_iff as bs]
end

instance : DecidableEq Outline := fun a b => decidable_of_iff _ (beq_iff a b)

/-! ## The indented text -/

/-- The blanks in front of a line. -/
def indent (depth : Nat) : String := String.ofList (List.replicate (2 * depth) ' ')

/-- The line for the name of a node. -/
def nameLine (depth : Nat) (name : String) : String := indent depth ++ name ++ "\n"

/-- The line for a property of a node at the given depth. -/
def propertyLine (depth : Nat) (property : String × String) : String :=
  indent (depth + 1) ++ property.1 ++ ": " ++ property.2 ++ "\n"

mutual
/-- A text, followed by the lines of an outline at the given depth. -/
def appendTo (text : String) (depth : Nat) : Outline → String
  | node name properties children =>
    let head := properties.foldl (fun text p => text ++ propertyLine depth p)
      (text ++ nameLine depth name)
    appendAllTo head (depth + 1) children

/-- A text, followed by the lines of several outlines at the given depth. -/
def appendAllTo (text : String) (depth : Nat) : List Outline → String
  | [] => text
  | outline :: rest => appendAllTo (appendTo text depth outline) depth rest
end

/-- The lines of the outline. -/
def display (outline : Outline) : String := appendTo "" 0 outline

end Outline
end ByteDFA
