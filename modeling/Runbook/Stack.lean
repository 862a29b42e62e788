import Runbook.Value.Basic

/-!
# The stack

Readers, printers and walks of values recur on the parts of a value, each on the stack of the
interpreter. The stack is finite, and how much of it is left depends on the interpreter and on the
callers. So the room that it has is a parameter here: for each of the recursions, how deep it gets
before there is an error.
-/

namespace Runbook

/-- The levels that a value may have, its scalars among them, where a definition is written as a
document. This is a limit of its own, not one of the stack. -/
def documentLimit : Nat := 255

/-- The room that the stack has. -/
class Stack where
  /-- The collections of a definition file in JSON that can be open at once. -/
  document : Nat
  /-- The collections of an output that can be open at once. -/
  output : Nat
  /-- The collections of a YAML text that can be open at once. -/
  yaml : Nat
  /-- The steps from one YAML mapping to the next, where a mapping takes over the entries of another
  or is the text under its own key for it. -/
  chain : Nat
  /-- The collections of a parameter that can be open at once while placeholders are replaced. -/
  walk : Nat
  /-- The levels of a value that can be written in a placeholder inside of so many collections. -/
  text : Nat → Nat
  /-- The levels of a value that can be written for a comparison. -/
  operand : Nat
  /-- The levels of a variable that can be written in a plan. -/
  shown : Nat
  /-- The levels of a parameter that can be written in a plan. -/
  line : Nat
  /-- The levels that it takes to display a value that JSON lacks. -/
  display : Value → Nat
  /-- To display a set is to display its members. -/
  display_member {members : List Scalar} {s : Scalar} (h : s ∈ members) :
    display (.scalar s) ≤ display (.set members)
  /-- A document that can be written can be read again. -/
  document_le_yaml : documentLimit + 8 ≤ yaml

/-- The room with a thousand frames, most of which are left. -/
instance Stack.usual : Stack where
  document := 990
  output := 990
  yaml := 480
  chain := 900
  walk := 490
  text depth := 980 - 2 * depth
  operand := 980
  shown := 990
  line := 990
  display _ := 4
  display_member _ := Nat.le_refl 4
  document_le_yaml := by decide

end Runbook
