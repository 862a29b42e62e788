import Runbook.Context
import Runbook.Value.Coercion
import Runbook.Value.Depth

/-!
# Conditions

A condition is a path, or two operands with a comparison between them. The operator is the first in
the order of priority that occurs anywhere in the text, and the text is split at its first
occurrence.
-/

namespace Runbook

/-- The comparisons. -/
inductive Comparator
  | ge | le | ne | eq | gt | lt
  deriving DecidableEq, Repr

namespace Comparator

/-- The comparisons in order of priority. -/
def all : List Comparator := [ge, le, ne, eq, gt, lt]

/-- The sign of a comparison. -/
def sign : Comparator → String
  | ge => ">="
  | le => "<="
  | ne => "!="
  | eq => "=="
  | gt => ">"
  | lt => "<"

end Comparator

/-- The text before and after the first occurrence of a pattern. -/
def splitFirst? (pattern : List Char) : List Char → Option (List Char × List Char)
  | [] => if pattern.isEmpty then some ([], []) else none
  | c :: r =>
    if pattern.isPrefixOf (c :: r) then some ([], (c :: r).drop pattern.length)
    else (splitFirst? pattern r).map fun p => (c :: p.1, p.2)

/-- A condition; operands and paths are kept as written, without blanks at their ends. -/
inductive Condition
  | comparison (left : String) (operator : Comparator) (right : String)
  | truth (path : String)
  deriving DecidableEq, Repr

namespace Condition

/-- Read a condition with the first of some comparisons that occurs. -/
def readWith (text : List Char) : List Comparator → Condition
  | [] => truth (String.ofList (trimBy isBlank text))
  | op :: rest =>
    match splitFirst? op.sign.toList text with
    | some (left, right) =>
      comparison (String.ofList (trimBy isBlank left)) op (String.ofList (trimBy isBlank right))
    | none => readWith text rest

/-- Read a condition. -/
def ofText (text : String) : Condition :=
  readWith text.toList Comparator.all

/-- Write a condition. -/
def text : Condition → String
  | comparison left op right => left ++ " " ++ op.sign ++ " " ++ right
  | truth path => path

/-- The value of an operand: what its path leads to, else the number it is a literal of, else its
text. -/
def operand (tree : Value) (text : String) : Value :=
  match tree.resolve text with
  | some v => v
  | none =>
    match parseNumber text with
    | some x => .float x
    | none => .str text

/-- Compare two values: equality is equality of texts, order is order of numbers. -/
def compare (op : Comparator) (left right : Value) : Except Fault Bool :=
  match op with
  | .eq => do return (← left.stringify) = (← right.stringify)
  | .ne => do return (← left.stringify) ≠ (← right.stringify)
  | .ge => .ok (right.toNumber.le left.toNumber)
  | .le => .ok (left.toNumber.le right.toNumber)
  | .gt => .ok (right.toNumber.lt left.toNumber)
  | .lt => .ok (left.toNumber.lt right.toNumber)

/-- The truth of a condition in a value tree. -/
def holds (tree : Value) : Condition → Except Fault Bool
  | comparison left op right => compare op (operand tree left) (operand tree right)
  | truth path =>
    match tree.resolve path with
    | some v => v.isTruthy
    | none => .ok false

/-- Whether the stack has room for the texts that a condition compares. -/
def fits [Stack] (tree : Value) : Condition → Bool
  | comparison left .eq right | comparison left .ne right =>
    (operand tree left).depth ≤ Stack.operand && (operand tree right).depth ≤ Stack.operand
  | _ => true

end Condition

namespace Context

/-- The truth of a condition text. -/
def satisfies (c : Context) (condition : String) : Except Fault Bool :=
  (Condition.ofText condition).holds c.tree

/-- The truth of a condition text, if the stack has room. -/
def judge [Stack] (c : Context) (condition : String) : Except Fault Bool :=
  if (Condition.ofText condition).fits c.tree then c.satisfies condition else .error .tooDeep

end Context
end Runbook
