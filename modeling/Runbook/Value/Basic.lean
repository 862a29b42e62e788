import Runbook.Binary64.Basic
import Runbook.Calendar
import Runbook.Text.CodePoints

/-!
# Values

What flows through definitions, parameters and outputs. The scalars are those of JSON and, from YAML
documents, dates, moments and bytes; a mapping has scalar keys in order of first insertion.

A text is a `String`. What is read from a document can have unpaired surrogates as well (`wild`);
such a text is told apart from all others, but where its characters are looked at or become part of
a string, a replacement character stands for each of them. So what is made of such texts is outside
of the model.
-/

namespace Runbook

/-- A value without parts. -/
inductive Scalar
  | null
  | bool (b : Bool)
  | int (n : Int)
  | float (x : Binary64)
  | str (s : String)
  /-- A text with unpaired surrogates, by its code points. -/
  | wild (codes : List Nat)
  | date (d : Date)
  | moment (t : Moment)
  | bytes (b : List UInt8)
  deriving DecidableEq, Inhabited

/-- A text as a scalar. -/
def Scalar.ofText : Text → Scalar
  | .str s => .str s
  | .wild codes => .wild codes

/-- The string that stands for a text. -/
def Scalar.text? : Scalar → Option String
  | .str s => some s
  | .wild codes => some (Text.wild codes).string
  | _ => none

/-- A value. Sets and pairs come from YAML alone, and so does `endless`: the point at which a
collection holds itself. A set lists its members in the order of the document; that of a set in a
running program depends on hashes and is not kept. -/
inductive Value
  | scalar (s : Scalar)
  | list (items : List Value)
  | mapping (entries : List (Scalar × Value))
  | set (members : List Scalar)
  | pair (first second : Value)
  | endless (isMapping : Bool)
  deriving Inhabited

/-- The text of an exact binary64 or integer place, for comparing keys of mixed kinds. -/
def Scalar.place? : Scalar → Option Int
  | .bool b => some (if b then (Binary64.unitsPerOne : Int) else 0)
  | .int n => some (n * Binary64.unitsPerOne)
  | .float (.finite s x) => some (signed s x.units)
  | _ => none

/-- Whether two scalars are one key of a mapping: numbers and booleans by value, moments by instant,
all else by equality. -/
def Scalar.sameKey : Scalar → Scalar → Bool
  | .moment a, .moment b => a.same b
  | a, b =>
    match a.place?, b.place? with
    | some i, some j => i = j
    | _, _ => a = b

namespace Value

@[match_pattern] abbrev null : Value := scalar .null
@[match_pattern] abbrev bool (b : Bool) : Value := scalar (.bool b)
@[match_pattern] abbrev int (n : Int) : Value := scalar (.int n)
@[match_pattern] abbrev float (x : Binary64) : Value := scalar (.float x)
@[match_pattern] abbrev str (s : String) : Value := scalar (.str s)

/-- The mapping with text keys that a table is. -/
def ofFields (fields : List (String × Value)) : Value :=
  mapping (fields.map fun e => (.str e.1, e.2))

/-- The member of a list of entries under a text key. -/
def lookup (entries : List (Scalar × Value)) (key : String) : Option Value :=
  match entries with
  | [] => none
  | (k, v) :: r => if k = .str key then some v else lookup r key

/-- The member of a mapping under a text key; other values have no members. -/
def member? (v : Value) (key : String) : Option Value :=
  match v with
  | mapping entries => lookup entries key
  | _ => none

end Value
end Runbook
