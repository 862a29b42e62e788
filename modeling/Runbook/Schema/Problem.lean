import Runbook.Text.Digits
import Runbook.Value.Display

/-!
# Problems of a document

A problem is a complaint about a place in a document; the place is a list of keys and indices from
the document down.
-/

namespace Runbook
namespace Schema

/-- One part of a place. -/
inductive Spot
  | key (name : String)
  | item (index : Nat)
  /-- The key that the part before names, rather than its value. -/
  | keyItself
  deriving DecidableEq, Repr

/-- The text of a part of a place. -/
def Spot.text : Spot → String
  | key name => name
  | item index => padLeft 1 index
  | keyItself => "[key]"

/-- The part of a place that a key of a mapping is: a truth value counts as a number. -/
def Spot.ofKey : Scalar → Spot
  | .str s => .key s
  | .wild codes => .key (Text.wild codes).string
  | .bool b => .key (if b then "1" else "0")
  | k => .key k.quoted

/-- The patterns of names. -/
inductive Pattern
  | workflowName | stepId | version
  deriving DecidableEq, Repr

/-- The usual notation of a pattern. -/
def Pattern.text : Pattern → String
  | workflowName => "^[a-z0-9][a-z0-9-]*$"
  | stepId => "^[a-z_][a-z0-9_]*$"
  | version => "^\\d+\\.\\d+\\.\\d+$"

/-- What is wrong at a place. -/
inductive Complaint
  | missing
  | extra
  | keyNotText
  | notText
  | notUnicode
  | notMapping
  | notInstance (name : String)
  | notList
  | notBoolean
  | unreadableBoolean
  | notVariableType
  | notPolicy
  | noCharacter
  | mismatch (pattern : Pattern)
  | noItem
  | duplicateId (id : String)
  | notObject (kind : String)
  | badFileName (name : String)
  deriving DecidableEq, Repr

/-- The wording of a complaint. -/
def Complaint.text : Complaint → String
  | missing => "Field required"
  | extra => "Extra inputs are not permitted"
  | keyNotText => "Keys should be strings"
  | notText => "Input should be a valid string"
  | notUnicode => "Input should be a valid string, unable to parse raw data as a unicode string"
  | notMapping => "Input should be a valid dictionary"
  | notInstance name => "Input should be a valid dictionary or instance of " ++ name
  | notList => "Input should be a valid list"
  | notBoolean => "Input should be a valid boolean"
  | unreadableBoolean => "Input should be a valid boolean, unable to interpret input"
  | notVariableType => "Input should be 'string', 'number', 'boolean' or 'object'"
  | notPolicy => "Input should be 'stop', 'skip' or 'continue'"
  | noCharacter => "String should have at least 1 character"
  | mismatch pattern => "String should match pattern '" ++ pattern.text ++ "'"
  | noItem => "List should have at least 1 item after validation, not 0"
  | duplicateId id => "Value error, Duplicate step id \"" ++ id ++ "\""
  | notObject kind => "must be an object, got " ++ kind
  | badFileName name => "\"" ++ name ++ "\" must be lowercase letters, digits and hyphens"

/-- A complaint and its place. -/
structure Problem where
  place : List Spot
  complaint : Complaint
  deriving DecidableEq, Repr

namespace Problem

/-- The text of a place: its parts, each after a slash. -/
def pointer (place : List Spot) : String :=
  "/" ++ "/".intercalate (place.map Spot.text)

/-- The text of a problem. -/
def text (p : Problem) : String :=
  pointer p.place ++ ": " ++ p.complaint.text

/-- The same problem, seen from one level further out. -/
def within (spot : Spot) (p : Problem) : Problem :=
  { p with place := spot :: p.place }

end Problem

/-- The message that lists problems. -/
def problemsMessage (problems : List Problem) : String :=
  "Workflow validation failed:\n" ++ "\n".intercalate (problems.map fun p => "  - " ++ p.text)

/-- A value that was read, or everything that is wrong with it. -/
inductive Checked (α : Type)
  | ok (a : α)
  | bad (problems : List Problem)

namespace Checked

variable {α β : Type}

/-- A complaint about the value itself. -/
def complain (c : Complaint) : Checked α := bad [⟨[], c⟩]

/-- Apply a function that was read to an argument that was read, or join their problems. -/
def apply : Checked (α → β) → Checked α → Checked β
  | ok f, ok a => ok (f a)
  | ok _, bad q => bad q
  | bad p, ok _ => bad p
  | bad p, bad q => bad (p ++ q)

instance : Applicative Checked where
  pure := ok
  seq f x := apply f (x ())

/-- Go on with a value that was read. -/
def andThen (x : Checked α) (f : α → Checked β) : Checked β :=
  match x with
  | ok a => f a
  | bad p => bad p

/-- The problems of a part, seen from the whole. -/
def within (spot : Spot) : Checked α → Checked α
  | ok a => ok a
  | bad p => bad (p.map (Problem.within spot))

/-- The value that was read, or the problems. -/
def toExcept : Checked α → Except (List Problem) α
  | ok a => .ok a
  | bad p => .error p

end Checked
end Schema
end Runbook
