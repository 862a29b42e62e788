import Runbook.Definition
import Runbook.Value.Coercion
import Runbook.Value.Depth

/-!
# Plans

The plan of a workflow for a human reader: its variables with the values they would have, and its
steps in order.
-/

namespace Runbook

variable [Stack]

namespace Plan

/-- What every plan ends with. -/
def footer : String :=
  "Execute each step in order using the specified MCP tool. Resolve $\x7b…\x7d placeholders " ++
    "from previous step outputs and supplied variables. Skip steps whose conditions are not met."

/-- The text of a variable, if the stack has room. -/
def shownText (v : Value) : Except Fault String :=
  if v.depth ≤ Stack.shown then v.stringify else .error .tooDeep

/-- The shown value of a declared variable: the supplied one, else its default. -/
def shownValue (supplied : Table String Value) (name : String) (v : Variable) :
    Except Fault String :=
  match supplied.get? name with
  | some given => shownText given
  | none =>
    match v.default with
    | some default => do return (← shownText default) ++ " (default)"
    | none => .ok "(not set)"

/-- The line of a declared variable. -/
def variableLine (supplied : Table String Value) (e : String × Variable) : Except Fault String := do
  let value ← shownValue supplied e.1 e.2
  let marker := if e.2.isRequired then " [required]" else ""
  return "  • " ++ e.1 ++ marker ++ ": " ++ value

/-- The lines of the declared variables. -/
def declarationLines (d : Definition) (supplied : Table String Value) : Except Fault String := do
  if d.declared.isEmpty then return "  (none)"
  let lines ← d.declared.mapM (variableLine supplied)
  return "\n".intercalate lines

/-- The text of a parameter, if the stack has room. -/
def parameterText (v : Value) : Except Fault String :=
  if v.depth ≤ Stack.line then Json.text .spaced v else .error .tooDeep

/-- The line of a parameter. -/
def parameterLine (e : String × Value) : Except Fault String := do
  return "      " ++ e.1 ++ ": " ++ (← parameterText e.2)

/-- The lines of a step. -/
def stepSection (index : Nat) (s : Step) : Except Fault String := do
  let parameters ← s.parameters.mapM parameterLine
  let condition := match s.guard? with
    | some text => "\n    Condition: " ++ text
    | none => ""
  let onError := match s.onError with
    | some policy => "\n    On error: " ++ policy.text
    | none => ""
  return "  " ++ padLeft 1 index ++ ". [" ++ s.id ++ "] " ++ s.name ++ "\n    Tool: " ++ s.tool ++
    "\n    Parameters:\n" ++ "\n".intercalate parameters ++ condition ++ onError

/-- The sections of steps, numbered from an index. -/
def stepSections : Nat → List Step → Except Fault (List String)
  | _, [] => .ok []
  | i, s :: r => do
    let first ← stepSection i s
    let others ← stepSections (i + 1) r
    return first :: others

end Plan

/-- The plan of a workflow. -/
def Definition.plan (d : Definition) (supplied : Table String Value) : Except Fault String := do
  let steps ← Plan.stepSections 1 d.steps
  let declared ← Plan.declarationLines d supplied
  return "\n".intercalate [
    "## Workflow Plan: " ++ d.name, "", d.description, "", "### Variables", declared, "",
    "### Steps", "\n\n".intercalate steps, "", "---", Plan.footer]

end Runbook
