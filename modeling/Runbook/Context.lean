import Runbook.Output
import Runbook.Path
import Runbook.Table

/-!
# Contexts

The state of a run: the variables and the records of the steps that succeeded.
-/

namespace Runbook

/-- What a step that succeeded has left: its output and the text it was read from. -/
structure Record where
  output : Output
  raw : String
  deriving Inhabited

namespace Record

/-- The record of a text. -/
def ofText [Stack] (raw : String) : Record :=
  ⟨Output.ofText raw, raw⟩

/-- The value that paths see. -/
def value (r : Record) : Value :=
  .ofFields [("output", r.output.value), ("raw", .str r.raw)]

end Record

/-- The variables and the step records of a run. -/
structure Context where
  vars : Table String Value
  steps : Table String Record
  deriving Inhabited

namespace Context

/-- The context without variables or records. -/
def empty : Context := ⟨[], []⟩

/-- The value that paths of placeholders and conditions start from. -/
def tree (c : Context) : Value :=
  .ofFields [
    ("variables", .ofFields c.vars),
    ("steps", .ofFields (c.steps.map fun e => (e.1, e.2.value)))]

end Context
end Runbook
