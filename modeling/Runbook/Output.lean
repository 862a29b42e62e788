import Runbook.Json.Reader

/-!
# Step outputs

The output of a step is read as JSON when it is JSON and kept as a text otherwise.
-/

namespace Runbook

/-- The output of a step. -/
inductive Output
  | parsed (v : Value)
  | raw (text : String)
  deriving Inhabited

namespace Output

/-- Read the text that a tool answered with. -/
def ofText [Stack] (text : String) : Output :=
  match Json.read .output text.toList with
  | .ok v => parsed v
  | .error _ => raw text

/-- The value that paths see. -/
def value : Output → Value
  | parsed v => v
  | raw text => .str text

end Output
end Runbook
