import Runbook.Text.Split
import Runbook.Value.Basic

/-!
# Paths

A path names a value inside nested mappings by its keys, separated by dots.
-/

namespace Runbook

/-- The keys that a path names, from the outside in: the texts between its dots, empty ones
included. -/
def pathKeys (path : String) : List String :=
  (pieces '.' path.toList).map String.ofList

namespace Value

/-- Follow keys into nested mappings; anything that is not a mapping has no members. -/
def follow (v : Value) : List String → Option Value
  | [] => some v
  | key :: keys => (v.member? key).bind fun w => follow w keys

/-- The value at a path, if there is one. -/
def resolve (v : Value) (path : String) : Option Value :=
  v.follow (pathKeys path)

end Value
end Runbook
