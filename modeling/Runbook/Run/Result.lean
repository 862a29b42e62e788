import Runbook.Resource
import Runbook.Run.Event

/-!
# Results of runs
-/

namespace Runbook

/-- The result of a step. -/
structure StepResult where
  id : String
  name : String
  tool : String
  status : StepStatus
  summary : Option String
  error : Option String
  deriving DecidableEq, Repr

/-- What a run has come to so far. -/
structure Tally where
  results : List StepResult
  resources : List Resource
  status : RunStatus
  deriving DecidableEq, Repr

namespace Tally

/-- The tally before the first step. -/
def start : Tally := ⟨[], [], .success⟩

/-- The tally after one more step. -/
def add (t : Tally) (result : StepResult) (found : List Resource) : Tally :=
  { t with results := t.results ++ [result], resources := t.resources ++ found }

/-- How many steps succeeded. -/
def successCount (t : Tally) : Nat :=
  (t.results.filter (·.status = .success)).length

end Tally

/-- The result of a run. -/
structure RunResult where
  workflow : String
  executionId : String
  tally : Tally
  deriving DecidableEq, Repr

end Runbook
