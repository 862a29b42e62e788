import Runbook.Clock
import Runbook.Run.Result

/-!
# Reports

The report of a run: its result and the results of its steps, with their times. There is no report
if one of the times cannot be told in UTC.
-/

namespace Runbook

/-- When something started and ended, and the milliseconds that it took. -/
structure Span where
  startedAt : Reading
  completedAt : Reading
  durationMs : Int

namespace Span

/-- The span between two readings. -/
def between (start finish : Reading) : Span :=
  ⟨start, finish, start.elapsedMs finish⟩

/-- The members of a report that tell the times. -/
def fields? (s : Span) : Option (List (String × Value)) := do
  let started ← s.startedAt.stamp?
  let completed ← s.completedAt.stamp?
  return [("started_at", .str started), ("completed_at", .str completed),
    ("duration_ms", .int s.durationMs)]

end Span

/-- A member that is written only when it is there. -/
def textField (name : String) : Option String → List (String × Value)
  | some s => [(name, .str s)]
  | none => []

/-- The report of a step that took a span. -/
def StepResult.report? (r : StepResult) (span : Span) : Option Value := do
  let times ← span.fields?
  return .ofFields ([("id", .str r.id), ("name", .str r.name), ("tool", .str r.tool),
    ("status", .str r.status.text)] ++ times ++ textField "output_summary" r.summary ++
    textField "error" r.error)

/-- The report of a resource, with the identifier that stands for one that has to be generated. -/
def Resource.report (generated : String) (r : Resource) : Value :=
  .ofFields [("type", .str r.kind.text), ("id", .str (r.id.getD generated)),
    ("name", .str r.name), ("url", .str r.url)]

/-- A run with its times. -/
structure Report where
  workflow : String
  executionId : String
  status : RunStatus
  span : Span
  steps : List (StepResult × Span)
  resources : List Resource

/-- The document of a report. -/
def Report.document? (generated : String) (r : Report) : Option Value := do
  let times ← r.span.fields?
  let steps ← r.steps.mapM fun e => e.1.report? e.2
  return .ofFields ([("workflow_name", .str r.workflow), ("execution_id", .str r.executionId),
    ("status", .str r.status.text)] ++ times ++
    [("steps", .list steps),
      ("created_resources", .list (r.resources.map (Resource.report generated)))])

end Runbook
