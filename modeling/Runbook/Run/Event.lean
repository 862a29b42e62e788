import Runbook.Table
import Runbook.Value.Basic

/-!
# Lifecycle events

The events that a run publishes, and the interface of what they are published to.
-/

namespace Runbook

/-- The terminal states of a step. -/
inductive StepStatus
  | success | failed | skipped
  deriving DecidableEq, Repr

/-- The word for a state. -/
def StepStatus.text : StepStatus → String
  | success => "success"
  | failed => "failed"
  | skipped => "skipped"

/-- The outcomes of a run: no step failed, some step failed, a failed step stopped the run. -/
inductive RunStatus
  | success | mixed | failed
  deriving DecidableEq, Repr

/-- The word for an outcome. -/
def RunStatus.text : RunStatus → String
  | success => "success"
  | mixed => "partial"
  | failed => "failed"

/-- The kinds of lifecycle events. -/
inductive EventKind
  | workflowStarted
  | stepStarted
  | stepEnded (status : StepStatus)
  | workflowFinished
  deriving DecidableEq, Repr

/-- The name of a kind of events. -/
def EventKind.name : EventKind → String
  | workflowStarted => "workflow.started"
  | stepStarted => "workflow.step.started"
  | stepEnded .success => "workflow.step.succeeded"
  | stepEnded .failed => "workflow.step.failed"
  | stepEnded .skipped => "workflow.step.skipped"
  | workflowFinished => "workflow.finished"

/-- Something that happened during a run. -/
structure Event where
  kind : EventKind
  payload : Table String Value
  executionId : String
  workflow : String

/-- How publishing an event ends. -/
inductive Delivery
  | delivered
  /-- An ordinary exception. -/
  | failed
  /-- A cancellation. -/
  | cancelled
  deriving DecidableEq, Repr

/-- What events are published to: any function of a state of its own. -/
abbrev Publisher (β : Type) := β → Event → Delivery × β

/-- A publisher that delivers everything and keeps no state. -/
def Publisher.delivering : Publisher Unit := fun s _ => (.delivered, s)

end Runbook
