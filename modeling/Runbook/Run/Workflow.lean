import Runbook.Run.Step
import Runbook.Seed

/-!
# Running workflows

The steps of a workflow are executed in order, an event before and after each. After a step that
failed the run stops or goes on as the step says. Publishing problems never affect a run; only a
cancellation does. When something started and ended is no part of a run; the report adds it.
-/

namespace Runbook
namespace Engine

variable [Stack] {σ β : Type}

/-- Publish an event, if there is anything to publish to. -/
def publish (e : Engine σ β) (event : Event) : RunM σ β Unit :=
  match e.publisher with
  | none => pure ()
  | some publisher => do
    let delivery ← modifyGet fun s =>
      let (delivery, state) := publisher s.publisher event
      (delivery, { s with publisher := state, trace := s.trace ++ [.event event s.context] })
    match delivery with
    | .delivered => pure ()
    | .failed => RunM.log (.publishFailed event.kind.name)
    | .cancelled => throw .cancelled

/-- A run with its identity: the workflow that is run and the identifier of the run. -/
structure Identity where
  workflow : String
  executionId : String

namespace Identity

/-- An event of a run. -/
def event (i : Identity) (kind : EventKind) (payload : Table String Value) : Event :=
  ⟨kind, payload, i.executionId, i.workflow⟩

/-- The event before the first step. -/
def workflowStarted (i : Identity) (steps : Nat) : Event :=
  i.event .workflowStarted [("step_count", .int steps)]

/-- The event before a step. -/
def stepStarted (i : Identity) (s : Step) : Event :=
  i.event .stepStarted [("step_id", .str s.id), ("tool", .str s.tool)]

/-- The event after a step; that of a failed step holds its error. The milliseconds that the step
took are part of the payload too. Like all readings of the clock in a run they are left out here. -/
def stepEnded (i : Identity) (r : StepResult) : Event :=
  i.event (.stepEnded r.status) ([("step_id", .str r.id), ("tool", .str r.tool)] ++
    match r.error with
    | some error => [("error", Value.str error)]
    | none => [])

/-- The event after the last step. -/
def workflowFinished (i : Identity) (t : Tally) : Event :=
  i.event .workflowFinished [("status", .str t.status.text),
    ("step_count", .int t.results.length), ("success_count", .int t.successCount)]

end Identity

/-- Run steps in order, from what the run has come to so far. -/
def runSteps (e : Engine σ β) (i : Identity) : List Step → Tally → RunM σ β Tally
  | [], t => pure t
  | step :: rest, t => do
    e.publish (i.stepStarted step)
    let (result, found) ← e.execute step
    let t := t.add result found
    e.publish (i.stepEnded result)
    if result.status = .failed then
      RunM.log (.stepFailed step.id step.policy (result.error.getD ""))
      if step.policy = .stop then return { t with status := .failed }
      else e.runSteps i rest { t with status := .mixed }
    else e.runSteps i rest t

/-- Run a workflow whose context is seeded. -/
def runSeeded (e : Engine σ β) (i : Identity) (d : Definition) : RunM σ β RunResult := do
  RunM.log (.runStarting d.name d.steps.length)
  e.publish (i.workflowStarted d.steps.length)
  let t ← e.runSteps i d.steps .start
  e.publish (i.workflowFinished t)
  RunM.log (.runFinished d.name t.status)
  return ⟨i.workflow, i.executionId, t⟩

/-- Run a workflow with variables supplied by the caller, on a context and on states of the tools
and the publisher. -/
def run (e : Engine σ β) (executionId : String) (d : Definition)
    (supplied : Table String Value) (context : Context) (tools : σ) (publisher : β) :
    EStateM.Result Abort (RunState σ β) RunResult :=
  (e.runSeeded ⟨d.name, executionId⟩ d).run
    ⟨context.seed d supplied, tools, publisher, [], []⟩

end Engine
end Runbook
