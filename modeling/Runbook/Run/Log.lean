import Runbook.Definition
import Runbook.Run.Result
import Runbook.Text.Quoted

/-!
# Log entries of runs

What a run logs, with the level, the logger and the wording of each entry.
-/

namespace Runbook

/-- The levels of log entries. -/
inductive LogLevel
  | debug | info | warning | error | critical
  deriving DecidableEq, Repr

namespace LogLevel

/-- The name of a level. -/
def text : LogLevel → String
  | debug => "DEBUG"
  | info => "INFO"
  | warning => "WARNING"
  | error => "ERROR"
  | critical => "CRITICAL"

/-- The rank of a level. -/
def rank : LogLevel → Nat
  | debug => 10
  | info => 20
  | warning => 30
  | error => 40
  | critical => 50

/-- The levels in order of rank. -/
def all : List LogLevel := [debug, info, warning, error, critical]

/-- The level of a name. -/
def ofText? (s : String) : Option LogLevel :=
  all.find? fun level => level.text = s

end LogLevel

/-- What a run logs. -/
inductive LogEntry
  | runStarting (workflow : String) (steps : Nat)
  | stepSkipped (step condition : String)
  | toolFailed (step tool error : String)
  | stepFailed (step : String) (policy : Policy) (error : String)
  | publishFailed (event : String)
  | runFinished (workflow : String) (status : RunStatus)
  deriving DecidableEq, Repr

namespace LogEntry

/-- The level of an entry. -/
def level : LogEntry → LogLevel
  | runStarting _ _ => .info
  | stepSkipped _ _ => .info
  | toolFailed _ _ _ => .warning
  | stepFailed _ _ _ => .warning
  | publishFailed _ => .error
  | runFinished _ _ => .info

/-- The logger of an entry. -/
def logger : LogEntry → String
  | stepSkipped _ _ => "o11y_workflows.executor"
  | toolFailed _ _ _ => "o11y_workflows.executor"
  | _ => "o11y_workflows.runner"

/-- The wording of an entry of a run with an identifier and a duration. -/
def message (executionId durationMs : String) : LogEntry → String
  | runStarting workflow steps =>
    "workflow_starting execution_id=" ++ executionId ++ " workflow_name=" ++ workflow ++
      " step_count=" ++ padLeft 1 steps
  | stepSkipped step condition =>
    "step_skipped step_id=" ++ step ++ " condition=" ++ quoted condition
  | toolFailed step tool error =>
    "step_failed step_id=" ++ step ++ " tool=" ++ tool ++ " error=" ++ error
  | stepFailed step policy error =>
    "workflow_step_failed execution_id=" ++ executionId ++ " step_id=" ++ step ++
      " on_error=" ++ policy.text ++ " error=" ++ error
  | publishFailed event => "event_publish_failed event_name=" ++ event
  | runFinished workflow status =>
    "workflow_finished execution_id=" ++ executionId ++ " workflow_name=" ++ workflow ++
      " status=" ++ status.text ++ " duration_ms=" ++ durationMs

end LogEntry
end Runbook
