import Runbook.Condition
import Runbook.Placeholder
import Runbook.Run.Log
import Runbook.Tool

/-!
# Executing steps

A step is skipped when its condition is false. Otherwise its tool is called once, with the
placeholders of its parameters replaced; if the call succeeds, the context gets a record of the step
and the variables of its output mapping, and if it fails, the context stays as it is. The text of a
failure is asked for where nothing catches an exception.
-/

namespace Runbook

/-- What happens during a run, with the context at that moment. -/
inductive Happening
  | call (tool : String) (parameters : Table String Value) (context : Context)
  | event (e : Event) (context : Context)

/-- Why a run ends without result. -/
inductive Abort
  | fault (f : Fault)
  | cancelled
  /-- An exception of a kind, raised where the text of a tool's exception was asked for. -/
  | raised (kind : String)
  deriving DecidableEq, Repr

/-- The state of a run: its context, the states of the tools and of the publisher, everything that
happened and everything that was logged. -/
structure RunState (σ β : Type) where
  context : Context
  tools : σ
  publisher : β
  trace : List Happening
  log : List LogEntry

/-- A part of a run. -/
abbrev RunM (σ β : Type) := EStateM Abort (RunState σ β)

/-- What a run needs: tools, the publisher if there is one, and the greatest length of summaries. -/
structure Engine (σ β : Type) where
  tools : Tools σ
  publisher : Option (Publisher β)
  summaryLength : Nat

/-- Why a tool call failed, or the text of its response; neither if the run ends with the call. -/
def Outcome.text (tool : String) : Outcome → Except (Option String) String
  | .returned r =>
    match Response.ofReturned r with
    | .error m => .error (some m.message)
    | .ok response =>
      if response.isError then
        .error (some (if response.text = "" then "ToolInvocationError" else response.text))
      else .ok response.text
  | .raised kind (.ok message) => .error (some (if message = "" then kind else message))
  | .raised _ (.error _) => .error none
  | .cancelled message =>
    .error (some (if message = "" then "Tool " ++ tool ++ " was cancelled" else message))
  | .interrupted => .error none

/-- What a run ends with that ends with a tool call. -/
def Outcome.abort : Outcome → Abort
  | .raised _ (.error kind) => .raised kind
  | _ => .cancelled

namespace Context

/-- Write one variable of an output mapping: the value at its path, or nothing. -/
def mapVariable (output : Value) (vars : Table String Value) (e : String × String) :
    Table String Value :=
  match output.resolve e.2 with
  | some v => vars.set e.1 v
  | none => vars.erase e.1

/-- The context after a step succeeded with a text. -/
def complete [Stack] (c : Context) (s : Step) (raw : String) : Context :=
  let record := Record.ofText raw
  { steps := c.steps.set s.id record
    vars := s.mapping.foldl (mapVariable record.output.value) c.vars }

/-- Replace the placeholders in the values of a table. -/
def substituteTable [Stack] (c : Context) : Table String Value → Except Fault (Table String Value)
  | [] => .ok []
  | (key, v) :: r => do
    let first ← c.fill v
    let others ← substituteTable c r
    return (key, first) :: others

end Context

namespace Step

/-- Whether the condition of a step is false. -/
def isSkipped [Stack] (s : Step) (c : Context) : Except Fault Bool :=
  match s.guard? with
  | some condition => (c.judge condition).map (!·)
  | none => .ok false

/-- The result of a step that was skipped. -/
def skippedResult (s : Step) (condition : String) : StepResult :=
  ⟨s.id, s.name, s.tool, .skipped, some ("Skipped: condition \"" ++ condition ++ "\" was false"),
    none⟩

/-- The result of a step that failed. -/
def failedResult (s : Step) (error : String) : StepResult :=
  ⟨s.id, s.name, s.tool, .failed, none, some error⟩

/-- The result of a step that succeeded. -/
def successResult (s : Step) (summary : String) : StepResult :=
  ⟨s.id, s.name, s.tool, .success, some summary, none⟩

end Step

namespace RunM

variable {σ β α : Type}

/-- Go on unless there is a fault. -/
def orFault (x : Except Fault α) : RunM σ β α :=
  match x with
  | .ok a => pure a
  | .error f => throw (.fault f)

/-- Log an entry. -/
def log (entry : LogEntry) : RunM σ β Unit :=
  modify fun s => { s with log := s.log ++ [entry] }

end RunM

namespace Engine

variable [Stack] {σ β : Type}

/-- Call a tool; the call becomes part of the trace. -/
def call (e : Engine σ β) (tool : String) (parameters : Table String Value) :
    RunM σ β Outcome :=
  modifyGet fun s =>
    let (outcome, tools) := e.tools s.tools tool parameters
    (outcome, { s with tools, trace := s.trace ++ [.call tool parameters s.context] })

/-- Call the tool of a step, and record what it answers. -/
def invoke (e : Engine σ β) (step : Step) (parameters : Table String Value) :
    RunM σ β (StepResult × List Resource) := do
  let outcome ← e.call step.tool parameters
  match outcome.text step.tool with
  | .ok raw =>
    modify fun s => { s with context := s.context.complete step raw }
    return (step.successResult (String.ofList (raw.toList.take e.summaryLength)),
      resourcesOf raw)
  | .error (some error) =>
    RunM.log (.toolFailed step.id step.tool error)
    return (step.failedResult error, [])
  | .error none => throw outcome.abort

/-- Execute a step. -/
def execute (e : Engine σ β) (step : Step) : RunM σ β (StepResult × List Resource) := do
  let context := (← get).context
  if ← RunM.orFault (step.isSkipped context) then
    let condition := step.guard?.getD ""
    RunM.log (.stepSkipped step.id condition)
    return (step.skippedResult condition, [])
  else
    let parameters ← RunM.orFault (context.substituteTable step.parameters)
    e.invoke step parameters

end Engine
end Runbook
