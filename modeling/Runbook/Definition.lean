import Runbook.Table
import Runbook.Value.Basic

/-!
# Workflow definitions

A workflow declares variables and lists steps; a step calls a tool. An optional field is `none` when
the document did not set it, which is kept apart from a field that is set to null.
-/

namespace Runbook

/-- The types of variables. -/
inductive VariableType
  | string | number | boolean | object
  deriving DecidableEq, Repr

/-- The word for a variable type. -/
def VariableType.text : VariableType → String
  | string => "string"
  | number => "number"
  | boolean => "boolean"
  | object => "object"

/-- What happens after a step fails. -/
inductive Policy
  | stop | skip | «continue»
  deriving DecidableEq, Repr

/-- The word for a policy. -/
def Policy.text : Policy → String
  | stop => "stop"
  | skip => "skip"
  | «continue» => "continue"

/-- A declared variable. -/
structure Variable where
  description : String
  type : VariableType
  default : Option Value
  required : Option Bool

/-- Whether a variable has to be supplied. -/
def Variable.isRequired (v : Variable) : Bool :=
  v.required.getD false

/-- A step of a workflow. -/
structure Step where
  id : String
  name : String
  tool : String
  parameters : Table String Value
  condition : Option (Option String)
  outputMapping : Option (Table String String)
  onError : Option Policy

namespace Step

/-- The condition of a step; an empty one is none. -/
def guard? (s : Step) : Option String :=
  s.condition.join.filter (· ≠ "")

/-- The variables that the output of a step is written to, with the paths of their values. -/
def mapping (s : Step) : Table String String :=
  s.outputMapping.getD []

/-- What happens after a step fails; unless set, the run stops. -/
def policy (s : Step) : Policy :=
  s.onError.getD .stop

end Step

/-- A workflow. -/
structure Definition where
  name : String
  description : String
  version : Option (Option String)
  declarations : Option (Table String Variable)
  steps : List Step

namespace Definition

/-- The declared variables. -/
def declared (d : Definition) : Table String Variable :=
  d.declarations.getD []

end Definition
end Runbook
