import Runbook.Json.Message
import Runbook.Schema.Check
import Runbook.Text.Case
import Runbook.Yaml.Meaning

/-!
# Source texts

A definition is read from a text: as YAML when the format is named so, as JSON otherwise, and then
checked as a document.
-/

namespace Runbook

/-- Why a text is no definition. -/
inductive SourceError
  /-- The text is not of the format. -/
  | unreadable (format detail : String)
  /-- A value in the text, which is YAML, cannot be built. -/
  | unbuildable (error : Yaml.Error)
  /-- The text nests too deep. -/
  | tooDeep
  /-- The document is no definition. -/
  | invalid (problems : List Schema.Problem)
  deriving DecidableEq, Repr

namespace SourceError

/-- The wording for a text that is not of its format, or that holds no definition. -/
def message : SourceError → String
  | unreadable format detail => "Failed to parse workflow " ++ upperCase format ++ ": " ++ detail
  | invalid problems => Schema.problemsMessage problems
  | unbuildable _ => ""
  | tooDeep => Fault.bottomless.message

/-- Whether an error says that the text is at fault; a listing passes over such texts. -/
def isVerdict : SourceError → Bool
  | unreadable _ _ | invalid _ => true
  | _ => false

end SourceError

/-- The format of YAML texts. -/
def yamlFormat : String := "yaml"

/-- Read a text as a document. -/
def documentOfText [Stack] (format text : String) : Except SourceError Value :=
  if format = yamlFormat then
    match Yaml.read text.toList with
    | .ok v => .ok v
    | .error .malformed => .error (.unreadable format "")
    | .error e => .error (.unbuildable e)
  else
    match Json.read .document text.toList with
    | .ok v => .ok v
    | .error stop =>
      if stop.cause = .tooDeep then .error .tooDeep
      else .error (.unreadable format (stop.message text.toList))

/-- Check a document as a definition. -/
def Definition.ofSource (document : Value) : Except SourceError Definition :=
  (Definition.ofDocument document).mapError .invalid

/-- Read a text as a definition. -/
def Definition.ofText [Stack] (format text : String) : Except SourceError Definition := do
  Definition.ofSource (← documentOfText format text)

end Runbook
