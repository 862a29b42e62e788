import Runbook.Schema.Problem
import Runbook.Text.DecimalDigit

/-!
# Patterns of names

What the names of workflows, the identifiers of steps and versions look like. A pattern always
describes a whole text.
-/

namespace Runbook
namespace Schema

/-- Whether a character is a lower-case ASCII letter. -/
def isLowerLetter (c : Char) : Bool :=
  'a' ≤ c && c ≤ 'z'

/-- Whether a character may start the name of a workflow. -/
def isNameStart (c : Char) : Bool :=
  isLowerLetter c || c.isDigit

/-- Lower-case letters, digits and hyphens, at least one and no hyphen first. -/
def isWorkflowName : List Char → Bool
  | [] => false
  | c :: r => isNameStart c && r.all fun c => isNameStart c || c = '-'

/-- Lower-case letters, digits and underscores, at least one and no digit first. -/
def isStepId : List Char → Bool
  | [] => false
  | c :: r => (isLowerLetter c || c = '_') && r.all fun c => isNameStart c || c = '_'

/-- Digits of any script, at least one, and then as many further runs of them after points. -/
def isDotted : Nat → List Char → Bool
  | points, cs =>
    !(cs.takeWhile isDecimalDigit).isEmpty &&
      match points, cs.dropWhile isDecimalDigit with
      | 0, [] => true
      | points + 1, '.' :: r => isDotted points r
      | _, _ => false

/-- Whether a text matches a pattern. -/
def Pattern.matches : Pattern → List Char → Bool
  | workflowName => isWorkflowName
  | stepId => isStepId
  | version => isDotted 2

end Schema
end Runbook
