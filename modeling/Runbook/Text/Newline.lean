/-!
# Line ends

Files may end their lines with a line feed, a carriage return or both; read as text, all are line
feeds.
-/

namespace Runbook

/-- Replace every line end by a line feed. -/
def unifyLineEnds : List Char → List Char
  | [] => []
  | '\r' :: '\n' :: r => '\n' :: unifyLineEnds r
  | c :: r => (if c = '\r' then '\n' else c) :: unifyLineEnds r

/-- A text without a line feed at its end. -/
def dropLineEnd (cs : List Char) : List Char :=
  if cs.getLast? = some '\n' then cs.dropLast else cs

end Runbook
