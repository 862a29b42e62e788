import Runbook.Yaml.Cursor

/-!
# Plain scalars

Texts without quotes. They end before a colon or a number sign that stands apart, inside flow
collections also before an indicator, and at a line that is not indented enough; line ends inside
are folded.
-/

namespace Runbook
namespace Yaml
namespace Plain

/-- Whether a plain text inside flow collections ends at a character. -/
def isFlowIndicator (c : Char) : Bool :=
  c = ',' || c = '[' || c = ']' || c = '{' || c = '}'

/-- The characters of a plain text up to its next blank or its end. -/
def word (inFlow : Bool) : List Char → List Char
  | [] => []
  | c :: r =>
    if endsWord (some c) then []
    else if c = ':' && (endsWord r.head? || (inFlow && r.head?.any isFlowIndicator)) then []
    else if inFlow && (isFlowIndicator c || c = '?') then []
    else c :: word inFlow r

/-- The line ends after the first one, in reverse, with the spaces around them left out; none if a
document mark follows a line end. -/
def breaks : Nat → List Char → Cursor → Option (List Char) × Cursor
  | 0, acc, c => (some acc, c)
  | fuel + 1, acc, c =>
    let c := c.skipSpaces
    match c.lineBreak? with
    | some (b, c) => if c.atDocumentMark then (none, c) else breaks fuel (b :: acc) c
    | none => (some acc, c)

/-- What a plain text goes on with after a word, in reverse: spaces, or folded line ends. The flag
says whether a line end was passed. -/
def spaces (c : Cursor) : List Char × Bool × Cursor :=
  let (blanks, c) := c.span (· = ' ')
  match c.lineBreak? with
  | none => (blanks, false, c)
  | some (b, c) =>
    if c.atDocumentMark then ([], true, c)
    else
      match breaks (c.left + 1) [] c with
      | (none, c) => ([], true, c)
      | (some more, c) =>
        let first := if b ≠ '\n' then [b] else if more.isEmpty then [' '] else []
        (more ++ first, true, c)

/-- Read the words of a plain text. The text so far is in reverse, `pending` is what stands between
it and the next word, and the flag says whether a line end was passed after the last word. -/
def words (inFlow : Bool) (indent : Int) :
    Nat → List Char → List Char → Bool → Cursor → List Char × Bool × Cursor
  | 0, acc, _, passed, c => (acc, passed, c)
  | fuel + 1, acc, pending, passed, c =>
    if c.peek = some '#' then (acc, passed, c)
    else
      let w := word inFlow c.rest
      if w.isEmpty then (acc, passed, c)
      else
        let acc := w.reverse ++ pending ++ acc
        let (pending, passed, c) := spaces (c.skip w.length)
        if pending.isEmpty || c.peek = some '#' || (!inFlow && (c.column : Int) < indent) then
          (acc, passed, c)
        else words inFlow indent fuel acc pending passed c

end Plain

/-- Read a plain text in a collection with an indentation. The flag says whether a line end was
passed after its last word. -/
def plainScalar (inFlow : Bool) (indent : Int) (c : Cursor) : String × Bool × Cursor :=
  let (text, passed, c) := Plain.words inFlow (indent + 1) (c.left + 1) [] [] false c
  (String.ofList text.reverse, passed, c)

end Yaml
end Runbook
