import Runbook.Yaml.Cursor

/-!
# Block scalars

Literal and folded texts: indented lines after `|` or `>`, with indicators for the indentation and
for what becomes of the line ends at the end.
-/

namespace Runbook
namespace Yaml
namespace Block

/-- What becomes of the last line ends: one is kept, none, or all. -/
inductive Chomping
  | clip | strip | keep
  deriving DecidableEq

/-- The chomping indicator at a place. -/
def chomping? (c : Cursor) : Option Chomping :=
  match c.peek with
  | some '+' => some .keep
  | some '-' => some .strip
  | _ => none

/-- The indentation indicator at a place. -/
def increment? (c : Cursor) : Option Nat :=
  c.peek.bind fun ch => if ch.isDigit then some (ch.toNat - 48) else none

/-- Read the indicators after the bar or the angle bracket. -/
def header (c : Cursor) : Except Error (Chomping × Option Nat × Cursor) := do
  let (chomping, increment, c) :=
    match chomping? c with
    | some chomping =>
      let c := c.advance
      match increment? c with
      | some n => (chomping, some n, c.advance)
      | none => (chomping, none, c)
    | none =>
      match increment? c with
      | some n =>
        let c := c.advance
        match chomping? c with
        | some chomping => (chomping, some n, c.advance)
        | none => (Chomping.clip, some n, c)
      | none => (Chomping.clip, none, c)
  if increment = some 0 || !endsField c.peek then throw .malformed
  return (chomping, increment, c)

/-- The place after the line of the header, which may end with a comment. -/
def headerEnd (c : Cursor) : Except Error Cursor :=
  let c := c.skipSpaces
  let c := if c.peek = some '#' then c.skipToBreak else c
  if endsLine c.peek then .ok c.skipBreak else .error .malformed

/-- The place after at most as many spaces as lead to a column. -/
def skipIndent (indent : Nat) (c : Cursor) : Cursor :=
  c.skip (min (indent - c.column) (c.rest.takeWhile (· = ' ')).length)

/-- The line ends of empty lines from a place on, in reverse. -/
def breaks (indent : Nat) : Nat → List Char → Cursor → List Char × Cursor
  | 0, acc, c => (acc, c)
  | fuel + 1, acc, c =>
    let c := skipIndent indent c
    match c.lineBreak? with
    | some (b, c) => breaks indent fuel (b :: acc) c
    | none => (acc, c)

/-- The line ends of empty lines from a place on, in reverse, and the greatest column reached by
spaces. -/
def leading : Nat → List Char → Nat → Cursor → List Char × Nat × Cursor
  | 0, acc, column, c => (acc, column, c)
  | fuel + 1, acc, column, c =>
    let c := c.skipSpaces
    let column := max column c.column
    match c.lineBreak? with
    | some (b, c) => leading fuel (b :: acc) column c
    | none => (acc, column, c)

/-- Whether a line goes on with a space or a tab. -/
def startsBlank (c : Cursor) : Bool :=
  c.sees fun ch => ch = ' ' || ch = '\t'

/-- Read the lines of a text. The text so far and the line ends before the next line are in reverse;
the last line end and the line ends after it are kept apart. -/
def lines (folded : Bool) (indent : Nat) :
    Nat → List Char → List Char → Cursor → List Char × Option Char × List Char × Cursor
  | 0, acc, pending, c => (acc, none, pending, c)
  | fuel + 1, acc, pending, c =>
    if c.column ≠ indent || c.peek.isNone then (acc, none, pending, c)
    else
      let blankFirst := startsBlank c
      let (line, c) := c.span fun ch => !isBreak ch
      let acc := line.reverse ++ pending ++ acc
      let (last, c) := match c.lineBreak? with
        | some (b, c) => (some b, c)
        | none => (none, c)
      let (pending, c) := breaks indent (c.left + 1) [] c
      if c.column = indent && c.peek.isSome then
        let fold := folded && last = some '\n' && !blankFirst && !startsBlank c
        let acc :=
          if fold then (if pending.isEmpty then ' ' :: acc else acc) else last.toList ++ acc
        lines folded indent fuel acc pending c
      else (acc, last, pending, c)

end Block

open Block in
/-- Read a block text from its bar or angle bracket on, in a collection with an indentation. -/
def blockScalar (indent : Int) (c : Cursor) : Except Error (String × Cursor) := do
  let folded := c.peek = some '>'
  let (chomping, increment, c) ← header c.advance
  let c ← headerEnd c
  let least := max 1 (indent + 1).toNat
  let (pending, indent, c) := match increment with
    | none =>
      let (pending, column, c) := leading (c.left + 1) [] 0 c
      (pending, max least column, c)
    | some n =>
      let indent := least + n - 1
      let (pending, c) := breaks indent (c.left + 1) [] c
      (pending, indent, c)
  let (text, last, pending, c) := lines folded indent (c.left + 1) [] pending c
  let text := match chomping with
    | .strip => text
    | .clip => last.toList ++ text
    | .keep => pending ++ last.toList ++ text
  return (String.ofList text.reverse, c)

end Yaml
end Runbook
