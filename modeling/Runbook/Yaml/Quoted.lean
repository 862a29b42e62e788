import Runbook.Text.CodePoints
import Runbook.Text.Digits
import Runbook.Yaml.Cursor

/-!
# Quoted scalars

Texts in single and double quotes. A line end inside is folded to a space, further ones after it are
kept; double quotes have escapes, in single quotes a doubled quote is one.
-/

namespace Runbook
namespace Yaml
namespace Quoted

/-- The escapes of one letter. -/
def letterEscape? : Char → Option Char
  | '0' => some '\x00'
  | 'a' => some '\x07'
  | 'b' => some '\x08'
  | 't' => some '\t'
  | '\t' => some '\t'
  | 'n' => some '\n'
  | 'v' => some '\x0b'
  | 'f' => some '\x0c'
  | 'r' => some '\r'
  | 'e' => some '\x1b'
  | ' ' => some ' '
  | '"' => some '"'
  | '\\' => some '\\'
  | '/' => some '/'
  | 'N' => some '\u0085'
  | '_' => some '\u00a0'
  | 'L' => some '\u2028'
  | 'P' => some '\u2029'
  | _ => none

/-- The number of hexadecimal digits of an escape by code point. -/
def codeLength? : Char → Option Nat
  | 'x' => some 2
  | 'u' => some 4
  | 'U' => some 8
  | _ => none

/-- The code point in an escape. -/
def codePoint (n : Nat) : Except Error Nat :=
  if 0x80000000 ≤ n then .error .overflow
  else if 0x110000 ≤ n then .error .malformed
  else .ok n

/-- Whether a character is a space or a tab. -/
def isSpaceOrTab (c : Char) : Bool := c = ' ' || c = '\t'

/-- The line ends from a place on with blanks before them, in reverse; a document mark at the start
of a line is an error. -/
def breaks : Nat → List Char → Cursor → Except Error (List Char × Cursor)
  | 0, _, _ => .error .malformed
  | fuel + 1, acc, c =>
    if c.atDocumentMark then .error .malformed
    else
      let c := c.skipWhile isSpaceOrTab
      match c.lineBreak? with
      | some (b, c) => breaks fuel (b :: acc) c
      | none => .ok (acc, c)

/-- Read blanks between words: they stay, but a line end among them is folded. The code points of
the text so far are in reverse. -/
def spaces (acc : List Nat) (c : Cursor) : Except Error (List Nat × Cursor) :=
  let (blanks, c) := c.span isSpaceOrTab
  match c.peek with
  | none => .error .malformed
  | some _ =>
    match c.lineBreak? with
    | none => .ok (blanks.reverse.map Char.toNat ++ acc, c)
    | some (b, c) => do
      let (more, c) ← breaks (c.left + 1) [] c
      let first := if b ≠ '\n' then [b] else if more.isEmpty then [' '] else []
      return ((more ++ first).map Char.toNat ++ acc, c)

/-- Read an escape after its backslash. -/
def escape (acc : List Nat) (c : Cursor) : Except Error (List Nat × Cursor) :=
  match c.peek with
  | none => .error .malformed
  | some ch =>
    match letterEscape? ch, codeLength? ch with
    | some e, _ => .ok (e.toNat :: acc, c.advance)
    | none, some n =>
      let digits := (c.advance.rest).take n
      match hexNumber? digits with
      | some code =>
        if digits.length = n then (codePoint code).map fun code => (code :: acc, c.skip (n + 1))
        else .error .malformed
      | none => .error .malformed
    | none, none =>
      match c.lineBreak? with
      | some (_, c) => (breaks (c.left + 1) [] c).map fun p => (p.1.map Char.toNat ++ acc, p.2)
      | none => .error .malformed

/-- Read a quoted text after its opening quote. The code points of the text so far are in reverse.
-/
def body (double : Bool) : Nat → List Nat → Cursor → Except Error (List Nat × Cursor)
  | 0, _, _ => .error .malformed
  | fuel + 1, acc, c =>
    match c.peek with
    | none => .error .malformed
    | some ch =>
      if isSpaceOrTab ch || isBreak ch then do
        let (acc, c) ← spaces acc c
        body double fuel acc c
      else if double then
        if ch = '"' then .ok (acc, c.advance)
        else if ch = '\\' then do
          let (acc, c) ← escape acc c.advance
          body double fuel acc c
        else body double fuel (ch.toNat :: acc) c.advance
      else if ch = '\'' then
        if c.peekAt 1 = some '\'' then body double fuel ('\''.toNat :: acc) (c.skip 2)
        else .ok (acc, c.advance)
      else body double fuel (ch.toNat :: acc) c.advance

end Quoted

/-- Read a quoted text from its opening quote on. -/
def quotedScalar (c : Cursor) : Except Error (Text × Cursor) :=
  (Quoted.body (c.peek = some '"') (c.left + 1) [] c.advance).map fun p =>
    (.ofCodes p.1.reverse, p.2)

end Yaml
end Runbook
