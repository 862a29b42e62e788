import Runbook.Text.CodePoints
import Runbook.Text.Digits
import Runbook.Text.Utf8
import Runbook.Yaml.Cursor

/-!
# Tokens

What a YAML text consists of, and the reading of those tokens that are words with a mark before
them: directives, anchors, aliases and tags.
-/

namespace Runbook
namespace Yaml

/-- A token. -/
inductive Token
  | versionDirective (major : Nat)
  | tagDirective (handle start : String)
  | otherDirective
  | documentStart
  | documentEnd
  | textEnd
  /-- The start of a sequence in block style. -/
  | sequenceStart
  /-- The start of a mapping in block style. -/
  | mappingStart
  /-- The end of a collection in block style. -/
  | blockEnd
  | bracketOpen
  | bracketClose
  | braceOpen
  | braceClose
  /-- A hyphen before an item. -/
  | item
  | comma
  | key
  | value
  | alias (name : String)
  | anchor (name : String)
  | tag (handle : Option String) (suffix : String)
  | scalar (text : Text) (plain : Bool)
  /-- The place from which on the text cannot be read. -/
  | fault (error : Error)
  deriving DecidableEq, Repr

/-- Whether a character may stand in the name of an anchor, a directive or a tag handle. -/
def isNameChar (c : Char) : Bool :=
  c.isAlphanum || c = '-' || c = '_'

namespace Cursor

/-- Read a name of at least one character. -/
def name (c : Cursor) : Except Error (String × Cursor) :=
  let (cs, c) := c.span isNameChar
  if cs.isEmpty then .error .malformed else .ok (String.ofList cs, c)

/-! ### Anchors and aliases -/

/-- Whether the name of an anchor may be followed by a character. -/
def endsAnchor (c : Option Char) : Bool :=
  endsWord c || c.any "?:,]\x7d%@`".toList.contains

/-- Read the name after an ampersand or an asterisk. -/
def anchorName (c : Cursor) : Except Error (String × Cursor) := do
  let (name, c) ← c.advance.name
  if endsAnchor c.peek then return (name, c) else throw .malformed

/-! ### Tags -/

/-- Whether a character may stand in the suffix of a tag. -/
def isTagChar (c : Char) : Bool :=
  c.isAlphanum || "-;/?:@&=+$,_.!~*'()[]".toList.contains c

/-- The bytes of escapes from a place on, in reverse. -/
def escapedBytes : Nat → List UInt8 → Cursor → Except Error (List UInt8 × Cursor)
  | 0, _, _ => .error .malformed
  | fuel + 1, acc, c =>
    match c.rest with
    | '%' :: x :: y :: _ =>
      match hexNumber? [x, y] with
      | some n => escapedBytes fuel (n.toUInt8 :: acc) (c.skip 3)
      | none => .error .malformed
    | '%' :: _ => .error .malformed
    | _ => .ok (acc, c)

/-- The characters of a tag from a place on, in reverse; a run of escapes is text in UTF-8. -/
def tagChars : Nat → List Char → Cursor → Except Error (List Char × Cursor)
  | 0, _, _ => .error .malformed
  | fuel + 1, acc, c =>
    match c.peek with
    | none => .ok (acc, c)
    | some ch =>
      if ch = '%' then do
        let (bytes, c) ← escapedBytes (c.left + 1) [] c
        match decodeUtf8? bytes.reverse with
        | some s => tagChars fuel (s.toList.reverse ++ acc) c
        | none => throw .malformed
      else if isTagChar ch then tagChars fuel (ch :: acc) c.advance
      else .ok (acc, c)

/-- Read the suffix of a tag, at least one character. -/
def tagSuffix (c : Cursor) : Except Error (String × Cursor) := do
  let (cs, after) ← tagChars (c.left + 1) [] c
  if after.left = c.left then throw .malformed
  return (String.ofList cs.reverse, after)

/-- Read a handle from its exclamation mark on: one mark alone, or a name between two. -/
def tagHandle (c : Cursor) : Except Error (String × Cursor) :=
  if c.peekAt 1 = some ' ' then .ok ("!", c.advance)
  else
    let (cs, after) := c.advance.span isNameChar
    if after.peek = some '!' then .ok ("!" ++ String.ofList cs ++ "!", after.advance)
    else .error .malformed

/-- Whether another exclamation mark stands before the next space or line end. -/
def hasSecondMark (c : Cursor) : Bool :=
  (c.advance.rest.takeWhile fun ch => !endsField (some ch)).contains '!'

/-- Read a tag from its exclamation mark on. -/
def tagToken (c : Cursor) : Except Error (Token × Cursor) := do
  let (token, c) ←
    if c.peekAt 1 = some '<' then do
      let (suffix, c) ← (c.skip 2).tagSuffix
      if c.peek = some '>' then pure (Token.tag none suffix, c.advance) else throw .malformed
    else if endsWord (c.peekAt 1) then pure (Token.tag none "!", c.advance)
    else do
      let (handle, c) ← if c.hasSecondMark then c.tagHandle else pure ("!", c.advance)
      let (suffix, c) ← c.tagSuffix
      pure (Token.tag (some handle) suffix, c)
  if endsField c.peek then return (token, c) else throw .malformed

/-! ### Directives -/

/-- Read a number of a version. -/
def versionNumber (c : Cursor) : Except Error (Nat × Cursor) :=
  let (digits, c) := c.span Char.isDigit
  if digits.isEmpty || 4300 < digits.length then .error .malformed
  else .ok (natOfDigits digits, c)

/-- Read the version in a directive. -/
def versionDirective (c : Cursor) : Except Error (Token × Cursor) := do
  let (major, c) ← c.skipSpaces.versionNumber
  if c.peek ≠ some '.' then throw .malformed
  let (_, c) ← c.advance.versionNumber
  if endsField c.peek then return (.versionDirective major, c) else throw .malformed

/-- Read what a directive says about a tag handle. -/
def tagDirective (c : Cursor) : Except Error (Token × Cursor) := do
  if c.skipSpaces.peek ≠ some '!' then throw .malformed
  let (handle, c) ← c.skipSpaces.tagHandle
  if c.peek ≠ some ' ' then throw .malformed
  let (start, c) ← c.skipSpaces.tagSuffix
  if endsField c.peek then return (.tagDirective handle start, c) else throw .malformed

/-- The place after the line of a directive, which may end with a comment. -/
def directiveEnd (c : Cursor) : Except Error Cursor :=
  let c := c.skipSpaces
  let c := if c.peek = some '#' then c.skipToBreak else c
  if endsLine c.peek then .ok c.skipBreak else .error .malformed

/-- Read a directive from its percent sign on. -/
def directive (c : Cursor) : Except Error (Token × Cursor) := do
  let (name, c) ← c.advance.name
  if !endsField c.peek then throw .malformed
  let (token, c) ←
    if name = "YAML" then c.versionDirective
    else if name = "TAG" then c.tagDirective
    else pure (.otherDirective, c.skipToBreak)
  return (token, ← c.directiveEnd)

end Cursor
end Yaml
end Runbook
