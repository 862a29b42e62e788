import Runbook.Yaml.Block
import Runbook.Yaml.Plain
import Runbook.Yaml.Quoted
import Runbook.Yaml.Token

/-!
# The tokens of a text

A text is cut into tokens from left to right. Indentation opens and closes block collections, and a
colon can show that what stands before it on its line was a key; then the key's mark, and the start
of a mapping if the key begins one, are put in front of it afterwards.
-/

namespace Runbook
namespace Yaml

/-- A place where a key may begin. -/
structure KeyStart where
  /-- The number of tokens before it. -/
  position : Nat
  /-- Whether nothing but a key may begin there. -/
  required : Bool
  place : Cursor

/-- A key stands on one line and in no more characters than this. -/
def keyLimit : Nat := 1024

/-- Whether a key that began there would have ended before a place. -/
def KeyStart.isOver (k : KeyStart) (c : Cursor) : Bool :=
  k.place.line ≠ c.line || keyLimit < k.place.left - c.left

/-- A text of which a part has been cut into tokens. -/
structure Scan where
  cursor : Cursor
  tokens : Array Token
  /-- The column of the innermost block collection, -1 outside. -/
  indent : Int
  /-- The columns around it, from the inside out. -/
  outer : List Int
  /-- Whether a key may begin here. -/
  keyAllowed : Bool
  /-- Where a key may have begun in the innermost flow collection, or outside all of them. -/
  key : Option KeyStart
  /-- The same for the flow collections around it, from the inside out. -/
  outerKeys : List (Option KeyStart)

namespace Scan

/-- The start of a text. -/
def start (cs : List Char) : Scan :=
  ⟨.start cs, #[], -1, [], true, none, []⟩

/-- Whether the place is inside a flow collection. -/
def inFlow (s : Scan) : Bool := !s.outerKeys.isEmpty

/-- Append a token and go on from a place. -/
def push (s : Scan) (t : Token) (c : Cursor) : Scan :=
  { s with tokens := s.tokens.push t, cursor := c }

/-- Append a token of some characters. -/
def pushMark (s : Scan) (t : Token) (length : Nat) : Scan :=
  s.push t (s.cursor.skip length)

/-- Insert a token before the ones from a position on. -/
def insert (s : Scan) (position : Nat) (t : Token) : Scan :=
  { s with tokens := s.tokens.insertIdxIfInBounds position t }

/-- Set whether a key may begin here. -/
def allowKey (s : Scan) (b : Bool) : Scan := { s with keyAllowed := b }

/-! ### Keys -/

/-- A key start that is given up must not be a required one. -/
def giveUp : Option KeyStart → Except Error (Option KeyStart)
  | some k => if k.required then .error .malformed else .ok none
  | none => .ok none

/-- Give up the key start of the innermost collection. -/
def forgetKey (s : Scan) : Except Error Scan := do
  return { s with key := ← giveUp s.key }

/-- A key may begin here, if one is allowed. -/
def markKey (s : Scan) : Except Error Scan := do
  if s.keyAllowed then
    let s ← s.forgetKey
    let required := !s.inFlow && s.indent = s.cursor.column
    return { s with key := some ⟨s.tokens.size, required, s.cursor⟩ }
  else return s

/-- Give up the key starts that are over. -/
def forgetOver (s : Scan) : Except Error Scan := do
  let keep (k : Option KeyStart) : Except Error (Option KeyStart) :=
    if k.any (·.isOver s.cursor) then giveUp k else .ok k
  return { s with key := ← keep s.key, outerKeys := ← s.outerKeys.mapM keep }

/-- The number of tokens in front of which nothing can be put any more. -/
def settled (s : Scan) : Nat :=
  let starts := (s.key :: s.outerKeys).filterMap fun k =>
    k.bind fun k => if k.isOver s.cursor then none else some k.position
  starts.foldl min s.tokens.size

/-! ### Indentation -/

/-- Close the block collections that are further right than a column. -/
def closeBlocks (column : Int) : Int → List Int → Array Token → Int × List Int × Array Token
  | indent, [], tokens => (indent, [], tokens)
  | indent, i :: outer, tokens =>
    if indent ≤ column then (indent, i :: outer, tokens)
    else closeBlocks column i outer (tokens.push .blockEnd)

@[inherit_doc closeBlocks]
def unindent (s : Scan) (column : Int) : Scan :=
  if s.inFlow then s
  else
    let (indent, outer, tokens) := closeBlocks column s.indent s.outer s.tokens
    { s with indent := indent, outer := outer, tokens := tokens }

/-- Open a block collection at a column, unless one is open there, with a token put before the ones
from a position on. -/
def openBlock (s : Scan) (column : Nat) (position : Nat) (t : Token) : Scan :=
  if !s.inFlow && s.indent < column then
    { s with indent := column, outer := s.indent :: s.outer }.insert position t
  else s

/-! ### Marks -/

/-- The place after spaces, comments and empty lines. In block style a key may begin on a new
line. -/
def skipToToken : Nat → Scan → Scan
  | 0, s => s
  | fuel + 1, s =>
    let c := s.cursor.skipSpaces
    let c := if c.peek = some '#' then c.skipToBreak else c
    match c.lineBreak? with
    | some (_, c) =>
      skipToToken fuel { s with cursor := c, keyAllowed := s.keyAllowed || !s.inFlow }
    | none => { s with cursor := c }

/-- Read a mark that stands between documents. -/
def documentToken (s : Scan) (read : Cursor → Except Error (Token × Cursor)) :
    Except Error Scan := do
  let s ← (s.unindent (-1)).forgetKey
  let (t, c) ← read s.cursor
  return (s.allowKey false).push t c

/-- Read the opening mark of a flow collection. -/
def openFlow (s : Scan) (t : Token) : Except Error Scan := do
  let s ← s.markKey
  return {
    (s.pushMark t 1) with
    keyAllowed := true, key := none, outerKeys := s.key :: s.outerKeys }

/-- Read the closing mark of a flow collection. -/
def closeFlow (s : Scan) (t : Token) : Except Error Scan := do
  let s ← s.forgetKey
  match s.outerKeys with
  | key :: outerKeys =>
    return { (s.pushMark t 1) with keyAllowed := false, key := key, outerKeys := outerKeys }
  | [] => throw .malformed

/-- Read a comma. -/
def comma (s : Scan) : Except Error Scan := do
  return (← (s.allowKey true).forgetKey).pushMark .comma 1

/-- Read the hyphen of an item. -/
def item (s : Scan) : Except Error Scan := do
  if !s.inFlow && !s.keyAllowed then throw .malformed
  let s := s.openBlock s.cursor.column s.tokens.size .sequenceStart
  return (← (s.allowKey true).forgetKey).pushMark .item 1

/-- Read the question mark of a key. -/
def questionMark (s : Scan) : Except Error Scan := do
  if !s.inFlow && !s.keyAllowed then throw .malformed
  let s := s.openBlock s.cursor.column s.tokens.size .mappingStart
  return (← (s.allowKey (!s.inFlow)).forgetKey).pushMark .key 1

/-- Read the colon of a value. If a key may have begun, it did. -/
def colon (s : Scan) : Except Error Scan := do
  match s.key with
  | some k =>
    let s := { s with key := none }.insert k.position .key
    let s := s.openBlock k.place.column k.position .mappingStart
    return (s.allowKey false).pushMark .value 1
  | none =>
    if !s.inFlow && !s.keyAllowed then throw .malformed
    let s := s.openBlock s.cursor.column s.tokens.size .mappingStart
    return (s.allowKey (!s.inFlow)).pushMark .value 1

/-- Read an anchor, an alias, a tag or a quoted text, before which no key was marked yet. -/
def word (s : Scan) (read : Cursor → Except Error (Token × Cursor)) : Except Error Scan := do
  let s ← s.markKey
  let (t, c) ← read s.cursor
  return (s.allowKey false).push t c

/-- Read a block text. -/
def blockText (s : Scan) : Except Error Scan := do
  let s ← (s.allowKey true).forgetKey
  let (text, c) ← blockScalar s.indent s.cursor
  return s.push (.scalar (.str text) false) c

/-- Read a plain text. -/
def plainText (s : Scan) : Except Error Scan := do
  let s ← s.markKey
  let (text, passed, c) := plainScalar s.inFlow s.indent s.cursor
  return (s.allowKey passed).push (.scalar (.str text) true) c

/-- Whether a plain text can begin with a character before another one. -/
def startsPlain (inFlow : Bool) (c : Char) (next : Option Char) : Bool :=
  if "?:-".toList.contains c then !endsWord next && (c = '-' || !inFlow)
  else !endsWord (some c) && !",[]\x7b\x7d#&*!|>'\"%@`".toList.contains c

/-- Read the token that begins with a character. -/
def token (s : Scan) (ch : Char) : Except Error Scan :=
  let c := s.cursor
  let next := c.peekAt 1
  let apart := s.inFlow || endsWord next
  if ch = '%' && c.column = 0 then s.documentToken Cursor.directive
  else if c.column = 0 && c.atDocumentMark then
    s.documentToken fun c => .ok (if ch = '-' then .documentStart else .documentEnd, c.skip 3)
  else if ch = '[' then s.openFlow .bracketOpen
  else if ch = '{' then s.openFlow .braceOpen
  else if ch = ']' then s.closeFlow .bracketClose
  else if ch = '}' then s.closeFlow .braceClose
  else if ch = ',' then s.comma
  else if ch = '-' && endsWord next then s.item
  else if ch = '?' && apart then s.questionMark
  else if ch = ':' && apart then s.colon
  else if ch = '*' then s.word fun c => c.anchorName.map fun p => (.alias p.1, p.2)
  else if ch = '&' then s.word fun c => c.anchorName.map fun p => (.anchor p.1, p.2)
  else if ch = '!' then s.word Cursor.tagToken
  else if (ch = '|' || ch = '>') && !s.inFlow then s.blockText
  else if ch = '\'' || ch = '"' then
    s.word fun c => (quotedScalar c).map fun p => (.scalar p.1 false, p.2)
  else if startsPlain s.inFlow ch next then s.plainText
  else .error .malformed

/-- Read the next token. The flag says whether the text ended. -/
def next (s : Scan) : Except Error (Scan × Bool) := do
  let s ← (skipToToken (s.cursor.left + 1) s).forgetOver
  let s := s.unindent s.cursor.column
  match s.cursor.peek with
  | some ch => return (← s.token ch, false)
  | none =>
    let s ← (s.unindent (-1)).forgetKey
    return (s.push .textEnd s.cursor, true)

/-- The tokens of the rest of a text. Where it cannot be read on, a fault follows the tokens that
were settled. -/
def rest : Nat → Scan → List Token
  | 0, s => s.tokens.toList
  | fuel + 1, s =>
    match s.next with
    | .ok (s, false) => rest fuel s
    | .ok (s, true) => s.tokens.toList
    | .error e => (s.tokens.take s.settled).toList ++ [.fault e]

end Scan

/-- The tokens of a text. -/
def tokensOf (cs : List Char) : List Token :=
  Scan.rest (cs.length + 1) (.start cs)

end Yaml
end Runbook
