/-!
# Cursors

A place in a YAML text: what is left of the text from there on, the line and the column. The
characters that end lines are the line feed, the carriage return, U+0085, U+2028 and U+2029.
-/

namespace Runbook
namespace Yaml

/-- Why a YAML text has no value. -/
inductive Error
  /-- The text is not YAML, or what it says has no meaning. -/
  | malformed
  /-- A number without characters. -/
  | emptyNumber
  /-- A truth value that is no word for one. -/
  | badTruthWord
  /-- A date that does not look like one. -/
  | badTimestamp
  /-- A date that is the text of a mapping. -/
  | nestedTimestamp
  /-- A number that is too large: an escaped code point, or the place of a part of a number in
  sixtieths. -/
  | overflow
  /-- Collections that nest too deep, or too many mappings of which one leads to the next. -/
  | tooDeep
  deriving DecidableEq, Repr

/-- Whether a character may stand in a YAML text. -/
def isAllowed (c : Char) : Bool :=
  let n := c.toNat
  n = 0x09 || n = 0x0a || n = 0x0d || (0x20 ≤ n && n ≤ 0x7e) || n = 0x85 ||
    (0xa0 ≤ n && n ≤ 0xd7ff) || (0xe000 ≤ n && n ≤ 0xfffd) || 0x10000 ≤ n

/-- Whether a character ends a line. -/
def isBreak (c : Char) : Bool :=
  c = '\n' || c = '\r' || c = '\u0085' || c = '\u2028' || c = '\u2029'

/-- Whether there is no character, or one that ends the line. -/
def endsLine : Option Char → Bool
  | none => true
  | some c => isBreak c

/-- Whether there is no character, or a space, or one that ends the line. -/
def endsField (c : Option Char) : Bool :=
  endsLine c || c = some ' '

/-- Whether there is no character, or a space, a tab or one that ends the line. -/
def endsWord (c : Option Char) : Bool :=
  endsField c || c = some '\t'

/-- A place in a text. -/
structure Cursor where
  rest : List Char
  /-- The number of characters that are left. -/
  left : Nat
  line : Nat
  column : Nat

namespace Cursor

/-- The start of a text, after a byte order mark if there is one. -/
def start (cs : List Char) : Cursor :=
  match cs with
  | '\uFEFF' :: r => ⟨r, r.length, 0, 0⟩
  | r => ⟨r, r.length, 0, 0⟩

/-- The character at a place. -/
def peek (c : Cursor) : Option Char := c.rest.head?

/-- The character some characters further. -/
def peekAt (c : Cursor) (n : Nat) : Option Char := c.rest[n]?

/-- Whether a character is there and belongs to a class. -/
def sees (c : Cursor) (p : Char → Bool) : Bool := c.peek.any p

/-- The next place. Byte order marks take no column. -/
def advance (c : Cursor) : Cursor :=
  match c.rest with
  | [] => c
  | ch :: r =>
    if isBreak ch && (ch ≠ '\r' || r.head? ≠ some '\n') then ⟨r, c.left - 1, c.line + 1, 0⟩
    else ⟨r, c.left - 1, c.line, if ch = '\uFEFF' then c.column else c.column + 1⟩

/-- The place some characters further. -/
def skip : Nat → Cursor → Cursor
  | 0, c => c
  | n + 1, c => skip n c.advance

/-- The characters of a class from a place on, and the place after them. -/
def span (c : Cursor) (p : Char → Bool) : List Char × Cursor :=
  let taken := c.rest.takeWhile p
  (taken, c.skip taken.length)

/-- The place after characters of a class. -/
def skipWhile (c : Cursor) (p : Char → Bool) : Cursor :=
  (c.span p).2

/-- The place after spaces. -/
def skipSpaces (c : Cursor) : Cursor :=
  c.skipWhile (· = ' ')

/-- The place at the end of the line. -/
def skipToBreak (c : Cursor) : Cursor :=
  c.skipWhile fun ch => !isBreak ch

/-- The line end at a place, if there is one, and the place after it. All line ends count as a line
feed but U+2028 and U+2029. -/
def lineBreak? (c : Cursor) : Option (Char × Cursor) :=
  match c.rest with
  | '\r' :: '\n' :: _ => some ('\n', c.skip 2)
  | ch :: _ =>
    if !isBreak ch then none
    else some (if ch = '\u2028' || ch = '\u2029' then ch else '\n', c.advance)
  | [] => none

/-- The place after a line end, if there is one. -/
def skipBreak (c : Cursor) : Cursor :=
  match c.lineBreak? with
  | some (_, c) => c
  | none => c

/-- Whether three hyphens or three dots stand here as a word. -/
def atDocumentMark (c : Cursor) : Bool :=
  (['-', '-', '-'].isPrefixOf c.rest || ['.', '.', '.'].isPrefixOf c.rest) && endsWord (c.peekAt 3)

end Cursor
end Yaml
end Runbook
