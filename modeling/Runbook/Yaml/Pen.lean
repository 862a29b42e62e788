import Runbook.Text.Digits
import Runbook.Yaml.Style

/-!
# Writing scalars

A text under construction with its current column, and the writing of scalars into it. Lines longer
than the width are folded where a single space or an escape allows it.
-/

namespace Runbook
namespace Yaml

/-- The column after which lines are folded. -/
def lineWidth : Nat := 120

/-- A text under construction. -/
structure Pen where
  /-- The characters so far, the last first. -/
  written : List Char
  column : Nat
  /-- Whether nothing but blanks was written since the last word. -/
  afterBlank : Bool
  /-- Whether the line holds nothing but indentation and marks that count as such. -/
  atIndent : Bool

namespace Pen

/-- An empty text. -/
def start : Pen := ⟨[], 0, true, true⟩

/-- Write characters. -/
def write (p : Pen) (cs : List Char) : Pen :=
  { p with written := cs.reverse ++ p.written, column := p.column + cs.length }

/-- End the line. -/
def lineEnd (p : Pen) (c : Char) : Pen :=
  ⟨c :: p.written, 0, true, true⟩

/-- Go to an indentation, on a new line unless the line holds nothing else. -/
def indent (p : Pen) (n : Nat) : Pen :=
  let p :=
    if !p.atIndent || n < p.column || (p.column = n && !p.afterBlank) then p.lineEnd '\n' else p
  if p.column < n then { (p.write (List.replicate (n - p.column) ' ')) with afterBlank := true }
  else p

/-- Write a mark, after a space unless a blank stands there. A mark like the hyphen of an item
counts as indentation. -/
def mark (p : Pen) (cs : List Char) (spaced : Bool) (isBlank isIndent : Bool) : Pen :=
  { (p.write (if p.afterBlank || !spaced then cs else ' ' :: cs)) with
    afterBlank := isBlank, atIndent := p.atIndent && isIndent }

/-- A word begins here. -/
def tight (p : Pen) : Pen :=
  { p with afterBlank := false, atIndent := false }

end Pen

/-! ### Runs -/

/-- The kinds of characters between which a text can be folded. -/
inductive RunKind
  | word | spaces | lineEnds
  deriving DecidableEq

/-- The kind of a character. -/
def RunKind.of (c : Char) : RunKind :=
  if c = ' ' then spaces else if Style.isLineEnd c then lineEnds else word

/-- A text cut into runs of one kind. -/
def runs (cs : List Char) : List (List Char) :=
  cs.splitBy fun a b => RunKind.of a = RunKind.of b

namespace Pen

/-- Write a plain text at an indentation. -/
def plain (p : Pen) (indent : Nat) (folds : Bool) (text : String) : Pen :=
  if text = "" then p
  else
    let start := (if p.afterBlank then p else p.write [' ']).tight
    (runs text.toList).foldl (fun p run =>
      if run = [' '] && lineWidth < p.column && folds then (p.indent indent).tight
      else p.write run) start

/-- Write the line ends of a single-quoted text: one more than they are, if the first is a line
feed. -/
def lineEnds (p : Pen) (indent : Nat) (run : List Char) : Pen :=
  let p := if run.head? = some '\n' then p.lineEnd '\n' else p
  (run.foldl lineEnd p).indent indent

/-- Write the runs of a single-quoted text; at its ends it is not folded. -/
def singleRuns (indent : Nat) (folds : Bool) : Bool → List (List Char) → Pen → Pen
  | _, [], p => p
  | isFirst, run :: rest, p =>
    let p := match run.head?.map RunKind.of with
      | some .lineEnds => p.lineEnds indent run
      | some .spaces =>
        if run = [' '] && lineWidth < p.column && folds && !isFirst && !rest.isEmpty then
          p.indent indent
        else p.write run
      | _ => p.write (run.flatMap fun c => if c = '\'' then ['\'', '\''] else [c])
    singleRuns indent folds false rest p

/-- Write a text in single quotes at an indentation. -/
def single (p : Pen) (indent : Nat) (folds : Bool) (text : String) : Pen :=
  (singleRuns indent folds true (runs text.toList) (p.mark ['\''] true false false)).mark ['\'']
    false false false

/-! ### Double quotes -/

/-- The letter of an escape. -/
def escapeLetter? : Char → Option Char
  | '\x00' => some '0'
  | '\x07' => some 'a'
  | '\x08' => some 'b'
  | '\t' => some 't'
  | '\n' => some 'n'
  | '\x0b' => some 'v'
  | '\x0c' => some 'f'
  | '\r' => some 'r'
  | '\x1b' => some 'e'
  | '"' => some '"'
  | '\\' => some '\\'
  | '\u0085' => some 'N'
  | '\u2028' => some 'L'
  | '\u2029' => some 'P'
  | _ => none

/-- Whether a character is escaped in double quotes. -/
def isEscaped (c : Char) : Bool :=
  let n := c.toNat
  c = '"' || c = '\\' || n = 0x2028 || n = 0x2029 || n = 0xfeff ||
    !((0x20 ≤ n && n ≤ 0x7e) || (0xa0 ≤ n && n ≤ 0xfffd))

/-- The last `width` upper-case hexadecimal digits of a code point. -/
def codeDigits (width : Nat) (c : Char) : List Char :=
  (hexDigits width c.toNat).toList.map Char.toUpper

/-- The escape of a character. -/
def escapeOf (c : Char) : List Char :=
  match escapeLetter? c with
  | some letter => ['\\', letter]
  | none =>
    if c.toNat < 0x100 then '\\' :: 'x' :: codeDigits 2 c
    else if c.toNat < 0x10000 then '\\' :: 'u' :: codeDigits 4 c
    else '\\' :: 'U' :: codeDigits 8 c

/-- Break the line inside double quotes. A space that follows is escaped. -/
def fold (p : Pen) (indent : Nat) (next : Option Char) : Pen :=
  let p := ((p.write ['\\']).indent indent).tight
  if next = some ' ' then p.write ['\\'] else p

/-- Write a text in double quotes from a place on. The characters of `pending`, the last first, are
not yet written. The first and the last character are never folded. -/
def doubleFrom (indent : Nat) (folds : Bool) : Bool → List Char → List Char → Pen → Pen
  | _, pending, [], p => p.write pending.reverse
  | isFirst, pending, c :: r, p =>
    let foldable := folds && !isFirst && !r.isEmpty
    if isEscaped c then
      let p := (p.write pending.reverse).write (escapeOf c)
      let p := if foldable && lineWidth + 1 < p.column then p.fold indent r.head? else p
      doubleFrom indent folds false [] r p
    else if foldable && (c = ' ' || pending.isEmpty) && lineWidth < p.column + pending.length then
      doubleFrom indent folds false [c] r ((p.write pending.reverse).fold indent (some c))
    else doubleFrom indent folds false (c :: pending) r p

/-- Write a text in double quotes at an indentation. -/
def double (p : Pen) (indent : Nat) (folds : Bool) (text : String) : Pen :=
  (doubleFrom indent folds true [] text.toList (p.mark ['"'] true false false)).mark ['"']
    false false false

/-- Write a text in its style. A key on its line is not folded. -/
def text (p : Pen) (indent : Nat) (isKey : Bool) (s : String) : Pen :=
  match Style.ofText isKey s with
  | .plain => p.plain indent (!isKey) s
  | .single => p.single indent (!isKey) s
  | .double => p.double indent (!isKey) s

end Pen
end Yaml
end Runbook
