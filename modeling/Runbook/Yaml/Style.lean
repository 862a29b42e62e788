import Runbook.Yaml.Tag

/-!
# Styles of scalars

How a text is written: plain when it then reads as itself, between single quotes when no character
has to be escaped and no space stands beside a line end, between double quotes otherwise.
-/

namespace Runbook
namespace Yaml

/-- A way to write a text. -/
inductive Style
  | plain | single | double
  deriving DecidableEq, Repr

namespace Style

/-- Whether a character is written as a line end. -/
def isLineEnd (c : Char) : Bool :=
  c = '\n' || c = '\u0085' || c = '\u2028' || c = '\u2029'

/-- Whether a character beyond ASCII is written as it is. -/
def isWide (c : Char) : Bool :=
  let n := c.toNat
  n = 0x85 || (0xa0 ≤ n && n ≤ 0xfffd && n ≠ 0xfeff) || (0x10000 ≤ n && n < 0x10ffff)

/-- Whether a character is written as it is outside double quotes. -/
def isOrdinary (c : Char) : Bool :=
  c = '\n' || (0x20 ≤ c.toNat && c.toNat ≤ 0x7e) || isWide c

/-- Whether two neighbours belong to two classes. -/
def hasPair (p q : Char → Bool) : List Char → Bool
  | a :: b :: r => (p a && q b) || hasPair p q (b :: r)
  | _ => false

/-- Whether a character is a space. -/
def isSpace (c : Char) : Bool := c = ' '

/-- Whether a text may stand between single quotes. -/
def allowsSingle (cs : List Char) : Bool :=
  cs.all isOrdinary && !hasPair isLineEnd isSpace cs && !hasPair isSpace isLineEnd cs

/-- Whether there is no character, or a space. -/
def isApart : Option Char → Bool
  | none => true
  | some c => c = ' '

/-- Whether a text begins like something other than a plain text. -/
def startsWithMark : List Char → Bool
  | [] => false
  | c :: r =>
    "#,[]\x7b\x7d&*!|>'\"%@`".toList.contains c || ("?:-".toList.contains c && isApart r.head?)

/-- Whether a colon or a number sign stands apart after a character. -/
def hasMarkAfter (before : Char) : List Char → Bool
  | [] => false
  | c :: r => (c = ':' && isApart r.head?) || (c = '#' && before = ' ') || hasMarkAfter c r

/-- Whether a text begins like a mark between documents. -/
def startsLikeDocument (cs : List Char) : Bool :=
  ['-', '-', '-'].isPrefixOf cs || ['.', '.', '.'].isPrefixOf cs

/-- Whether a text may stand without quotes. -/
def allowsPlain (cs : List Char) : Bool :=
  cs.all isOrdinary && !cs.any isLineEnd && cs.head? ≠ some ' ' && cs.getLast? ≠ some ' ' &&
    !startsWithMark cs && !startsLikeDocument cs &&
    !(match cs with
      | [] => true
      | c :: r => hasMarkAfter c r)

/-- The style of a text. A key on its line has no line ends outside double quotes. -/
def ofText (isKey : Bool) (text : String) : Style :=
  let cs := text.toList
  if allowsPlain cs && Tag.ofPlain text = .str then plain
  else if allowsSingle cs && !(isKey && cs.any isLineEnd) then single
  else double

end Style

/-- A key of at least this length is not written on the line of its value. -/
def longKey : Nat := 123

/-- Whether a key is written on the line of its value. -/
def isShortKey (text : String) : Bool :=
  text ≠ "" && !text.toList.any Style.isLineEnd && text.length < longKey

end Yaml
end Runbook
