import Runbook.Decimal.Layout
import Runbook.Value.Basic
import Runbook.Value.Fault
import Runbook.Yaml.Pen

/-!
# Writing YAML

The text of a plain document: collections in block style, two spaces deeper for each level,
sequences below a mapping without indentation of their own; empty collections in flow style.
-/

namespace Runbook
namespace Yaml

/-- The text of a scalar that is not a text, if a plain document can hold it. -/
def wordOf? : Scalar → Option String
  | .null => some "null"
  | .bool b => some (if b then "true" else "false")
  | .int n => some (intText n)
  | .float x => some (x.text .yaml)
  | _ => none

mutual

/-- Whether the integers of a value have no more digits than can be written. -/
def isWritable : Value → Bool
  | .scalar (.int n) => digitCount n.natAbs ≤ numeralLimit
  | .scalar _ => true
  | .list items => areWritable items
  | .mapping entries => haveWritable entries
  | .pair a b => isWritable a && isWritable b
  | .set _ => true
  | .endless _ => true

@[inherit_doc isWritable]
def areWritable : List Value → Bool
  | [] => true
  | v :: r => isWritable v && areWritable r

@[inherit_doc isWritable]
def haveWritable : List (Scalar × Value) → Bool
  | [] => true
  | (_, v) :: r => isWritable v && haveWritable r

end

/-- The text of a key. -/
def keyText : Scalar → String
  | .str s => s
  | k => (wordOf? k).getD ""

namespace Pen

/-- The indentation of what is inside a collection; `none` stands for outside of all of them. -/
def deeper : Option Nat → Nat
  | none => 0
  | some n => n + 2

/-- Write a scalar. -/
def scalar (p : Pen) (indent : Option Nat) (s : Scalar) : Pen :=
  let inner := (indent.getD 0) + 2
  match s with
  | .str s => p.text inner false s
  | .wild codes => p.text inner false (Text.wild codes).string
  | s => p.plain inner true ((wordOf? s).getD "")

/-- Write the mark of an empty collection. -/
def emptyMark (p : Pen) (opening closing : Char) : Pen :=
  (p.mark [opening] true true false).mark [closing] false false false

mutual

/-- Write a value in a collection with an indentation. -/
def value (indent : Option Nat) (belowMapping : Bool) : Value → Pen → Pen
  | .scalar s, p => p.scalar indent s
  | .list [], p => p.emptyMark '[' ']'
  | .list (v :: r), p =>
    let n := if belowMapping && !p.atIndent then indent.getD 0 else deeper indent
    items n (v :: r) p
  | .mapping [], p => p.emptyMark '{' '}'
  | .mapping (e :: r), p => entries (deeper indent) (e :: r) p
  | .pair a b, p =>
    let n := if belowMapping && !p.atIndent then indent.getD 0 else deeper indent
    let p := value (some n) false a ((p.indent n).mark ['-'] true false true)
    value (some n) false b ((p.indent n).mark ['-'] true false true)
  | .set _, p => p
  | .endless _, p => p

/-- Write items, each after a hyphen. -/
def items (n : Nat) : List Value → Pen → Pen
  | [], p => p
  | v :: r, p => items n r (value (some n) false v ((p.indent n).mark ['-'] true false true))

/-- Write entries, a key that is long or has line ends after a question mark. -/
def entries (n : Nat) : List (Scalar × Value) → Pen → Pen
  | [], p => p
  | (k, v) :: r, p =>
    let p := p.indent n
    let p :=
      if isShortKey (keyText k) then
        ((p.text (n + 2) true (keyText k)).mark [':'] false false false)
      else
        let p := (p.mark ['?'] true false true).text (n + 2) false (keyText k)
        (p.indent n).mark [':'] true false true
    entries n r (value (some n) true v p)

end

end Pen

/-- The YAML text of a plain document. -/
def write (v : Value) : String :=
  String.ofList ((Pen.start |> Pen.value none false v).indent 0).written.reverse

end Yaml
end Runbook
