import Runbook.Json.Printer
import Runbook.Text.Blank

/-!
# Coercions

The text, the number and the truth of a value, as placeholders and conditions see them.
-/

namespace Runbook

/-- A sign that a list may start with, and the rest. -/
def splitSign : List Char → Bool × List Char
  | '+' :: r => (false, r)
  | '-' :: r => (true, r)
  | cs => (false, cs)

/-- The number of an unsigned literal. -/
def unsignedNumber? (negative : Bool) (cs : List Char) : Option Binary64 :=
  if cs = "Infinity".toList then some (.infinity negative)
  else (Decimal.ofChars? cs).map (Decimal.toBinary64 negative)

/-- The number that a text is a literal of, blanks at its ends aside: a sign, possibly absent, and
the word `Infinity` or a decimal literal. -/
def parseNumber (s : String) : Option Binary64 :=
  let (negative, cs) := splitSign (trimBy isBlank s.toList)
  unsignedNumber? negative cs

/-- The integers that are written in full: those nearer to zero than this power of ten. -/
def fullIntegerBound : Nat := pow10 21

/-- The text of an integer: in full below the bound, as the nearest binary64 number from there
on. -/
def integerText (n : Int) : String :=
  if n.natAbs < fullIntegerBound then intText n else (Binary64.ofInt n).text .plain

namespace Value

/-- The text of a value. -/
def stringify : Value → Except Fault String
  | null => .ok "null"
  | bool b => .ok (if b then "true" else "false")
  | int n => .ok (integerText n)
  | float x => .ok (x.text .plain)
  | str s => .ok s
  | list items => Json.text .compact (list items)
  | mapping entries => Json.text .compact (mapping entries)
  | endless isMapping => Json.text .compact (endless isMapping)
  | v => v.displayWithin (some numeralLimit)

/-- The number of a value: nothing and blank texts count as zero, truth values as zero and one, and
what has no number as NaN. -/
def toNumber : Value → Binary64
  | null => .zero
  | bool b => .ofInt (if b then 1 else 0)
  | int n => .ofInt n
  | float x => x
  | str s =>
    if (trimBy isBlank s.toList).isEmpty then .zero else (parseNumber s).getD .nan
  | _ => .nan

/-- The truth of a value: nothing, false, zero, NaN and the empty text are false. An integer beyond
every binary64 number has none. -/
def isTruthy : Value → Except Fault Bool
  | null => .ok false
  | bool b => .ok b
  | int n => if (Binary64.ofInt n).isFinite then .ok (n ≠ 0) else .error .tooLarge
  | float x => .ok x.isNonzero
  | str s => .ok (s ≠ "")
  | _ => .ok true

end Value
end Runbook
