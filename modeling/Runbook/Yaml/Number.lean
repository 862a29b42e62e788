import Runbook.Decimal.Literal
import Runbook.Text.Blank
import Runbook.Text.CodePoints
import Runbook.Text.DecimalDigit
import Runbook.Text.Split
import Runbook.Value.Fault
import Runbook.Yaml.Cursor

/-!
# Numbers

The values of texts that are tagged as numbers. Underscores do not count, the digits of all scripts
do, and parts between colons are sixtieths of one another.
-/

namespace Runbook
namespace Yaml

/-- A text with its digits as ASCII digits; other characters beyond ASCII belong to no number. -/
def asciiNumeral (cs : List Char) : List Char :=
  cs.map fun c =>
    if c.toNat < 0x7f then c
    else if isWhiteSpace c then ' '
    else match digitZeros.find? fun start => start ≤ c.toNat && c.toNat < start + 10 with
      | some start => charOfNat (48 + (c.toNat - start))
      | none => '?'

/-- The white space of ASCII. -/
def isAsciiSpace (c : Char) : Bool :=
  c = ' ' || (9 ≤ c.toNat && c.toNat ≤ 13)

/-- A sign that a list may start with, as a truth value for a minus, and the rest. -/
def signOf : List Char → Bool × List Char
  | '-' :: r => (true, r)
  | '+' :: r => (false, r)
  | r => (false, r)

/-- The value of a digit in bases up to sixteen. -/
def digitBelow? (base : Nat) (c : Char) : Option Nat :=
  (hexValue? c).filter (· < base)

/-- The letter that marks the digits of a base. -/
def baseMark : Nat → Char
  | 2 => 'b'
  | 8 => 'o'
  | _ => 'x'

/-- Digits without the mark of their base. -/
def withoutMark (base : Nat) : List Char → List Char
  | '0' :: c :: r => if base ≠ 10 && c.toLower = baseMark base then r else '0' :: c :: r
  | r => r

/-- An integer in a base: blanks around it, a sign and the mark of the base are allowed. Decimal
ones have at most `numeralLimit` digits. -/
def integer (base : Nat) (cs : List Char) : Except Error Int :=
  let (negative, r) := signOf (trimBy isAsciiSpace (asciiNumeral cs))
  let digits := withoutMark base r
  if digits.isEmpty || (base = 10 && numeralLimit < digits.length) then .error .malformed
  else match digits.mapM (digitBelow? base) with
    | some ds => .ok (signed negative (ds.foldl (fun n d => base * n + d) 0))
    | none => .error .malformed

/-- The parts of a number in sixtieths put together, the last part first. -/
def sixtieths : List Int → Int
  | [] => 0
  | d :: r => d + 60 * sixtieths r

/-- The integer of a text. -/
def integerOf (text : String) : Except Error Int := do
  let cs := text.toList.filter (· ≠ '_')
  let (negative, u) := signOf cs
  let n ← match u with
    | [] => throw .emptyNumber
    | ['0'] => pure 0
    | '0' :: 'b' :: r => integer 2 r
    | '0' :: 'x' :: r => integer 16 r
    | '0' :: _ => integer 8 u
    | _ =>
      match pieces ':' u with
      | [_] => integer 10 u
      | parts => do pure (sixtieths (← parts.mapM (integer 10)).reverse)
  return if negative then -n else n

/-- A binary64 number: blanks around it and a sign are allowed, and the words for infinity and for
no number. -/
def decimal (cs : List Char) : Except Error Binary64 :=
  let (negative, r) := signOf (trimBy isAsciiSpace (asciiNumeral cs))
  let word := String.ofList (r.map Char.toLower)
  if word = "inf" || word = "infinity" then .ok (.infinity negative)
  else if word = "nan" then .ok .nan
  else match Decimal.ofChars? r with
    | some x => .ok (x.toBinary64 negative)
    | none => .error .malformed

/-- The sum of parts in sixtieths, the last part first, with rounding at every step. The place of a
part has to be a binary64 number. -/
def sixtiethsSum (sum : Binary64) (place : Nat) : List Binary64 → Except Error Binary64
  | [] => .ok sum
  | d :: r =>
    let p := Binary64.ofInt place
    if p.isFinite then sixtiethsSum (sum.add (d.mul p)) (place * 60) r else .error .overflow

/-- The binary64 number of a text. -/
def decimalOf (text : String) : Except Error Binary64 := do
  let cs := (text.toList.filter (· ≠ '_')).map Char.toLower
  let (negative, u) := signOf cs
  if cs.isEmpty then throw .emptyNumber
  let x ←
    if u = ".inf".toList then pure (.infinity false)
    else if u = ".nan".toList then pure .nan
    else match pieces ':' u with
      | [_] => decimal u
      | parts => do sixtiethsSum .zero 1 (← parts.mapM decimal).reverse
  return if negative then x.neg else x

end Yaml
end Runbook
