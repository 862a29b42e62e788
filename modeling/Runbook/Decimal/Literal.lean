import Runbook.Binary64.Round
import Runbook.Text.Digits

/-!
# Decimal literals

Reading of unsigned decimal numerals such as `12`, `1.5`, `.5`, `5.` and `1e-3`, in ASCII digits,
and their exact rounding to binary64.
-/

namespace Runbook

/-- The number `coefficient * 10 ^ exponent`. -/
structure Decimal where
  coefficient : Nat
  exponent : Int
  deriving DecidableEq, Repr, Inhabited

namespace Decimal

/-- An integer made of a sign, possibly absent, and at least one digit. -/
def signedDigits? (cs : List Char) : Option Int :=
  let (negative, ds) := match cs with
    | '-' :: r => (true, r)
    | '+' :: r => (false, r)
    | r => (false, r)
  if ds.isEmpty || !ds.all Char.isDigit then none
  else some (signed negative (natOfDigits ds))

/-- The exponent part of a literal, zero when absent. -/
def exponent? : List Char → Option Int
  | [] => some 0
  | c :: r => if c = 'e' || c = 'E' then signedDigits? r else none

/-- The fraction digits after a point that a list starts with, and the rest. -/
def spanFraction : List Char → List Char × List Char
  | '.' :: r => spanDigits r
  | r => ([], r)

/-- Read a whole list as an unsigned literal: digits with at most one point anywhere among them, at
least one digit, and possibly an exponent. -/
def ofChars? (cs : List Char) : Option Decimal :=
  let (whole, r) := spanDigits cs
  let (fraction, r) := spanFraction r
  if whole.isEmpty && fraction.isEmpty then none
  else (exponent? r).map fun e => ⟨natOfDigits (whole ++ fraction), e - fraction.length⟩

/-- The nearest binary64 number. Literals of at least `10 ^ 310` and below `10 ^ (-330)` are out of
range whatever their digits, and so their powers are never computed. -/
def toBinary64 (negative : Bool) (x : Decimal) : Binary64 :=
  if x.coefficient = 0 then .finite negative .zero
  else
    let point := x.exponent + digitCount x.coefficient
    if point > 310 then .infinity negative
    else if point < -330 then .finite negative .zero
    else if 0 ≤ x.exponent then .ofRatio negative (x.coefficient * pow10 x.exponent.toNat) 1
    else .ofRatio negative x.coefficient (pow10 (-x.exponent).toNat)

end Decimal
end Runbook
