import Runbook.Decimal.Shortest

/-!
# Number text

How the shortest digits of a number are laid out. A layout says between which positions of the point
a number is written positionally, how its exponent is written otherwise, and the words for numbers
without digits.
-/

namespace Runbook

/-- The decisions of a number format. -/
structure NumberLayout where
  /-- The least position of the point, relative to the first digit, written positionally. -/
  leastPoint : Int
  /-- The greatest such position. -/
  greatestPoint : Int
  /-- What follows a number without fraction, written positionally. -/
  wholeMark : String
  /-- What follows a mantissa of one digit. -/
  mantissaMark : String
  /-- The least number of digits of an exponent. -/
  exponentWidth : Nat
  /-- The text of zero without its sign. -/
  zero : String
  /-- Whether negative zero keeps its sign. -/
  signedZero : Bool
  nan : String
  infinity : String
  negativeInfinity : String

namespace NumberLayout

/-- The layout of numbers that placeholders and comparisons see: positional up to 21 digits before
the point and six zeros after it. -/
def plain : NumberLayout where
  leastPoint := -5
  greatestPoint := 21
  wholeMark := ""
  mantissaMark := ""
  exponentWidth := 1
  zero := "0"
  signedZero := false
  nan := "NaN"
  infinity := "Infinity"
  negativeInfinity := "-Infinity"

/-- The layout of JSON text: positional for decimal exponents from -4 to 15, a fraction always
written, exponents of at least two digits. -/
def json : NumberLayout where
  leastPoint := -3
  greatestPoint := 16
  wholeMark := ".0"
  mantissaMark := ""
  exponentWidth := 2
  zero := "0.0"
  signedZero := true
  nan := "NaN"
  infinity := "Infinity"
  negativeInfinity := "-Infinity"

/-- The layout of displayed values: that of JSON with lower-case words. -/
def display : NumberLayout :=
  { json with nan := "nan", infinity := "inf", negativeInfinity := "-inf" }

/-- The layout of YAML text: a mantissa always has a point. -/
def yaml : NumberLayout :=
  { json with
    mantissaMark := ".0", nan := ".nan", infinity := ".inf", negativeInfinity := "-.inf" }

end NumberLayout

namespace Decimal

/-- The digits of a decimal laid out. -/
def text (layout : NumberLayout) (x : Decimal) : String :=
  let digits := Nat.toDigits 10 x.coefficient
  let count : Int := digits.length
  let point := x.exponent + count
  if count ≤ point ∧ point ≤ layout.greatestPoint then
    String.ofList (digits ++ List.replicate (point - count).toNat '0') ++ layout.wholeMark
  else if 0 < point ∧ point ≤ layout.greatestPoint then
    String.ofList (digits.take point.toNat) ++ "." ++ String.ofList (digits.drop point.toNat)
  else if layout.leastPoint ≤ point ∧ point ≤ 0 then
    "0." ++ String.ofList (List.replicate (-point).toNat '0' ++ digits)
  else
    let exponent := point - 1
    let mantissa := match digits with
      | [d] => String.ofList [d] ++ layout.mantissaMark
      | d :: r => String.ofList (d :: '.' :: r)
      | [] => ""
    mantissa ++ "e" ++ (if exponent < 0 then "-" else "+") ++
      padLeft layout.exponentWidth exponent.natAbs

end Decimal

/-- The text of a number. -/
def Binary64.text (layout : NumberLayout) : Binary64 → String
  | nan => layout.nan
  | infinity false => layout.infinity
  | infinity true => layout.negativeInfinity
  | finite negative x =>
    if x.mantissa = 0 then
      (if negative && layout.signedZero then "-" else "") ++ layout.zero
    else (if negative then "-" else "") ++ x.shortest.text layout

end Runbook
