import Runbook.Binary64.Basic

/-!
# Rounding to binary64

An exact quotient is rounded to the nearest binary64 number, a half to the even mantissa, and beyond
the greatest finite number to infinity. All arithmetic is on natural numbers.
-/

namespace Runbook

/-- The quotient rounded to the nearest integer, a half to the even neighbour. -/
def divEven (n d : Nat) : Nat :=
  let q := n / d
  let r := n % d
  if 2 * r < d then q
  else if 2 * r > d then q + 1
  else if q % 2 = 0 then q else q + 1

/-- The magnitude nearest to `n / d` units; none if that lies beyond the greatest magnitude. A
mantissa that rounds up to 54 bits is the least one of the next exponent. -/
def Magnitude.nearest? (n d : Nat) : Option Magnitude :=
  let e := Nat.log2 (n / d) - 52
  let m := divEven n (d * pow2 e)
  if h : Canonical m e then some ⟨m, e, h⟩
  else if h : Canonical (pow2 52) (e + 1) then some ⟨pow2 52, e + 1, h⟩
  else none

namespace Binary64

/-- The number nearest to `n / d` units. -/
def ofUnits (negative : Bool) (n d : Nat) : Binary64 :=
  match Magnitude.nearest? n d with
  | some x => finite negative x
  | none => infinity negative

/-- The number nearest to `n / d`. -/
def ofRatio (negative : Bool) (n d : Nat) : Binary64 :=
  ofUnits negative (n * unitsPerOne) d

/-- The number nearest to an integer. -/
def ofInt (n : Int) : Binary64 :=
  ofRatio (n < 0) n.natAbs 1

/-- The product of two numbers. -/
def mul (a b : Binary64) : Binary64 :=
  match a, b with
  | nan, _ => nan
  | _, nan => nan
  | infinity s, infinity t => infinity (s != t)
  | infinity s, finite t y => if y.units = 0 then nan else infinity (s != t)
  | finite s x, infinity t => if x.units = 0 then nan else infinity (s != t)
  | finite s x, finite t y => ofUnits (s != t) (x.units * y.units) unitsPerOne

/-- The sum of two numbers; a sum of zero is negative only when both are. -/
def add (a b : Binary64) : Binary64 :=
  match a, b with
  | nan, _ => nan
  | _, nan => nan
  | infinity s, infinity t => if s = t then infinity s else nan
  | infinity s, _ => infinity s
  | _, infinity t => infinity t
  | finite s x, finite t y =>
    let sum := signed s x.units + signed t y.units
    if sum = 0 then finite (s && t) .zero else ofUnits (sum < 0) sum.natAbs 1

end Binary64
end Runbook
