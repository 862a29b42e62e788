import Runbook.Decimal.Literal

/-!
# Shortest decimals

The shortest decimal that rounds to a given magnitude, and of the shortest the nearest. For 1, 2, …,
17 digits the two neighbours of the magnitude on the decimal grid are tested against the interval of
numbers that round to it; the first grid with a hit wins, and a tie goes to the even digit.
-/

namespace Runbook
namespace Shortest

/-- The position of the decimal point of `n / d` relative to its first digit: the least `p` with
`n / d < 10 ^ p`. -/
def pointOf (n d : Nat) : Int :=
  if d ≤ n then digitCount (n / d)
  else 1 - (digitCount ((d - 1) / n) : Int)

/-- The interval of numbers that round to a magnitude, in quarters of its last mantissa bit: below a
power of two the lower half gap is narrower. The ends belong to it when the mantissa is even. -/
def lowerQuarters (x : Magnitude) : Nat :=
  if x.mantissa = pow2 52 ∧ x.exponent ≠ 0 then 4 * x.mantissa - 1 else 4 * x.mantissa - 2

@[inherit_doc lowerQuarters]
def upperQuarters (x : Magnitude) : Nat :=
  4 * x.mantissa + 2

/-- Whether `n / d` quarters of the last mantissa bit round to the magnitude. -/
def roundsTo (x : Magnitude) (n d : Nat) : Bool :=
  if x.mantissa % 2 = 0 then lowerQuarters x * d ≤ n && n ≤ upperQuarters x * d
  else lowerQuarters x * d < n && n < upperQuarters x * d

/-- The neighbours of a magnitude on the grid of multiples of `10 ^ grid`, of those that round to it
the nearer. Here `n / d` is the number of grid steps of a quarter of the last mantissa bit. -/
def onGrid? (x : Magnitude) (n d : Nat) : Option Nat :=
  let below := 4 * x.mantissa * n / d
  let above := below + 1
  match roundsTo x (below * d) n, roundsTo x (above * d) n with
  | true, false => some below
  | false, true => some above
  | true, true =>
    let lower := 4 * x.mantissa * n - below * d
    let upper := above * d - 4 * x.mantissa * n
    if lower < upper then some below
    else if upper < lower then some above
    else if below % 2 = 0 then some below else some above
  | false, false => none

/-- A coefficient without trailing zeros, which move into the exponent. -/
def strip : Nat → Nat → Int → Decimal
  | 0, c, e => ⟨c, e⟩
  | fuel + 1, c, e => if c % 10 = 0 && c != 0 then strip fuel (c / 10) (e + 1) else ⟨c, e⟩

/-- Search the grids of `count`, `count + 1`, … digits, at most `fuel` of them. -/
def search (x : Magnitude) (point : Int) : Nat → Nat → Option Decimal
  | 0, _ => none
  | fuel + 1, count =>
    let grid := point - count
    -- a quarter of the last mantissa bit is `2 ^ exponent / 2 ^ 1076`
    let n := pow2 x.exponent * (if grid < 0 then pow10 (-grid).toNat else 1)
    let d := pow2 (Binary64.unitExponent + 2) * (if grid < 0 then 1 else pow10 grid.toNat)
    match onGrid? x n d with
    | some c => some (strip 20 c grid)
    | none => search x point fuel (count + 1)

end Shortest

/-- The shortest decimal that rounds to a magnitude. -/
def Magnitude.shortest (x : Magnitude) : Decimal :=
  if x.mantissa = 0 then ⟨0, 0⟩
  else
    let point := Shortest.pointOf x.units Binary64.unitsPerOne
    (Shortest.search x point 17 1).getD ⟨x.units, 0⟩

end Runbook
