import Runbook.Power

/-!
# Binary64 numbers

A finite number is a sign and a magnitude, the magnitude a mantissa of at most 53 bits times a power
of two, counted in units of the least positive number. The pair is canonical, so numbers are equal
terms exactly when they have equal bits, all NaNs being one. Every finite number is a whole number
of units, which turns the order of numbers into the order of integers (`place?`).
-/

namespace Runbook

/-- The binary exponent of one unit, the least positive magnitude. -/
def Binary64.unitExponent : Nat := 1074

/-- The number of units that make one. -/
def Binary64.unitsPerOne : Nat := pow2 Binary64.unitExponent

/-- A mantissa of at most 53 bits, full unless the exponent is the least one. -/
def Canonical (mantissa exponent : Nat) : Prop :=
  mantissa < pow2 53 ∧ exponent ≤ 2045 ∧ (exponent = 0 ∨ pow2 52 ≤ mantissa)

instance (m e : Nat) : Decidable (Canonical m e) := by
  unfold Canonical; infer_instance

/-- The size of a finite number: `mantissa * 2 ^ exponent` units. -/
structure Magnitude where
  mantissa : Nat
  exponent : Nat
  canonical : Canonical mantissa exponent
  deriving DecidableEq

namespace Magnitude

/-- The magnitude counted in units. -/
def units (x : Magnitude) : Nat :=
  x.mantissa * pow2 x.exponent

/-- No units. -/
def zero : Magnitude := ⟨0, 0, by decide⟩

instance : Inhabited Magnitude := ⟨zero⟩

end Magnitude

/-- A binary64 number; there is one NaN. -/
inductive Binary64
  | nan
  | infinity (negative : Bool)
  | finite (negative : Bool) (magnitude : Magnitude)
  deriving DecidableEq, Inhabited

/-- A count with its sign. -/
def signed (negative : Bool) (n : Nat) : Int :=
  if negative then -(n : Int) else n

namespace Binary64

/-- Positive zero. -/
def zero : Binary64 := finite false .zero

/-- The place on the number line, in units. The infinities lie beyond every finite number and NaN
lies nowhere. -/
def place? : Binary64 → Option Int
  | nan => none
  | infinity negative => some (signed negative (pow2 2098))
  | finite negative x => some (signed negative x.units)

/-- Numbers at the same place; NaN equals nothing, and the two zeros are equal. -/
def eq (a b : Binary64) : Bool :=
  match a.place?, b.place? with
  | some i, some j => i = j
  | _, _ => false

/-- Strictly before on the number line. -/
def lt (a b : Binary64) : Bool :=
  match a.place?, b.place? with
  | some i, some j => i < j
  | _, _ => false

/-- Before or at the same place. -/
def le (a b : Binary64) : Bool :=
  match a.place?, b.place? with
  | some i, some j => i ≤ j
  | _, _ => false

/-- Whether the number is neither zero nor NaN. -/
def isNonzero (a : Binary64) : Bool :=
  match a.place? with
  | some i => i ≠ 0
  | none => false

/-- Whether the number is finite. -/
def isFinite : Binary64 → Bool
  | finite _ _ => true
  | _ => false

/-- The integer that a finite number without fraction is. -/
def toInt? : Binary64 → Option Int
  | finite negative x =>
    if x.units % unitsPerOne = 0 then some (signed negative (x.units / unitsPerOne))
    else none
  | _ => none

/-- The number with the opposite sign. -/
def neg : Binary64 → Binary64
  | nan => nan
  | infinity s => infinity (!s)
  | finite s x => finite (!s) x

end Binary64
end Runbook
