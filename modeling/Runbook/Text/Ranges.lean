/-!
# Ranges of code points

The tables of character classes are lists of closed ranges, in order.
-/

namespace Runbook

/-- Whether a code point lies in one of an ordered list of closed ranges. -/
def inRanges (n : Nat) : List (Nat × Nat) → Bool
  | [] => false
  | (low, high) :: r => if n < low then false else n ≤ high || inRanges n r

end Runbook
