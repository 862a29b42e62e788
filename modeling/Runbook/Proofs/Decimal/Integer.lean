import Runbook.Proofs.Decimal.Plain

/-!
# Integers as numbers

An integer of at most 53 bits is a binary64 number, and no other integer rounds to it. The search
for its shortest decimal comes at last to the grid of the integers, so it finds the integer itself,
and the plain text of the number is that of the integer (`text_ofInt`).
-/

namespace Runbook

open Shortest

/-! ### Trailing zeros -/

theorem toDigits_mul_pow10 {c : Nat} (hc : c ≠ 0) (k : Nat) :
    Nat.toDigits 10 (c * pow10 k) = Nat.toDigits 10 c ++ List.replicate k '0' := by
  induction k with
  | zero => simp [pow10]
  | succ k ih =>
    have hstep : c * pow10 (k + 1) = c * pow10 k * 10 := by
      rw [Nat.mul_assoc]
      rfl
    have hpos : 0 < c * pow10 k := Nat.mul_pos (Nat.pos_of_ne_zero hc) (Nat.pow_pos (by decide))
    rw [hstep, Nat.toDigits_eq_if (by decide), if_neg (by omega), Nat.mul_div_cancel _ (by decide),
      Nat.mul_mod_left, ih, List.replicate_succ', List.append_assoc]
    rfl

/-- A whole decimal of at most 21 digits is written in full. -/
theorem Decimal.text_whole {x : Decimal} {k n : Nat} (hk : x.exponent = k)
    (hn : x.coefficient * pow10 k = n) (hzero : n ≠ 0) (hcount : digitCount n ≤ 21) :
    x.text .plain = String.ofList (Nat.toDigits 10 n) := by
  have hcoefficient : x.coefficient ≠ 0 := by
    rintro h
    rw [h, Nat.zero_mul] at hn
    exact hzero hn.symm
  have hdigits := toDigits_mul_pow10 hcoefficient k
  rw [hn] at hdigits
  have hlength : (Nat.toDigits 10 x.coefficient).length = digitCount x.coefficient := rfl
  have hsum : digitCount n = digitCount x.coefficient + k := by
    rw [digitCount, hdigits, List.length_append, List.length_replicate]
    rfl
  have hzeros : (x.exponent + digitCount x.coefficient - digitCount x.coefficient).toNat = k := by
    omega
  have hwhole : (digitCount x.coefficient : Int) ≤ x.exponent + digitCount x.coefficient ∧
      x.exponent + digitCount x.coefficient ≤ 21 := by omega
  unfold text
  simp only [NumberLayout.plain, hlength]
  rw [if_pos hwhole, hzeros, hdigits]
  exact String.append_empty

/-! ### Magnitudes of integers -/

namespace Shortest

variable {x : Magnitude} {n : Nat}

/-- A magnitude rounds to itself. -/
theorem inInterval_magnitudeValue (x : Magnitude) : InInterval x (magnitudeValue x) := by
  rw [InInterval, quarters_magnitudeValue]
  have hlow : lowerQuarters x ≤ 4 * x.mantissa := by
    unfold lowerQuarters
    split <;> omega
  have hodd : x.mantissa % 2 = 1 → lowerQuarters x < 4 * x.mantissa := by
    unfold lowerQuarters
    split <;> omega
  unfold upperQuarters
  norm_cast
  exact ⟨hlow, by omega, fun h => ⟨hodd h, by omega⟩⟩

theorem magnitudeValue_of_units (h : x.units = n * Binary64.unitsPerOne) :
    magnitudeValue x = n := by
  have hunits : ((x.mantissa * pow2 x.exponent : Nat) : ℚ) =
      (n * pow2 Binary64.unitExponent : Nat) := congrArg Nat.cast h
  rw [Nat.cast_mul, Nat.cast_mul, cast_pow2, cast_pow2] at hunits
  rw [magnitudeValue, hunits]
  exact mul_div_cancel_right₀ _ (pow_ne_zero _ two_ne_zero)

/-- Integers that are worth at least four quarters of a bit are told apart. -/
theorem eq_of_quarters {m n q : Nat} {w : ℚ} (hw : 4 ≤ w) (hn : n * w = 4 * q)
    (hlow : 4 * q ≤ m * w + 2) (hhigh : m * w ≤ 4 * q + 2) : m = n := by
  by_contra hne
  rcases Nat.lt_or_gt_of_ne hne with hlt | hgt
  · have hstep : (m : ℚ) + 1 ≤ n := by exact_mod_cast hlt
    nlinarith
  · have hstep : (n : ℚ) + 1 ≤ m := by exact_mod_cast hgt
    nlinarith

theorem four_le_quarters_one (h : x.exponent ≤ Binary64.unitExponent) : 4 ≤ quarters x 1 := by
  have hsquare : (2 : ℚ) ^ 2 = 4 := by norm_num
  have hpow : (2 : ℚ) ^ x.exponent ≤ 2 ^ Binary64.unitExponent := pow_le_pow_right₀ one_le_two h
  rw [quarters, one_mul, le_div_iff₀ (by positivity), pow_add, hsquare, mul_comm]
  exact mul_le_mul_of_nonneg_right hpow (by norm_num)

/-- Where a bit is worth at most one, no other integer rounds to an integer. -/
theorem eq_of_inInterval {m : Nat} (h : x.units = n * Binary64.unitsPerOne)
    (hexponent : x.exponent ≤ Binary64.unitExponent) (hm : InInterval x m) : m = n := by
  obtain ⟨hlow, hhigh, -⟩ := hm
  have hquarters (v : ℚ) : quarters x v = v * quarters x 1 := by
    rw [quarters, quarters, one_mul, mul_div_assoc]
  have hself : n * quarters x 1 = 4 * x.mantissa := by
    rw [← hquarters, ← magnitudeValue_of_units h, quarters_magnitudeValue]
  have hlower : (4 * x.mantissa : ℚ) ≤ lowerQuarters x + 2 := by
    have hle : 4 * x.mantissa ≤ lowerQuarters x + 2 := by
      unfold lowerQuarters
      split <;> omega
    exact_mod_cast hle
  have hupper : (upperQuarters x : ℚ) = 4 * x.mantissa + 2 := by
    rw [upperQuarters]
    push_cast
    ring
  rw [hquarters] at hlow hhigh
  apply eq_of_quarters (four_le_quarters_one hexponent) hself
  · linarith
  · linarith

/-! ### The grid of the integers -/

theorem le_exponent_strip (fuel c : Nat) (e : Int) : e ≤ (strip fuel c e).exponent := by
  induction fuel generalizing c e with
  | zero => exact Int.le_refl e
  | succ fuel ih =>
    rw [strip]
    split
    · exact Int.le_trans (by omega) (ih (c / 10) (e + 1))
    · exact Int.le_refl e

/-- The search goes no further than to a grid with a hit. -/
theorem le_exponent_of_search {point : Int} {fuel count k : Nat} {y : Decimal}
    (h : search x point fuel count = some y) (hk : count ≤ k)
    (hhit : (onGrid? x (gridSteps x (point - k)) (gridUnits (point - k))).isSome) :
    point - k ≤ y.exponent := by
  induction fuel generalizing count with
  | zero => cases h
  | succ fuel ih =>
    rw [search] at h
    split at h
    · next c hc =>
      obtain rfl := Option.some.inj h
      exact Int.le_trans (by omega) (le_exponent_strip _ _ _)
    · next hnone =>
      apply ih h
      by_contra hlt
      obtain rfl : k = count := by omega
      rw [show onGrid? x (gridSteps x (point - k)) (gridUnits (point - k)) = none from hnone]
        at hhit
      cases hhit

/-- A magnitude on a grid is found there. -/
theorem isSome_onGrid?_of_eq {steps d c : Nat} (hd : 0 < d) (hc : 4 * x.mantissa * steps = c * d)
    (hrounds : roundsTo x (c * d) steps) : (onGrid? x steps d).isSome := by
  unfold onGrid?
  dsimp only
  rw [hc, Nat.mul_div_cancel c hd, hrounds]
  cases roundsTo x ((c + 1) * d) steps with
  | false => rfl
  | true =>
    dsimp only
    split
    · rfl
    · split
      · rfl
      · split <;> rfl

/-- A magnitude that is an integer is found on the grid of the integers. -/
theorem isSome_onGrid?_zero (h : x.units = n * Binary64.unitsPerOne) :
    (onGrid? x (gridSteps x 0) (gridUnits 0)).isSome := by
  have hquarters : quarters x n = (n * gridUnits 0 : Nat) / (gridSteps x 0 : Nat) := by
    rw [← quarters_grid, zpow_zero, mul_one]
  have hinterval : InInterval x n := by
    rw [← magnitudeValue_of_units h]
    exact inInterval_magnitudeValue x
  have hsteps : 4 * x.mantissa * gridSteps x 0 = n * gridUnits 0 := by
    have hsteps : gridSteps x 0 = pow2 x.exponent := by simp [gridSteps]
    have hone : gridUnits 0 = pow2 Binary64.unitExponent * 4 := by
      simp only [gridUnits, pow2_add]
      simp [pow10, pow2]
    rw [hsteps, hone, Nat.mul_assoc, show x.mantissa * pow2 x.exponent = x.units from rfl, h,
      Binary64.unitsPerOne, Nat.mul_comm, Nat.mul_assoc]
  exact isSome_onGrid?_of_eq (gridUnits_pos 0) hsteps
    ((roundsTo_iff (gridSteps_pos x 0) hquarters).2 hinterval)

end Shortest

/-! ### The text of integers -/

namespace Magnitude

variable {x : Magnitude} {n : Nat}

/-- A positive integer of at most 53 bits is a magnitude whose last bit is worth at most one. -/
theorem exists_units_eq (hn : n ≠ 0) (h : n < pow2 53) :
    ∃ x : Magnitude, x.units = n * Binary64.unitsPerOne ∧ x.mantissa ≠ 0 ∧
      x.exponent ≤ Binary64.unitExponent := by
  have hlog : n.log2 < 53 := (Nat.log2_lt hn).2 h
  have hsplit : pow2 53 = pow2 (n.log2 + 1) * pow2 (52 - n.log2) := by
    rw [← pow2_add]
    congr 1
    omega
  have hlow : pow2 52 ≤ n * pow2 (52 - n.log2) :=
    calc pow2 52 = pow2 n.log2 * pow2 (52 - n.log2) := by rw [← pow2_add]; congr 1; omega
      _ ≤ n * pow2 (52 - n.log2) := Nat.mul_le_mul_right _ (pow2_log2_le hn)
  have hhigh : n * pow2 (52 - n.log2) < pow2 53 := by
    rw [hsplit]
    exact Nat.mul_lt_mul_of_pos_right (lt_pow2_log2 n) (pow2_pos _)
  have hexponent : 1022 + n.log2 ≤ Binary64.unitExponent := by
    show 1022 + n.log2 ≤ 1074
    omega
  refine ⟨⟨n * pow2 (52 - n.log2), 1022 + n.log2, hhigh, by omega, .inr hlow⟩, ?_, ?_, hexponent⟩
  · show n * pow2 (52 - n.log2) * pow2 (1022 + n.log2) = n * pow2 Binary64.unitExponent
    rw [Nat.mul_assoc, ← pow2_add]
    congr 2
    show 52 - n.log2 + (1022 + n.log2) = 1074
    omega
  · have hpos := pow2_pos 52
    show n * pow2 (52 - n.log2) ≠ 0
    omega

/-- The point of an integer stands behind its digits. -/
theorem pointOf_units (hn : n ≠ 0) (h : x.units = n * Binary64.unitsPerOne) :
    pointOf x.units Binary64.unitsPerOne = digitCount n := by
  have hone : 0 < Binary64.unitsPerOne := pow2_pos _
  have hle : Binary64.unitsPerOne ≤ n * Binary64.unitsPerOne :=
    Nat.le_mul_of_pos_left _ (Nat.pos_of_ne_zero hn)
  rw [pointOf, h, if_pos hle, Nat.mul_div_cancel n hone]

/-- **The shortest decimal of an integer** of at most 53 bits is the integer. -/
theorem shortest_whole (hn : n ≠ 0) (hcount : digitCount n ≤ 17)
    (h : x.units = n * Binary64.unitsPerOne) (hm : x.mantissa ≠ 0)
    (hexponent : x.exponent ≤ Binary64.unitExponent) :
    ∃ k : Nat, x.shortest.exponent = k ∧ x.shortest.coefficient * pow10 k = n := by
  have hpos : 0 < digitCount n := List.length_pos_iff.2 (toDigits_ne_nil n)
  have hhit : (onGrid? x (gridSteps x ((digitCount n : Int) - digitCount n))
      (gridUnits ((digitCount n : Int) - digitCount n))).isSome := by
    rw [Int.sub_self]
    exact isSome_onGrid?_zero h
  have hfound : (search x (digitCount n) 17 1).isSome :=
    isSome_search (show 1 ≤ digitCount n by omega) (by omega) hhit
  obtain ⟨y, hy⟩ := Option.isSome_iff_exists.1 hfound
  have hshortest : x.shortest = y := by
    rw [shortest, if_neg hm]
    dsimp only
    rw [pointOf_units hn h, hy]
    rfl
  have hgrid := le_exponent_of_search hy (show 1 ≤ digitCount n by omega) hhit
  obtain ⟨k, hk⟩ : ∃ k : Nat, y.exponent = k := ⟨y.exponent.toNat, by omega⟩
  have hvalue : y.value = (y.coefficient * pow10 k : Nat) := by
    rw [Decimal.value, hk, zpow_natCast, Nat.cast_mul, cast_pow10]
  have hinterval := inInterval_of_search hy
  rw [hvalue] at hinterval
  rw [hshortest]
  exact ⟨k, hk, eq_of_inInterval h hexponent hinterval⟩

end Magnitude

/-- An integer that is a magnitude is rounded to it. -/
theorem ofInt_of_units {n : Int} {x : Magnitude}
    (h : x.units = n.natAbs * Binary64.unitsPerOne) :
    Binary64.ofInt n = .finite (n < 0) x := by
  have hinterval := inInterval_magnitudeValue x
  rw [magnitudeValue_of_units h] at hinterval
  apply ofRatio_of_inInterval Nat.one_pos
  rwa [Nat.cast_one, div_one]

/-- **The plain text of an integer** of at most 53 bits as a number is that of the integer. -/
theorem text_ofInt {n : Int} (h : n.natAbs < pow2 53) :
    (Binary64.ofInt n).text .plain = intText n := by
  by_cases hn : n = 0
  · subst hn
    decide +kernel
  · have habs : n.natAbs ≠ 0 := Int.natAbs_ne_zero.2 hn
    obtain ⟨x, hx, hm, hexponent⟩ := Magnitude.exists_units_eq habs h
    have hcount : digitCount n.natAbs ≤ 16 := by
      have hbound : pow2 53 ≤ pow10 16 := by decide +kernel
      exact (Nat.length_toDigits_le_iff (by decide) (by decide)).2 (Nat.lt_of_lt_of_le h hbound)
    obtain ⟨k, hk, hcoefficient⟩ := Magnitude.shortest_whole habs (by omega) hx hm hexponent
    have htext := Decimal.text_whole hk hcoefficient habs (by omega)
    rw [ofInt_of_units hx, Binary64.text, if_neg hm, htext, intText]
    simp only [decide_eq_true_eq]

end Runbook
