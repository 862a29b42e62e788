import Mathlib.Algebra.Order.Field.Power
import Mathlib.Data.Rat.Cast.Order
import Mathlib.Tactic.FieldSimp
import Mathlib.Tactic.NormNum
import Mathlib.Tactic.Positivity
import Runbook.Proofs.Decimal.Nearest
import Runbook.Proofs.Digits

/-!
# Shortest decimals are read back

Seventeen digits are enough to meet the rounding interval of every magnitude, so the search for the
shortest decimal succeeds, and what it finds is rounded to the magnitude (`toBinary64_of_value`).
-/

namespace Runbook

/-- The number that a decimal is. -/
def Decimal.value (x : Decimal) : ℚ := x.coefficient * 10 ^ x.exponent

namespace Shortest

variable {x : Magnitude} {n d c : Nat}

/-- The quarters of the last mantissa bit of a magnitude in a number. -/
def quarters (x : Magnitude) (v : ℚ) : ℚ :=
  v * 2 ^ (Binary64.unitExponent + 2) / 2 ^ x.exponent

/-- A number is in the rounding interval of a magnitude. -/
def InInterval (x : Magnitude) (v : ℚ) : Prop :=
  lowerQuarters x ≤ quarters x v ∧ quarters x v ≤ upperQuarters x ∧
    (x.mantissa % 2 = 1 → lowerQuarters x < quarters x v ∧ quarters x v < upperQuarters x)

theorem roundsTo_iff (hd : 0 < d) {v : ℚ} (hv : quarters x v = n / d) :
    roundsTo x n d ↔ InInterval x v := by
  have hd' : (0 : ℚ) < d := by exact_mod_cast hd
  rw [InInterval, hv, le_div_iff₀ hd', div_le_iff₀ hd', lt_div_iff₀ hd', div_lt_iff₀ hd']
  norm_cast
  unfold roundsTo
  split
  · next heven => simp [heven]
  · next hodd =>
    have hodd : x.mantissa % 2 = 1 := by omega
    simp only [hodd, forall_const, Bool.and_eq_true, decide_eq_true_eq]
    exact ⟨fun h => ⟨h.1.le, h.2.le, h⟩, fun h => h.2.2⟩

/-- A grid meets the interval if its steps are narrower. -/
theorem isSome_onGrid? (hn : 0 < n) (hd : 0 < d)
    (hstep : d + lowerQuarters x * n < upperQuarters x * n) : (onGrid? x n d).isSome := by
  have hbelow := Nat.div_mul_le_self (4 * x.mantissa * n) d
  have habove : 4 * x.mantissa * n < (4 * x.mantissa * n / d + 1) * d := by
    rw [Nat.mul_comm _ d]
    exact Nat.lt_mul_div_succ _ hd
  have hlow : lowerQuarters x * n ≤ 4 * x.mantissa * n := by
    refine Nat.mul_le_mul_right n ?_
    unfold lowerQuarters
    split <;> omega
  have hhigh : 4 * x.mantissa * n < upperQuarters x * n :=
    Nat.mul_lt_mul_of_pos_right (by simp [upperQuarters]) hn
  by_contra hnone
  unfold onGrid? at hnone
  dsimp only at hnone
  generalize 4 * x.mantissa * n / d = b at *
  have hfalse : roundsTo x (b * d) n = false ∧ roundsTo x ((b + 1) * d) n = false := by
    revert hnone
    cases roundsTo x (b * d) n <;> cases roundsTo x ((b + 1) * d) n <;> simp
    split
    · simp
    split
    · simp
    split <;> simp
  obtain ⟨hb, ha⟩ := hfalse
  rw [Nat.add_mul, Nat.one_mul] at habove ha
  unfold roundsTo at hb ha
  split at hb
  · next heven =>
    rw [if_pos heven] at ha
    simp only [Bool.and_eq_false_iff, decide_eq_false_iff_not] at hb ha
    omega
  · next hodd =>
    rw [if_neg hodd] at ha
    simp only [Bool.and_eq_false_iff, decide_eq_false_iff_not] at hb ha
    omega

theorem roundsTo_of_onGrid? (h : onGrid? x n d = some c) : roundsTo x (c * d) n := by
  unfold onGrid? at h
  dsimp only at h
  split at h
  · next hbelow _ => exact Option.some.inj h ▸ hbelow
  · next _ habove => exact Option.some.inj h ▸ habove
  · next hbelow habove =>
    split at h
    · exact Option.some.inj h ▸ hbelow
    split at h
    · exact Option.some.inj h ▸ habove
    split at h
    · exact Option.some.inj h ▸ hbelow
    · exact Option.some.inj h ▸ habove
  · cases h

/-! ### Grids -/

/-- A quarter of the last mantissa bit and a step of a grid, as a quotient. -/
def gridSteps (x : Magnitude) (grid : Int) : Nat :=
  pow2 x.exponent * (if grid < 0 then pow10 (-grid).toNat else 1)

@[inherit_doc gridSteps]
def gridUnits (grid : Int) : Nat :=
  pow2 (Binary64.unitExponent + 2) * (if grid < 0 then 1 else pow10 grid.toNat)

theorem gridSteps_pos (x : Magnitude) (grid : Int) : 0 < gridSteps x grid := by
  unfold gridSteps
  refine Nat.mul_pos (pow2_pos _) ?_
  split
  · exact Nat.pow_pos (by decide)
  · exact Nat.one_pos

theorem gridUnits_pos (grid : Int) : 0 < gridUnits grid := by
  unfold gridUnits
  refine Nat.mul_pos (pow2_pos _) ?_
  split
  · exact Nat.one_pos
  · exact Nat.pow_pos (by decide)

theorem cast_pow2 (k : Nat) : ((pow2 k : Nat) : ℚ) = 2 ^ k := by
  simp [pow2]

theorem cast_pow10 (k : Nat) : ((pow10 k : Nat) : ℚ) = 10 ^ k := by
  simp [pow10]

theorem quarters_grid (x : Magnitude) (c : Nat) (grid : Int) :
    quarters x (c * 10 ^ grid) = (c * gridUnits grid : Nat) / (gridSteps x grid : Nat) := by
  unfold quarters gridSteps gridUnits
  by_cases h : grid < 0
  · obtain ⟨k, rfl⟩ : ∃ k : Nat, grid = -(k : Int) := ⟨(-grid).toNat, by omega⟩
    have hk : (-(-(k : Int))).toNat = k := by omega
    simp only [if_pos h, hk, Nat.cast_mul, cast_pow2, cast_pow10, zpow_neg, zpow_natCast,
      Nat.cast_one]
    field_simp
  · obtain ⟨k, rfl⟩ : ∃ k : Nat, grid = (k : Int) := ⟨grid.toNat, by omega⟩
    have hk : ((k : Int)).toNat = k := by omega
    simp only [if_neg h, hk, Nat.cast_mul, cast_pow2, cast_pow10, zpow_natCast, Nat.cast_one]
    field_simp

theorem value_strip (fuel c : Nat) (e : Int) : (strip fuel c e).value = c * 10 ^ e := by
  induction fuel generalizing c e with
  | zero => rfl
  | succ fuel ih =>
    rw [strip]
    split
    · next h =>
      simp only [Bool.and_eq_true, decide_eq_true_eq] at h
      obtain ⟨c', rfl⟩ : ∃ c', c = 10 * c' := ⟨c / 10, by omega⟩
      rw [ih, Nat.mul_div_cancel_left c' (by decide), zpow_add₀ (by norm_num)]
      push_cast
      ring
    · rfl

/-- What the search finds is in the interval. -/
theorem inInterval_of_search {point : Int} {fuel count : Nat} {y : Decimal}
    (h : search x point fuel count = some y) : InInterval x y.value := by
  induction fuel generalizing count with
  | zero => cases h
  | succ fuel ih =>
    rw [search] at h
    split at h
    · next c hc =>
      obtain rfl := Option.some.inj h
      rw [value_strip]
      exact (roundsTo_iff (gridSteps_pos x _) (quarters_grid x c _)).1 (roundsTo_of_onGrid? hc)
    · exact ih h

/-- The search succeeds if a grid within its reach meets the interval. -/
theorem isSome_search {point : Int} {fuel count k : Nat} (hk : count ≤ k) (hfuel : k < count + fuel)
    (h : (onGrid? x (gridSteps x (point - k)) (gridUnits (point - k))).isSome) :
    (search x point fuel count).isSome := by
  induction fuel generalizing count with
  | zero => omega
  | succ fuel ih =>
    rw [search]
    split
    · rfl
    · next hnone =>
      refine ih ?_ (by omega)
      by_contra hlt
      obtain rfl : k = count := by omega
      rw [show onGrid? x (gridSteps x (point - k)) (gridUnits (point - k)) = none from hnone] at h
      cases h

/-! ### Seventeen digits -/

/-- The first digit of a quotient stands before the point that is found for it, or to its left. -/
theorem pow_pointOf_le (hn : 0 < n) (hd : 0 < d) : (10 : ℚ) ^ (pointOf n d - 1) ≤ n / d := by
  have hd' : (0 : ℚ) < d := by exact_mod_cast hd
  have hn' : (0 : ℚ) < n := by exact_mod_cast hn
  unfold pointOf
  split
  · next hle =>
    have hq : n / d ≠ 0 := (Nat.div_pos hle hd).ne'
    have hcount : 0 < digitCount (n / d) := List.length_pos_iff.2 (toDigits_ne_nil _)
    have hpow := pow10_le_of_ne_zero hq
    have hexp : (digitCount (n / d) : Int) - 1 = ((digitCount (n / d) - 1 : Nat) : Int) := by omega
    rw [hexp, zpow_natCast, ← cast_pow10, le_div_iff₀ hd']
    exact_mod_cast (Nat.le_div_iff_mul_le hd).1 hpow
  · next hlt =>
    have hpow : d ≤ n * pow10 (digitCount ((d - 1) / n)) := by
      have := (Nat.div_lt_iff_lt_mul hn).1 (lt_pow10_digitCount ((d - 1) / n))
      rw [Nat.mul_comm] at this
      omega
    have hexp : (1 - (digitCount ((d - 1) / n) : Int)) - 1 = -(digitCount ((d - 1) / n) : Int) := by
      omega
    rw [hexp, zpow_neg, zpow_natCast, ← cast_pow10, inv_le_comm₀ (by rw [cast_pow10]; positivity)
      (by positivity), inv_div, div_le_iff₀ hn', mul_comm]
    exact_mod_cast hpow

/-- The number that a magnitude is. -/
def magnitudeValue (x : Magnitude) : ℚ :=
  x.mantissa * 2 ^ x.exponent / 2 ^ Binary64.unitExponent

theorem quarters_magnitudeValue (x : Magnitude) :
    quarters x (magnitudeValue x) = 4 * x.mantissa := by
  have hsquare : (2 : ℚ) ^ 2 = 4 := by norm_num
  have hcancel (m b u : ℚ) (hb : b ≠ 0) (hu : u ≠ 0) : m * b / u * (u * 4) / b = 4 * m := by
    field_simp
  unfold quarters magnitudeValue
  rw [pow_add, hsquare]
  exact hcancel _ _ _ (pow_ne_zero _ two_ne_zero) (pow_ne_zero _ two_ne_zero)

theorem quarters_mono {v w : ℚ} (h : v ≤ w) : quarters x v ≤ quarters x w := by
  unfold quarters
  gcongr

theorem quarters_div (v w : ℚ) : quarters x (v / w) = quarters x v / w := by
  unfold quarters
  ring

/-- The rounding interval is wider than its magnitude over `10 ^ 16`. -/
theorem lt_width (x : Magnitude) :
    (4 * x.mantissa / 10 ^ 16 : ℚ) < upperQuarters x - lowerQuarters x := by
  rw [div_lt_iff₀ (by norm_num), sub_mul, lt_sub_iff_add_lt]
  unfold upperQuarters lowerQuarters
  split
  · next h =>
    have hpower : x.mantissa = 2 ^ 52 := h.1
    rw [hpower]
    norm_num
  · have hbound : x.mantissa < 2 ^ 53 := x.canonical.1
    norm_cast
    omega

/-- A grid of seventeen digits meets the interval. -/
theorem isSome_onGrid?_seventeen {point : Int}
    (hpoint : (10 : ℚ) ^ (point - 1) ≤ magnitudeValue x) :
    (onGrid? x (gridSteps x (point - (17 : Nat))) (gridUnits (point - (17 : Nat)))).isSome := by
  have hn := gridSteps_pos x (point - (17 : Nat))
  have hn' : (0 : ℚ) < gridSteps x (point - (17 : Nat)) := by exact_mod_cast hn
  -- a step of the grid in quarters of the last bit
  have hsteps : (gridUnits (point - (17 : Nat)) : ℚ) / gridSteps x (point - (17 : Nat)) ≤
      4 * x.mantissa / 10 ^ 16 := by
    have hgrid := quarters_grid x 1 (point - (17 : Nat))
    rw [Nat.one_mul, Nat.cast_one, one_mul] at hgrid
    have hpow : (10 : ℚ) ^ (point - (17 : Nat)) = 10 ^ (point - 1) / 10 ^ 16 := by
      rw [eq_div_iff (by norm_num), ← zpow_natCast (10 : ℚ) 16, ← zpow_add₀ (by norm_num)]
      congr 1
      push_cast
      ring
    rw [← hgrid, hpow, quarters_div, ← quarters_magnitudeValue]
    exact div_le_div_of_nonneg_right (quarters_mono hpoint) (by norm_num)
  have hstep := lt_of_le_of_lt hsteps (lt_width x)
  rw [div_lt_iff₀ hn', sub_mul, lt_sub_iff_add_lt] at hstep
  exact isSome_onGrid? hn (gridUnits_pos _) (by exact_mod_cast hstep)

/-! ### What is read -/

theorem ofUnits_of_roundsTo {negative : Bool} (hd : 0 < d)
    (h : roundsTo x (4 * n) (d * pow2 x.exponent)) :
    Binary64.ofUnits negative n d = .finite negative x := by
  have hnearest := Magnitude.nearest?_of_roundsTo hd h
  unfold Binary64.ofUnits
  generalize Magnitude.nearest? n d = rounded at *
  subst hnearest
  rfl

/-- A quotient in the rounding interval of a magnitude is rounded to it. -/
theorem ofRatio_of_inInterval {negative : Bool} (hd : 0 < d) (h : InInterval x (n / d)) :
    Binary64.ofRatio negative n d = .finite negative x := by
  have hquarters : quarters x (n / d) =
      (4 * (n * Binary64.unitsPerOne) : Nat) / (d * pow2 x.exponent : Nat) := by
    have hsquare : (2 : ℚ) ^ 2 = 4 := by norm_num
    have hd' : (d : ℚ) ≠ 0 := by exact_mod_cast hd.ne'
    have hbit : (2 : ℚ) ^ x.exponent ≠ 0 := pow_ne_zero _ two_ne_zero
    rw [quarters, Binary64.unitsPerOne]
    simp only [Nat.cast_mul, cast_pow2, pow_add, hsquare, Nat.cast_ofNat]
    generalize (2 : ℚ) ^ Binary64.unitExponent = u
    field_simp
  show Binary64.ofUnits negative (n * Binary64.unitsPerOne) d = _
  generalize n * Binary64.unitsPerOne = units at *
  exact ofUnits_of_roundsTo hd ((roundsTo_iff (Nat.mul_pos hd (pow2_pos _)) hquarters).2 h)

theorem two_le_lowerQuarters (hm : x.mantissa ≠ 0) : 2 ≤ lowerQuarters x := by
  unfold lowerQuarters
  split <;> omega

/-- The numbers that round to a magnitude are at least half of the least one. -/
theorem InInterval.le {v : ℚ} (hm : x.mantissa ≠ 0) (h : InInterval x v) :
    1 ≤ v * 2 ^ (Binary64.unitExponent + 1) := by
  have hlow : (2 : ℚ) ≤ quarters x v := le_trans (by exact_mod_cast two_le_lowerQuarters hm) h.1
  have hbit : (1 : ℚ) ≤ 2 ^ x.exponent := one_le_pow₀ one_le_two
  rw [quarters, le_div_iff₀ (by positivity), pow_succ] at hlow
  linarith

/-- The numbers that round to a magnitude are at most `2 ^ 1024`. -/
theorem InInterval.ge {v : ℚ} (h : InInterval x v) :
    v * 2 ^ (Binary64.unitExponent + 2) ≤ 2 ^ 2100 := by
  have hupper : upperQuarters x ≤ 2 ^ 55 := by
    have hm : x.mantissa < 2 ^ 53 := x.canonical.1
    unfold upperQuarters
    omega
  have hhigh : quarters x v ≤ 2 ^ 55 := le_trans h.2.1 (by exact_mod_cast hupper)
  rw [quarters, div_le_iff₀ (by positivity), ← pow_add] at hhigh
  refine hhigh.trans (pow_le_pow_right₀ one_le_two ?_)
  have := x.canonical.2.1
  omega

end Shortest

open Shortest

namespace Decimal

variable {y : Decimal}

/-- A decimal starts with its first digit. -/
theorem pow_le_value (h : y.coefficient ≠ 0) :
    (10 : ℚ) ^ (y.exponent + digitCount y.coefficient - 1) ≤ y.value := by
  have hcount : 0 < digitCount y.coefficient := List.length_pos_iff.2 (toDigits_ne_nil _)
  have hsplit : y.exponent + digitCount y.coefficient - 1 =
      ((digitCount y.coefficient - 1 : Nat) : Int) + y.exponent := by omega
  rw [hsplit, zpow_add₀ (by norm_num), zpow_natCast, ← cast_pow10, value]
  gcongr
  exact pow10_le_of_ne_zero h

theorem value_lt_pow (y : Decimal) :
    y.value < 10 ^ (y.exponent + digitCount y.coefficient) := by
  rw [add_comm, zpow_add₀ (by norm_num), zpow_natCast, ← cast_pow10, value]
  gcongr
  exact lt_pow10_digitCount _

/-- A decimal whose point is far to the right is great. -/
theorem pow_le_value_of_point (h : y.coefficient ≠ 0)
    (hpoint : y.exponent + digitCount y.coefficient > 310) : (10 : ℚ) ^ 310 ≤ y.value := by
  refine le_trans ?_ (pow_le_value h)
  rw [← zpow_natCast]
  exact zpow_le_zpow_right₀ (by norm_num) (by omega)

/-- A decimal whose point is far to the left is less than half of the least magnitude. -/
theorem value_mul_lt_one_of_point (hpoint : y.exponent + digitCount y.coefficient < -330) :
    y.value * 2 ^ (Binary64.unitExponent + 1) < 1 := by
  have hpast : y.value < ((10 : ℚ) ^ (330 : Nat))⁻¹ := by
    refine lt_of_lt_of_le (value_lt_pow y) ?_
    rw [← zpow_natCast, ← zpow_neg]
    exact zpow_le_zpow_right₀ (by norm_num) (by omega)
  have hsmall : 2 ^ (Binary64.unitExponent + 1) < 10 ^ 330 := by decide +kernel
  have hsmall : (2 : ℚ) ^ (Binary64.unitExponent + 1) < 10 ^ 330 := by exact_mod_cast hsmall
  have hten : (10 : ℚ) ^ 330 ≠ 0 := pow_ne_zero _ (by norm_num)
  calc y.value * 2 ^ (Binary64.unitExponent + 1)
      < ((10 : ℚ) ^ (330 : Nat))⁻¹ * 2 ^ (Binary64.unitExponent + 1) := by gcongr
    _ < ((10 : ℚ) ^ (330 : Nat))⁻¹ * 10 ^ 330 := by gcongr
    _ = 1 := inv_mul_cancel₀ hten

/-- The value of a whole decimal as a quotient. -/
theorem value_of_nonneg (h : 0 ≤ y.exponent) :
    y.value = (y.coefficient * pow10 y.exponent.toNat : Nat) / (1 : Nat) := by
  obtain ⟨k, hk⟩ : ∃ k : Nat, y.exponent = k := ⟨y.exponent.toNat, by omega⟩
  rw [value, hk, Int.toNat_natCast, zpow_natCast, Nat.cast_mul, cast_pow10, Nat.cast_one, div_one]

/-- The value of a decimal with a fraction as a quotient. -/
theorem value_of_neg (h : ¬ 0 ≤ y.exponent) :
    y.value = (y.coefficient : Nat) / (pow10 (-y.exponent).toNat : Nat) := by
  obtain ⟨k, hk⟩ : ∃ k : Nat, y.exponent = -(k : Int) := ⟨(-y.exponent).toNat, by omega⟩
  rw [value, hk, neg_neg, Int.toNat_natCast, zpow_neg, zpow_natCast, cast_pow10, div_eq_mul_inv]

/-- A decimal in the rounding interval of a magnitude is read as that magnitude. -/
theorem toBinary64_of_inInterval {x : Magnitude} {negative : Bool} (hm : x.mantissa ≠ 0)
    (h : InInterval x y.value) : y.toBinary64 negative = .finite negative x := by
  have hlow := h.le hm
  have hhigh := h.ge
  have hcoefficient : y.coefficient ≠ 0 := by
    intro hzero
    rw [value, hzero, Nat.cast_zero, zero_mul, zero_mul] at hlow
    exact absurd hlow (by norm_num)
  have habove : ¬ y.exponent + digitCount y.coefficient > 310 := by
    intro hpoint
    have hfirst := pow_le_value_of_point hcoefficient hpoint
    have hlarge : 2 ^ 2100 < 10 ^ 310 * 2 ^ (Binary64.unitExponent + 2) := by decide +kernel
    have hlarge : (2 : ℚ) ^ 2100 < 10 ^ 310 * 2 ^ (Binary64.unitExponent + 2) := by
      exact_mod_cast hlarge
    refine absurd hhigh (not_le.2 (hlarge.trans_le ?_))
    gcongr
  have hbelow : ¬ y.exponent + digitCount y.coefficient < -330 :=
    fun hpoint => absurd hlow (not_le.2 (value_mul_lt_one_of_point hpoint))
  unfold toBinary64
  rw [if_neg hcoefficient]
  dsimp only
  rw [if_neg habove, if_neg hbelow]
  split
  · next hwhole => exact ofRatio_of_inInterval Nat.one_pos (value_of_nonneg hwhole ▸ h)
  · next hfraction =>
    exact ofRatio_of_inInterval (Nat.pow_pos (by decide)) (value_of_neg hfraction ▸ h)

end Decimal
namespace Magnitude

variable {x : Magnitude}

/-- The shortest decimal is in the rounding interval. -/
theorem inInterval_shortest (hm : x.mantissa ≠ 0) : InInterval x x.shortest.value := by
  have hunits : 0 < x.units := Nat.mul_pos (Nat.pos_of_ne_zero hm) (pow2_pos _)
  have hone : 0 < Binary64.unitsPerOne := pow2_pos _
  have hpoint : (10 : ℚ) ^ (pointOf x.units Binary64.unitsPerOne - 1) ≤ magnitudeValue x := by
    have hpow := pow_pointOf_le hunits hone
    rw [units, Nat.cast_mul, Binary64.unitsPerOne, cast_pow2, cast_pow2] at hpow
    exact hpow
  have hfound := isSome_search (show 1 ≤ 17 by decide) (show 17 < 1 + 17 by decide)
    (isSome_onGrid?_seventeen hpoint)
  obtain ⟨y, hy⟩ := Option.isSome_iff_exists.1 hfound
  rw [shortest, if_neg hm]
  dsimp only
  rw [hy]
  exact inInterval_of_search hy

/-- The shortest decimal of a magnitude is read as the magnitude, and so is every other decimal of
its value. -/
theorem toBinary64_of_value {y : Decimal} {negative : Bool} (hm : x.mantissa ≠ 0)
    (h : y.value = x.shortest.value) : y.toBinary64 negative = .finite negative x :=
  Decimal.toBinary64_of_inInterval hm (h ▸ inInterval_shortest hm)

end Magnitude
end Runbook
