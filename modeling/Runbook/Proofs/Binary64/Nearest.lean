import Runbook.Proofs.Binary64.Place
import Runbook.Proofs.Decimal.Shortest

/-!
# The nearest number

What it means that a number is the nearest one to an exact value, with the even mantissa of two that
are equally near, and that rounding gives it. A value overflows from halfway between the greatest
finite number and the power of two after it on.

* `Magnitude.IsNearest`, `Binary64.Rounds`: nearest magnitudes, and what a value is rounded to;
* `Magnitude.le_and_tie`: no magnitude is nearer than the rounded mantissa;
* `Binary64.ofRatio_eq_iff`: a quotient is rounded to the number nearest to it, and to no other.
-/

namespace Runbook

open Shortest (magnitudeValue cast_pow2)

/-- A magnitude is nearest to a value if none is nearer, and the mantissa is even if another one is
as near. -/
structure Magnitude.IsNearest (x : Magnitude) (v : ℚ) : Prop where
  closest : ∀ y : Magnitude, |v - magnitudeValue x| ≤ |v - magnitudeValue y|
  even : ∀ y : Magnitude, y ≠ x → |v - magnitudeValue y| = |v - magnitudeValue x| →
    x.mantissa % 2 = 0

/-- Halfway between the greatest finite number and the power of two after it. -/
def Binary64.overflowBound : ℚ := 2 ^ 1024 - 2 ^ 970

/-- What a value that is not negative is rounded to, with a sign: the nearest finite number, or the
infinity if the value overflows. -/
def Binary64.Rounds (negative : Bool) (v : ℚ) : Binary64 → Prop
  | nan => False
  | infinity s => s = negative ∧ overflowBound ≤ v
  | finite s x => s = negative ∧ v < overflowBound ∧ x.IsNearest v

/-! ### Rounding to integers -/

/-- An integer is the one that a number is rounded to, a half to the even neighbour. -/
structure IsRounded (u : ℚ) (m : Nat) : Prop where
  half : |u - m| ≤ 1 / 2
  odd : m % 2 = 1 → |u - m| < 1 / 2

/-- The bounds of `divEven_eq` hold for what a quotient is rounded to. -/
theorem divEven_bounds (n : Nat) {d : Nat} (hd : 0 < d) :
    2 * divEven n d * d ≤ 2 * n + d ∧ 2 * n ≤ (2 * divEven n d + 1) * d ∧
      (divEven n d % 2 = 1 →
        2 * divEven n d * d < 2 * n + d ∧ 2 * n < (2 * divEven n d + 1) * d) := by
  have hn := Nat.div_add_mod n d
  have hr := Nat.mod_lt n hd
  unfold divEven
  dsimp only
  generalize n / d = q at *
  generalize n % d = r at *
  subst hn
  split
  · exact ⟨by linarith, by linarith, fun _ => ⟨by linarith, by linarith⟩⟩
  · split
    · exact ⟨by linarith, by linarith, fun _ => ⟨by linarith, by linarith⟩⟩
    · split
      · exact ⟨by linarith, by linarith, fun _ => by omega⟩
      · exact ⟨by linarith, by linarith, fun _ => by omega⟩

theorem isRounded_divEven (n : Nat) {d : Nat} (hd : 0 < d) : IsRounded (n / d) (divEven n d) := by
  have hd' : (0 : ℚ) < d := by exact_mod_cast hd
  obtain ⟨hlow, hhigh, hodd⟩ := divEven_bounds n hd
  constructor
  · have hlow : (2 * divEven n d * d : ℚ) ≤ 2 * n + d := by exact_mod_cast hlow
    have hhigh : (2 * n : ℚ) ≤ (2 * divEven n d + 1) * d := by exact_mod_cast hhigh
    rw [abs_le, le_sub_iff_add_le, sub_le_iff_le_add, le_div_iff₀ hd', div_le_iff₀ hd']
    constructor <;> linarith
  · intro hm
    have hlow : (2 * divEven n d * d : ℚ) < 2 * n + d := by exact_mod_cast (hodd hm).1
    have hhigh : (2 * n : ℚ) < (2 * divEven n d + 1) * d := by exact_mod_cast (hodd hm).2
    rw [abs_lt, lt_sub_iff_add_lt, sub_lt_iff_lt_add, lt_div_iff₀ hd', div_lt_iff₀ hd']
    constructor <;> linarith

section Round

variable {u w : ℚ} {m : Nat}

/-- No other integer is nearer than the rounded one. If one is as near, it is a neighbour, and the
rounded one is even. -/
theorem IsRounded.le_and_tie (h : IsRounded u m) {k : Nat} (hk : k ≠ m) :
    |u - m| ≤ |u - k| ∧ (|u - k| = |u - m| → m % 2 = 0 ∧ k % 2 = 1) := by
  have hdist : |(m : ℚ) - k| ≤ |u - k| + |u - m| := by
    rw [abs_sub_comm u m, add_comm]
    exact abs_sub_le (m : ℚ) u k
  have hcast : |(m : ℚ) - k| = (((m : ℤ) - k).natAbs : ℚ) := by
    rw [Nat.cast_natAbs]
    push_cast
    rfl
  have hone : 1 ≤ ((m : ℤ) - k).natAbs := by omega
  have hone' : (1 : ℚ) ≤ (((m : ℤ) - k).natAbs : ℚ) := by exact_mod_cast hone
  have hhalf := h.half
  refine ⟨by linarith, fun htie => ?_⟩
  have heven : m % 2 = 0 := by
    by_contra hodd
    have := h.odd (by omega)
    linarith
  have hnext : (((m : ℤ) - k).natAbs : ℚ) ≤ 1 := by linarith
  have hnext : ((m : ℤ) - k).natAbs ≤ 1 := by exact_mod_cast hnext
  exact ⟨heven, by omega⟩

/-- The same for the multiples of a width. -/
theorem IsRounded.mul_le_and_tie (hw : 0 < w) (h : IsRounded (u / w) m) {k : Nat} (hk : k ≠ m) :
    |u - m * w| ≤ |u - k * w| ∧ (|u - k * w| = |u - m * w| → m % 2 = 0 ∧ k % 2 = 1) := by
  have hscale (i : Nat) : |u - i * w| = |u / w - i| * w := by
    rw [← abs_of_pos hw, ← abs_mul, abs_of_pos hw, sub_mul, div_mul_cancel₀ _ hw.ne']
  obtain ⟨hle, htie⟩ := h.le_and_tie hk
  rw [hscale, hscale]
  exact ⟨mul_le_mul_of_nonneg_right hle hw.le, fun heq => htie (mul_right_cancel₀ hw.ne' heq)⟩

/-- From half below an even integer on the rounded one is not less. -/
theorem IsRounded.eq_iff (h : IsRounded u m) {k : Nat} (hk : k % 2 = 0) (hle : m ≤ k) :
    m = k ↔ (k : ℚ) - 1 / 2 ≤ u := by
  constructor
  · rintro rfl
    linarith [(abs_le.1 h.half).1]
  · intro hu
    by_contra hne
    obtain hlt | hprev : m + 2 ≤ k ∨ m + 1 = k := by omega
    · have hlt : (m + 2 : ℚ) ≤ k := by exact_mod_cast hlt
      linarith [(abs_le.1 h.half).2]
    · have hlt := (abs_lt.1 (h.odd (by omega))).2
      have hprev : (m + 1 : ℚ) = k := by exact_mod_cast hprev
      linarith

end Round

/-! ### Rounding to magnitudes -/

namespace Magnitude

/-- A magnitude is a multiple of a power of two, or less than all mantissas of 53 bits times this
power. -/
theorem units_eq_or_lt (y : Magnitude) (e : Nat) :
    (∃ k, y.units = k * pow2 e ∧ (k % 2 = 1 → y.mantissa % 2 = 1)) ∨
      0 < e ∧ y.units < pow2 52 * pow2 e := by
  by_cases h : e ≤ y.exponent
  · obtain ⟨k, hk⟩ := Nat.exists_eq_add_of_le h
    refine .inl ⟨y.mantissa * pow2 k, ?_, fun hodd => ?_⟩
    · rw [units, hk, Nat.add_comm, pow2_add, Nat.mul_assoc]
    · by_contra heven
      rw [Nat.mul_mod, show y.mantissa % 2 = 0 by omega] at hodd
      simp at hodd
  · obtain ⟨k, hk⟩ := Nat.exists_eq_add_of_le (show y.exponent + 1 ≤ e by omega)
    refine .inr ⟨by omega, ?_⟩
    calc y.units < pow2 53 * pow2 y.exponent :=
          Nat.mul_lt_mul_of_pos_right y.canonical.1 (pow2_pos _)
      _ = pow2 52 * pow2 (y.exponent + 1) := by rw [← pow2_add, ← pow2_add]; congr 1; omega
      _ ≤ pow2 52 * pow2 e := Nat.mul_le_mul_left _ (pow2_le_pow2 (by omega))

/-- The exponent that a quotient is rounded with. -/
def roundedExponent (n d : Nat) : Nat := (n / d).log2 - 52

/-- The mantissa that a quotient is rounded to, up to 54 bits. -/
def roundedMantissa (n d : Nat) : Nat := divEven n (d * pow2 (roundedExponent n d))

section Nearest

variable {n d : Nat} {x y : Magnitude}

/-- The whole part of the mantissa has at most 53 bits, and no fewer unless the exponent is the
least one. -/
theorem whole_bounds (n d : Nat) :
    n / (d * pow2 (roundedExponent n d)) < pow2 53 ∧
      (roundedExponent n d ≠ 0 → pow2 52 ≤ n / (d * pow2 (roundedExponent n d))) := by
  unfold roundedExponent
  rw [← Nat.div_div_eq_div_mul]
  by_cases h : 52 ≤ (n / d).log2
  · exact ⟨(bounds_of_log2 h).2, fun _ => (bounds_of_log2 h).1⟩
  · have hzero : (n / d).log2 - 52 = 0 := by omega
    have hlt := Nat.lt_of_lt_of_le (lt_pow2_log2 (n / d))
      (pow2_le_pow2 (show (n / d).log2 + 1 ≤ 53 by omega))
    rw [hzero, show pow2 0 = 1 from rfl, Nat.div_one]
    exact ⟨hlt, fun h => absurd rfl h⟩

/-- The same for the quotient. -/
theorem quotient_bounds (n : Nat) (hd : 0 < d) :
    (n : ℚ) / d < (pow2 53 * pow2 (roundedExponent n d) : Nat) ∧
      (roundedExponent n d ≠ 0 → ((pow2 52 * pow2 (roundedExponent n d) : Nat) : ℚ) ≤ n / d) := by
  have hd' : (0 : ℚ) < d := by exact_mod_cast hd
  have hD : 0 < d * pow2 (roundedExponent n d) := Nat.mul_pos hd (pow2_pos _)
  obtain ⟨hlt, hge⟩ := whole_bounds n d
  rw [Nat.div_lt_iff_lt_mul hD] at hlt
  rw [Nat.le_div_iff_mul_le hD] at hge
  rw [div_lt_iff₀ hd', le_div_iff₀ hd']
  refine ⟨?_, fun he => ?_⟩
  · exact_mod_cast (by linarith : n < pow2 53 * pow2 (roundedExponent n d) * d)
  · have hge := hge he
    exact_mod_cast (by linarith : pow2 52 * pow2 (roundedExponent n d) * d ≤ n)

theorem roundedMantissa_bounds (n d : Nat) :
    roundedMantissa n d ≤ pow2 53 ∧
      (roundedExponent n d ≠ 0 → pow2 52 ≤ roundedMantissa n d) := by
  obtain ⟨hlt, hle⟩ := whole_bounds n d
  rcases divEven_eq_or n (d * pow2 (roundedExponent n d)) with h | h <;> rw [roundedMantissa, h]
  · exact ⟨hlt.le, hle⟩
  · exact ⟨hlt, fun hne => Nat.le_succ_of_le (hle hne)⟩

/-- A magnitude is nearest if it is the rounded mantissa times its power of two, which is even when
the rounded mantissa is. -/
theorem units_of_nearest? (h : nearest? n d = some x) :
    x.units = roundedMantissa n d * pow2 (roundedExponent n d) ∧
      (roundedMantissa n d % 2 = 0 → x.mantissa % 2 = 0) := by
  change (if h : Canonical (roundedMantissa n d) (roundedExponent n d) then some ⟨_, _, h⟩
    else if h : Canonical (pow2 52) (roundedExponent n d + 1) then some ⟨_, _, h⟩
    else none) = some x at h
  split at h
  · cases h
    exact ⟨rfl, id⟩
  · next hwide =>
    split at h
    · next hcarry =>
      cases h
      have hbounds := roundedMantissa_bounds n d
      have hm : roundedMantissa n d = pow2 53 := by
        by_contra hne
        refine hwide ⟨by omega, by have := hcarry.2.1; omega, ?_⟩
        exact (Nat.eq_zero_or_pos _).imp_right fun hpos => hbounds.2 hpos.ne'
      refine ⟨?_, fun _ => (by decide : pow2 52 % 2 = 0)⟩
      show pow2 52 * pow2 (roundedExponent n d + 1) = _
      rw [hm, Nat.add_comm _ 1, pow2_add 1, ← Nat.mul_assoc]
      rfl
    · cases h

theorem isRounded_roundedMantissa (n : Nat) (hd : 0 < d) :
    IsRounded ((n : ℚ) / d / pow2 (roundedExponent n d)) (roundedMantissa n d) := by
  have h := isRounded_divEven n (Nat.mul_pos hd (pow2_pos (roundedExponent n d)))
  rwa [Nat.cast_mul, ← div_div] at h

/-- **No magnitude is nearer than the rounded mantissa.** If one is as near, the rounded mantissa is
even, and the one of the magnitude is odd. -/
theorem le_and_tie (n : Nat) (hd : 0 < d) (y : Magnitude) :
    |(n : ℚ) / d - roundedMantissa n d * pow2 (roundedExponent n d)| ≤ |(n : ℚ) / d - y.units| ∧
      (|(n : ℚ) / d - y.units| = |(n : ℚ) / d - roundedMantissa n d * pow2 (roundedExponent n d)| →
        y.units = roundedMantissa n d * pow2 (roundedExponent n d) ∨
          roundedMantissa n d % 2 = 0 ∧ y.mantissa % 2 = 1) := by
  have hrounded := isRounded_roundedMantissa n hd
  have hw : (0 : ℚ) < pow2 (roundedExponent n d) := by exact_mod_cast pow2_pos _
  rcases y.units_eq_or_lt (roundedExponent n d) with ⟨k, hk, hodd⟩ | ⟨he, hlt⟩
  · rw [hk]
    by_cases hkm : k = roundedMantissa n d
    · rw [hkm, Nat.cast_mul]
      exact ⟨le_rfl, fun _ => .inl rfl⟩
    · obtain ⟨hle, htie⟩ := hrounded.mul_le_and_tie hw hkm
      rw [Nat.cast_mul]
      exact ⟨hle, fun heq => .inr ((htie heq).imp_right hodd)⟩
  · -- below the mantissas of 53 bits the least one of them is nearer
    have hbelow := (quotient_bounds n hd).2 he.ne'
    have hlt : (y.units : ℚ) < (pow2 52 * pow2 (roundedExponent n d) : Nat) := by exact_mod_cast hlt
    have hle : |(n : ℚ) / d - roundedMantissa n d * pow2 (roundedExponent n d)| ≤
        |(n : ℚ) / d - (pow2 52 * pow2 (roundedExponent n d) : Nat)| := by
      rw [Nat.cast_mul]
      by_cases hk : pow2 52 = roundedMantissa n d
      · rw [hk]
      · exact (hrounded.mul_le_and_tie hw hk).1
    rw [abs_of_nonneg (sub_nonneg.2 hbelow)] at hle
    rw [abs_of_pos (sub_pos.2 (hlt.trans_le hbelow))]
    exact ⟨by linarith, fun heq => by linarith⟩

/-- A value, as a quotient of units. -/
def unitsValue (n d : Nat) : ℚ := n / d / Binary64.unitsPerOne

theorem magnitudeValue_eq (y : Magnitude) : magnitudeValue y = y.units / Binary64.unitsPerOne := by
  rw [magnitudeValue, units, Binary64.unitsPerOne, Nat.cast_mul, cast_pow2, cast_pow2]

theorem unitsPerOne_pos : (0 : ℚ) < Binary64.unitsPerOne := by
  exact_mod_cast pow2_pos Binary64.unitExponent

theorem abs_unitsValue_sub (n d : Nat) (y : Magnitude) :
    |unitsValue n d - magnitudeValue y| = |(n : ℚ) / d - y.units| / Binary64.unitsPerOne := by
  rw [magnitudeValue_eq, unitsValue, ← sub_div, abs_div, abs_of_pos unitsPerOne_pos]

/-- Distances are compared in units. -/
theorem unitsValue_le_iff (n d : Nat) (y z : Magnitude) :
    |unitsValue n d - magnitudeValue y| ≤ |unitsValue n d - magnitudeValue z| ↔
      |(n : ℚ) / d - y.units| ≤ |(n : ℚ) / d - z.units| := by
  rw [abs_unitsValue_sub, abs_unitsValue_sub, div_le_div_iff_of_pos_right unitsPerOne_pos]

/-- **A quotient is rounded to the magnitude nearest to it.** -/
theorem isNearest_of_nearest? (hd : 0 < d) (h : nearest? n d = some x) :
    x.IsNearest (unitsValue n d) := by
  obtain ⟨hunits, heven⟩ := units_of_nearest? h
  have hx : (x.units : ℚ) = roundedMantissa n d * pow2 (roundedExponent n d) := by
    rw [hunits, Nat.cast_mul]
  refine ⟨fun y => ?_, fun y hne htie => ?_⟩
  · rw [unitsValue_le_iff, hx]
    exact (le_and_tie n hd y).1
  · have hle := (unitsValue_le_iff n d y x).1 htie.le
    have hle' := (le_and_tie n hd y).1
    rw [hx] at hle
    rcases (le_and_tie n hd y).2 (le_antisymm hle hle') with heq | ⟨hm, -⟩
    · exact absurd (units_injective (heq.trans hunits.symm)) hne
    · exact heven hm

/-- There is no other magnitude that is nearest. -/
theorem eq_of_isNearest (hd : 0 < d) (h : nearest? n d = some x)
    (hy : y.IsNearest (unitsValue n d)) : y = x := by
  have hx := isNearest_of_nearest? hd h
  by_contra hne
  have htie := le_antisymm (hy.closest x) (hx.closest y)
  obtain ⟨hunits, -⟩ := units_of_nearest? h
  have hcast : (x.units : ℚ) = roundedMantissa n d * pow2 (roundedExponent n d) := by
    rw [hunits, Nat.cast_mul]
  have hle := (unitsValue_le_iff n d y x).1 htie.le
  rw [hcast] at hle
  rcases (le_and_tie n hd y).2 (le_antisymm hle (le_and_tie n hd y).1) with heq | ⟨-, hodd⟩
  · exact hne (units_injective (heq.trans hunits.symm))
  · have heven := hy.even x (Ne.symm hne) htie.symm
    omega

/-! ### Overflow -/

/-- There is no magnitude if the exponent is too great, which it can be by a carry. -/
theorem nearest?_eq_none_iff_exponent (n d : Nat) :
    nearest? n d = none ↔ 2045 < roundedExponent n d ∨
      roundedExponent n d = 2045 ∧ roundedMantissa n d = pow2 53 := by
  obtain ⟨hle, hge⟩ := roundedMantissa_bounds n d
  rw [← Option.not_isSome_iff_eq_none, isSome_nearest?]
  change ¬ (Canonical (roundedMantissa n d) (roundedExponent n d) ∨
    Canonical (pow2 52) (roundedExponent n d + 1)) ↔ _
  have h52 : pow2 52 < pow2 53 := by decide
  have hfull : roundedExponent n d = 0 ∨ pow2 52 ≤ roundedMantissa n d := by
    rcases Nat.eq_zero_or_pos (roundedExponent n d) with h | h
    · exact .inl h
    · exact .inr (hge h.ne')
  have hself : pow2 52 ≤ pow2 52 := Nat.le_refl _
  simp only [Canonical, h52, hself, hfull, or_true, and_true, true_and]
  omega

/-- **A quotient of units overflows** from halfway between the greatest magnitude and the power of
two after it on. -/
theorem nearest?_eq_none_iff (hd : 0 < d) :
    nearest? n d = none ↔ (pow2 2098 : ℚ) - pow2 2044 ≤ n / d := by
  rw [nearest?_eq_none_iff_exponent]
  obtain ⟨hlt, hge⟩ := quotient_bounds n hd
  have hpos : (0 : ℚ) < pow2 2044 := by exact_mod_cast pow2_pos 2044
  obtain he | he | he : roundedExponent n d < 2045 ∨ roundedExponent n d = 2045 ∨
      2045 < roundedExponent n d := by omega
  · refine iff_of_false (by omega) (not_le.2 (hlt.trans_le ?_))
    have hle : pow2 53 * pow2 (roundedExponent n d) ≤ pow2 53 * pow2 2044 :=
      Nat.mul_le_mul_left _ (pow2_le_pow2 (by omega))
    have hbound : pow2 53 * pow2 2044 + pow2 2044 ≤ pow2 2098 := by
      rw [show 2098 = 54 + 2044 from rfl, pow2_add 54, ← Nat.succ_mul]
      exact Nat.mul_le_mul_right _ (by decide)
    rw [le_sub_iff_add_le]
    exact_mod_cast (Nat.add_le_add_right hle _).trans hbound
  · -- at the greatest exponent a quotient is rounded up from half of the last mantissa on
    have hrounded := isRounded_roundedMantissa n hd
    have hm := hrounded.eq_iff (by decide) (roundedMantissa_bounds n d).1
    have hw : (0 : ℚ) < pow2 2045 := by exact_mod_cast pow2_pos 2045
    have hbound : (pow2 2098 : ℚ) - pow2 2044 = (pow2 53 - 1 / 2) * pow2 2045 := by
      rw [show 2098 = 53 + 2045 from rfl, pow2_add 53, pow2_succ 2044]
      push_cast
      ring
    rw [he] at hm ⊢
    rw [hbound, ← le_div_iff₀ hw, ← hm]
    simp
  · refine iff_of_true (.inl he) ?_
    have hle : pow2 2098 ≤ pow2 52 * pow2 (roundedExponent n d) := by
      rw [← pow2_add]
      exact pow2_le_pow2 (by omega)
    have hle : (pow2 2098 : ℚ) ≤ (pow2 52 * pow2 (roundedExponent n d) : Nat) := by
      exact_mod_cast hle
    linarith [hge (by omega)]

theorem overflowBound_le_iff (n d : Nat) :
    Binary64.overflowBound ≤ unitsValue n d ↔ (pow2 2098 : ℚ) - pow2 2044 ≤ n / d := by
  have hbound : Binary64.overflowBound * Binary64.unitsPerOne = pow2 2098 - pow2 2044 := by
    rw [Binary64.overflowBound, Binary64.unitsPerOne, Binary64.unitExponent, ← cast_pow2,
      ← cast_pow2, sub_mul, ← Nat.cast_mul, ← Nat.cast_mul, ← pow2_add, ← pow2_add]
  rw [unitsValue, le_div_iff₀ unitsPerOne_pos, hbound]

end Nearest

end Magnitude

namespace Binary64

variable {negative : Bool} {n d : Nat} {b : Binary64}

theorem ofUnits_eq_iff (hd : 0 < d) :
    ofUnits negative n d = b ↔ b.Rounds negative (Magnitude.unitsValue n d) := by
  have hover := Magnitude.nearest?_eq_none_iff (n := n) hd
  rw [← Magnitude.overflowBound_le_iff] at hover
  unfold ofUnits
  cases hx : Magnitude.nearest? n d with
  | none =>
    have hover := hover.1 hx
    cases b with
    | nan => simp [Rounds]
    | infinity s => simp [Rounds, hover, eq_comm]
    | finite s y => simp [Rounds, hover]
  | some x =>
    rw [hx] at hover
    have hover : ¬ overflowBound ≤ Magnitude.unitsValue n d := fun h => by simpa using hover.2 h
    cases b with
    | nan => simp [Rounds]
    | infinity s => simp [Rounds, hover]
    | finite s y =>
      simp only [Rounds, finite.injEq, not_le.1 hover, true_and, eq_comm (a := negative)]
      refine and_congr_right fun _ => ⟨?_, fun hy => (Magnitude.eq_of_isNearest hd hx hy).symm⟩
      rintro rfl
      exact Magnitude.isNearest_of_nearest? hd hx

/-- **A quotient is rounded to the number nearest to it**, and to no other. -/
theorem ofRatio_eq_iff (hd : 0 < d) :
    ofRatio negative n d = b ↔ b.Rounds negative (n / d) := by
  rw [ofRatio, ofUnits_eq_iff hd, Magnitude.unitsValue, Nat.cast_mul, mul_div_right_comm,
    mul_div_cancel_right₀ _ Magnitude.unitsPerOne_pos.ne']

/-- A value is rounded to one number only. -/
theorem Rounds.eq {v : ℚ} {b' : Binary64} (hv : 0 ≤ v) (h : b.Rounds negative v)
    (h' : b'.Rounds negative v) : b = b' := by
  have hquotient : v = (v.num.toNat : ℚ) / v.den := by
    have hnum : ((v.num.toNat : ℤ) : ℚ) = v.num := by
      rw [Int.toNat_of_nonneg (Rat.num_nonneg.2 hv)]
    rw [← Int.cast_natCast, hnum, Rat.num_div_den]
  rw [hquotient, ← ofRatio_eq_iff v.den_pos] at h h'
  exact h.symm.trans h'

/-! ### Values out of range -/

theorem overflowBound_eq : overflowBound = 2 ^ 970 * (2 ^ 54 - 1) := by
  rw [overflowBound, mul_sub, ← pow_add, mul_one]

theorem one_le_overflowBound : 1 ≤ overflowBound := by
  rw [overflowBound_eq]
  have hpow : (1 : ℚ) ≤ 2 ^ 970 := one_le_pow₀ one_le_two
  have hrest : (1 : ℚ) ≤ 2 ^ 54 - 1 := by norm_num
  exact one_le_mul_of_one_le_of_one_le hpow hrest

/-- What is less than half of the least magnitude is rounded to zero. -/
theorem rounds_zero {v : ℚ} (negative : Bool) (hv : 0 ≤ v)
    (hlt : v * 2 ^ (unitExponent + 1) < 1) : (finite negative .zero).Rounds negative v := by
  have hzero : magnitudeValue .zero = 0 := by simp [magnitudeValue, Magnitude.zero]
  rw [pow_succ, ← cast_pow2, ← unitsPerOne] at hlt
  have hone : (1 : ℚ) ≤ unitsPerOne := by exact_mod_cast pow2_pos unitExponent
  have hhalf : v * unitsPerOne < 1 / 2 := by linarith
  refine ⟨rfl, ?_, fun y => ?_, fun _ _ _ => rfl⟩
  · calc v ≤ v * unitsPerOne := le_mul_of_one_le_right hv hone
      _ < 1 := by linarith
      _ ≤ overflowBound := one_le_overflowBound
  · rw [hzero, sub_zero, abs_of_nonneg hv, Magnitude.magnitudeValue_eq]
    by_cases hy : y.units = 0
    · rw [hy, Nat.cast_zero, zero_div, sub_zero, abs_of_nonneg hv]
    · -- any other magnitude is more than twice as great
      have hunits : (1 : ℚ) ≤ y.units := by exact_mod_cast Nat.pos_of_ne_zero hy
      have htwice : 2 * v ≤ y.units / unitsPerOne := by
        rw [le_div_iff₀ Magnitude.unitsPerOne_pos]
        linarith
      rw [abs_sub_comm]
      exact le_abs.2 (.inl (by linarith))

/-- What has more than 310 digits before the point is rounded to infinity. -/
theorem rounds_infinity {v : ℚ} (negative : Bool) (hv : 10 ^ 310 ≤ v) :
    (infinity negative).Rounds negative v := by
  have hpow : 2 ^ 1024 ≤ 10 ^ 310 := by decide +kernel
  have hpow : (2 : ℚ) ^ 1024 ≤ 10 ^ 310 := by exact_mod_cast hpow
  exact ⟨rfl, (sub_le_self _ (pow_nonneg zero_le_two _)).trans (hpow.trans hv)⟩

end Binary64

end Runbook
