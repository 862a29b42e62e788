import Runbook.Binary64.Round

/-!
# Overflow

Which integers have a finite binary64 number nearest to them: those whose absolute value is less
than `pow2 1024 - pow2 970`, which lies halfway between the greatest finite number and the power of
two after it (`isFinite_ofInt_iff`).
-/

namespace Runbook

/-! ### Rounded quotients -/

theorem divEven_eq_or (n d : Nat) : divEven n d = n / d ∨ divEven n d = n / d + 1 := by
  simp only [divEven]
  split
  · exact .inl rfl
  · split
    · exact .inr rfl
    · split
      · exact .inl rfl
      · exact .inr rfl

theorem divEven_one (n : Nat) : divEven n 1 = n := by
  simp [divEven, Nat.mod_one]

/-- A quotient with an odd whole part is rounded up from a half on. -/
theorem divEven_of_odd {n h : Nat} (hh : 0 < h) (hq : n / (2 * h) % 2 = 1) :
    divEven n (2 * h) = if n % (2 * h) < h then n / (2 * h) else n / (2 * h) + 1 := by
  unfold divEven
  have hr := Nat.mod_lt n (show 0 < 2 * h by omega)
  by_cases hlt : n % (2 * h) < h
  · rw [if_pos hlt, if_pos (by omega)]
  · rw [if_neg hlt, if_neg (by omega)]
    split
    · rfl
    · rw [if_neg (by omega)]

/-! ### The greatest magnitude -/

namespace Magnitude

theorem pow2_log2_le {n : Nat} (h : n ≠ 0) : pow2 n.log2 ≤ n :=
  Nat.log2_self_le h

theorem lt_pow2_log2 (n : Nat) : n < pow2 (n.log2 + 1) :=
  Nat.lt_log2_self

/-- The whole part of a mantissa has 53 bits, if there are as many. -/
theorem bounds_of_log2 {n : Nat} (h : 52 ≤ n.log2) :
    pow2 52 ≤ n / pow2 (n.log2 - 52) ∧ n / pow2 (n.log2 - 52) < pow2 53 := by
  have hn : n ≠ 0 := by
    rintro rfl
    simp at h
  have hpos : 0 < pow2 (n.log2 - 52) := pow2_pos _
  constructor
  · rw [Nat.le_div_iff_mul_le hpos, ← pow2_add, Nat.add_sub_cancel' h]
    exact pow2_log2_le hn
  · rw [Nat.div_lt_iff_lt_mul hpos, ← pow2_add, show 53 + (n.log2 - 52) = n.log2 + 1 by omega]
    exact lt_pow2_log2 n

/-- A mantissa with the greatest exponent has 53 bits up to half a unit of its last place. -/
theorem divEven_lt_iff {n h : Nat} (hh : 0 < h) (hq : n / (2 * h) < pow2 53) :
    divEven n (2 * h) < pow2 53 ↔ n < pow2 54 * h - h := by
  have h53 : pow2 53 = 2 ^ 53 := rfl
  have h54 : pow2 54 = 2 ^ 54 := rfl
  have hn := Nat.div_add_mod n (2 * h)
  have hr := Nat.mod_lt n (show 0 < 2 * h by omega)
  rw [h53] at hq ⊢
  rw [h54]
  by_cases hlast : n / (2 * h) = 2 ^ 53 - 1
  · rw [divEven_of_odd hh (by omega)]
    rw [hlast] at hn ⊢
    split <;> omega
  · have hle : 2 * h * (n / (2 * h)) ≤ 2 * h * (2 ^ 53 - 2) := Nat.mul_le_mul_left _ (by omega)
    refine iff_of_true ?_ (by omega)
    obtain he | he := divEven_eq_or n (2 * h) <;> omega

theorem isSome_nearest? (n d : Nat) :
    (nearest? n d).isSome ↔
      Canonical (divEven n (d * pow2 ((n / d).log2 - 52))) ((n / d).log2 - 52) ∨
        Canonical (pow2 52) ((n / d).log2 - 52 + 1) := by
  simp only [nearest?]
  split
  · next h => exact iff_of_true rfl (.inl h)
  · next h =>
    split
    · next h' => exact iff_of_true rfl (.inr h')
    · next h' => exact iff_of_false (by simp) (not_or.2 ⟨h, h'⟩)

/-- **A count of units overflows** from halfway between the greatest magnitude and the power of two
after it on. -/
theorem isSome_nearest?_one_iff (n : Nat) :
    (nearest? n 1).isSome ↔ n < pow2 54 * pow2 2044 - pow2 2044 := by
  rw [isSome_nearest?, Nat.div_one, Nat.one_mul]
  have h54 : pow2 54 = 2 * pow2 53 := rfl
  have hpos := pow2_pos 2044
  have hmul : pow2 54 * pow2 2044 = 2 * (pow2 53 * pow2 2044) := by rw [h54, Nat.mul_assoc]
  have hle : pow2 2044 ≤ pow2 53 * pow2 2044 := Nat.le_mul_of_pos_left _ (pow2_pos 53)
  obtain hlow | hmid | hhigh : n.log2 < 2097 ∨ n.log2 = 2097 ∨ 2097 < n.log2 := by omega
  · -- below the greatest exponent: always finite
    have hn : n < pow2 53 * pow2 2044 :=
      calc n < pow2 (n.log2 + 1) := lt_pow2_log2 n
        _ ≤ pow2 (53 + 2044) := pow2_le_pow2 (by omega)
        _ = pow2 53 * pow2 2044 := pow2_add 53 2044
    refine iff_of_true ?_ (by omega)
    by_cases hfew : 52 ≤ n.log2
    · obtain ⟨hge, hlt⟩ := bounds_of_log2 hfew
      by_cases hm : divEven n (pow2 (n.log2 - 52)) < pow2 53
      · refine .inl ⟨hm, by omega, .inr ?_⟩
        obtain he | he := divEven_eq_or n (pow2 (n.log2 - 52)) <;> omega
      · -- rounded up to 54 bits, the mantissa is the least one of the next exponent
        exact .inr ⟨by decide, by omega, .inr (Nat.le_refl _)⟩
    · have hzero : n.log2 - 52 = 0 := by omega
      have hn : n < pow2 53 := Nat.lt_of_lt_of_le (lt_pow2_log2 n) (pow2_le_pow2 (by omega))
      rw [hzero, show pow2 0 = 1 from rfl, divEven_one]
      exact .inl ⟨hn, by omega, .inl rfl⟩
  · -- the greatest exponent: finite unless the mantissa is rounded up to 54 bits
    obtain ⟨hge, hlt⟩ := bounds_of_log2 (n := n) (by omega)
    have hexp : pow2 (n.log2 - 52) = 2 * pow2 2044 := by
      rw [show n.log2 - 52 = 2044 + 1 by omega, pow2_succ]
    rw [hexp] at hge hlt ⊢
    rw [← divEven_lt_iff hpos hlt]
    constructor
    · rintro (⟨hm, -, -⟩ | ⟨-, he, -⟩)
      · exact hm
      · omega
    · intro hm
      refine .inl ⟨hm, by omega, .inr ?_⟩
      obtain he | he := divEven_eq_or n (2 * pow2 2044) <;> omega
  · -- beyond the greatest exponent: never finite
    have hn : pow2 54 * pow2 2044 ≤ n :=
      calc pow2 54 * pow2 2044 = pow2 (54 + 2044) := (pow2_add 54 2044).symm
        _ ≤ pow2 n.log2 := pow2_le_pow2 (by omega)
        _ ≤ n := pow2_log2_le (by rintro rfl; simp at hhigh)
    refine iff_of_false ?_ (by omega)
    rintro (⟨-, he, -⟩ | ⟨-, he, -⟩) <;> omega

end Magnitude

theorem isFinite_ofUnits (negative : Bool) (n d : Nat) :
    (Binary64.ofUnits negative n d).isFinite = (Magnitude.nearest? n d).isSome := by
  unfold Binary64.ofUnits
  cases Magnitude.nearest? n d <;> rfl

/-- **The integers with a finite number** nearest to them. -/
theorem isFinite_ofInt_iff (n : Int) :
    (Binary64.ofInt n).isFinite = true ↔ n.natAbs < pow2 1024 - pow2 970 := by
  have hbound : pow2 54 * pow2 2044 - pow2 2044 = (pow2 1024 - pow2 970) * pow2 1074 := by
    rw [Nat.sub_mul, ← pow2_add, ← pow2_add, ← pow2_add]
  rw [Binary64.ofInt, Binary64.ofRatio, isFinite_ofUnits, Magnitude.isSome_nearest?_one_iff,
    hbound, Binary64.unitsPerOne, Binary64.unitExponent, Nat.mul_lt_mul_right (pow2_pos 1074)]

end Runbook
