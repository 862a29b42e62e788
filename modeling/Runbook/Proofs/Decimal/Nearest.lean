import Mathlib.Tactic.Linarith
import Mathlib.Tactic.Ring
import Runbook.Decimal.Shortest
import Runbook.Proofs.Binary64

/-!
# What rounds to a magnitude

Every quotient between the halves around a magnitude is rounded to it, the halves themselves when
its mantissa is even (`nearest?_of_roundsTo`).
-/

namespace Runbook

open Shortest

/-- A quotient within half of an integer is rounded to it, and at a half when it is even. -/
theorem divEven_eq {n d m : Nat} (hlow : 2 * m * d ≤ 2 * n + d) (hhigh : 2 * n ≤ (2 * m + 1) * d)
    (hodd : m % 2 = 1 → 2 * m * d < 2 * n + d ∧ 2 * n < (2 * m + 1) * d) (hd : 0 < d) :
    divEven n d = m := by
  have hn := Nat.div_add_mod n d
  have hr := Nat.mod_lt n hd
  simp only [divEven]
  generalize n / d = q at *
  generalize n % d = r at *
  subst hn
  have hle : m ≤ q + 1 := by
    by_contra hlt
    have := Nat.mul_le_mul_left d (show q + 2 ≤ m by omega)
    nlinarith
  have hge : q ≤ m := by
    by_contra hlt
    have := Nat.mul_le_mul_left d (show m + 1 ≤ q by omega)
    nlinarith
  obtain rfl | rfl : q = m ∨ m = q + 1 := by omega
  · have hhalf : 2 * r ≤ d := by nlinarith
    have hodd' : q % 2 = 1 → 2 * r < d := fun h => by nlinarith [(hodd h).2]
    split
    · rfl
    · rw [if_neg (by omega), if_pos (by omega)]
  · have hhalf : d ≤ 2 * r := by nlinarith
    have hodd' : (q + 1) % 2 = 1 → d < 2 * r := fun h => by nlinarith [(hodd h).1]
    rw [if_neg (by omega)]
    split
    · rfl
    · rw [if_neg (by omega)]

namespace Magnitude

variable {x : Magnitude} {n d : Nat}

/-- The bounds of what rounds to a magnitude, in quarters of its last mantissa bit. -/
theorem bounds_of_roundsTo (h : roundsTo x n d) :
    lowerQuarters x * d ≤ n ∧ n ≤ upperQuarters x * d ∧
      (x.mantissa % 2 = 1 → lowerQuarters x * d < n ∧ n < upperQuarters x * d) := by
  unfold roundsTo at h
  split at h
  · next heven =>
    simp only [Bool.and_eq_true, decide_eq_true_eq] at h
    exact ⟨h.1, h.2, fun hodd => by omega⟩
  · simp only [Bool.and_eq_true, decide_eq_true_eq] at h
    exact ⟨Nat.le_of_lt h.1, Nat.le_of_lt h.2, fun _ => h⟩

/-- The exponent of a quotient of 53 bits. -/
theorem log2_div {e : Nat} (hd : 0 < d) (hlow : pow2 52 * (d * pow2 e) ≤ n)
    (hhigh : n < pow2 53 * (d * pow2 e)) : (n / d).log2 = 52 + e := by
  have hge : pow2 (52 + e) ≤ n / d := by
    rw [Nat.le_div_iff_mul_le hd, pow2_add]
    calc pow2 52 * pow2 e * d = pow2 52 * (d * pow2 e) := by ring
      _ ≤ n := hlow
  have hlt : n / d < pow2 (52 + e + 1) := by
    rw [Nat.div_lt_iff_lt_mul hd, show 52 + e + 1 = 53 + e by omega, pow2_add]
    calc n < pow2 53 * (d * pow2 e) := hhigh
      _ = pow2 53 * pow2 e * d := by ring
  have hne : n / d ≠ 0 := by
    have := pow2_pos (52 + e)
    omega
  exact (Nat.log2_eq_iff hne).2 ⟨hge, hlt⟩

theorem nearest?_of_divEven {e : Nat} (he : (n / d).log2 - 52 = e)
    (hm : divEven n (d * pow2 e) = x.mantissa) (hx : x.exponent = e) : nearest? n d = some x := by
  obtain ⟨m, e', hcanonical⟩ := x
  obtain rfl : e' = e := hx
  simp only [nearest?, he]
  rw [dif_pos (by rw [hm]; exact hcanonical)]
  simp only [Option.some.injEq, mk.injEq, and_true]
  exact hm

/-- A mantissa that is rounded up to 54 bits is the least one of the next exponent. -/
theorem nearest?_of_carry {e : Nat} (he : (n / d).log2 - 52 = e)
    (hm : divEven n (d * pow2 e) = pow2 53) (hx : x.mantissa = pow2 52 ∧ x.exponent = e + 1) :
    nearest? n d = some x := by
  obtain ⟨m, e', hcanonical⟩ := x
  obtain ⟨rfl, rfl⟩ : m = pow2 52 ∧ e' = e + 1 := hx
  have hwide : ¬ Canonical (divEven n (d * pow2 e)) e := by
    rw [hm]
    exact fun h => Nat.lt_irrefl _ h.1
  simp only [nearest?, he]
  rw [dif_neg hwide, dif_pos hcanonical]

/-- The lower half is nowhere further away than half a bit. -/
theorem le_of_roundsTo (h : roundsTo x (4 * n) (d * pow2 x.exponent)) :
    (4 * x.mantissa - 2) * (d * pow2 x.exponent) ≤ 4 * n := by
  have hquarter : 4 * x.mantissa - 2 ≤ lowerQuarters x := by
    unfold lowerQuarters
    split <;> omega
  exact Nat.le_trans (Nat.mul_le_mul_right _ hquarter) (bounds_of_roundsTo h).1

theorem lt_of_roundsTo (hd : 0 < d) (h : roundsTo x (4 * n) (d * pow2 x.exponent)) :
    n < pow2 53 * (d * pow2 x.exponent) := by
  have hD : 0 < d * pow2 x.exponent := Nat.mul_pos hd (pow2_pos _)
  have hhigh := (bounds_of_roundsTo h).2.1
  have hmantissa := x.canonical.1
  have hwidth := Nat.mul_le_mul_right (d * pow2 x.exponent)
    (show 4 * x.mantissa + 2 ≤ 4 * pow2 53 - 2 by omega)
  simp only [upperQuarters] at hhigh
  rw [show pow2 53 = 9007199254740992 from rfl] at *
  nlinarith

/-- In bits of its own exponent, what lies in the rounding interval is rounded to the mantissa. -/
theorem divEven_of_roundsTo (hd : 0 < d) (h : roundsTo x (4 * n) (d * pow2 x.exponent)) :
    divEven n (d * pow2 x.exponent) = x.mantissa := by
  obtain ⟨hlow, hhigh, hodd⟩ := bounds_of_roundsTo h
  simp only [upperQuarters] at hhigh hodd
  have hlower : 4 * x.mantissa * (d * pow2 x.exponent) ≤
      lowerQuarters x * (d * pow2 x.exponent) + 2 * (d * pow2 x.exponent) := by
    have hquarter : 4 * x.mantissa ≤ lowerQuarters x + 2 := by
      unfold lowerQuarters
      split <;> omega
    rw [← Nat.add_mul]
    exact Nat.mul_le_mul_right _ hquarter
  refine divEven_eq ?_ ?_ (fun hm => ⟨?_, ?_⟩) (Nat.mul_pos hd (pow2_pos _))
  · nlinarith
  · nlinarith
  · nlinarith [(hodd hm).1]
  · nlinarith [(hodd hm).2]

/-- Below a power of two the bits are half as wide, and what is rounded to it is rounded up. -/
theorem nearest?_of_lt_least (hd : 0 < d) (h : roundsTo x (4 * n) (d * pow2 x.exponent))
    (hzero : x.exponent ≠ 0) (hn : n < pow2 52 * (d * pow2 x.exponent)) :
    nearest? n d = some x := by
  have h52 : pow2 52 = 4503599627370496 := rfl
  have h53 : pow2 53 = 9007199254740992 := rfl
  have hleast := x.canonical.2.2.resolve_left hzero
  have hm : x.mantissa = pow2 52 := by
    by_contra hne
    have hwide := Nat.mul_le_mul_right (d * pow2 x.exponent)
      (show 4 * pow2 52 + 2 ≤ 4 * x.mantissa - 2 by omega)
    have hhalf := le_of_roundsTo h
    nlinarith
  obtain ⟨e, he⟩ : ∃ e, x.exponent = e + 1 := ⟨x.exponent - 1, by omega⟩
  have hwidth : d * pow2 x.exponent = 2 * (d * pow2 e) := by
    rw [he, pow2_succ]
    ring
  have hlow := (bounds_of_roundsTo h).1
  rw [lowerQuarters, if_pos ⟨hm, hzero⟩, hm, hwidth, h52] at hlow
  rw [hwidth, h52] at hn
  have hlog : (n / d).log2 = 52 + e := by
    refine log2_div hd ?_ ?_
    · rw [h52]
      omega
    · rw [h53]
      omega
  refine nearest?_of_carry (e := e) (by omega) ?_ ⟨hm, he⟩
  rw [h53]
  exact divEven_eq (by omega) (by omega) (by omega) (Nat.mul_pos hd (pow2_pos _))

/-- **What lies in the rounding interval** of a magnitude is rounded to it. -/
theorem nearest?_of_roundsTo (hd : 0 < d) (h : roundsTo x (4 * n) (d * pow2 x.exponent)) :
    nearest? n d = some x := by
  have hround := divEven_of_roundsTo hd h
  have hlt := lt_of_roundsTo hd h
  by_cases hzero : x.exponent = 0
  · refine nearest?_of_divEven ?_ hround rfl
    have hquotient : n / d < pow2 53 := by
      rw [Nat.div_lt_iff_lt_mul hd]
      simpa [hzero, show pow2 0 = 1 from rfl] using hlt
    by_cases hnone : n / d = 0
    · simp [hnone, hzero]
    · have := (Nat.log2_lt hnone).2 hquotient
      omega
  by_cases hn : pow2 52 * (d * pow2 x.exponent) ≤ n
  · have hlog := log2_div hd hn hlt
    exact nearest?_of_divEven (by omega) hround rfl
  · exact nearest?_of_lt_least hd h hzero (Nat.lt_of_not_le hn)

end Magnitude

end Runbook
