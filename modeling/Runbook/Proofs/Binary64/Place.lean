import Runbook.Decimal.Layout
import Runbook.Proofs.Binary64
import Mathlib.Tactic.Linarith

/-!
# Places on the number line

Every number but NaN has a place on the number line, and order is the order of the places. Numbers
at one place are the same, the two zeros excepted, whose plain text is the same.

* `lt_iff`, `le_iff`: order is that of the places;
* `Magnitude.units_injective`: a count of units has one magnitude;
* `text_plain_of_place`: numbers at one place have one plain text.
-/

namespace Runbook

namespace Magnitude

/-- A canonical pair is fixed by its count of units. -/
theorem units_injective {x y : Magnitude} (h : x.units = y.units) : x = y := by
  obtain ⟨m, e, hm, he, hfull⟩ := x
  obtain ⟨n, f, hn, hf, hfull'⟩ := y
  have hunits : m * pow2 e = n * pow2 f := h
  -- with the greater exponent the mantissa is full, so the other one is not below 53 bits
  have hle {m n e f : Nat} (hm : m < pow2 53) (hfull : f = 0 ∨ pow2 52 ≤ n)
      (hunits : m * pow2 e = n * pow2 f) : f ≤ e := by
    by_contra hlt
    obtain ⟨k, rfl⟩ : ∃ k, f = e + 1 + k := ⟨f - e - 1, by omega⟩
    have hfull := hfull.resolve_left (by omega)
    have hge : pow2 53 * pow2 e ≤ n * pow2 (e + 1 + k) :=
      calc pow2 53 * pow2 e = pow2 52 * pow2 (e + 1) := by
            rw [← pow2_add, ← pow2_add]; congr 1; omega
        _ ≤ n * pow2 (e + 1 + k) := Nat.mul_le_mul hfull (pow2_le_pow2 (by omega))
    have hlt : m * pow2 e < pow2 53 * pow2 e := Nat.mul_lt_mul_of_pos_right hm (pow2_pos e)
    omega
  obtain rfl : e = f := Nat.le_antisymm (hle hn hfull hunits.symm) (hle hm hfull' hunits)
  obtain rfl : m = n := Nat.eq_of_mul_eq_mul_right (pow2_pos e) hunits
  rfl

/-- Every magnitude lies before the place of infinity. -/
theorem units_lt (x : Magnitude) : x.units < pow2 2098 :=
  calc x.units < pow2 53 * pow2 x.exponent :=
        Nat.mul_lt_mul_of_pos_right x.canonical.1 (pow2_pos _)
    _ ≤ pow2 53 * pow2 2045 := Nat.mul_le_mul_left _ (pow2_le_pow2 x.canonical.2.1)
    _ = pow2 2098 := by rw [← pow2_add]

theorem units_eq_zero_iff (x : Magnitude) : x.units = 0 ↔ x.mantissa = 0 := by
  have hpos := pow2_pos x.exponent
  simp [units, Nat.pos_iff_ne_zero.1 hpos]

end Magnitude

/-- Counts with a sign are equal when both are zero or sign and count are. -/
theorem signed_eq_signed_iff {s t : Bool} {m n : Nat} :
    signed s m = signed t n ↔ m = n ∧ (m = 0 ∨ s = t) := by
  unfold signed
  cases s <;> cases t <;> simp <;> omega

namespace Binary64

variable {a b c : Binary64}

theorem place?_eq_none_iff : a.place? = none ↔ a = nan := by
  cases a <;> simp [place?]

/-! ### Order -/

theorem lt_iff : a.lt b = true ↔ ∃ i j, a.place? = some i ∧ b.place? = some j ∧ i < j := by
  unfold lt
  cases a.place? <;> cases b.place? <;> simp

theorem le_iff : a.le b = true ↔ ∃ i j, a.place? = some i ∧ b.place? = some j ∧ i ≤ j := by
  unfold le
  cases a.place? <;> cases b.place? <;> simp

theorem lt_trans (hab : a.lt b = true) (hbc : b.lt c = true) : a.lt c = true := by
  rw [lt_iff] at hab hbc ⊢
  obtain ⟨i, j, ha, hb, hij⟩ := hab
  obtain ⟨j', k, hb', hc, hjk⟩ := hbc
  rw [hb, Option.some.injEq] at hb'
  exact ⟨i, k, ha, hc, by omega⟩

theorem le_trans (hab : a.le b = true) (hbc : b.le c = true) : a.le c = true := by
  rw [le_iff] at hab hbc ⊢
  obtain ⟨i, j, ha, hb, hij⟩ := hab
  obtain ⟨j', k, hb', hc, hjk⟩ := hbc
  rw [hb, Option.some.injEq] at hb'
  exact ⟨i, k, ha, hc, by omega⟩

theorem not_lt_of_lt (h : a.lt b = true) : b.lt a = false := by
  rw [Bool.eq_false_iff]
  intro h'
  obtain ⟨i, j, ha, hb, hij⟩ := lt_iff.1 h
  obtain ⟨j', i', hb', ha', hji⟩ := lt_iff.1 h'
  rw [ha, Option.some.injEq] at ha'
  rw [hb, Option.some.injEq] at hb'
  omega

/-- Numbers that are not NaN are in order one way or the other. -/
theorem le_eq_not_lt (ha : a ≠ nan) (hb : b ≠ nan) : b.le a = !a.lt b := by
  obtain ⟨i, hi⟩ := Option.ne_none_iff_exists'.1 (mt place?_eq_none_iff.1 ha)
  obtain ⟨j, hj⟩ := Option.ne_none_iff_exists'.1 (mt place?_eq_none_iff.1 hb)
  simp only [le, lt, hi, hj]
  by_cases hij : i < j
  · simp [hij]
  · simp [hij, Int.not_lt.1 hij]

/-- NaN is in no order with anything. -/
theorem unordered_of_nan (h : a = nan ∨ b = nan) : a.lt b = false ∧ a.le b = false := by
  rcases h with rfl | rfl
  · exact ⟨rfl, rfl⟩
  · constructor <;> cases a <;> rfl

/-- Numbers before each other are at one place. -/
theorem le_and_le_iff (ha : a ≠ nan) :
    (b.le a = true ∧ a.le b = true) ↔ a.place? = b.place? := by
  obtain ⟨i, hi⟩ := Option.ne_none_iff_exists'.1 (mt place?_eq_none_iff.1 ha)
  constructor
  · rintro ⟨hba, hab⟩
    obtain ⟨j, i', hj, hi', hji⟩ := le_iff.1 hba
    obtain ⟨i'', j', hi'', hj', hij⟩ := le_iff.1 hab
    rw [hi, Option.some.injEq] at hi' hi''
    rw [hj, Option.some.injEq] at hj'
    rw [hi, hj, Option.some.injEq]
    omega
  · intro h
    rw [le_iff, le_iff, ← h, hi]
    exact ⟨⟨i, i, rfl, rfl, Int.le_refl i⟩, ⟨i, i, rfl, rfl, Int.le_refl i⟩⟩

/-! ### Numbers at one place -/

/-- Numbers at one place are the same, the zeros excepted. -/
theorem eq_or_of_place? (h : a.place? = b.place?) :
    a = b ∨ ∃ s t x, x.mantissa = 0 ∧ a = finite s x ∧ b = finite t x := by
  have hfar (s t : Bool) (x : Magnitude) : signed s (pow2 2098) ≠ signed t x.units := by
    intro h
    have hunits := x.units_lt
    rw [← (signed_eq_signed_iff.1 h).1] at hunits
    exact absurd hunits (Nat.lt_irrefl _)
  cases a with
  | nan => exact .inl (place?_eq_none_iff.1 h.symm).symm
  | infinity s =>
    cases b with
    | nan => cases h
    | infinity t =>
      have hst := (signed_eq_signed_iff.1 (Option.some.inj h)).2
      exact .inl (congrArg infinity (hst.resolve_left (pow2_pos 2098).ne'))
    | finite t y => exact absurd (Option.some.inj h) (hfar s t y)
  | finite s x =>
    cases b with
    | nan => cases h
    | infinity t => exact absurd (Option.some.inj h).symm (hfar t s x)
    | finite t y =>
      obtain ⟨hunits, hst⟩ := signed_eq_signed_iff.1 (Option.some.inj h)
      obtain rfl := Magnitude.units_injective hunits
      rcases hst with hzero | rfl
      · exact .inr ⟨s, t, x, x.units_eq_zero_iff.1 hzero, rfl, rfl⟩
      · exact .inl rfl

/-- Numbers at one place have one plain text. -/
theorem text_plain_of_place (h : a.place? = b.place?) : a.text .plain = b.text .plain := by
  rcases eq_or_of_place? h with rfl | ⟨s, t, x, hzero, rfl, rfl⟩
  · rfl
  · simp [text, hzero, NumberLayout.plain]

end Binary64
end Runbook
