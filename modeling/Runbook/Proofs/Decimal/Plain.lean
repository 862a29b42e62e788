import Runbook.Proofs.Binary64.Place
import Runbook.Proofs.Yaml.Number
import Runbook.Value.Coercion

/-!
# Plain number text is read back

In the plain layout a decimal is written as a literal of its value, with a point or without, and
`parseNumber` reads the plain text of a number as a number at its place. It also reads the digits of
an integer as the number nearest to it.

* `IsLiteralOf`: the literals of a value;
* `isLiteralOf_text`: the plain text of a decimal is one;
* `parseNumber_text`: numbers are read back;
* `parseNumber_intText`: so are integers.
-/

namespace Runbook

open Yaml (Form.isExponent numeralChars withSign)

/-- Whether a list is an unsigned literal of a value: it is made of the characters of numerals,
begins with a digit and reads as a decimal of the value. -/
structure IsLiteralOf (cs : List Char) (v : ℚ) : Prop where
  chars : ∀ c ∈ cs, c ∈ numeralChars
  head : ∃ d r, cs = d :: r ∧ d.isDigit
  reads : ∃ y, Decimal.ofChars? cs = some y ∧ y.value = v

/-- A numeral with a point is a literal. -/
theorem Pointed.isLiteralOf (p : Pointed) : IsLiteralOf p.chars p.decimal.value :=
  ⟨(Yaml.isNumeral_pointed p false).chars, Yaml.exists_chars_eq p, _, p.ofChars?_chars, rfl⟩

section Digits

variable {digits ending : List Char} {e : Int} (hdigits : ∀ c ∈ digits, c.isDigit)
  (hne : digits ≠ []) (hletter : ∀ c ∈ ending.head?, c = 'e')
  (hreads : Decimal.exponent? ending = some e)

include hdigits hne hletter hreads

/-- Digits without a point are read as they stand, with an exponent part or without. -/
theorem ofChars?_digits :
    Decimal.ofChars? (digits ++ ending) = some ⟨natOfDigits digits, e⟩ := by
  have hspan : spanDigits (digits ++ ending) = (digits, ending) :=
    spanDigits_append hdigits fun c hc => by
      rw [hletter c hc]
      rfl
  have hpoint : Decimal.spanFraction ending = ([], ending) := by
    cases ending with
    | nil => rfl
    | cons c r =>
      obtain rfl : c = 'e' := hletter c rfl
      rfl
  simp only [Decimal.ofChars?, hspan, hpoint, hreads]
  simp [hne]

/-- They are a literal. -/
theorem isLiteralOf_digits (hchars : ∀ c ∈ ending, c ∈ numeralChars) :
    IsLiteralOf (digits ++ ending) (natOfDigits digits * 10 ^ e) := by
  have hread := ofChars?_digits hdigits hne hletter hreads
  obtain ⟨d, r, rfl⟩ := List.exists_cons_of_ne_nil hne
  refine ⟨?_, ⟨d, _, rfl, hdigits d List.mem_cons_self⟩, _, hread, rfl⟩
  intro c hc
  rcases List.mem_append.1 hc with hc | hc
  · exact Yaml.mem_numeralChars_of_isDigit (hdigits c hc)
  · exact hchars c hc

end Digits

namespace Decimal

variable {x : Decimal}

/-- The digits of a decimal are followed by zeros. -/
theorem isLiteralOf_whole {k : Nat} (hk : x.exponent = k) :
    IsLiteralOf (Nat.toDigits 10 x.coefficient ++ List.replicate k '0') x.value := by
  have hdigits : ∀ c ∈ Nat.toDigits 10 x.coefficient ++ List.replicate k '0', c.isDigit := by
    intro c hc
    rcases List.mem_append.1 hc with hc | hc
    · exact isDigit_of_mem_toDigits hc
    · rw [List.eq_of_mem_replicate hc]
      rfl
  have hending : ∀ c ∈ ([] : List Char).head?, c = 'e' := by simp
  have hliteral := isLiteralOf_digits hdigits (by simp) hending rfl (by simp)
  have hvalue : (natOfDigits (Nat.toDigits 10 x.coefficient ++ List.replicate k '0') : ℚ) *
      10 ^ (0 : Int) = x.value := by
    rw [natOfDigits_append_replicate, natOfDigits_toDigits, value, hk, Nat.cast_mul,
      Shortest.cast_pow10, zpow_zero, mul_one, zpow_natCast]
  rwa [hvalue, List.append_nil] at hliteral

/-- A decimal with one digit and an exponent part has no point. -/
theorem isLiteralOf_single {d : Char} {ending : List Char}
    (hdigits : Nat.toDigits 10 x.coefficient = [d])
    (hchars : ∀ c ∈ ending, c ∈ numeralChars) (hletter : ∀ c ∈ ending.head?, c = 'e')
    (hreads : exponent? ending = some x.exponent) : IsLiteralOf (d :: ending) x.value := by
  have hdigit : ∀ c ∈ [d], c.isDigit := fun c hc => isDigit_of_mem_toDigits (hdigits ▸ hc)
  have hvalue : (natOfDigits [d] : ℚ) * 10 ^ x.exponent = x.value := by
    rw [← hdigits, natOfDigits_toDigits, value]
  have hliteral := isLiteralOf_digits hdigit (by simp) hletter hreads hchars
  rwa [hvalue] at hliteral

/-- An exponent part follows one digit, or what stands behind a point. -/
theorem isLiteralOf_exponent {d : Char} {r ending : List Char}
    (hdigits : Nat.toDigits 10 x.coefficient = d :: r) (hexponent : Form.isExponent ending)
    (hletter : ∀ c ∈ ending.head?, c = 'e')
    (hreads : exponent? ending = some (x.exponent + digitCount x.coefficient - 1)) :
    IsLiteralOf (d :: (if r = [] then ending else '.' :: (r ++ ending))) x.value := by
  obtain ⟨p, hchars, hvalue⟩ := exists_pointed_exponent hdigits hexponent hletter hreads
  by_cases hr : r = []
  · subst hr
    have hmem : ∀ c ∈ ending, c ∈ numeralChars := by
      intro c hc
      apply p.isLiteralOf.chars
      rw [hchars]
      exact List.mem_cons_of_mem _ (List.mem_cons_of_mem _ (List.mem_append_right _ hc))
    have hlast : x.exponent + digitCount x.coefficient - 1 = x.exponent := by
      rw [digitCount, hdigits]
      simp
    rw [hlast] at hreads
    exact isLiteralOf_single hdigits hmem hletter hreads
  · rw [if_neg hr] at hchars ⊢
    rw [← hchars, ← hvalue]
    exact p.isLiteralOf

/-- A decimal without a mark behind its mantissa is a literal of its value. -/
theorem Laid.isLiteralOf {layout : NumberLayout} {cs : List Char} (h : Laid layout x cs)
    (hwhole : layout.wholeMark = "" ∨ layout.wholeMark = ".0")
    (hmantissa : layout.mantissaMark = "") :
    IsLiteralOf cs x.value := by
  have hpointed {cs : List Char} (h : ∃ p : Pointed, p.chars = cs ∧ p.decimal.value = x.value) :
      IsLiteralOf cs x.value := by
    obtain ⟨p, rfl, hvalue⟩ := h
    exact hvalue ▸ p.isLiteralOf
  cases h with
  | whole hk =>
    rcases hwhole with hwhole | hwhole <;> rw [hwhole]
    · simpa using isLiteralOf_whole hk
    · exact hpointed (exists_pointed_whole hk)
  | among hpos hk hlt => exact hpointed (exists_pointed_among hpos hk hlt)
  | after hk => exact hpointed (exists_pointed_after hk)
  | @exponent d r ending hdigits hexponent hletter hreads =>
    have hliteral := isLiteralOf_exponent hdigits hexponent (by simp [hletter]) hreads
    rw [hmantissa]
    cases r <;> exact hliteral

/-- **The plain text of a decimal is a literal of its value.** -/
theorem isLiteralOf_text (x : Decimal) : IsLiteralOf (x.text .plain).toList x.value :=
  (laid_text .plain x).isLiteralOf (.inl rfl) rfl

end Decimal

/-! ### Signs -/

theorem splitSign_withSign (negative : Bool) {d : Char} (r : List Char) (hd : d.isDigit) :
    splitSign (withSign negative (d :: r)) = (negative, d :: r) := by
  have hne : ∀ d ∈ "0123456789".toList, d ≠ '+' ∧ d ≠ '-' := List.all_iff_forall_prop.1 (by decide)
  obtain ⟨hplus, hminus⟩ := hne d (Yaml.mem_of_isDigit hd)
  cases negative with
  | true => rfl
  | false =>
    unfold splitSign withSign
    split <;> simp_all

/-- A literal with a sign is read as the number nearest to it. -/
theorem IsLiteralOf.parseNumber_eq {s : String} {negative : Bool} {cs : List Char} {v : ℚ}
    (h : IsLiteralOf cs v) (hs : s.toList = withSign negative cs) :
    parseNumber s = (Decimal.ofChars? cs).map (Decimal.toBinary64 negative) := by
  obtain ⟨hchars, ⟨d, r, rfl, hd⟩, -⟩ := h
  have htrim : trimBy isBlank (withSign negative (d :: r)) = withSign negative (d :: r) := by
    have hblank : ∀ c ∈ numeralChars, isBlank c = false := List.all_iff_forall_prop.1 (by decide)
    apply Yaml.trimBy_of_forall
    intro c hc
    unfold withSign at hc
    split at hc
    · rcases List.mem_cons.1 hc with rfl | hc
      · rfl
      · exact hblank c (hchars c hc)
    · exact hblank c (hchars c hc)
  have hword : d :: r ≠ "Infinity".toList := by
    intro hword
    obtain ⟨rfl, -⟩ := List.cons.inj hword
    cases hd
  rw [parseNumber, hs, htrim, splitSign_withSign negative r hd]
  exact if_neg hword

/-! ### Numbers -/

/-- The plain text of a number that is not zero is read as the number. -/
theorem parseNumber_finite (negative : Bool) {x : Magnitude} (hm : x.mantissa ≠ 0) :
    parseNumber ((Binary64.finite negative x).text .plain) = some (.finite negative x) := by
  have htext := Yaml.toList_text .plain negative hm
  have hliteral := x.shortest.isLiteralOf_text
  obtain ⟨y, hy, hvalue⟩ := hliteral.reads
  rw [hliteral.parseNumber_eq htext, hy, Option.map_some, Magnitude.toBinary64_of_value hm hvalue]

/-- **The plain text of a number** is read as a number at its place. -/
theorem parseNumber_text {x : Binary64} (hx : x ≠ .nan) :
    ∃ y, parseNumber (x.text .plain) = some y ∧ y.place? = x.place? := by
  cases x with
  | nan => exact absurd rfl hx
  | infinity negative => cases negative <;> exact ⟨_, rfl, rfl⟩
  | finite negative x =>
    by_cases hm : x.mantissa = 0
    · refine ⟨.zero, ?_, ?_⟩
      · rw [Binary64.text, if_pos hm]
        cases negative <;> rfl
      · rw [Yaml.eq_zero_of_mantissa hm]
        cases negative <;> rfl
    · exact ⟨_, parseNumber_finite negative hm, rfl⟩

/-! ### Integers -/

/-- What is not rounded to a finite number is rounded to infinity. -/
theorem ofUnits_of_not_isFinite {negative : Bool} {n d : Nat}
    (h : (Binary64.ofUnits negative n d).isFinite = false) :
    Binary64.ofUnits negative n d = .infinity negative := by
  unfold Binary64.ofUnits at h ⊢
  cases hx : Magnitude.nearest? n d with
  | none => rfl
  | some x =>
    rw [hx] at h
    cases h

/-- There is no finite number near an integer of more than 310 digits. -/
theorem ofRatio_of_digitCount (negative : Bool) {n : Nat} (hn : 310 < digitCount n) :
    Binary64.ofRatio negative n 1 = .infinity negative := by
  have hbound : pow2 1024 - pow2 970 ≤ pow10 310 := by decide +kernel
  have hzero : n ≠ 0 := by
    rintro rfl
    exact absurd hn (by decide)
  have hge : pow10 310 ≤ n :=
    Nat.le_trans (pow10_le_pow10 (by omega)) (pow10_le_of_ne_zero hzero)
  have hinfinite : (Binary64.ofInt n).isFinite = false := by
    rw [Bool.eq_false_iff, Ne, isFinite_ofInt_iff, Int.natAbs_natCast]
    exact Nat.not_lt.2 (Nat.le_trans hbound hge)
  apply ofUnits_of_not_isFinite
  rwa [Binary64.ofInt, Binary64.ofRatio, isFinite_ofUnits, Int.natAbs_natCast,
    ← isFinite_ofUnits negative] at hinfinite

/-- A whole decimal is read as the number nearest to it. -/
theorem Decimal.toBinary64_whole (negative : Bool) {n : Nat} (hn : n ≠ 0) :
    (⟨n, 0⟩ : Decimal).toBinary64 negative = .ofRatio negative n 1 := by
  unfold toBinary64
  rw [if_neg hn]
  dsimp only
  by_cases hlarge : (0 : Int) + digitCount n > 310
  · rw [if_pos hlarge, ofRatio_of_digitCount negative (by omega)]
  · rw [if_neg hlarge, if_neg (by omega), if_pos (Int.le_refl 0)]
    show Binary64.ofRatio negative (n * 1) 1 = _
    rw [Nat.mul_one]

/-- **The digits of an integer** are read as the number nearest to it. -/
theorem parseNumber_intText (n : Int) : parseNumber (intText n) = some (.ofInt n) := by
  have hdigits : ∀ c ∈ Nat.toDigits 10 n.natAbs, c.isDigit := fun c => isDigit_of_mem_toDigits
  have hne := toDigits_ne_nil n.natAbs
  have hending : ∀ c ∈ ([] : List Char).head?, c = 'e' := by simp
  have hread := ofChars?_digits hdigits hne hending rfl
  have hliteral := isLiteralOf_digits hdigits hne hending rfl (by simp)
  rw [List.append_nil] at hread hliteral
  rw [hliteral.parseNumber_eq (Yaml.intText_eq n), hread, natOfDigits_toDigits, Option.map_some]
  by_cases hn : n = 0
  · subst hn
    decide +kernel
  · rw [Decimal.toBinary64_whole _ (Int.natAbs_ne_zero.2 hn)]
    rfl

end Runbook
