import Runbook.Proofs.Decimal.Integer

/-!
# Number text keeps the number

The plain text of a finite number and its display are laid out differently, but both denote the
decimal number of its shortest digits (`text_denotes`). So the plain text is read back as the number
it was made of, up to the sign of zero, and the text of any number, integers included, counts as
that number (`number_text_faithful`).
-/

namespace Runbook

open Yaml (withSign)

/-- The rational number that a text denotes, if it is a decimal literal behind a sign, possibly
absent. -/
def denoted? (s : String) : Option ℚ :=
  let (negative, cs) := splitSign s.toList
  (Decimal.ofChars? cs).map fun y => if negative then -y.value else y.value

theorem denoted?_of_reads {s : String} {negative : Bool} {cs : List Char} {y : Decimal}
    (hs : splitSign s.toList = (negative, cs)) (hy : Decimal.ofChars? cs = some y) :
    denoted? s = some (if negative then -y.value else y.value) := by
  simp only [denoted?, hs, hy, Option.map_some]

/-- A literal behind a sign denotes its value with the sign. -/
theorem IsLiteralOf.denoted?_eq {s : String} {negative : Bool} {cs : List Char} {v : ℚ}
    (h : IsLiteralOf cs v) (hs : s.toList = withSign negative cs) :
    denoted? s = some (if negative then -v else v) := by
  obtain ⟨-, ⟨d, r, rfl, hd⟩, y, hy, rfl⟩ := h
  exact denoted?_of_reads (hs ▸ splitSign_withSign negative r hd) hy

/-! ### Rounding away from zero -/

/-- What is at least one unit is not rounded to zero. -/
theorem Magnitude.mantissa_ne_zero_of_nearest? {n d : Nat} {x : Magnitude} (hd : 0 < d)
    (hle : d ≤ n) (h : nearest? n d = some x) : x.mantissa ≠ 0 := by
  have hone : 1 ≤ n / d := (Nat.one_le_div_iff hd).2 hle
  have hpow : pow2 ((n / d).log2 - 52) ≤ n / d :=
    Nat.le_trans (pow2_le_pow2 (Nat.sub_le _ _)) (pow2_log2_le (by omega))
  have hquotient : 1 ≤ n / (d * pow2 ((n / d).log2 - 52)) := by
    rw [← Nat.div_div_eq_div_mul, Nat.one_le_div_iff (pow2_pos _)]
    exact hpow
  have hmantissa : 1 ≤ divEven n (d * pow2 ((n / d).log2 - 52)) := by
    rcases divEven_eq_or n (d * pow2 ((n / d).log2 - 52)) with he | he <;> omega
  simp only [nearest?] at h
  split at h
  · cases h
    exact Nat.one_le_iff_ne_zero.1 hmantissa
  · split at h
    · cases h
      exact (pow2_pos 52).ne'
    · cases h

namespace Binary64

/-- A number without the sign of zero. -/
def unsignedZero : Binary64 → Binary64
  | finite negative x => if x.mantissa = 0 then zero else finite negative x
  | x => x

theorem unsignedZero_of_ne {negative : Bool} {x : Magnitude} (hm : x.mantissa ≠ 0) :
    (finite negative x).unsignedZero = finite negative x := if_neg hm

/-- Units are not rounded to a negative zero. -/
theorem unsignedZero_ofUnits (negative : Bool) {n : Nat} (hn : 1 ≤ n) :
    (ofUnits negative n 1).unsignedZero = ofUnits negative n 1 := by
  unfold ofUnits
  cases hx : Magnitude.nearest? n 1 with
  | none => rfl
  | some x => exact unsignedZero_of_ne (Magnitude.mantissa_ne_zero_of_nearest? Nat.one_pos hn hx)

/-- Integers are not rounded to a negative zero. -/
theorem unsignedZero_ofInt (n : Int) : (ofInt n).unsignedZero = ofInt n := by
  by_cases hn : n = 0
  · subst hn
    decide +kernel
  · have hone : 1 ≤ unitsPerOne := pow2_pos _
    rw [ofInt, ofRatio]
    exact unsignedZero_ofUnits _ (Nat.le_trans hone
      (Nat.le_mul_of_pos_left _ (Int.natAbs_pos.2 hn)))

theorem place?_unsignedZero (x : Binary64) : x.unsignedZero.place? = x.place? := by
  cases x with
  | nan => rfl
  | infinity negative => rfl
  | finite negative x =>
    by_cases hm : x.mantissa = 0
    · rw [Yaml.eq_zero_of_mantissa hm]
      cases negative <;> rfl
    · rw [unsignedZero_of_ne hm]

/-- Numbers are equal when they differ in the sign of zero at most. -/
theorem eq_iff_unsignedZero {x y : Binary64} (hx : x ≠ nan) :
    x.eq y = true ↔ x.unsignedZero = y.unsignedZero := by
  have hplace : x.eq y = true ↔ x.place? = y.place? := by
    obtain ⟨i, hi⟩ := Option.ne_none_iff_exists'.1 (mt place?_eq_none_iff.1 hx)
    unfold eq
    rw [hi]
    cases y.place? <;> simp
  rw [hplace]
  constructor
  · intro h
    rcases eq_or_of_place? h with rfl | ⟨s, t, z, hz, rfl, rfl⟩
    · rfl
    · simp only [unsignedZero, if_pos hz]
  · intro h
    rw [← place?_unsignedZero x, h, place?_unsignedZero]

/-! ### Texts -/

/-- **The plain text of a finite number and its display denote the same.** -/
theorem text_denotes (negative : Bool) (x : Magnitude) :
    ∃ v, denoted? ((finite negative x).text .plain) = some v ∧
      denoted? ((finite negative x).text .display) = some v := by
  by_cases hm : x.mantissa = 0
  · -- zero has no digits, and its sign is displayed only
    rw [Yaml.eq_zero_of_mantissa hm]
    have hzero (e : Int) : (⟨0, e⟩ : Decimal).value = 0 := by simp [Decimal.value]
    have hplain : denoted? "0" = some 0 := by
      rw [denoted?_of_reads (y := ⟨0, 0⟩) rfl rfl, hzero]
      rfl
    have hdisplay : denoted? "0.0" = some 0 ∧ denoted? "-0.0" = some 0 := by
      rw [denoted?_of_reads (s := "0.0") (y := ⟨0, -1⟩) rfl rfl,
        denoted?_of_reads (s := "-0.0") (y := ⟨0, -1⟩) rfl rfl, hzero, neg_zero]
      exact ⟨rfl, rfl⟩
    cases negative with
    | false => exact ⟨0, hplain, hdisplay.1⟩
    | true => exact ⟨0, hplain, hdisplay.2⟩
  · have hplain := (x.shortest.laid_text .plain).isLiteralOf (.inl rfl) rfl
    have hdisplay := (x.shortest.laid_text .display).isLiteralOf (.inr rfl) rfl
    exact ⟨_, hplain.denoted?_eq (Yaml.toList_text .plain negative hm),
      hdisplay.denoted?_eq (Yaml.toList_text .display negative hm)⟩

/-- The plain text of a number is read as the number without the sign of zero. -/
theorem parseNumber_text_plain {x : Binary64} (hx : x ≠ nan) :
    parseNumber (x.text .plain) = some x.unsignedZero := by
  cases x with
  | nan => exact absurd rfl hx
  | infinity negative => cases negative <;> rfl
  | finite negative x =>
    by_cases hm : x.mantissa = 0
    · rw [text, if_pos hm, unsignedZero, if_pos hm]
      cases negative <;> rfl
    · rw [parseNumber_finite negative hm, unsignedZero_of_ne hm]

end Binary64

namespace Value

/-- A literal is no blank text, so it counts as the number it is read as. -/
theorem toNumber_str {s : String} {x : Binary64} (h : parseNumber s = some x) :
    (str s).toNumber = x := by
  have hblank : (trimBy isBlank s.toList).isEmpty = false := by
    rw [Bool.eq_false_iff]
    intro hempty
    rw [List.isEmpty_iff] at hempty
    simp only [parseNumber, hempty] at h
    cases h
  simp [toNumber, hblank, h]

/-- The text of a binary64 number counts as the number. -/
theorem toNumber_text (x : Binary64) : (str (x.text .plain)).toNumber = x.unsignedZero := by
  by_cases hx : x = .nan
  · subst hx
    rfl
  · exact toNumber_str (Binary64.parseNumber_text_plain hx)

/-- The text of an integer counts as the number nearest to the integer. -/
theorem toNumber_integerText (n : Int) : (str (integerText n)).toNumber = .ofInt n := by
  unfold integerText
  split
  · exact toNumber_str (parseNumber_intText n)
  · rw [toNumber_text, Binary64.unsignedZero_ofInt]

end Value

/-- **Number text keeps the number.** The plain text of a finite number denotes what its display
denotes, it is read as the number, and no other number has it; and every number, however large, has
a text that counts as the number. Nothing but the sign of zero is lost. -/
theorem number_text_faithful :
    (∀ negative x, (∃ v, denoted? ((Binary64.finite negative x).text .plain) = some v ∧
        denoted? ((Binary64.finite negative x).text .display) = some v) ∧
      parseNumber ((Binary64.finite negative x).text .plain) =
        some (Binary64.finite negative x).unsignedZero) ∧
    (∀ negative x negative' y, (Binary64.finite negative x).text .plain =
        (Binary64.finite negative' y).text .plain ↔
      (Binary64.finite negative x).eq (.finite negative' y) = true) ∧
    (∀ x : Binary64, ∃ s, (Value.float x).stringify = .ok s ∧
      (Value.str s).toNumber = (Value.float x).toNumber.unsignedZero) ∧
    ∀ n : Int, ∃ s, (Value.int n).stringify = .ok s ∧
      (Value.str s).toNumber = (Value.int n).toNumber ∧
      (pow2 1024 - pow2 970 ≤ n.natAbs → (Value.int n).toNumber = .infinity (n < 0)) := by
  refine ⟨fun negative x => ⟨Binary64.text_denotes negative x, ?_⟩, ?_, ?_, ?_⟩
  · exact Binary64.parseNumber_text_plain (by simp)
  · intro negative x negative' y
    rw [Binary64.eq_iff_unsignedZero (by simp)]
    constructor
    · intro h
      have hx := Binary64.parseNumber_text_plain (x := .finite negative x) (by simp)
      rw [h, Binary64.parseNumber_text_plain (by simp)] at hx
      exact (Option.some.inj hx).symm
    · intro h
      apply Binary64.text_plain_of_place
      rw [← Binary64.place?_unsignedZero, h, Binary64.place?_unsignedZero]
  · exact fun x => ⟨_, rfl, Value.toNumber_text x⟩
  · refine fun n => ⟨_, rfl, Value.toNumber_integerText n, fun hlarge => ?_⟩
    show Binary64.ofInt n = _
    have hinfinite : (Binary64.ofInt n).isFinite = false := by
      rw [Bool.eq_false_iff, Ne, isFinite_ofInt_iff]
      exact Nat.not_lt.2 hlarge
    exact ofUnits_of_not_isFinite hinfinite

/-- An integer beyond every finite number, below zero. -/
theorem number_text_faithful_sample : ∃ s, (Value.int (-pow10 400)).stringify = .ok s ∧
    (Value.str s).toNumber = .infinity true := by
  obtain ⟨s, hs, hnumber, hlarge⟩ := number_text_faithful.2.2.2 (-pow10 400)
  have hbound : pow2 1024 - pow2 970 ≤ (-(pow10 400 : Int)).natAbs := by decide +kernel
  have hnegative : decide (-(pow10 400 : Int) < 0) = true := by decide +kernel
  exact ⟨s, hs, by rw [hnumber, hlarge hbound, hnegative]⟩

end Runbook
