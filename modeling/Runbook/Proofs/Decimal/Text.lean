import Runbook.Decimal.Layout
import Runbook.Proofs.Decimal.Shortest
import Runbook.Yaml.Tag

/-!
# Number text is read back

A decimal is written as a numeral with a point and digits on both sides of it, and the numeral is
read as a decimal of the same value (`exists_pointed`, `ofChars?_chars`).
-/

namespace Runbook

open Yaml (Form.isExponent Form.isDigitOrLow)

/-- A numeral with a point and digits on both sides of it. -/
structure Pointed where
  whole : List Char
  fraction : List Char
  /-- The exponent part, possibly empty. -/
  ending : List Char
  exponent : Int
  isDigit : ∀ c ∈ whole ++ fraction, c.isDigit
  whole_ne : whole ≠ []
  fraction_ne : fraction ≠ []
  isExponent : Form.isExponent ending
  letter : ∀ c ∈ ending.head?, c = 'e'
  reads : Decimal.exponent? ending = some exponent

namespace Pointed

/-- The characters of a numeral. -/
def chars (p : Pointed) : List Char :=
  p.whole ++ '.' :: (p.fraction ++ p.ending)

/-- The decimal that a numeral denotes. -/
def decimal (p : Pointed) : Decimal :=
  ⟨natOfDigits (p.whole ++ p.fraction), p.exponent - p.fraction.length⟩

theorem isDigit_whole (p : Pointed) : ∀ c ∈ p.whole, c.isDigit :=
  fun c hc => p.isDigit c (List.mem_append_left _ hc)

theorem isDigit_fraction (p : Pointed) : ∀ c ∈ p.fraction, c.isDigit :=
  fun c hc => p.isDigit c (List.mem_append_right _ hc)

/-- What a list begins with is cut off before the exponent part. -/
theorem dropWhile_ending (p : Pointed) {accepts : Char → Bool} (he : accepts 'e' = false)
    {cs : List Char} (hcs : ∀ c ∈ cs, accepts c) :
    (cs ++ p.ending).dropWhile accepts = p.ending := by
  rw [List.dropWhile_append_of_pos hcs]
  cases hending : p.ending with
  | nil => simp
  | cons c r =>
    obtain rfl : c = 'e' := p.letter c (by simp [hending])
    simp [he]

/-- A numeral is read as what it denotes. -/
theorem ofChars?_chars (p : Pointed) : Decimal.ofChars? p.chars = some p.decimal := by
  have hwhole : spanDigits p.chars = (p.whole, '.' :: (p.fraction ++ p.ending)) :=
    spanDigits_append p.isDigit_whole (by rintro c ⟨⟩; rfl)
  have hfraction : spanDigits (p.fraction ++ p.ending) = (p.fraction, p.ending) :=
    spanDigits_append p.isDigit_fraction fun c hc => by
      rw [p.letter c hc]
      rfl
  simp only [Decimal.ofChars?, hwhole, Decimal.spanFraction, hfraction, p.reads]
  simp [p.whole_ne, decimal]

end Pointed

namespace Decimal

theorem value_shift (c k : Nat) (e : Int) :
    (⟨c * pow10 k, e - k⟩ : Decimal).value = c * 10 ^ e := by
  unfold value
  rw [Nat.cast_mul, Shortest.cast_pow10, zpow_sub₀ (by norm_num), zpow_natCast]
  field_simp

variable {x : Decimal}

/-- A numeral without exponent part whose fraction is a zero. -/
theorem exists_pointed_whole {k : Nat} (hk : x.exponent = k) :
    ∃ p : Pointed, p.chars = Nat.toDigits 10 x.coefficient ++ List.replicate k '0' ++ ['.', '0'] ∧
      p.decimal.value = x.value := by
  refine ⟨⟨Nat.toDigits 10 x.coefficient ++ List.replicate k '0', ['0'], [], 0, ?_, ?_, ?_, rfl,
    by simp, rfl⟩, rfl, ?_⟩
  · intro c hc
    simp only [List.mem_append, List.mem_replicate, List.mem_singleton] at hc
    obtain (hc | ⟨-, rfl⟩) | rfl := hc
    · exact isDigit_of_mem_toDigits hc
    · rfl
    · rfl
  · simp
  · simp
  · have hzeros : List.replicate k '0' ++ ['0'] = List.replicate (k + 1) '0' :=
      List.replicate_succ'.symm
    have hshift := value_shift x.coefficient (k + 1) k
    rw [show (k : Int) - (k + 1 : Nat) = 0 - (1 : Nat) by omega] at hshift
    simp only [Pointed.decimal, List.append_assoc, hzeros, natOfDigits_append_replicate,
      natOfDigits_toDigits]
    exact hshift.trans (by rw [value, hk])

/-- A numeral without exponent part with the point among its digits. -/
theorem exists_pointed_among {k : Nat} (hpos : 0 < k)
    (hk : x.exponent + digitCount x.coefficient = k)
    (hlt : k < digitCount x.coefficient) :
    ∃ p : Pointed, p.chars = (Nat.toDigits 10 x.coefficient).take k ++
      '.' :: (Nat.toDigits 10 x.coefficient).drop k ∧ p.decimal.value = x.value := by
  have hlength : (Nat.toDigits 10 x.coefficient).length = digitCount x.coefficient := rfl
  refine ⟨⟨(Nat.toDigits 10 x.coefficient).take k, (Nat.toDigits 10 x.coefficient).drop k, [], 0,
    ?_, ?_, ?_, rfl, by simp, rfl⟩, ?_, ?_⟩
  · intro c hc
    rw [List.take_append_drop] at hc
    exact isDigit_of_mem_toDigits hc
  · simp [hpos.ne']
  · simp [hlength, hlt]
  · simp [Pointed.chars]
  · have hexponent : (0 : Int) - (digitCount x.coefficient - k : Nat) = x.exponent := by omega
    simp only [Pointed.decimal, List.take_append_drop, natOfDigits_toDigits, List.length_drop,
      hlength, hexponent]

/-- A numeral without exponent part whose digits come after the point, possibly after zeros. -/
theorem exists_pointed_after {k : Nat} (hk : x.exponent + digitCount x.coefficient = -(k : Int)) :
    ∃ p : Pointed, p.chars = '0' :: '.' :: (List.replicate k '0' ++ Nat.toDigits 10 x.coefficient) ∧
      p.decimal.value = x.value := by
  have hlength : (Nat.toDigits 10 x.coefficient).length = digitCount x.coefficient := rfl
  refine ⟨⟨['0'], List.replicate k '0' ++ Nat.toDigits 10 x.coefficient, [], 0, ?_, ?_, ?_, rfl,
    by simp, rfl⟩, ?_, ?_⟩
  · intro c hc
    simp only [List.mem_append, List.mem_replicate, List.mem_singleton] at hc
    obtain rfl | ⟨-, rfl⟩ | hc := hc
    · rfl
    · rfl
    · exact isDigit_of_mem_toDigits hc
  · simp
  · simp
  · simp [Pointed.chars]
  · have hexponent : (0 : Int) - (k + digitCount x.coefficient : Nat) = x.exponent := by omega
    have hzeros := natOfDigits_replicate_append (k + 1) (Nat.toDigits 10 x.coefficient)
    rw [List.replicate_succ, List.cons_append] at hzeros
    simp only [Pointed.decimal, List.singleton_append, hzeros, natOfDigits_toDigits,
      List.length_append, List.length_replicate, hlength, hexponent]

/-- The exponent part that is written says the exponent. -/
theorem exponent?_padLeft (e : Int) (width : Nat) :
    Form.isExponent ('e' :: (if e < 0 then '-' else '+') :: (padLeft width e.natAbs).toList) ∧
      exponent? ('e' :: (if e < 0 then '-' else '+') :: (padLeft width e.natAbs).toList) =
        some e := by
  have hdigit : ∀ c ∈ (padLeft width e.natAbs).toList, c.isDigit := fun c => isDigit_of_mem_padLeft
  have hvalue := natOfDigits_padLeft width e.natAbs
  obtain ⟨d, r, hdigits⟩ : ∃ d r, (padLeft width e.natAbs).toList = d :: r := by
    refine List.exists_cons_of_ne_nil ?_
    simp [padLeft]
  rw [hdigits] at hdigit hvalue ⊢
  have hall : (d :: r).all Char.isDigit = true := List.all_eq_true.2 hdigit
  by_cases he : e < 0
  · have hsigned : signed true (natOfDigits (d :: r)) = e := by
      rw [hvalue, signed, if_pos rfl]
      omega
    rw [if_pos he]
    refine ⟨by simpa [Form.isExponent] using hdigit, ?_⟩
    simp only [exponent?, signedDigits?, hall, hsigned]
    rfl
  · have hsigned : signed false (natOfDigits (d :: r)) = e := by
      rw [hvalue, signed, if_neg (by simp)]
      omega
    rw [if_neg he]
    refine ⟨by simpa [Form.isExponent] using hdigit, ?_⟩
    simp only [exponent?, signedDigits?, hall, hsigned]
    rfl

/-- A numeral with an exponent part. -/
theorem exists_pointed_exponent {d : Char} {r : List Char} {ending : List Char}
    (hdigits : Nat.toDigits 10 x.coefficient = d :: r) (hexponent : Form.isExponent ending)
    (hletter : ∀ c ∈ ending.head?, c = 'e')
    (hreads : exponent? ending = some (x.exponent + digitCount x.coefficient - 1)) :
    ∃ p : Pointed, p.chars = d :: '.' :: ((if r = [] then ['0'] else r) ++ ending) ∧
      p.decimal.value = x.value := by
  have hdigit : ∀ c ∈ d :: r, c.isDigit := fun c hc => isDigit_of_mem_toDigits (hdigits ▸ hc)
  have hcount : digitCount x.coefficient = r.length + 1 := by rw [digitCount, hdigits]; rfl
  have hcoefficient : natOfDigits (d :: r) = x.coefficient := by
    rw [← hdigits, natOfDigits_toDigits]
  by_cases hr : r = []
  · subst hr
    refine ⟨⟨[d], ['0'], ending, _, ?_, by simp, by simp, hexponent, hletter, hreads⟩,
      by simp [Pointed.chars],
      ?_⟩
    · intro c hc
      obtain rfl | rfl : c = d ∨ c = '0' := by simpa using hc
      · exact hdigit c (by simp)
      · rfl
    · have hzero := natOfDigits_append_replicate [d] 1
      have hshift := value_shift x.coefficient 1 x.exponent
      rw [hcoefficient] at hzero
      have hexponent : x.exponent + (0 + 1 : Nat) - 1 - (1 : Nat) = x.exponent - (1 : Nat) := by
        omega
      simp only [Pointed.decimal, hcount, List.length_nil, List.length_singleton, hexponent]
      exact (congrArg (fun n => (⟨n, _⟩ : Decimal).value) hzero).trans hshift
  · refine ⟨⟨[d], r, ending, _, hdigit, by simp, hr, hexponent, hletter, hreads⟩,
      by simp [Pointed.chars, hr],
      ?_⟩
    have hexponent : x.exponent + (r.length + 1 : Nat) - 1 - r.length = x.exponent := by omega
    simp only [Pointed.decimal, List.singleton_append, hcoefficient, hcount, hexponent]

/-- The characters of a decimal in a layout: its digits followed by zeros, with the point among
them, behind zeros after the point, or followed by an exponent part. -/
inductive Laid (layout : NumberLayout) (x : Decimal) : List Char → Prop
  | whole {k : Nat} (hk : x.exponent = k) :
    Laid layout x
      (Nat.toDigits 10 x.coefficient ++ List.replicate k '0' ++ layout.wholeMark.toList)
  | among {k : Nat} (hpos : 0 < k) (hk : x.exponent + digitCount x.coefficient = k)
    (hlt : k < digitCount x.coefficient) :
    Laid layout x
      ((Nat.toDigits 10 x.coefficient).take k ++ '.' :: (Nat.toDigits 10 x.coefficient).drop k)
  | after {k : Nat} (hk : x.exponent + digitCount x.coefficient = -(k : Int)) :
    Laid layout x ('0' :: '.' :: (List.replicate k '0' ++ Nat.toDigits 10 x.coefficient))
  | exponent {d : Char} {r ending : List Char} (hdigits : Nat.toDigits 10 x.coefficient = d :: r)
    (hexponent : Form.isExponent ending) (hletter : ending.head? = some 'e')
    (hreads : exponent? ending = some (x.exponent + digitCount x.coefficient - 1)) :
    Laid layout x
      (d :: ((if r = [] then layout.mantissaMark.toList else '.' :: r) ++ ending))

/-- **The text of a decimal** is laid out in one of the four ways. -/
theorem laid_text (layout : NumberLayout) (x : Decimal) : Laid layout x (x.text layout).toList := by
  have hlength : (Nat.toDigits 10 x.coefficient).length = digitCount x.coefficient := rfl
  unfold text
  simp only [hlength]
  by_cases hwhole : (digitCount x.coefficient : Int) ≤ x.exponent + digitCount x.coefficient ∧
      x.exponent + digitCount x.coefficient ≤ layout.greatestPoint
  · obtain ⟨k, hk⟩ : ∃ k : Nat, x.exponent = k := ⟨x.exponent.toNat, by omega⟩
    have hzeros : (x.exponent + digitCount x.coefficient - digitCount x.coefficient).toNat = k := by
      omega
    rw [if_pos hwhole, hzeros, String.toList_append, String.toList_ofList]
    exact .whole hk
  rw [if_neg hwhole]
  by_cases hamong : 0 < x.exponent + digitCount x.coefficient ∧
      x.exponent + digitCount x.coefficient ≤ layout.greatestPoint
  · obtain ⟨k, hk⟩ : ∃ k : Nat, x.exponent + digitCount x.coefficient = k :=
      ⟨(x.exponent + digitCount x.coefficient).toNat, by omega⟩
    rw [if_pos hamong, hk, Int.toNat_natCast]
    simpa using Laid.among (by omega) hk (by omega)
  rw [if_neg hamong]
  by_cases hafter : layout.leastPoint ≤ x.exponent + digitCount x.coefficient ∧
      x.exponent + digitCount x.coefficient ≤ 0
  · obtain ⟨k, hk⟩ : ∃ k : Nat, x.exponent + digitCount x.coefficient = -(k : Int) :=
      ⟨(-(x.exponent + digitCount x.coefficient)).toNat, by omega⟩
    rw [if_pos hafter, hk, neg_neg, Int.toNat_natCast]
    simpa using Laid.after hk
  rw [if_neg hafter]
  obtain ⟨d, r, hdigits⟩ := List.exists_cons_of_ne_nil (toDigits_ne_nil x.coefficient)
  obtain ⟨hexponent, hreads⟩ :=
    exponent?_padLeft (x.exponent + digitCount x.coefficient - 1) layout.exponentWidth
  have hsign : (if x.exponent + digitCount x.coefficient - 1 < 0 then "-" else "+").toList =
      [if x.exponent + digitCount x.coefficient - 1 < 0 then '-' else '+'] := by
    split <;> rfl
  have hlaid : Laid layout x _ := .exponent hdigits hexponent rfl hreads
  rw [hdigits]
  cases r <;> simp only [String.toList_append, hsign] <;> simpa using hlaid

/-- A decimal with marks that make a point is a numeral of its value. -/
theorem Laid.exists_pointed {layout : NumberLayout} {x : Decimal} {cs : List Char}
    (h : Laid layout x cs) (hwhole : layout.wholeMark = ".0")
    (hmantissa : layout.mantissaMark = ".0") :
    ∃ p : Pointed, p.chars = cs ∧ p.decimal.value = x.value := by
  cases h with
  | whole hk =>
    rw [hwhole]
    exact exists_pointed_whole hk
  | among hpos hk hlt => exact exists_pointed_among hpos hk hlt
  | after hk => exact exists_pointed_after hk
  | @exponent d r ending hdigits hexponent hletter hreads =>
    obtain ⟨p, hchars, hvalue⟩ :=
      exists_pointed_exponent hdigits hexponent (by simp [hletter]) hreads
    refine ⟨p, ?_, hvalue⟩
    rw [hchars, hmantissa]
    cases r <;> rfl

/-- The text of a decimal is a numeral of its value. -/
theorem exists_pointed (x : Decimal) :
    ∃ p : Pointed, p.chars = (x.text .yaml).toList ∧ p.decimal.value = x.value :=
  (laid_text .yaml x).exists_pointed rfl rfl

end Decimal
end Runbook
