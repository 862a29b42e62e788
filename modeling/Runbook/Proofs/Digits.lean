import Runbook.Text.Digits
import Runbook.Power
import Mathlib.Data.Char
import Mathlib.Data.List.Lex
import Mathlib.Tactic.IntervalCases

/-!
# Reading digits back

The digits of a number denote the number, in base ten and in base sixteen, with zeros in front or
without. Texts of equally many digits are in the order of their numbers.
-/

namespace Runbook

/-- Digits are read up to what is no digit. -/
theorem spanDigits_append {ds r : List Char} (hds : ∀ c ∈ ds, c.isDigit)
    (hr : ∀ c ∈ r.head?, c.isDigit = false) : spanDigits (ds ++ r) = (ds, r) := by
  rw [spanDigits, List.takeWhile_append_of_pos hds, List.dropWhile_append_of_pos hds]
  cases r with
  | nil => simp
  | cons c r => simp [hr c rfl]

/-! ### Base ten -/

theorem natOfDigits_append (a b : List Char) :
    natOfDigits (a ++ b) = b.foldl (fun n c => 10 * n + (c.toNat - 48)) (natOfDigits a) :=
  List.foldl_append

@[simp] theorem natOfDigits_toDigits (n : Nat) : natOfDigits (Nat.toDigits 10 n) = n :=
  Nat.ofDigitChars_ten_toDigits

theorem natOfDigits_replicate_append (k : Nat) (ds : List Char) :
    natOfDigits (List.replicate k '0' ++ ds) = natOfDigits ds := by
  induction k with
  | zero => rfl
  | succ k ih => simpa [natOfDigits, List.replicate_succ] using ih

theorem natOfDigits_append_replicate (ds : List Char) (k : Nat) :
    natOfDigits (ds ++ List.replicate k '0') = natOfDigits ds * pow10 k := by
  rw [natOfDigits_append]
  have hfold : Nat.ofDigitChars 10 (List.replicate k '0') (natOfDigits ds) =
      10 ^ k * natOfDigits ds := Nat.ofDigitChars_replicate_zero
  exact hfold.trans (Nat.mul_comm _ _)

/-- Digits read on from a number leave it below the next one at their place. -/
theorem foldl_digits_lt {ds : List Char} (h : ∀ c ∈ ds, c.isDigit) (n : Nat) :
    ds.foldl (fun n c => 10 * n + (c.toNat - 48)) n < (n + 1) * 10 ^ ds.length := by
  induction ds generalizing n with
  | nil => simp
  | cons c r ih =>
    obtain ⟨hc, hr⟩ := List.forall_mem_cons.1 h
    have hdigit : c.toNat ≤ 57 := by
      simp only [Char.isDigit, Bool.and_eq_true, decide_eq_true_eq] at hc
      exact hc.2
    rw [List.foldl_cons, List.length_cons]
    refine (ih hr _).trans_le ?_
    rw [pow_succ', ← mul_assoc]
    exact Nat.mul_le_mul_right _ (by omega)

theorem natOfDigits_lt_pow10 {ds : List Char} (h : ∀ c ∈ ds, c.isDigit) :
    natOfDigits ds < pow10 ds.length :=
  (foldl_digits_lt h 0).trans_eq (Nat.one_mul _)

theorem isDigit_of_mem_toDigits {n : Nat} {c : Char} (h : c ∈ Nat.toDigits 10 n) : c.isDigit :=
  Nat.isDigit_of_mem_toDigits (by decide) (by decide) h

theorem toDigits_ne_nil (n : Nat) : Nat.toDigits 10 n ≠ [] :=
  Nat.toDigits_ne_nil

/-- The first digit of a positive number is not zero. -/
theorem head?_toDigits_ne {n : Nat} (h : n ≠ 0) : (Nat.toDigits 10 n).head? ≠ some '0' := by
  induction n using Nat.strongRecOn with
  | _ n ih =>
    rw [Nat.toDigits_eq_if (by decide)]
    split
    · simpa using fun h0 => h (Nat.digitChar_eq_zero.1 h0)
    · have hdiv : n / 10 ≠ 0 := by omega
      have hlt : n / 10 < n := by omega
      rw [List.head?_append]
      obtain ⟨d, hd⟩ := Option.isSome_iff_exists.1
        (List.isSome_head?.2 (toDigits_ne_nil (n / 10)))
      have := ih _ hlt hdiv
      rw [hd] at this ⊢
      exact this

theorem lt_pow10_digitCount (n : Nat) : n < pow10 (digitCount n) :=
  (Nat.length_toDigits_le_iff (by decide) (List.length_pos_iff.2 (toDigits_ne_nil n))).1
    (Nat.le_refl _)

theorem pow10_le_of_ne_zero {n : Nat} (h : n ≠ 0) : pow10 (digitCount n - 1) ≤ n := by
  by_contra hlt
  have hlt : n < pow10 (digitCount n - 1) := by omega
  have hcount : 0 < digitCount n := List.length_pos_iff.2 (toDigits_ne_nil n)
  by_cases hone : digitCount n - 1 = 0
  · rw [hone] at hlt
    exact h (Nat.lt_one_iff.1 hlt)
  · have hle : digitCount n ≤ digitCount n - 1 :=
      (Nat.length_toDigits_le_iff (by decide) (Nat.pos_of_ne_zero hone)).2 hlt
    omega

/-! ### Fixed width -/

section PadLeft

variable {width n : Nat}

theorem isDigit_of_mem_padLeft {c : Char} (h : c ∈ (padLeft width n).toList) : c.isDigit := by
  simp only [padLeft, String.toList_ofList, List.mem_append, List.mem_replicate] at h
  rcases h with ⟨-, rfl⟩ | h
  · rfl
  · exact isDigit_of_mem_toDigits h

@[simp] theorem natOfDigits_padLeft (width n : Nat) : natOfDigits (padLeft width n).toList = n := by
  rw [padLeft, String.toList_ofList, natOfDigits_replicate_append, natOfDigits_toDigits]

theorem length_padLeft (hpos : 0 < width) (h : n < 10 ^ width) :
    (padLeft width n).toList.length = width := by
  have hlength := (Nat.length_toDigits_le_iff (b := 10) (by decide) hpos).2 h
  rw [padLeft, String.toList_ofList, List.length_append, List.length_replicate]
  omega

end PadLeft

/-- Digits read on from a number leave it at its place or above. -/
theorem le_foldl_digits (ds : List Char) (n : Nat) :
    n * 10 ^ ds.length ≤ ds.foldl (fun n c => 10 * n + (c.toNat - 48)) n := by
  induction ds generalizing n with
  | nil => simp
  | cons c r ih =>
    rw [List.foldl_cons, List.length_cons, pow_succ', ← mul_assoc]
    refine (Nat.mul_le_mul_right _ ?_).trans (ih _)
    omega

section Order

variable {ds es : List Char}

/-- The first digits that differ decide, whatever comes after them. -/
theorem foldl_digits_lt_foldl_digits (hds : ∀ c ∈ ds, c.isDigit) (hes : ∀ c ∈ es, c.isDigit)
    (hlength : ds.length = es.length) (h : ds < es) (n : Nat) :
    ds.foldl (fun n c => 10 * n + (c.toNat - 48)) n <
      es.foldl (fun n c => 10 * n + (c.toNat - 48)) n := by
  induction ds generalizing es n with
  | nil =>
    obtain rfl := List.length_eq_zero_iff.1 hlength.symm
    exact absurd h (List.not_lt_nil _)
  | cons c r ih =>
    cases es with
    | nil => cases hlength
    | cons d s =>
      obtain ⟨hc, hr⟩ := List.forall_mem_cons.1 hds
      have hs := (List.forall_mem_cons.1 hes).2
      have hrest : r.length = s.length := Nat.succ.inj hlength
      rw [List.foldl_cons, List.foldl_cons]
      rcases List.cons_lt_cons_iff.1 h with hlt | ⟨rfl, hlt⟩
      · have hlt : c.toNat < d.toNat := hlt
        have hzero : 48 ≤ c.toNat := by
          simp only [Char.isDigit, Bool.and_eq_true, decide_eq_true_eq] at hc
          exact hc.1
        refine (foldl_digits_lt hr _).trans_le (le_trans ?_ (le_foldl_digits s _))
        rw [hrest]
        exact Nat.mul_le_mul_right _ (by omega)
      · exact ih hr hs hrest hlt _

/-- Texts of equally many digits are in the order of their numbers. -/
theorem natOfDigits_lt_iff (hds : ∀ c ∈ ds, c.isDigit) (hes : ∀ c ∈ es, c.isDigit)
    (hlength : ds.length = es.length) : natOfDigits ds < natOfDigits es ↔ ds < es := by
  constructor
  · intro h
    rcases lt_trichotomy ds es with hlt | rfl | hgt
    · exact hlt
    · exact absurd h (lt_irrefl _)
    · exact absurd h (foldl_digits_lt_foldl_digits hes hds hlength.symm hgt 0).not_gt
  · exact fun h => foldl_digits_lt_foldl_digits hds hes hlength h 0

theorem natOfDigits_inj (hds : ∀ c ∈ ds, c.isDigit) (hes : ∀ c ∈ es, c.isDigit)
    (hlength : ds.length = es.length) : natOfDigits ds = natOfDigits es ↔ ds = es := by
  constructor
  · intro h
    rcases lt_trichotomy ds es with hlt | heq | hgt
    · exact absurd h ((natOfDigits_lt_iff hds hes hlength).2 hlt).ne
    · exact heq
    · exact absurd h ((natOfDigits_lt_iff hes hds hlength.symm).2 hgt).ne'
  · exact fun h => congrArg natOfDigits h

/-- Digits are what is written for their number. -/
theorem padLeft_natOfDigits (hds : ∀ c ∈ ds, c.isDigit) (hne : ds ≠ []) :
    (padLeft ds.length (natOfDigits ds)).toList = ds := by
  have hlt : natOfDigits ds < 10 ^ ds.length := natOfDigits_lt_pow10 hds
  have hlength := length_padLeft (List.length_pos_iff.2 hne) hlt
  rw [← natOfDigits_inj (fun c => isDigit_of_mem_padLeft) hds hlength, natOfDigits_padLeft]

end Order

/-! ### Base sixteen -/

/-- The upper-case form of a hexadecimal digit has its value. -/
theorem hexValue?_digitChar {n : Nat} (h : n < 16) :
    hexValue? n.digitChar.toUpper = some n := by
  interval_cases n <;> rfl

/-- Reading hexadecimal digits on from a number. -/
def hexFold (n : Nat) (ds : List Char) : Option Nat :=
  ds.foldlM (fun n c => (hexValue? c).map (16 * n + ·)) n

theorem hexFold_append (n : Nat) (a b : List Char) :
    hexFold n (a ++ b) = (hexFold n a).bind fun m => hexFold m b := by
  simp [hexFold, List.foldlM_append]

theorem hexFold_toDigits (n : Nat) :
    hexFold 0 ((Nat.toDigits 16 n).map Char.toUpper) = some n := by
  induction n using Nat.strongRecOn with
  | _ n ih =>
    rw [Nat.toDigits_eq_if (by decide)]
    split
    · next h => simp [hexFold, hexValue?_digitChar h]
    · have hlt : n / 16 < n := by omega
      have hmod : n % 16 < 16 := Nat.mod_lt _ (by decide)
      rw [List.map_append, hexFold_append, ih _ hlt]
      simp only [Option.bind_some, List.map_cons, List.map_nil, hexFold, List.foldlM_cons,
        List.foldlM_nil, hexValue?_digitChar hmod]
      simp
      omega

theorem hexFold_replicate (k : Nat) (ds : List Char) :
    hexFold 0 (List.replicate k '0' ++ ds) = hexFold 0 ds := by
  induction k with
  | zero => rfl
  | succ k ih => exact ih

theorem hexValue?_lt {c : Char} {v : Nat} (h : hexValue? c = some v) : v < 16 := by
  have hletter : ∀ {d : Char}, c ≤ d → c.toNat ≤ d.toNat := fun h => h
  unfold hexValue? at h
  split at h
  · next hc =>
    cases h
    simp only [Char.isDigit, Bool.and_eq_true, decide_eq_true_eq] at hc
    exact (Nat.sub_le_sub_right (hletter hc.2) 48).trans_lt (by decide)
  · split at h
    · next hc =>
      cases h
      exact (Nat.sub_le_sub_right (hletter hc.2) 87).trans_lt (by decide)
    · split at h
      · next hc =>
        cases h
        exact (Nat.sub_le_sub_right (hletter hc.2) 55).trans_lt (by decide)
      · cases h

theorem hexFold_lt {n m : Nat} {ds : List Char} (h : hexFold n ds = some m) :
    m < (n + 1) * 16 ^ ds.length := by
  induction ds generalizing n with
  | nil =>
    cases h
    simp
  | cons c r ih =>
    obtain ⟨k, hk, h⟩ := Option.bind_eq_some_iff.1 h
    obtain ⟨v, hv, rfl⟩ := Option.map_eq_some_iff.1 hk
    have hdigit := hexValue?_lt hv
    rw [List.length_cons, pow_succ', ← mul_assoc]
    exact (ih h).trans_le (Nat.mul_le_mul_right _ (by omega))

theorem hexNumber?_lt {m : Nat} {ds : List Char} (h : hexNumber? ds = some m) :
    m < 16 ^ ds.length :=
  (hexFold_lt h).trans_eq (Nat.one_mul _)

theorem hexNumber?_hexDigits (width n : Nat) :
    hexNumber? ((hexDigits width n).toList.map Char.toUpper) = some n := by
  change hexFold 0 _ = _
  rw [hexDigits, String.toList_ofList, List.map_append, List.map_replicate]
  exact (hexFold_replicate _ _).trans (hexFold_toDigits n)

theorem exists_of_mem_toDigits {b n : Nat} (hb : 1 < b) {c : Char} (h : c ∈ Nat.toDigits b n) :
    ∃ d < b, c = d.digitChar := by
  induction n using Nat.strongRecOn with
  | _ n ih =>
    rw [Nat.toDigits_eq_if hb] at h
    split at h
    · next hn => exact ⟨n, hn, List.mem_singleton.1 h⟩
    · next hn =>
      rcases List.mem_append.1 h with h | h
      · exact ih _ (Nat.div_lt_self (by omega) hb) h
      · exact ⟨n % b, Nat.mod_lt _ (by omega), List.mem_singleton.1 h⟩

/-- Each of the digits has a value. -/
theorem exists_of_mem_hexDigits {width n : Nat} {c : Char}
    (h : c ∈ (hexDigits width n).toList.map Char.toUpper) :
    ∃ d < 16, c = d.digitChar.toUpper := by
  obtain ⟨c, hc, rfl⟩ := List.mem_map.1 h
  rw [hexDigits, String.toList_ofList] at hc
  rcases List.mem_append.1 hc with hc | hc
  · exact ⟨0, by decide, by rw [List.eq_of_mem_replicate hc]; rfl⟩
  · obtain ⟨d, hd, rfl⟩ := exists_of_mem_toDigits (by decide) hc
    exact ⟨d, hd, rfl⟩

theorem length_hexDigits {width n : Nat} (hpos : 0 < width) (h : n < 16 ^ width) :
    (hexDigits width n).toList.length = width := by
  have hlength := (Nat.length_toDigits_le_iff (b := 16) (by decide) hpos).2 h
  rw [hexDigits, String.toList_ofList, List.length_append, List.length_replicate]
  omega

end Runbook
