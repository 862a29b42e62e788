import Runbook.Calendar
import Mathlib.Algebra.Order.Group.Nat
import Mathlib.Data.Nat.Basic

/-!
# The days of the calendar

The days of the calendar are counted year by year and month by month. So their numbers follow the
order of the dates, and the date of a number is the one that is counted with it.

* `daysBeforeYear_succ`, `daysBeforeMonth_succ`: what a year and a month add to the count;
* `dayNumber_lt`: dates in order have numbers in order;
* `dayNumber_ofDayNumber`, `valid_ofDayNumber_iff`: the date of a number.
-/

namespace Runbook

/-! ### Counting -/

/-- The days of a year. -/
def daysInYear (y : Nat) : Nat := if isLeapYear y then 366 else 365

/-- A quotient grows at the multiples of the divisor. -/
theorem add_one_div_eq (p k : Nat) :
    (p + 1) / k = p / k + if (p + 1) % k = 0 then 1 else 0 := by
  simp only [Nat.succ_div, Nat.dvd_iff_mod_eq_zero]

theorem daysBeforeYear_succ {y : Nat} (h : 1 ≤ y) :
    daysBeforeYear (y + 1) = daysBeforeYear y + daysInYear y := by
  obtain ⟨p, rfl⟩ := Nat.exists_eq_add_of_le' h
  have hle : p / 100 ≤ 365 * p + p / 4 := by omega
  simp only [daysBeforeYear, daysInYear, isLeapYear, Nat.add_sub_cancel, add_one_div_eq p]
  -- what is left depends on the three quotients and on what the year is a multiple of
  have hhundred : (p + 1) % 100 = 0 → (p + 1) % 4 = 0 := by omega
  have hcycle : (p + 1) % 400 = 0 → (p + 1) % 100 = 0 := by omega
  generalize p / 4 = a at *
  generalize p / 100 = b at *
  generalize p / 400 = c at *
  by_cases h400 : (p + 1) % 400 = 0
  · simp [h400, hcycle h400, hhundred (hcycle h400)]
    omega
  · by_cases h100 : (p + 1) % 100 = 0
    · simp [h400, h100, hhundred h100]
      omega
    · by_cases h4 : (p + 1) % 4 = 0
      · simp [h400, h100, h4]
        omega
      · simp [h400, h100, h4]
        omega

theorem daysBeforeMonth_succ (y : Nat) {m : Nat} (h : 1 ≤ m) :
    daysBeforeMonth y (m + 1) = daysBeforeMonth y m + daysInMonth y m := by
  obtain ⟨m, rfl⟩ := Nat.exists_eq_add_of_le' h
  simp only [daysBeforeMonth, Nat.add_sub_cancel, List.range_succ, List.foldl_append,
    List.foldl_cons, List.foldl_nil]

/-- The months make up the year. -/
theorem daysBeforeMonth_thirteen (y : Nat) : daysBeforeMonth y 13 = daysInYear y := by
  simp only [daysBeforeMonth, daysInYear, daysInMonth]
  split <;> rfl

/-- What is counted up to an item, the item included, comes before any later item. -/
theorem count_add_size_le {count size : Nat → Nat}
    (h : ∀ n, 1 ≤ n → count (n + 1) = count n + size n) {m n : Nat} (hm : 1 ≤ m) (hmn : m < n) :
    count m + size m ≤ count n := by
  induction n, hmn using Nat.le_induction with
  | base => exact (h m hm).ge
  | succ n hn ih =>
    rw [h n (by omega)]
    omega

theorem daysBeforeMonth_add_le (y : Nat) {m n : Nat} (hm : 1 ≤ m) (h : m < n) :
    daysBeforeMonth y m + daysInMonth y m ≤ daysBeforeMonth y n :=
  count_add_size_le (fun _ => daysBeforeMonth_succ y) hm h

theorem daysBeforeYear_add_le {y z : Nat} (hy : 1 ≤ y) (h : y < z) :
    daysBeforeYear y + daysInYear y ≤ daysBeforeYear z :=
  count_add_size_le (fun _ => daysBeforeYear_succ) hy h

namespace Date

/-! ### The number of a date -/

section Number

variable {a b d : Date}

/-- The number of a date is among those of its year. -/
theorem Valid.dayNumber_bounds (h : d.Valid) : daysBeforeYear d.year < d.dayNumber ∧
    d.dayNumber ≤ daysBeforeYear d.year + daysInYear d.year := by
  obtain ⟨-, -, hmonth, hlast, hday, hdays⟩ := h
  have hle := daysBeforeMonth_add_le d.year hmonth (Nat.lt_succ_of_le hlast)
  rw [daysBeforeMonth_thirteen] at hle
  unfold dayNumber
  omega

/-- **Dates in order have numbers in order.** -/
theorem dayNumber_lt (ha : a.Valid) (hb : b.Valid)
    (h : a.year < b.year ∨ a.year = b.year ∧ (a.month < b.month ∨
      a.month = b.month ∧ a.day < b.day)) : a.dayNumber < b.dayNumber := by
  rcases h with hyear | ⟨hyear, hmonth | ⟨hmonth, hday⟩⟩
  · have hle := daysBeforeYear_add_le ha.1 hyear
    have hlast := ha.dayNumber_bounds.2
    have hfirst := hb.dayNumber_bounds.1
    omega
  · have hle := daysBeforeMonth_add_le a.year ha.2.2.1 hmonth
    have hlast := ha.2.2.2.2.2
    have hfirst := hb.2.2.2.2.1
    simp only [dayNumber, ← hyear]
    omega
  · simp only [dayNumber, ← hyear, ← hmonth]
    omega

end Number

/-! ### The date of a number -/

/-- Going through the months leads to the one that the day is in: the days before it and the day of
the month make up what there was to count. -/
theorem monthOf_spec {y fuel m n month day : Nat} (hm : 1 ≤ m) (hn : 1 ≤ n)
    (hle : daysBeforeMonth y m + n ≤ daysBeforeMonth y (m + fuel))
    (h : monthOf y fuel m n = (month, day)) :
    m ≤ month ∧ month < m + fuel ∧ 1 ≤ day ∧ day ≤ daysInMonth y month ∧
      daysBeforeMonth y month + day = daysBeforeMonth y m + n := by
  induction fuel generalizing m n with
  | zero =>
    rw [Nat.add_zero] at hle
    omega
  | succ fuel ih =>
    rw [monthOf] at h
    split at h
    · next hday =>
      cases h
      exact ⟨Nat.le_refl _, by omega, hn, hday, rfl⟩
    · next hday =>
      have hnext := daysBeforeMonth_succ y hm
      have hlast : m + (fuel + 1) = m + 1 + fuel := by omega
      rw [hlast] at hle
      obtain ⟨hfirst, hbelow, hday, hdays, hcount⟩ := ih (by omega) (by omega) (by omega) h
      exact ⟨by omega, by omega, hday, hdays, by omega⟩

/-- The days before a year are as many as in years of 365.2425 days, give or take two. -/
theorem daysBeforeYear_bounds (p : Nat) :
    146097 * p ≤ 400 * daysBeforeYear (p + 1) + 700 ∧
      400 * daysBeforeYear (p + 1) ≤ 146097 * p + 400 := by
  simp only [daysBeforeYear, Nat.add_sub_cancel]
  omega

/-- The year of a day number is the one that its day is in. -/
theorem year_ofDayNumber {n : Nat} (h : 1 ≤ n) :
    1 ≤ (ofDayNumber n).year ∧ daysBeforeYear (ofDayNumber n).year < n ∧
      n ≤ daysBeforeYear (ofDayNumber n).year + daysInYear (ofDayNumber n).year := by
  suffices hyear : 1 ≤ (ofDayNumber n).year ∧ daysBeforeYear (ofDayNumber n).year < n ∧
      n ≤ daysBeforeYear ((ofDayNumber n).year + 1) from
    ⟨hyear.1, hyear.2.1, (daysBeforeYear_succ hyear.1).symm ▸ hyear.2.2⟩
  have hguess : (n - 1) * 400 / 146097 * 146097 ≤ (n - 1) * 400 ∧
    (n - 1) * 400 < ((n - 1) * 400 / 146097 + 1) * 146097 := by omega
  simp only [ofDayNumber]
  generalize (n - 1) * 400 / 146097 = p at *
  split
  · next hlow =>
    cases p with
    | zero => exact absurd hlow (Nat.not_le.2 h)
    | succ p =>
      have hbounds := daysBeforeYear_bounds p
      rw [Nat.add_sub_cancel]
      exact ⟨by omega, by omega, hlow⟩
  · next hlow =>
    split
    · next hhigh =>
      have hbounds := daysBeforeYear_bounds (p + 1 + 1)
      exact ⟨by omega, hhigh, by omega⟩
    · next hhigh => exact ⟨by omega, by omega, by omega⟩

theorem exists_monthOf (n : Nat) : ∃ y month day, ofDayNumber n = ⟨y, month, day⟩ ∧
    monthOf y 12 1 (n - daysBeforeYear y) = (month, day) :=
  ⟨_, _, _, rfl, rfl⟩

/-- The date of a number is the one with this number, and of the calendar if its year is. -/
theorem ofDayNumber_spec {n : Nat} (h : 1 ≤ n) : (ofDayNumber n).dayNumber = n ∧
    ((ofDayNumber n).Valid ↔ (ofDayNumber n).year ≤ 9999) := by
  obtain ⟨hyear, hfirst, hlast⟩ := year_ofDayNumber h
  obtain ⟨y, month, day, hdate, hmonthOf⟩ := exists_monthOf n
  simp only [hdate] at hyear hfirst hlast ⊢
  have hzero : daysBeforeMonth y 1 = 0 := rfl
  have hrest : daysBeforeMonth y 1 + (n - daysBeforeYear y) ≤ daysBeforeMonth y (1 + 12) := by
    rw [daysBeforeMonth_thirteen]
    omega
  obtain ⟨hmonth, hmonths, hday, hdays, hcount⟩ :=
    monthOf_spec (Nat.le_refl 1) (by omega) hrest hmonthOf
  constructor
  · show daysBeforeYear y + daysBeforeMonth y month + day = n
    omega
  · exact ⟨fun hvalid => hvalid.2.1, fun hle =>
      ⟨hyear, hle, hmonth, Nat.le_of_lt_succ hmonths, hday, hdays⟩⟩

/-- The first day of the calendar is day 1, and this is the last. -/
def lastDay : Nat := (⟨9999, 12, 31⟩ : Date).dayNumber

theorem lastDay_eq : lastDay = daysBeforeYear 10000 := rfl

/-- **The numbers of the dates of the calendar.** -/
theorem valid_ofDayNumber_iff {n : Nat} : (ofDayNumber n).Valid ↔ 1 ≤ n ∧ n ≤ lastDay := by
  rcases Nat.eq_zero_or_pos n with rfl | hn
  · decide
  · obtain ⟨hyear, hfirst, hlast⟩ := year_ofDayNumber hn
    rw [(ofDayNumber_spec hn).2, lastDay_eq]
    constructor
    · intro hle
      have hyears := daysBeforeYear_add_le (z := 10000) hyear (by omega)
      omega
    · rintro ⟨-, hle⟩
      by_contra hlt
      have hyears : daysBeforeYear 10000 ≤ daysBeforeYear (ofDayNumber n).year := by
        rcases Nat.eq_or_lt_of_le (show 10000 ≤ (ofDayNumber n).year by omega) with heq | hlt
        · exact heq ▸ Nat.le_refl _
        · exact Nat.le_of_add_right_le (daysBeforeYear_add_le (by decide) hlt)
      omega

end Date
end Runbook
