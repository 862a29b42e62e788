import Runbook.Clock
import Runbook.Proofs.Calendar
import Runbook.Proofs.Digits
import Mathlib.Data.String.Basic

/-!
# Stamps

A stamp is a text of numbers in fields of fixed width, each field with a mark behind it. Numbers in
such fields are read back, and the texts are in the order of the numbers. The numbers of a reading
in turn are in the order of the time line, down to the millisecond.

* `readFields?_writeFields`, `writeFields_lt`: fields are read back and in order;
* `ofStamp?`, `ofStamp?_of_stamp?`: what a stamp tells;
* `stamp?_lt_iff`: stamps are in the order of their milliseconds;
* `isSome_stamp?_iff`: the readings that have a stamp.
-/

namespace Runbook

/-! ### Fields -/

/-- Numbers written into fields, each with its width and the mark behind it. -/
def writeFields : List (Nat × Char) → List Nat → List Char
  | (width, mark) :: fields, n :: ns => (padLeft width n).toList ++ mark :: writeFields fields ns
  | _, _ => []

/-- The numbers in the fields that a list of characters consists of. -/
def readFields? : List (Nat × Char) → List Char → Option (List Nat)
  | [], [] => some []
  | [], _ :: _ => none
  | (width, mark) :: fields, cs =>
    let digits := cs.take width
    if digits.length = width ∧ digits.all Char.isDigit ∧ (cs.drop width).head? = some mark then
      (readFields? fields (cs.drop (width + 1))).map (natOfDigits digits :: ·)
    else none

/-- Whether numbers fit into fields. -/
abbrev Fit : List (Nat × Char) → List Nat → Prop :=
  List.Forall₂ fun field n => 0 < field.1 ∧ n < 10 ^ field.1

section Fields

variable {fields : List (Nat × Char)} {ns ms : List Nat}

theorem length_writeFields (h : Fit fields ns) :
    (writeFields fields ns).length = (fields.map fun field => field.1 + 1).sum := by
  induction h with
  | nil => rfl
  | cons hn _ ih =>
    rw [writeFields, List.length_append, length_padLeft hn.1 hn.2, List.length_cons, ih,
      List.map_cons, List.sum_cons]
    omega

/-- Numbers that fit are read back. -/
theorem readFields?_writeFields (h : Fit fields ns) :
    readFields? fields (writeFields fields ns) = some ns := by
  induction h with
  | nil => rfl
  | @cons field n fields ns hn _ ih =>
    have hlength := length_padLeft hn.1 hn.2
    have htake : (writeFields (field :: fields) (n :: ns)).take field.1 =
        (padLeft field.1 n).toList :=
      List.take_left' hlength
    have hdrop : (writeFields (field :: fields) (n :: ns)).drop field.1 =
        field.2 :: writeFields fields ns := List.drop_left' hlength
    have hrest : (writeFields (field :: fields) (n :: ns)).drop (field.1 + 1) =
        writeFields fields ns := by
      rw [← List.drop_drop, hdrop, List.drop_one, List.tail_cons]
    have hdigits : (padLeft field.1 n).toList.all Char.isDigit :=
      List.all_eq_true.2 fun c => isDigit_of_mem_padLeft
    rw [readFields?, htake, hdrop, hrest, ih, natOfDigits_padLeft]
    exact if_pos ⟨hlength, hdigits, rfl⟩

/-- Only what is written is read. -/
theorem writeFields_of_readFields? (hfields : ∀ field ∈ fields, 0 < field.1) {cs : List Char}
    (h : readFields? fields cs = some ns) : Fit fields ns ∧ writeFields fields ns = cs := by
  induction fields generalizing cs ns with
  | nil =>
    cases cs with
    | nil =>
      cases h
      exact ⟨.nil, rfl⟩
    | cons c r => cases h
  | cons field fields ih =>
    obtain ⟨hpos, hfields⟩ := List.forall_mem_cons.1 hfields
    rw [readFields?] at h
    split at h
    · next hform =>
      obtain ⟨hlength, hall, hmark⟩ := hform
      obtain ⟨ns, hns, rfl⟩ := Option.map_eq_some_iff.1 h
      obtain ⟨hfit, hwrite⟩ := ih hfields hns
      have hdigits := List.all_eq_true.1 hall
      have hne : cs.take field.1 ≠ [] := List.ne_nil_of_length_pos (hlength.symm ▸ hpos)
      have hlt : natOfDigits (cs.take field.1) < 10 ^ (cs.take field.1).length :=
        natOfDigits_lt_pow10 hdigits
      have hpad := padLeft_natOfDigits hdigits hne
      rw [hlength] at hlt hpad
      refine ⟨.cons ⟨hpos, hlt⟩ hfit, ?_⟩
      obtain ⟨rest, hrest⟩ : ∃ rest, cs.drop field.1 = field.2 :: rest := by
        cases hdrop : cs.drop field.1 with
        | nil => rw [hdrop] at hmark; cases hmark
        | cons c rest => rw [hdrop] at hmark; cases hmark; exact ⟨rest, rfl⟩
      rw [writeFields, hpad, hwrite, ← List.drop_drop, hrest, List.drop_one, List.tail_cons,
        ← hrest, List.take_append_drop]
    · cases h

theorem append_lt_append_of_lt {a b : List Char} (hlength : a.length = b.length) (h : a < b)
    (c d : List Char) : a ++ c < b ++ d := by
  induction a generalizing b with
  | nil =>
    obtain rfl := List.length_eq_zero_iff.1 hlength.symm
    exact absurd h (List.not_lt_nil _)
  | cons x a ih =>
    cases b with
    | nil => cases hlength
    | cons y b =>
      rw [List.cons_append, List.cons_append, List.cons_lt_cons_iff]
      rw [List.cons_lt_cons_iff] at h
      exact h.imp_right fun ⟨hxy, hlt⟩ => ⟨hxy, ih (Nat.succ.inj hlength) hlt⟩

/-- **Numbers in order are texts in order.** -/
theorem writeFields_lt (h : Fit fields ns) (h' : Fit fields ms) (hlt : ns < ms) :
    writeFields fields ns < writeFields fields ms := by
  induction h generalizing ms with
  | nil =>
    cases h'
    exact absurd hlt (List.not_lt_nil _)
  | @cons field n fields ns hn _ ih =>
    cases h' with
    | @cons _ m _ ms hm hms =>
      have hlength := (length_padLeft hn.1 hn.2).trans (length_padLeft hm.1 hm.2).symm
      rcases List.cons_lt_cons_iff.1 hlt with hfirst | ⟨rfl, hrest⟩
      · rw [← natOfDigits_padLeft field.1 n, ← natOfDigits_padLeft field.1 m,
          natOfDigits_lt_iff (fun c => isDigit_of_mem_padLeft) (fun c => isDigit_of_mem_padLeft)
            hlength] at hfirst
        exact append_lt_append_of_lt hlength hfirst _ _
      · exact List.append_left_lt (List.cons_lt_cons_iff.2 (.inr ⟨rfl, ih hms hrest⟩))

end Fields

/-! ### Readings -/

/-- The fields of a stamp, `YYYY-MM-DDTHH:MM:SS.mmmZ`. -/
def stampFields : List (Nat × Char) :=
  [(4, '-'), (2, '-'), (2, 'T'), (2, ':'), (2, ':'), (2, '.'), (3, 'Z')]

namespace Reading

/-- The reading in UTC that a stamp tells: its numbers have to be those of a time of the calendar.
-/
def ofStamp? (text : String) : Option Reading :=
  match readFields? stampFields text.toList with
  | some [year, month, day, hour, minute, second, millisecond] =>
    make? ⟨year, month, day⟩ hour minute second (millisecond * 1000) .utc
  | _ => none

/-- The numbers of a reading, from the year to the millisecond. -/
def numbers (r : Reading) : List Nat :=
  [r.date.year, r.date.month, r.date.day, r.hour, r.minute, r.second, r.microsecond / 1000]

/-- Whether an instant is in the years 1 to 9999 of UTC. -/
def InCalendar (t : Int) : Prop :=
  (⟨1, 1, 1⟩ : Date).dayNumber * 86400000000 ≤ t ∧
    t < ((⟨9999, 12, 31⟩ : Date).dayNumber + 1) * 86400000000

instance (t : Int) : Decidable (InCalendar t) :=
  inferInstanceAs (Decidable (_ ∧ _))

section Stamp

variable {r s : Reading} {zone : Zone} {t : Int} {text text' : String}

theorem daysInMonth_le (y m : Nat) : daysInMonth y m ≤ 31 := by
  unfold daysInMonth
  split
  · split <;> decide
  · split <;> decide

theorem fit_numbers (r : Reading) : Fit stampFields r.numbers := by
  obtain ⟨⟨-, hyear, -, hmonth, -, hday⟩, hhour, hminute, hsecond, hmicrosecond⟩ := r.valid
  have hdays := daysInMonth_le r.date.year r.date.month
  simp only [Fit, stampFields, numbers, List.forall₂_cons, List.Forall₂.nil, and_true]
  omega

theorem toList_zulu (r : Reading) : r.zulu.toList = writeFields stampFields r.numbers := by
  simp [zulu, Date.text, stampFields, numbers, writeFields]

/-- **What a stamp tells** is the start of the millisecond. -/
theorem ofStamp?_zulu (h : r.zone = .utc) : ofStamp? r.zulu = some r.truncate := by
  rw [ofStamp?, toList_zulu, readFields?_writeFields r.fit_numbers]
  have hmillisecond : r.microsecond / 1000 * 1000 = r.microsecond - r.microsecond % 1000 := by omega
  have hvalid : r.date.Valid ∧ r.hour < 24 ∧ r.minute < 60 ∧ r.second < 60 ∧
      r.microsecond - r.microsecond % 1000 < 1000000 := r.truncate.valid
  show make? r.date r.hour r.minute r.second (r.microsecond / 1000 * 1000) .utc = _
  rw [hmillisecond, make?, dif_pos hvalid, ← h]
  rfl

theorem exists_of_make? {date : Date} {hour minute second microsecond : Nat}
    (h : make? date hour minute second microsecond zone = some r) :
    ∃ hvalid, r = ⟨date, hour, minute, second, microsecond, zone, hvalid⟩ := by
  unfold make? at h
  split at h
  · exact ⟨_, (Option.some.inj h).symm⟩
  · cases h

/-- Only stamps are read, and what they tell is of whole milliseconds. -/
theorem zulu_of_ofStamp? (h : ofStamp? text = some r) :
    r.zulu = text ∧ r.zone = .utc ∧ 1000 ∣ r.microsecond := by
  unfold ofStamp? at h
  split at h
  · next year month day hour minute second millisecond hread =>
    obtain ⟨-, hwrite⟩ := writeFields_of_readFields? (by decide) hread
    obtain ⟨hvalid, rfl⟩ := exists_of_make? h
    refine ⟨?_, rfl, Nat.dvd_mul_left _ _⟩
    have hmillisecond : millisecond * 1000 / 1000 = millisecond := Nat.mul_div_cancel _ (by decide)
    rw [← String.toList_inj, toList_zulu, ← hwrite, numbers, hmillisecond]
  · cases h

/-- Numbers in order are milliseconds in order. -/
theorem milliseconds_lt (hr : r.zone = .utc) (hs : s.zone = .utc) (h : r.numbers < s.numbers) :
    r.instant / 1000 < s.instant / 1000 := by
  have hrzone : r.zone.ahead = 0 := by rw [hr]; rfl
  have hszone : s.zone.ahead = 0 := by rw [hs]; rfl
  obtain ⟨hrdate, hrhour, hrminute, hrsecond, hrmicrosecond⟩ := r.valid
  obtain ⟨hsdate, hshour, hsminute, hssecond, hsmicrosecond⟩ := s.valid
  simp only [numbers, List.cons_lt_cons_iff, List.not_lt_nil, and_false, or_false] at h
  simp only [instant, wallClock, hrzone, hszone]
  rcases h with hyear | ⟨hyear, hmonth | ⟨hmonth, hday | ⟨hday, htime⟩⟩⟩
  · have hlt := Date.dayNumber_lt hrdate hsdate (.inl hyear)
    omega
  · have hlt := Date.dayNumber_lt hrdate hsdate (.inr ⟨hyear, .inl hmonth⟩)
    omega
  · have hlt := Date.dayNumber_lt hrdate hsdate (.inr ⟨hyear, .inr ⟨hmonth, hday⟩⟩)
    omega
  · have heq : r.date.dayNumber = s.date.dayNumber := by
      simp only [Date.dayNumber, hyear, hmonth, hday]
    omega

theorem instant_truncate (h : r.zone = .utc) :
    r.truncate.instant = 1000 * (r.instant / 1000) := by
  have hzone : r.zone.ahead = 0 := by rw [h]; rfl
  simp only [instant, truncate, wallClock, hzone]
  omega

theorem isSome_make?_iff {date : Date} {hour minute second microsecond : Nat} :
    (make? date hour minute second microsecond zone).isSome ↔
      date.Valid ∧ hour < 24 ∧ minute < 60 ∧ second < 60 ∧ microsecond < 1000000 := by
  unfold make?
  split <;> simp_all

theorem isSome_ofInstant?_iff : (ofInstant? zone t).isSome ↔ InCalendar (t + zone.ahead) := by
  have hfirst : (⟨1, 1, 1⟩ : Date).dayNumber = 1 := rfl
  have hlast : (⟨9999, 12, 31⟩ : Date).dayNumber = 3652059 := rfl
  rw [ofInstant?, isSome_make?_iff, Date.valid_ofDayNumber_iff, Date.lastDay, InCalendar, hfirst,
    hlast]
  omega

/-- A reading is made where it was asked for. -/
theorem instant_of_ofInstant? (h : ofInstant? zone t = some r) :
    r.instant = t ∧ r.zone = zone := by
  obtain ⟨hvalid, rfl⟩ := exists_of_make? h
  have hnumber := (Date.ofDayNumber_spec (Date.valid_ofDayNumber_iff.1 hvalid.1).1).1
  have hday := (Date.valid_ofDayNumber_iff.1 hvalid.1).1
  refine ⟨?_, rfl⟩
  simp only [instant, wallClock, hnumber]
  omega

/-- In UTC, texts are in the order of milliseconds. -/
theorem zulu_lt_iff (hr : r.zone = .utc) (hs : s.zone = .utc) :
    r.zulu < s.zulu ↔ r.instant / 1000 < s.instant / 1000 := by
  rw [String.lt_iff_toList_lt, toList_zulu, toList_zulu]
  rcases lt_trichotomy r.numbers s.numbers with hlt | heq | hgt
  · exact iff_of_true (writeFields_lt r.fit_numbers s.fit_numbers hlt) (milliseconds_lt hr hs hlt)
  · have htext : r.zulu = s.zulu := by rw [← String.toList_inj, toList_zulu, toList_zulu, heq]
    have htold := ofStamp?_zulu hr
    rw [htext, ofStamp?_zulu hs, Option.some.injEq] at htold
    have hinstant := congrArg instant htold
    rw [instant_truncate hr, instant_truncate hs] at hinstant
    rw [heq]
    exact iff_of_false (lt_irrefl _) (by omega)
  · exact iff_of_false (writeFields_lt s.fit_numbers r.fit_numbers hgt).not_gt
      (milliseconds_lt hs hr hgt).not_gt

/-- In a zone that is whole milliseconds ahead, whole milliseconds are those of the zone. -/
theorem dvd_instant_iff (h : 1000 ∣ r.zone.ahead) : 1000 ∣ r.instant ↔ 1000 ∣ r.microsecond := by
  unfold instant wallClock
  omega

/-! ### Stamps -/

/-- A text that tells an instant: it has 24 characters, `YYYY-MM-DDTHH:MM:SS.mmmZ`, and its numbers
are those of the time at this instant in UTC. -/
structure Tells (text : String) (t : Int) : Prop where
  length : text.length = 24
  told : ∃ r, ofStamp? text = some r ∧ r.zone = .utc ∧ r.instant = t

theorem exists_of_stamp? (h : r.stamp? = some text) :
    ∃ u : Reading, u.zone = .utc ∧ u.instant = r.instant ∧ u.zulu = text := by
  obtain ⟨u, hu, rfl⟩ := Option.map_eq_some_iff.1 h
  obtain ⟨hinstant, hzone⟩ := instant_of_ofInstant? hu
  exact ⟨u, hzone, hinstant, rfl⟩

theorem isSome_stamp?_iff : r.stamp?.isSome ↔ InCalendar r.instant := by
  have hahead : Zone.utc.ahead = 0 := rfl
  rw [stamp?, Option.isSome_map, toUtc?, isSome_ofInstant?_iff, hahead, add_zero]

/-- **A stamp tells the start of the millisecond.** -/
theorem tells_of_stamp? (h : r.stamp? = some text) : Tells text (1000 * (r.instant / 1000)) := by
  obtain ⟨u, hzone, hinstant, rfl⟩ := exists_of_stamp? h
  refine ⟨?_, u.truncate, ofStamp?_zulu hzone, hzone, ?_⟩
  · rw [← String.length_toList, toList_zulu, length_writeFields u.fit_numbers]
    rfl
  · rw [instant_truncate hzone, hinstant]

/-- A stamp tells one instant. -/
theorem Tells.unique {t' : Int} (h : Tells text t) (h' : Tells text t') : t = t' := by
  obtain ⟨r, hr, -, rfl⟩ := h.told
  obtain ⟨s, hs, -, rfl⟩ := h'.told
  rw [Option.some.inj (hr.symm.trans hs)]

/-- **Stamps are in the order of what they tell.** -/
theorem Tells.lt_iff {t' : Int} (h : Tells text t) (h' : Tells text' t') :
    text < text' ↔ t < t' := by
  obtain ⟨r, hr, -, rfl⟩ := h.told
  obtain ⟨s, hs, -, rfl⟩ := h'.told
  obtain ⟨rfl, hrzone, hrwhole⟩ := zulu_of_ofStamp? hr
  obtain ⟨rfl, hszone, hswhole⟩ := zulu_of_ofStamp? hs
  have hahead : (1000 : Int) ∣ Zone.utc.ahead := Int.dvd_zero _
  have hr := (dvd_instant_iff (hrzone ▸ hahead)).2 hrwhole
  have hs := (dvd_instant_iff (hszone ▸ hahead)).2 hswhole
  rw [zulu_lt_iff hrzone hszone]
  omega

end Stamp

end Reading
end Runbook
