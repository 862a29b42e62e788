import Runbook.Text.Digits

/-!
# Dates and moments

Dates of the proleptic Gregorian calendar, days counted from 0001-01-01 as day 1, and moments: a
date with a time of day in microseconds and possibly an offset from UTC.
-/

namespace Runbook

/-- Whether a year has 366 days. -/
def isLeapYear (y : Nat) : Bool :=
  y % 4 = 0 && (y % 100 ≠ 0 || y % 400 = 0)

/-- The length of a month. -/
def daysInMonth (y m : Nat) : Nat :=
  if m = 2 then (if isLeapYear y then 29 else 28)
  else if m = 4 || m = 6 || m = 9 || m = 11 then 30 else 31

/-- The days of the years before a year. -/
def daysBeforeYear (y : Nat) : Nat :=
  let p := y - 1
  365 * p + p / 4 - p / 100 + p / 400

/-- The days of the months before a month of a year. -/
def daysBeforeMonth (y m : Nat) : Nat :=
  (List.range (m - 1)).foldl (fun n i => n + daysInMonth y (i + 1)) 0

/-- A date of the calendar. -/
structure Date where
  year : Nat
  month : Nat
  day : Nat
  deriving DecidableEq, Repr, Inhabited

namespace Date

/-- The dates of the years 1 to 9999. -/
def Valid (d : Date) : Prop :=
  1 ≤ d.year ∧ d.year ≤ 9999 ∧ 1 ≤ d.month ∧ d.month ≤ 12 ∧ 1 ≤ d.day ∧
    d.day ≤ daysInMonth d.year d.month

instance (d : Date) : Decidable d.Valid := by
  unfold Valid; infer_instance

/-- The number of the day, 0001-01-01 being day 1. -/
def dayNumber (d : Date) : Nat :=
  daysBeforeYear d.year + daysBeforeMonth d.year d.month + d.day

/-- The last of the months from `m` on, `fuel` of them at most, that begins before day `n` of the
year, and the day of that month. -/
def monthOf (y : Nat) : Nat → Nat → Nat → Nat × Nat
  | 0, m, n => (m, n)
  | fuel + 1, m, n =>
    if n ≤ daysInMonth y m then (m, n) else monthOf y fuel (m + 1) (n - daysInMonth y m)

/-- The date of a day number. The year is one of two: the mean year is never off by more than
one. -/
def ofDayNumber (n : Nat) : Date :=
  let guess := (n - 1) * 400 / 146097 + 1
  let year :=
    if n ≤ daysBeforeYear guess then guess - 1
    else if daysBeforeYear (guess + 1) < n then guess + 1
    else guess
  let (month, day) := monthOf year 12 1 (n - daysBeforeYear year)
  ⟨year, month, day⟩

end Date

/-- The text `YYYY-MM-DD`. -/
def Date.text (d : Date) : String :=
  padLeft 4 d.year ++ "-" ++ padLeft 2 d.month ++ "-" ++ padLeft 2 d.day

/-- A date with a time of day, and the minutes that its zone is ahead of UTC, if it has one. -/
structure Moment where
  date : Date
  hour : Nat
  minute : Nat
  second : Nat
  microsecond : Nat
  offset : Option Int
  deriving DecidableEq, Repr, Inhabited

namespace Moment

/-- A time of a day of the calendar whose offset is less than a day. -/
def Valid (t : Moment) : Prop :=
  t.date.Valid ∧ t.hour < 24 ∧ t.minute < 60 ∧ t.second < 60 ∧ t.microsecond < 1000000 ∧
    ∀ o ∈ t.offset, o.natAbs < 1440

instance (t : Moment) : Decidable t.Valid := by
  unfold Valid; infer_instance

/-- The microseconds since midnight of day 0, in the moment's own zone. -/
def wallClock (t : Moment) : Int :=
  (((t.date.dayNumber * 24 + t.hour) * 60 + t.minute) * 60 + t.second) * 1000000 + t.microsecond

/-- The microseconds since midnight UTC of day 0. -/
def instant (t : Moment) : Int :=
  t.wallClock - t.offset.getD 0 * 60000000

/-- Whether two moments are the same: the same instant when both know their offset, the same time
of day when neither does. -/
def same (a b : Moment) : Bool :=
  a.offset.isSome = b.offset.isSome && a.instant = b.instant

/-- The text of an offset, `+HH:MM` or `-HH:MM`. -/
def offsetText (o : Int) : String :=
  (if o < 0 then "-" else "+") ++ padLeft 2 (o.natAbs / 60) ++ ":" ++ padLeft 2 (o.natAbs % 60)

/-- The text of a moment: date, separator, time, the microseconds unless zero, the offset. -/
def textWith (separator : String) (offsetText : Int → String) (t : Moment) : String :=
  t.date.text ++ separator ++ padLeft 2 t.hour ++ ":" ++ padLeft 2 t.minute ++ ":" ++
    padLeft 2 t.second ++
    (if t.microsecond = 0 then "" else "." ++ padLeft 6 t.microsecond) ++
    (match t.offset with
      | none => ""
      | some o => offsetText o)

/-- The displayed form, such as `2024-01-02 03:04:05+00:00`. -/
def text (t : Moment) : String :=
  t.textWith " " offsetText

/-- The ISO form, such as `2024-01-02T03:04:05Z`. -/
def isoText (t : Moment) : String :=
  t.textWith "T" (fun o => if o = 0 then "Z" else offsetText o)

end Moment
end Runbook
