import Runbook.Calendar

/-!
# Clock

What a clock reads: a date and a time of day in a zone, whose offset from UTC is known to the
microsecond. A reading has a place on the time line, counted in microseconds since midnight UTC of
day 0, and a text in UTC with milliseconds. Between two readings that share the rule of a zone with
summer time the elapsed time is told by the clock on the wall, between any others by the time line.
-/

namespace Runbook

/-- A zone at the time of a reading: the microseconds that it is ahead of UTC then, less than a day
either way, and which rule it follows if it is not always as far ahead. -/
structure Zone where
  ahead : Int
  rule : Option Nat
  ahead_lt : ahead.natAbs < 86400000000
  deriving DecidableEq, Repr

namespace Zone

/-- UTC. -/
def utc : Zone := ⟨0, none, by decide⟩

/-- The zone that is always some microseconds ahead of UTC. -/
def fixed? (ahead : Int) : Option Zone :=
  if h : ahead.natAbs < 86400000000 then some ⟨ahead, none, h⟩ else none

/-- Whether two zones follow one rule by which the offset changes. -/
def sharesRule (a b : Zone) : Bool :=
  a.rule.isSome && a.rule = b.rule

end Zone

/-- What a clock reads: a time of a day of the calendar, in a zone. -/
structure Reading where
  date : Date
  hour : Nat
  minute : Nat
  second : Nat
  microsecond : Nat
  zone : Zone
  valid : date.Valid ∧ hour < 24 ∧ minute < 60 ∧ second < 60 ∧ microsecond < 1000000
  deriving DecidableEq, Repr

/-- The midnight UTC of 1970-01-01, in microseconds since midnight of day 0. -/
def epoch : Int := 719163 * 86400000000

namespace Reading

/-- The reading of a date and a time of day, if there is such a time. -/
def make? (date : Date) (hour minute second microsecond : Nat) (zone : Zone) : Option Reading :=
  if h : date.Valid ∧ hour < 24 ∧ minute < 60 ∧ second < 60 ∧ microsecond < 1000000 then
    some ⟨date, hour, minute, second, microsecond, zone, h⟩
  else none

/-- The microseconds since midnight of day 0, in the zone of the reading. -/
def wallClock (r : Reading) : Int :=
  (((r.date.dayNumber * 24 + r.hour) * 60 + r.minute) * 60 + r.second) * 1000000 + r.microsecond

/-- The microseconds since midnight UTC of day 0. -/
def instant (r : Reading) : Int :=
  r.wallClock - r.zone.ahead

/-- The reading at an instant in a zone, unless the date there is beyond the calendar. -/
def ofInstant? (zone : Zone) (t : Int) : Option Reading :=
  let wall := t + zone.ahead
  let rest := (wall % 86400000000).toNat
  make? (.ofDayNumber (wall / 86400000000).toNat) (rest / 3600000000) (rest / 60000000 % 60)
    (rest / 1000000 % 60) (rest % 1000000) zone

/-- The reading some microseconds after 1970-01-01 UTC, in a zone. -/
def ofEpoch? (zone : Zone) (microseconds : Int) : Option Reading :=
  ofInstant? zone (epoch + microseconds)

/-- The microseconds after 1970-01-01 UTC. -/
def sinceEpoch (r : Reading) : Int :=
  r.instant - epoch

/-- The same instant in UTC, unless the date there is beyond the calendar. -/
def toUtc? (r : Reading) : Option Reading :=
  ofInstant? .utc r.instant

/-- The start of the millisecond of a reading. -/
def truncate (r : Reading) : Reading :=
  { r with
    microsecond := r.microsecond - r.microsecond % 1000
    valid := by
      obtain ⟨hdate, hhour, hminute, hsecond, hmicrosecond⟩ := r.valid
      exact ⟨hdate, hhour, hminute, hsecond, Nat.lt_of_le_of_lt (Nat.sub_le _ _) hmicrosecond⟩ }

/-- The date and the time of day to the millisecond, `YYYY-MM-DDTHH:MM:SS.mmmZ`. -/
def zulu (r : Reading) : String :=
  r.date.text ++ "T" ++ padLeft 2 r.hour ++ ":" ++ padLeft 2 r.minute ++ ":" ++
    padLeft 2 r.second ++ "." ++ padLeft 3 (r.microsecond / 1000) ++ "Z"

/-- The text of a reading in UTC, if it can be told there. -/
def stamp? (r : Reading) : Option String :=
  r.toUtc?.map zulu

/-- The microseconds from one reading to another: in zones of one rule those on the wall clock. -/
def elapsed (start finish : Reading) : Int :=
  if start.zone.sharesRule finish.zone then finish.wallClock - start.wallClock
  else finish.instant - start.instant

/-- The whole milliseconds from one reading to another, rounded down. -/
def elapsedMs (start finish : Reading) : Int :=
  (start.elapsed finish).fdiv 1000

end Reading
end Runbook
