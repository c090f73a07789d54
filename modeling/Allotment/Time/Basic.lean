import Allotment.Bounded

/-!
# Points in time

A point in time counts seconds from the start of 1970, and nanoseconds on top of
them.  In a leap second the nanoseconds go on beyond a full second.

**Algorithm.**  The calendar is the Gregorian one, extended to all years.  A year
is taken to start in March, so that the leap day is its last one, and days are
counted within eras of 400 years.
-/

namespace Allotment

/-- A point in time. -/
structure Time where
  /-- Whole seconds since the start of 1970. -/
  seconds : Int
  /-- Nanoseconds beyond them. -/
  nanos : Nat
deriving DecidableEq, Repr

/-- A day of the calendar. -/
structure Date where
  /-- The year; the one before year one is zero. -/
  year : Int
  /-- The month, from one. -/
  month : Nat
  /-- The day of the month, from one. -/
  day : Nat
deriving DecidableEq, Repr

namespace Date

/-- The year has a leap day. -/
def isLeap (year : Int) : Bool := year % 4 == 0 && (year % 100 != 0 || year % 400 == 0)

/-- The number of days of a month. -/
def daysIn (year : Int) (month : Nat) : Nat :=
  if month = 2 then (if isLeap year then 29 else 28)
  else if month = 4 ∨ month = 6 ∨ month = 9 ∨ month = 11 then 30
  else 31

/-- The earliest year. -/
def firstYear : Int := -262143

/-- The latest year. -/
def lastYear : Int := 262142

/-- The date exists, and its year is not too far off. -/
def isValid (d : Date) : Bool :=
  firstYear ≤ d.year && d.year ≤ lastYear && 1 ≤ d.month && d.month ≤ 12 && 1 ≤ d.day &&
    d.day ≤ daysIn d.year d.month

/-- The number of days of an era. -/
def eraDays : Int := 146097

/-- The number of days from the start of an era to the start of 1970. -/
def epochDays : Int := 719468

/-- The days from the start of 1970 to a date. -/
def toDays (d : Date) : Int :=
  let year := if d.month ≤ 2 then d.year - 1 else d.year
  let era := year.fdiv 400
  let yearOfEra := year - era * 400
  let month : Int := (d.month + 9) % 12
  let dayOfYear := (153 * month + 2) / 5 + d.day - 1
  let dayOfEra := yearOfEra * 365 + yearOfEra / 4 - yearOfEra / 100 + dayOfYear
  era * eraDays + dayOfEra - epochDays

/-- The date at a number of days from the start of 1970. -/
def ofDays (days : Int) : Date :=
  let z := days + epochDays
  let era := z.fdiv eraDays
  let dayOfEra := z - era * eraDays
  let yearOfEra := (dayOfEra - dayOfEra / 1460 + dayOfEra / 36524 - dayOfEra / 146096) / 365
  let dayOfYear := dayOfEra - (365 * yearOfEra + yearOfEra / 4 - yearOfEra / 100)
  let month := (5 * dayOfYear + 2) / 153
  let day := dayOfYear - (153 * month + 2) / 5 + 1
  let m := if month < 10 then month + 3 else month - 9
  let year := yearOfEra + era * 400
  ⟨if m ≤ 2 then year + 1 else year, m.toNat, day.toNat⟩

end Date

namespace Time

/-- The seconds of a day. -/
def daySeconds : Int := 86400

/-- The start of 1970. -/
def epoch : Time := ⟨0, 0⟩

/-- The day on which the time falls. -/
def date (t : Time) : Date := Date.ofDays (t.seconds.fdiv daySeconds)

/-- The seconds since the start of the day. -/
def secondOfDay (t : Time) : Nat := (t.seconds.fmod daySeconds).toNat

/-- The time lies in a year that is not too far off. -/
def isValid (t : Time) : Bool :=
  Date.firstYear ≤ t.date.year && t.date.year ≤ Date.lastYear

end Time

end Allotment
