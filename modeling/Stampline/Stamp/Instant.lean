/-!
# Instants and the calendar

An instant is a number of seconds since the beginning of 1970 in UTC, leap seconds aside, and a
fraction of a second. Its date is that of the proleptic Gregorian calendar.
-/

namespace Stampline

/-- A point in time. -/
structure Instant where
  /-- The whole seconds since the beginning of 1970. -/
  seconds : Int
  /-- The nanoseconds since the last whole second. -/
  nanos : Nat := 0
deriving DecidableEq, Repr, Inhabited

/-- A day of the calendar. -/
structure Date where
  /-- The year; the year before 1 is 0. -/
  year : Int
  /-- The month, from 1. -/
  month : Nat
  /-- The day of the month, from 1. -/
  day : Nat
deriving DecidableEq, Repr, Inhabited

/-- Whether a year has 366 days. -/
def isLeap (year : Int) : Bool := year % 4 == 0 && (year % 100 != 0 || year % 400 == 0)

/-- The number of days in a month of a year. -/
def daysInMonth (year : Int) (month : Nat) : Nat :=
  if month = 2 then (if isLeap year then 29 else 28)
  else if month = 4 ∨ month = 6 ∨ month = 9 ∨ month = 11 then 30
  else 31

/-- The number of leap years from the year 1 to a year, negative for years before. -/
def leapsThrough (year : Int) : Int := year / 4 - year / 100 + year / 400

/-- The number of days from the beginning of 1970 to the beginning of a year. -/
def daysBeforeYear (year : Int) : Int :=
  365 * (year - 1970) + (leapsThrough (year - 1) - leapsThrough 1969)

/-- The month and the day of the month of the day number `day` of a year, both counted from there
on: `day` days after the first of `month`. -/
def monthAndDay (year : Int) (month day : Nat) : Nat → Nat × Nat
  | 0 => (month, day + 1)
  | months + 1 =>
    if day < daysInMonth year month then (month, day + 1)
    else monthAndDay year (month + 1) (day - daysInMonth year month) months

/-- The number of weeks that have their Thursday in a year. There are 53 of them if the year begins
with a Thursday, or with a Wednesday and is a leap year. -/
def weeksOfYear (year : Int) : Nat :=
  let first := ((daysBeforeYear year + 3) % 7).toNat
  if first = 3 ∨ (first = 2 ∧ isLeap year) then 53 else 52

namespace Instant

/-- The number of whole days since the beginning of 1970. -/
def days (t : Instant) : Int := t.seconds / 86400

/-- The seconds since the beginning of the day. -/
def secondOfDay (t : Instant) : Nat := (t.seconds % 86400).toNat

/-- The year of an instant. In 400 years there are 146097 days; the first guess taken from their
average is at most one too high or too low. -/
def year (t : Instant) : Int :=
  let guess := 1970 + (t.days * 400) / 146097
  if t.days < daysBeforeYear guess then guess - 1
  else if daysBeforeYear (guess + 1) ≤ t.days then guess + 1
  else guess

/-- The days since the beginning of the year. -/
def dayOfYear (t : Instant) : Nat := (t.days - daysBeforeYear t.year).toNat

/-- The date of an instant. -/
def date (t : Instant) : Date :=
  let (month, day) := monthAndDay t.year 1 t.dayOfYear 11
  ⟨t.year, month, day⟩

/-- The day of the week, counted from Sunday, which is 0. -/
def weekday (t : Instant) : Nat := ((t.days + 4) % 7).toNat

/-- The day of the week, counted from Monday, which is 0. -/
def weekdayFromMonday (t : Instant) : Nat := (t.weekday + 6) % 7

/-- The hour of the day. -/
def hour (t : Instant) : Nat := t.secondOfDay / 3600

/-- The minute of the hour. -/
def minute (t : Instant) : Nat := t.secondOfDay / 60 % 60

/-- The second of the minute. -/
def second (t : Instant) : Nat := t.secondOfDay % 60

/-- The nanoseconds of the second. -/
def nanoOfSecond (t : Instant) : Nat := t.nanos % 1000000000

/-- The hour as a clock face shows it, from 1 to 12. -/
def hourOnFace (t : Instant) : Nat := (t.hour + 11) % 12 + 1

/-- Whether it is noon or later. -/
def isAfternoon (t : Instant) : Bool := decide (12 ≤ t.hour)

/-- The quarter of the year, from 1. -/
def quarter (t : Instant) : Nat := (t.date.month - 1) / 3 + 1

/-- The number of Sundays of the year that have been. -/
def weekFromSunday (t : Instant) : Nat := (t.dayOfYear + 7 - t.weekday) / 7

/-- The number of Mondays of the year that have been. -/
def weekFromMonday (t : Instant) : Nat := (t.dayOfYear + 7 - t.weekdayFromMonday) / 7

/-- The year and the number of the week that an instant falls in. A week begins with Monday and
belongs to the year of its Thursday. -/
def isoWeek (t : Instant) : Int × Nat :=
  let number := (t.dayOfYear + 10 - t.weekdayFromMonday) / 7
  if number = 0 then (t.year - 1, weeksOfYear (t.year - 1))
  else if weeksOfYear t.year < number then (t.year + 1, 1)
  else (t.year, number)

end Instant

end Stampline
