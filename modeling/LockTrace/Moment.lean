/-!
# Moments

A moment is a point in time, told in Coordinated Universal Time. Its date is found by taking
away whole years from the days that have passed, and then whole months.
-/

namespace LockTrace

/-- A point in time. -/
structure Moment where
  /-- The whole seconds since the start of 1970. -/
  seconds : Nat
  /-- The nanoseconds since the last whole second. -/
  nanoseconds : Nat
deriving DecidableEq, Repr

namespace Moment

/-! ### Years and months -/

/-- Every fourth year is a leap year, but of those that start a century only every fourth. -/
def isLeap (year : Nat) : Bool := year % 4 = 0 && (year % 100 != 0 || year % 400 = 0)

def daysInYear (year : Nat) : Nat := if isLeap year then 366 else 365

/-- The numbers of days in the months of a year. -/
def monthLengths (year : Nat) : List Nat :=
  [31, if isLeap year then 29 else 28, 31, 30, 31, 30, 31, 31, 30, 31, 30, 31]

theorem daysInYear_pos (year : Nat) : 0 < daysInYear year := by
  cases h : isLeap year <;> simp [daysInYear, h]

/-- The year in which a day lies, and the day's place in it from 0 on. The day is given by its
    distance from the start of `year`. -/
def yearAndDay (year days : Nat) : Nat × Nat :=
  if days < daysInYear year then (year, days)
  else yearAndDay (year + 1) (days - daysInYear year)
termination_by days
decreasing_by
  have := daysInYear_pos year
  omega

/-- The month in which a day of a year lies, and the day's place in it, both from 0 on. The
    months are given by their lengths. -/
def monthAndDay (day : Nat) : List Nat → Nat × Nat
  | [] => (0, day)
  | length :: lengths =>
    if day < length then (0, day)
    else
      let (month, day) := monthAndDay (day - length) lengths
      (month + 1, day)

/-! ### Days -/

def secondsInDay : Nat := 86400

/-- The days that have passed since the start of 1970. -/
def days (m : Moment) : Nat := m.seconds / secondsInDay

def yearDay (m : Moment) : Nat × Nat := yearAndDay 1970 m.days

def year (m : Moment) : Nat := m.yearDay.1

/-- The place of the day in its year, from 0 on. -/
def dayOfYear (m : Moment) : Nat := m.yearDay.2

def monthDay (m : Moment) : Nat × Nat := monthAndDay m.dayOfYear (monthLengths m.year)

/-- The month, from 0 on. -/
def month (m : Moment) : Nat := m.monthDay.1

/-- The place of the day in its month, from 1 on. -/
def dayOfMonth (m : Moment) : Nat := m.monthDay.2 + 1

/-! ### Weeks -/

/-- The days since the last Sunday. The first day of 1970 was a Thursday. -/
def daysFromSunday (m : Moment) : Nat := (m.days + 4) % 7

/-- The days since the last Monday. -/
def daysFromMonday (m : Moment) : Nat := (m.days + 3) % 7

/-- The weeks that have started in the year, where `fromStart` days of the present one have
    passed. -/
def weeksStarted (m : Moment) (fromStart : Nat) : Nat := (m.dayOfYear + 7 - fromStart) / 7

/-- The year in which the Thursday of the week lies, and the Thursday's place in it. A week
    belongs to this year. -/
def thursday (m : Moment) : Nat × Nat := yearAndDay 1970 (m.days + 3 - m.daysFromMonday)

/-- The year to which the week belongs. -/
def weekYear (m : Moment) : Nat := m.thursday.1

/-- The number of the week in the year to which it belongs. -/
def weekOfYear (m : Moment) : Nat := m.thursday.2 / 7 + 1

/-! ### Times -/

/-- The seconds that have passed of the day. -/
def secondOfDay (m : Moment) : Nat := m.seconds % secondsInDay

def hour (m : Moment) : Nat := m.secondOfDay / 3600

/-- The hour on a clock face. -/
def hour12 (m : Moment) : Nat := (m.hour + 11) % 12 + 1

def minute (m : Moment) : Nat := m.secondOfDay / 60 % 60

def second (m : Moment) : Nat := m.secondOfDay % 60

end Moment

end LockTrace
