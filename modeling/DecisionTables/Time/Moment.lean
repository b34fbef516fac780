/-!
# Moments

A moment is a point in universal time.  Its calendar fields are those of the proleptic Gregorian
calendar: years are counted from the first of March, so that a leap day ends its year, and in eras
of 400 years, each of 146097 days.
-/

namespace DecisionTables

/-- Whole seconds since the start of 1970, and nanoseconds after them. -/
structure Moment where
  seconds : Int
  nanoseconds : Nat

structure CalendarDate where
  year : Int
  month : Nat
  day : Nat

namespace CalendarDate

/-- The date a number of days after the first of January 1970. -/
def ofDays (days : Int) : CalendarDate :=
  let shifted := days + 719468
  let era := shifted / 146097
  let dayOfEra := (shifted % 146097).toNat
  let yearOfEra := (dayOfEra - dayOfEra / 1460 + dayOfEra / 36524 - dayOfEra / 146096) / 365
  let dayOfYear := dayOfEra - (365 * yearOfEra + yearOfEra / 4 - yearOfEra / 100)
  let shiftedMonth := (5 * dayOfYear + 2) / 153
  let month := if shiftedMonth < 10 then shiftedMonth + 3 else shiftedMonth - 9
  { year := era * 400 + yearOfEra + if month ≤ 2 then 1 else 0
    month := month
    day := dayOfYear - (153 * shiftedMonth + 2) / 5 + 1 }

def isLeapYear (year : Int) : Bool :=
  year % 4 == 0 && (year % 100 != 0 || year % 400 == 0)

def monthLengths (year : Int) : List Nat :=
  [31, if isLeapYear year then 29 else 28, 31, 30, 31, 30, 31, 31, 30, 31, 30, 31]

def dayOfYear (date : CalendarDate) : Nat :=
  ((monthLengths date.year).take (date.month - 1)).foldr (· + ·) date.day

end CalendarDate

namespace Moment

/-- The moment so many nanoseconds later, or earlier if there are less than none. -/
def shift (moment : Moment) (nanoseconds : Int) : Moment :=
  let total := moment.nanoseconds + nanoseconds
  ⟨moment.seconds + total / 1000000000, (total % 1000000000).toNat⟩

def days (moment : Moment) : Int :=
  moment.seconds / 86400

def date (moment : Moment) : CalendarDate :=
  .ofDays moment.days

def secondOfDay (moment : Moment) : Nat :=
  (moment.seconds % 86400).toNat

def hour (moment : Moment) : Nat :=
  moment.secondOfDay / 3600

def minute (moment : Moment) : Nat :=
  moment.secondOfDay / 60 % 60

def second (moment : Moment) : Nat :=
  moment.secondOfDay % 60

/-- The day of the week, counted from Sunday as zero. -/
def weekday (moment : Moment) : Nat :=
  ((moment.days + 4) % 7).toNat

/-- The number of weeks of a year in the calendar of weeks that start on Monday. -/
def weeksInYear (year : Int) (firstWeekday : Nat) : Nat :=
  if firstWeekday = 4 ∨ (firstWeekday = 3 ∧ CalendarDate.isLeapYear year) then 53 else 52

/-- The year and the week of the moment in the calendar of weeks that start on Monday. -/
def weekDate (moment : Moment) : Int × Nat :=
  let date := moment.date
  let fromMonday := (moment.weekday + 6) % 7
  let week := (date.dayOfYear + 9 - fromMonday) / 7
  let firstWeekday := (moment.weekday + 371 - (date.dayOfYear - 1)) % 7
  if week = 0 then
    let previous := date.year - 1
    let length := if CalendarDate.isLeapYear previous then 366 else 365
    (previous, weeksInYear previous ((firstWeekday + 371 - length) % 7))
  else if weeksInYear date.year firstWeekday < week then (date.year + 1, 1)
  else (date.year, week)

end Moment

end DecisionTables
