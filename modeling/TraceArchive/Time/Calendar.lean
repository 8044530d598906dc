/-!
# The calendar

Dates of the Gregorian calendar, carried on without end in both directions, and
their numbers in a row of days. Day 0 is the first of January of the year 1.
-/

namespace TraceArchive.Time

/-- A date by its year, month and day of the month. -/
structure Date where
  year : Int
  month : Nat
  day : Nat
deriving DecidableEq, Repr

/-- Whether a year has a twenty-ninth of February. -/
def isLeapYear (year : Int) : Bool :=
  year % 4 == 0 && (year % 100 != 0 || year % 400 == 0)

/-- The number of days before the first of January of a year. -/
def daysBeforeYear (year : Int) : Int :=
  let past := year - 1
  365 * past + past / 4 - past / 100 + past / 400

/-- The lengths of the months of a year. -/
def monthLengths (leap : Bool) : List Nat :=
  [31, if leap then 29 else 28, 31, 30, 31, 30, 31, 31, 30, 31, 30, 31]

/-- The length of a month; no month has number zero or thirteen. -/
def daysInMonth (year : Int) (month : Nat) : Nat :=
  if month = 0 then 0
  else (monthLengths (isLeapYear year)).getD (month - 1) 0

/-- The number of days before a month of a year. -/
def daysBeforeMonth (leap : Bool) (month : Nat) : Nat :=
  ((monthLengths leap).take (month - 1)).foldr (fun days total => days + total) 0

/-- Whether the month and the day exist. -/
def Date.exists (date : Date) : Bool :=
  1 ≤ date.day && date.day ≤ daysInMonth date.year date.month

/-- The number of a date in the row of days. -/
def Date.toDay (date : Date) : Int :=
  daysBeforeYear date.year +
    daysBeforeMonth (isLeapYear date.year) date.month + date.day - 1

/-- The month and the day of the month of a day of the year, counted from
zero. -/
def monthAndDay (dayOfYear month : Nat) : List Nat → Nat × Nat
  | [] => (month, dayOfYear + 1)
  | length :: rest =>
      if dayOfYear < length then (month, dayOfYear + 1)
      else monthAndDay (dayOfYear - length) (month + 1) rest

/-- The year of a day. The mean length of a year gives a year that is off by
one at most. -/
def yearOfDay (day : Int) : Int :=
  let guess := 400 * day / 146097 + 1
  if day < daysBeforeYear guess then guess - 1
  else if daysBeforeYear (guess + 1) ≤ day then guess + 1
  else guess

/-- The date with a number in the row of days. -/
def Date.ofDay (day : Int) : Date :=
  let year := yearOfDay day
  let dayOfYear := (day - daysBeforeYear year).toNat
  let (month, dayOfMonth) :=
    monthAndDay dayOfYear 1 (monthLengths (isLeapYear year))
  ⟨year, month, dayOfMonth⟩

end TraceArchive.Time
