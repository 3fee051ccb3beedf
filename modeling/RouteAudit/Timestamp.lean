/-!
# Timestamps

A point in time of the proleptic Gregorian calendar in UTC, and its text with milliseconds, such as
`2024-05-01T12:00:00.000Z`. A leap second is a nanosecond count of 10^9 or more in the last second
of a minute; it is written with the second 60.
-/

namespace RouteAudit

/-- A day of the calendar. -/
structure CalendarDay where
  year : Int
  month : Nat
  day : Nat
  deriving DecidableEq, Repr

/-- Seconds since 1970-01-01T00:00:00Z and nanoseconds after them. -/
structure Timestamp where
  seconds : Int
  nanos : Nat
  deriving DecidableEq, Repr

namespace CalendarDay

/-- The day with the given number, counted from 1970-01-01. Years of this computation begin in
March, so the leap day is the last day of a year; 400 years have 146097 days. -/
def ofNumber (number : Int) : CalendarDay :=
  let shifted := number + 719468
  let era := shifted / 146097
  let dayOfEra := (shifted % 146097).toNat
  let yearOfEra := (dayOfEra - dayOfEra / 1460 + dayOfEra / 36524 - dayOfEra / 146096) / 365
  let dayOfYear := dayOfEra - (365 * yearOfEra + yearOfEra / 4 - yearOfEra / 100)
  let monthFromMarch := (5 * dayOfYear + 2) / 153
  let day := dayOfYear - (153 * monthFromMarch + 2) / 5 + 1
  let month := if monthFromMarch < 10 then monthFromMarch + 3 else monthFromMarch - 9
  let year := (yearOfEra : Int) + era * 400
  { year := if month ≤ 2 then year + 1 else year, month, day }

end CalendarDay

namespace Timestamp

/-- The number in decimal, with leading zeros up to the width. -/
def padded (width n : Nat) : String :=
  let digits := toString n
  String.ofList (List.replicate (width - digits.length) '0') ++ digits

/-- Four digits for the years 0 to 9999, a sign and at least four digits for all others. -/
def yearText (year : Int) : String :=
  if 0 ≤ year ∧ year ≤ 9999 then padded 4 year.toNat
  else (if year < 0 then "-" else "+") ++ padded 4 year.natAbs

def dayNumber (t : Timestamp) : Int :=
  t.seconds / 86400

def secondOfDay (t : Timestamp) : Nat :=
  (t.seconds % 86400).toNat

def firstDay : Int := -96465292

def lastDay : Int := 95026236

/-- The time for a count of seconds and nanoseconds, if it is in range: a leap second only in the
last second of a minute, and a day of the years -262143 to 262142. -/
def ofParts? (seconds : Int) (nanos : Nat) : Option Timestamp :=
  let t : Timestamp := ⟨seconds, nanos⟩
  if firstDay ≤ t.dayNumber ∧ t.dayNumber ≤ lastDay ∧
      (nanos < 1000000000 ∨ (nanos < 2000000000 ∧ seconds % 60 = 59)) then some t
  else none

def epoch : Timestamp := ⟨0, 0⟩

/-- The time as text, with milliseconds; smaller parts are cut off. -/
def text (t : Timestamp) : String :=
  let d := CalendarDay.ofNumber t.dayNumber
  let s := t.secondOfDay
  let leap := t.nanos / 1000000000
  yearText d.year ++ "-" ++ padded 2 d.month ++ "-" ++ padded 2 d.day ++ "T" ++
    padded 2 (s / 3600) ++ ":" ++ padded 2 (s / 60 % 60) ++ ":" ++ padded 2 (s % 60 + leap) ++
    "." ++ padded 3 (t.nanos % 1000000000 / 1000000) ++ "Z"

end Timestamp

end RouteAudit
