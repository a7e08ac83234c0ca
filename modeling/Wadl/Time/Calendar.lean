/-!
# Days and times

`Date`, `Clock` and `DateTime` are days of the calendar, times of a day and both together;
`Duration` is a span of time. A time may have an offset, in microseconds, from the time of the zero
meridian.
-/

namespace Wadl

/-- A day. -/
structure Date where
  year : Nat
  month : Nat
  day : Nat
  deriving DecidableEq, Repr

/-- A time of day. -/
structure Clock where
  hour : Nat
  minute : Nat
  second : Nat
  micro : Nat
  /-- Microseconds ahead of the zero meridian. -/
  offset : Option Int
  deriving DecidableEq, Repr

/-- A time of a day of the calendar. -/
structure DateTime where
  date : Date
  clock : Clock
  deriving DecidableEq, Repr

/-- A span of time, with fewer than 86400 seconds and a million microseconds. -/
structure Duration where
  days : Int
  seconds : Nat
  micros : Nat
  deriving DecidableEq, Repr

namespace Date

/-- Whether a year has a leap day. -/
def isLeap (year : Nat) : Bool := year % 4 == 0 && (year % 100 != 0 || year % 400 == 0)

/-- The days of a month. -/
def monthLength (year month : Nat) : Nat :=
  match month with
  | 2 => if isLeap year then 29 else 28
  | 4 | 6 | 9 | 11 => 30
  | _ => 31

/-- Whether the calendar has a day, of the years 1 to 9999. -/
def isValid (d : Date) : Bool :=
  1 ≤ d.year && d.year ≤ 9999 && 1 ≤ d.month && d.month ≤ 12 && 1 ≤ d.day &&
    d.day ≤ monthLength d.year d.month

/-- The days before a year, from the year 1 on. -/
def daysBeforeYear (year : Nat) : Nat :=
  let y := year - 1
  y * 365 + y / 4 - y / 100 + y / 400

/-- The days of a year. -/
def yearLength (year : Nat) : Nat := if isLeap year then 366 else 365

/-- The day of a year with an ordinal from 1 on; `months` are the months that are left. -/
def ofOrdinal (year : Nat) : (months : List Nat) → (n : Nat) → Date
  | [], n => ⟨year, 12, n⟩
  | m :: ms, n =>
    if n ≤ monthLength year m then ⟨year, m, n⟩ else ofOrdinal year ms (n - monthLength year m)

/-- The months. -/
def months : List Nat := [1, 2, 3, 4, 5, 6, 7, 8, 9, 10, 11, 12]

/-- The weekday of the first day of a year, from 0 for a Monday. -/
def firstWeekday (year : Nat) : Nat := daysBeforeYear year % 7

/-- Whether the weeks of a year are 53. -/
def isLongYear (year : Nat) : Bool :=
  firstWeekday year == 3 || (firstWeekday year == 2 && isLeap year)

/-- The day of a week of a year; the week with the first Thursday is the first. The day may belong
to the year before or after. -/
def ofWeek? (year week day : Nat) : Option Date :=
  if year < 1 || 9999 < year then none
  else if week < 1 || 53 < week || (week == 53 && !isLongYear year) then none
  else if day < 1 || 7 < day then none
  else
    let weekday := firstWeekday year
    -- the first Monday lies this far from the first day of the year
    let start : Int := if weekday ≤ 3 then -(weekday : Int) else 7 - (weekday : Int)
    let ordinal : Int := start + ((week - 1) * 7 + day : Nat)
    if ordinal < 1 then
      if year = 1 then none
      else some (ofOrdinal (year - 1) months (ordinal + yearLength (year - 1)).toNat)
    else if ordinal ≤ yearLength year then some (ofOrdinal year months ordinal.toNat)
    else some (ofOrdinal (year + 1) months (ordinal - yearLength year).toNat)

end Date

/-- Whether a time of day can be. -/
def Clock.isValid (c : Clock) : Bool :=
  c.hour < 24 && c.minute < 60 && c.second < 60 && c.micro < 1000000 &&
    c.offset.all fun o => -86400000000 < o && o < 86400000000

end Wadl
