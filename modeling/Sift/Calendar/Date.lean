import Sift.Text.Digit

/-!
# Dates

Days of the calendar from the year 1 to the year 9999. A date carries the proof that it exists.
-/

namespace Sift

/-- A year with a 29th of February. -/
def isLeapYear (y : Nat) : Bool :=
  y % 4 == 0 && (y % 100 != 0 || y % 400 == 0)

def daysInMonth (y m : Nat) : Nat :=
  if m = 2 then (if isLeapYear y then 29 else 28)
  else if m = 4 || m = 6 || m = 9 || m = 11 then 30
  else 31

def daysInYear (y : Nat) : Nat :=
  if isLeapYear y then 366 else 365

/-- Why the fields of a date or a time name nothing. -/
inductive CalendarFault where
  /-- The text has none of the accepted forms. -/
  | unreadable
  | year (y : Nat)
  | month
  | day
  | hour
  | minute
  | second
  /-- The offset from universal time, in microseconds, is not shorter than a day. -/
  | offset (micros : Int)
  deriving DecidableEq, Repr

structure Date where
  year : Nat
  month : Nat
  day : Nat
  year_mem : 1 ≤ year ∧ year ≤ 9999
  month_mem : 1 ≤ month ∧ month ≤ 12
  day_mem : 1 ≤ day ∧ day ≤ daysInMonth year month
  deriving DecidableEq, Repr

namespace Date

/-- The day with the given fields. The year is looked at first, then the month. -/
def ofFields (y m d : Nat) : Except CalendarFault Date :=
  if hy : 1 ≤ y ∧ y ≤ 9999 then
    if hm : 1 ≤ m ∧ m ≤ 12 then
      if hd : 1 ≤ d ∧ d ≤ daysInMonth y m then .ok ⟨y, m, d, hy, hm, hd⟩
      else .error .day
    else .error .month
  else .error (.year y)

/-- The month and the day of the month, when `m` is the month that `rest` is counted from. -/
def walkMonths (y : Nat) : Nat → Nat → Nat → Nat × Nat
  | 0, m, rest => (m, rest + 1)
  | fuel + 1, m, rest =>
    if rest < daysInMonth y m then (m, rest + 1) else walkMonths y fuel (m + 1) (rest - daysInMonth y m)

/-- The day that is `n` days after the first of January. -/
def ofYearDay (y n : Nat) : Except CalendarFault Date :=
  let (m, d) := walkMonths y 11 1 n
  ofFields y m d

/-- The day of the week of the first of January, Monday being 0. -/
def firstWeekday (y : Nat) : Nat :=
  ((y - 1) * 365 + (y - 1) / 4 - (y - 1) / 100 + (y - 1) / 400) % 7

/-- The number of weeks of a year that is counted in weeks: a week belongs to the year of its Thursday. -/
def weeksInYear (y : Nat) : Nat :=
  if firstWeekday y = 3 || (firstWeekday y = 2 && isLeapYear y) then 53 else 52

/-- A day given by its week and its place in the week, from 1 to 7. A week of the year 0 is refused with a word about
its month, since no month of that year exists. -/
def ofWeek (y week weekday : Nat) : Except CalendarFault Date :=
  if week = 0 || weeksInYear y < week || weekday = 0 || 7 < weekday then .error .unreadable
  else if y = 0 then .error .month
  else
    let first : Int := if firstWeekday y ≤ 3 then -(firstWeekday y : Int) else 7 - (firstWeekday y : Int)
    let n : Int := first + (7 * (week - 1) + (weekday - 1) : Nat)
    if n < 0 then ofYearDay (y - 1) (daysInYear (y - 1) + n).toNat
    else if n < daysInYear y then ofYearDay y n.toNat
    else ofYearDay (y + 1) (n - daysInYear y).toNat

/-- The number of days before a date, counted from the first of January of the year 1. -/
def dayNumber (d : Date) : Nat :=
  (d.year - 1) * 365 + (d.year - 1) / 4 - (d.year - 1) / 100 + (d.year - 1) / 400
    + (List.range' 1 (d.month - 1)).foldl (fun n m => n + daysInMonth d.year m) 0 + (d.day - 1)

/-- A date as year, month and day with hyphens between them. -/
def iso (d : Date) : String :=
  Text.padded 4 d.year ++ "-" ++ Text.padded 2 d.month ++ "-" ++ Text.padded 2 d.day

end Date

end Sift
