import Sift.Calendar.Date

/-!
# Moments

A date with a time of day, and possibly with the offset of its clock from universal time.
-/

namespace Sift

/-- A time of day to the microsecond. -/
structure Clock where
  hour : Nat
  minute : Nat
  second : Nat
  micro : Nat
  hour_lt : hour < 24
  minute_lt : minute < 60
  second_lt : second < 60
  micro_lt : micro < 1000000
  deriving DecidableEq, Repr

namespace Clock

def midnight : Clock := ⟨0, 0, 0, 0, by decide, by decide, by decide, by decide⟩

/-- The time with the given fields, looked at from the hour down. -/
def ofFields (h m s us : Nat) : Except CalendarFault Clock :=
  if hh : h < 24 then
    if hm : m < 60 then
      if hs : s < 60 then
        if hu : us < 1000000 then .ok ⟨h, m, s, us, hh, hm, hs, hu⟩
        else .error .second
      else .error .second
    else .error .minute
  else .error .hour

/-- The microseconds since midnight. -/
def micros (c : Clock) : Nat :=
  ((c.hour * 60 + c.minute) * 60 + c.second) * 1000000 + c.micro

/-- A time as hours, minutes and seconds, with six more digits when they are not all zero. -/
def iso (c : Clock) : String :=
  Text.padded 2 c.hour ++ ":" ++ Text.padded 2 c.minute ++ ":" ++ Text.padded 2 c.second
    ++ (if c.micro = 0 then "" else "." ++ Text.padded 6 c.micro)

end Clock

def microsPerDay : Nat := 86400000000

/-- The offset of a clock from universal time, in microseconds; shorter than a day either way. -/
structure UtcOffset where
  micros : Int
  short : micros.natAbs < microsPerDay
  deriving DecidableEq, Repr

namespace UtcOffset

def utc : UtcOffset := ⟨0, by decide⟩

def ofMicros (n : Int) : Except CalendarFault UtcOffset :=
  if h : n.natAbs < microsPerDay then .ok ⟨n, h⟩ else .error (.offset n)

/-- An offset as a sign, hours and minutes, with seconds and their fraction only where they are not zero. -/
def iso (o : UtcOffset) : String :=
  let n := o.micros.natAbs
  let seconds := n / 1000000
  let micro := n % 1000000
  (if o.micros < 0 then "-" else "+") ++ Text.padded 2 (seconds / 3600) ++ ":" ++ Text.padded 2 (seconds / 60 % 60)
    ++ (if seconds % 60 = 0 && micro = 0 then "" else ":" ++ Text.padded 2 (seconds % 60))
    ++ (if micro = 0 then "" else "." ++ Text.padded 6 micro)

end UtcOffset

/-- A date and a time of day. Without an offset it is what a clock on the wall shows, anywhere. -/
structure Moment where
  date : Date
  clock : Clock
  offset : Option UtcOffset
  deriving DecidableEq, Repr

namespace Moment

def midnight (d : Date) : Moment := ⟨d, .midnight, none⟩

/-- The microseconds that the clock on the wall shows since the first of January of the year 1. -/
def wall (t : Moment) : Nat :=
  t.date.dayNumber * microsPerDay + t.clock.micros

/-- The same count in universal time, for a moment with an offset. -/
def instant? (t : Moment) : Option Int :=
  t.offset.map fun o => (t.wall : Int) - o.micros

/-- Two moments are the same if both have an offset and name one instant, or neither has one and they read alike. -/
def same (s t : Moment) : Bool :=
  match s.instant?, t.instant? with
  | some a, some b => a == b
  | none, none => s.wall == t.wall
  | _, _ => false

/-- A moment as date, `T`, time and offset. -/
def iso (t : Moment) : String :=
  t.date.iso ++ "T" ++ t.clock.iso ++ (t.offset.elim "" UtcOffset.iso)

end Moment

end Sift
