import Sift.Calendar.Moment
import Sift.Number.Power

/-!
# Reading dates and moments

The accepted forms of a date are `2024-01-02`, `20240102` and the same with a week, `2024-W01-2`, `2024W012`, where
the day of the week may be left out. Any one character stands between date and time; hours, minutes and seconds
come with colons or without, with a fraction after a point or a comma, and with an offset or a `Z` at the end.

A text is first taken apart and only then are its fields looked at: a text of no accepted form is unreadable even
if a field of it is out of range, and of several bad fields the offset is named before the date and the date before
the time.
-/

namespace Sift.Calendar

open Text

/-- A number whose digits so far write `acc` and that goes on for exactly `n` ASCII digits, and the rest. -/
def digitsAfter (acc : Nat) : Nat → List Char → Option (Nat × List Char)
  | 0, cs => some (acc, cs)
  | _ + 1, [] => none
  | n + 1, c :: cs => (asciiDigit? c).bind fun d => digitsAfter (10 * acc + d) n cs

/-- A number in exactly `n` ASCII digits, and the rest. -/
def digits (n : Nat) (cs : List Char) : Option (Nat × List Char) :=
  digitsAfter 0 n cs

/-- The given character, and the rest after it. -/
def skip (c : Char) : List Char → Option (List Char)
  | [] => none
  | c' :: cs => if c' = c then some cs else none

/-- The length of a text in UTF-8. -/
def utf8Length (cs : List Char) : Nat :=
  cs.foldl (fun n c => n + c.utf8Size) 0

/-- The date at the front of a text. Its first `size` characters are the date, so a week with nothing left of them
stands for its Monday; characters after the last field are not looked at. -/
def dateFields (size : Nat) (cs : List Char) : Option (Except CalendarFault Date) := do
  let (y, rest) ← digits 4 cs
  let (hyphens, rest) := match rest with
    | '-' :: tail => (true, tail)
    | _ => (false, rest)
  match rest with
  | 'W' :: rest =>
    let (week, rest) ← digits 2 rest
    let weekday ←
      if (if hyphens then 8 else 7) < size then do
        let rest ← if hyphens then skip '-' rest else some rest
        let (d, _) ← digits 1 rest
        some d
      else some 1
    match Date.ofWeek y week weekday with
    | .error .unreadable => none
    | date => some date
  | _ =>
    let (m, rest) ← digits 2 rest
    let rest ← if hyphens then skip '-' rest else some rest
    let (d, _) ← digits 2 rest
    some (Date.ofFields y m d)

/-- Reads a date. Only the length of the whole text tells a date from a longer text. -/
def date (s : String) : Except CalendarFault Date :=
  let cs := s.toList
  let size := utf8Length cs
  if size = 7 || size = 8 || size = 10 then (dateFields size cs).getD (.error .unreadable)
  else .error .unreadable

def isDigit (c : Char) : Bool := (asciiDigit? c).isSome

/-- The number of characters of the date at the front of a moment. With a week and no hyphens, the parity of the
digits that follow tells whether a day of the week is among them. -/
def dateSize (cs : List Char) : Nat :=
  if utf8Length cs = 7 then 7
  else
    let at? (c : Char) (i : Nat) : Bool := cs[i]? == some c
    if at? '-' 4 then
      if at? 'W' 5 then
        if at? '-' 8 then
          if (cs[10]?.map isDigit).getD false then 8 else 10
        else 8
      else 10
    else if at? 'W' 4 then
      let stop := 7 + ((cs.drop 7).takeWhile isDigit).length
      if stop < 9 then stop else if stop % 2 = 0 then 7 else 8
    else 8

structure ClockFields where
  hour : Nat := 0
  minute : Nat := 0
  second : Nat := 0
  micro : Nat := 0

/-- A fraction of a second: six digits count, the ones after them are passed over. -/
def fraction (cs : List Char) : Option (Nat × List Char) := do
  let n := min 6 cs.length
  let (k, rest) ← digits n cs
  some (k * tenTo (6 - n), rest.dropWhile isDigit)

/-- What follows a field of two digits. -/
inductive AfterField where
  /-- The text ends, with at most one ASCII character left over. -/
  | stop (rest : List Char)
  /-- Another field of two digits. -/
  | field (rest : List Char)
  | fraction (rest : List Char)

/-- Decides what follows a field. Colons are used everywhere or nowhere. -/
def afterField (colons : Bool) : List Char → Option AfterField
  | [] => some (.stop [])
  | [c] => if c.toNat < 128 then some (.stop [c]) else none
  | c :: cs =>
    if colons && c = ':' then some (.field cs)
    else if c = '.' || c = ',' then some (.fraction cs)
    else if colons then none
    else some (.field (c :: cs))

/-- The fields of a time, and what is left of the text after them. After the seconds a colon, or no separator at
all, leads to the fraction as well. -/
def clockFields (cs : List Char) : Option (ClockFields × List Char) := do
  let (h, rest) ← digits 2 cs
  let colons := rest.head? == some ':'
  match ← afterField colons rest with
  | .stop rest => some ({ hour := h }, rest)
  | .fraction rest => (fraction rest).map fun (us, rest) => ({ hour := h, micro := us }, rest)
  | .field rest =>
    let (m, rest) ← digits 2 rest
    match ← afterField colons rest with
    | .stop rest => some ({ hour := h, minute := m }, rest)
    | .fraction rest => (fraction rest).map fun (us, rest) => ({ hour := h, minute := m, micro := us }, rest)
    | .field rest =>
      let (s, rest) ← digits 2 rest
      match ← afterField colons rest with
      | .stop rest => some ({ hour := h, minute := m, second := s }, rest)
      | .fraction rest | .field rest =>
        (fraction rest).map fun (us, rest) => ({ hour := h, minute := m, second := s, micro := us }, rest)

/-- Nothing is left of a text, or it goes on with a NUL character. -/
def ended : List Char → Bool
  | [] => true
  | c :: _ => c.toNat = 0

/-- The offset that follows a sign. An offset of less than a second is none. -/
def offset (negative : Bool) (cs : List Char) : Option (Except CalendarFault UtcOffset) := do
  let (f, rest) ← clockFields cs
  if ended rest then
    let seconds := (f.hour * 60 + f.minute) * 60 + f.second
    let n : Int := (seconds * 1000000 + f.micro : Nat)
    if seconds = 0 then some (.ok .utc) else some (UtcOffset.ofMicros (if negative then -n else n))
  else none

/-- The time and the offset after the character that separates them from the date. Where an offset follows, one
character between it and the time is passed over. -/
def timeFields (cs : List Char) : Option (ClockFields × Option (Except CalendarFault UtcOffset)) := do
  let mark (c : Char) : Bool := c = '+' || c = '-' || c = 'Z'
  let (f, rest) ← clockFields (cs.takeWhile (!mark ·))
  match cs.dropWhile (!mark ·) with
  | [] => if ended rest then some (f, none) else none
  | c :: tail =>
    if c = 'Z' then
      if ended tail then some (f, some (.ok .utc)) else none
    else (offset (c = '-') tail).map fun o => (f, some o)

/-- Reads a moment. -/
def moment (s : String) : Except CalendarFault Moment :=
  let cs := s.toList
  let size := dateSize cs
  let parts : Option (Except CalendarFault Date × ClockFields × Option (Except CalendarFault UtcOffset)) := do
    let d ← dateFields size cs
    match cs.drop size with
    | [] => some (d, {}, none)
    | _ :: time => (timeFields time).map fun (f, o) => (d, f, o)
  match parts with
  | none => .error .unreadable
  | some (d, f, o) => do
    let o ← match o with
      | none => pure none
      | some o => some <$> o
    let d ← d
    let c ← Clock.ofFields f.hour f.minute f.second f.micro
    return ⟨d, c, o⟩

end Sift.Calendar
