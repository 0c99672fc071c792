import Sift.Calendar.Reader
import Sift.Number.Numeral
import Sift.Schema.Column
import Sift.Schema.Mismatch
import Sift.Text.Casing

/-!
# Coercion

A scalar that a request gives for a column becomes a value of the column's type, or is refused: nothing is ever
silently turned into something else. Texts are read as numerals, truth words, dates and moments.
-/

namespace Sift.ColumnType

open Text

def readInteger (s : String) : Except Mismatch Value :=
  match Numeral.int s.toList with
  | .ok n => .ok (.int n)
  | .error .malformed => .error (.notInteger s)
  | .error (.tooLong count) => .error (.tooManyDigits count)

/-- A whole number. -/
def toInteger : Value → Except Mismatch Value
  | .bool _ => .error .integerNotBoolean
  | .int n => .ok (.int n)
  | .float x => x.toInt?.elim (.error .integerExpected) fun n => .ok (.int n)
  | .decimal (.infinite _) => .error .infiniteNumber
  | .decimal (.nan _ true _ _) => .error .undecidedNumber
  | .decimal d => (d.size?.bind Size.toInt?).elim (.error .integerExpected) fun n => .ok (.int n)
  | .text s => readInteger (trimmed s)
  | _ => .error .integerExpected

/-- A number, if it is finite. -/
def finite (x : Binary64) : Except Mismatch Value :=
  if x.isFinite then .ok (.float x) else .error .finiteNumberExpected

def readNumber (s : String) : Except Mismatch Value :=
  match Numeral.binary64? s.toList with
  | some x => finite x
  | none => .error (.notNumber s)

/-- A number: integers are kept, everything else becomes the nearest binary number. -/
def toNumber : Value → Except Mismatch Value
  | .bool _ => .error .numberNotBoolean
  | .int n => .ok (.int n)
  | .float x => finite x
  | .decimal (.finite negative c x) => finite (Binary64.ofDecimal negative c x)
  | .decimal (.nan _ true _ _) => .error .signallingNumber
  | .decimal _ => .error .finiteNumberExpected
  | .text s => readNumber (trimmed s)
  | _ => .error .numberExpected

/-- The truth value that a word stands for, in any case. -/
def truthWord? (s : String) : Option Bool :=
  let word := String.ofList (s.toList.map asciiLower)
  if word = "true" || word = "1" || word = "yes" then some true
  else if word = "false" || word = "0" || word = "no" then some false
  else none

def toBoolean : Value → Except Mismatch Value
  | .bool b => .ok (.bool b)
  | .int n => if n = 0 then .ok (.bool false) else if n = 1 then .ok (.bool true) else .error .booleanExpected
  | .text s => (truthWord? (trimmed s)).elim (.error .booleanExpected) fun b => .ok (.bool b)
  | _ => .error .booleanExpected

/-- A text in which a `Z` at the end is written as the offset it stands for. -/
def spellUtc (s : String) : String :=
  match s.toList.reverse with
  | c :: cs => if c = 'Z' || c = 'z' then String.ofList cs.reverse ++ "+00:00" else s
  | [] => s

def readMoment (s : String) : Except Mismatch Moment :=
  let s := spellUtc (trimmed s)
  match Calendar.moment s with
  | .ok t => .ok t
  | .error fault => .error (.calendar s fault)

/-- A day: what reads as a moment stands for the day it is on. -/
def toDate : Value → Except Mismatch Value
  | .moment t => .ok (.date t.date)
  | .date d => .ok (.date d)
  | .text s =>
    match Calendar.date (trimmed s) with
    | .ok d => .ok (.date d)
    | .error _ => (readMoment s).map fun t => .date t.date
  | _ => .error .dateExpected

/-- A moment: a day stands for its beginning. -/
def toMoment : Value → Except Mismatch Value
  | .moment t => .ok (.moment t)
  | .date d => .ok (.moment (.midnight d))
  | .text s => (readMoment s).map .moment
  | _ => .error .dateExpected

/-- A text: numbers are written out. -/
def toText : Value → Except Mismatch Value
  | .text s => .ok (.text s)
  | .int n => .ok (.text (toString n))
  | .float x => .ok (.text x.text)
  | .decimal d => .ok (.text d.text)
  | _ => .error .textExpected

/-- Anything but a list or an object. -/
def toScalar : Value → Except Mismatch Value
  | .list _ | .tuple _ | .mapping .. | .object _ => .error .scalarExpected
  | v => .ok v

/-- The value of the column's type that a scalar stands for. -/
def coerce : ColumnType → Value → Except Mismatch Value
  | .integer => toInteger
  | .decimal => toNumber
  | .boolean => toBoolean
  | .date => toDate
  | .datetime => toMoment
  | .text => toText
  | .other => toScalar

end Sift.ColumnType
