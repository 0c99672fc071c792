import Sift.Calendar.Moment
import Sift.Value.Literal

/-!
# Mismatches

Why a value does not fit a column, or why an operator cannot be used with it, and the wording of each reason.
-/

namespace Sift

/-- Why a value was refused. -/
inductive Mismatch where
  | integerExpected
  | integerNotBoolean
  | numberExpected
  | numberNotBoolean
  | finiteNumberExpected
  | booleanExpected
  | dateExpected
  | textExpected
  | scalarExpected
  | valueRequired
  | textColumnsOnly
  | booleanColumnsOnly
  /-- A text that is not the numeral of an integer. -/
  | notInteger (text : String)
  /-- A numeral with too many digits. -/
  | tooManyDigits (count : Nat)
  /-- A text that is not a numeral. -/
  | notNumber (text : String)
  /-- A decimal that refuses to become a binary number. -/
  | signallingNumber
  /-- A decimal that refuses to be compared. -/
  | undecidedNumber
  /-- An infinite decimal where an integer is asked for. -/
  | infiniteNumber
  /-- A text that names no date or moment. -/
  | calendar (text : String) (fault : CalendarFault)
  /-- A date or a moment that a pattern should be made of. -/
  | patternOfCalendar
  /-- A reason in the words of the application. -/
  | stated (reason : String)
  deriving DecidableEq

namespace Mismatch

/-- A quoted text of which a message shows no more than 200 characters. -/
def shortQuoted (s : String) : String :=
  String.ofList ((Text.quoted s).toList.take 200)

def calendarMessage (text : String) : CalendarFault → String
  | .unreadable => "Invalid isoformat string: " ++ Text.quoted text
  | .year y => "year " ++ toString y ++ " is out of range"
  | .month => "month must be in 1..12"
  | .day => "day is out of range for month"
  | .hour => "hour must be in 0..23"
  | .minute => "minute must be in 0..59"
  | .second => "second must be in 0..59"
  | .offset micros =>
    "offset must be a timedelta strictly between -timedelta(hours=24) and timedelta(hours=24), not "
      ++ UtcOffset.spanLiteral micros ++ "."

def message : Mismatch → String
  | .integerExpected => "an integer is expected"
  | .integerNotBoolean => "an integer is expected, got a boolean"
  | .numberExpected => "a number is expected"
  | .numberNotBoolean => "a number is expected, got a boolean"
  | .finiteNumberExpected => "a finite number is expected"
  | .booleanExpected => "a boolean is expected: one of true, false, 1, 0, yes, no"
  | .dateExpected => "an ISO-8601 date is expected"
  | .textExpected => "a string is expected"
  | .scalarExpected => "a scalar value is expected"
  | .valueRequired => "a value is required"
  | .textColumnsOnly => "operator can only be used with text columns"
  | .booleanColumnsOnly => "operator can only be used with boolean columns"
  | .notInteger s => "invalid literal for int() with base 10: " ++ shortQuoted s
  | .tooManyDigits n =>
    "Exceeds the limit (4300 digits) for integer string conversion: value has " ++ toString n
      ++ " digits; use sys.set_int_max_str_digits() to increase the limit"
  | .notNumber s => "could not convert string to float: " ++ Text.quoted s
  | .signallingNumber => "cannot convert signaling NaN to float"
  | .undecidedNumber => "[<class 'decimal.InvalidOperation'>]"
  | .infiniteNumber => "cannot convert Infinity to integer"
  | .calendar s fault => calendarMessage s fault
  | .patternOfCalendar => "'str' object cannot be interpreted as an integer"
  | .stated reason => reason

end Mismatch

end Sift
