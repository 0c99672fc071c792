import Sift.Number.Shortest
import Sift.Text.Quoted
import Sift.Value.Basic

/-!
# The text of a value

How messages and logs show values: texts in quotes, lists in brackets, objects in braces, dates and moments by their
fields. A value outside of a message is shown plainly, so a text is its own characters.
-/

namespace Sift

/-- Names and numbers between parentheses. -/
def call (name : String) (arguments : List String) : String :=
  name ++ "(" ++ String.intercalate ", " arguments ++ ")"

namespace Date

/-- A date by its fields. -/
def literal (d : Date) : String :=
  call "datetime.date" [toString d.year, toString d.month, toString d.day]

end Date

namespace UtcOffset

/-- A span of time as days, seconds and microseconds, of which only the days may be negative. -/
def spanLiteral (micros : Int) : String :=
  let days := micros / microsPerDay
  let rest := micros % microsPerDay
  let field (name : String) (n : Int) : List String := if n = 0 then [] else [name ++ "=" ++ toString n]
  let fields := field "days" days ++ field "seconds" (rest / 1000000) ++ field "microseconds" (rest % 1000000)
  call "datetime.timedelta" (if fields.isEmpty then ["0"] else fields)

/-- An offset as a time zone. -/
def literal (o : UtcOffset) : String :=
  if o.micros = 0 then "datetime.timezone.utc" else call "datetime.timezone" [spanLiteral o.micros]

end UtcOffset

namespace Moment

/-- A moment by its fields; seconds and microseconds are left out where zero, from the end. -/
def literal (t : Moment) : String :=
  let c := t.clock
  let small :=
    if c.micro ≠ 0 then [toString c.second, toString c.micro]
    else if c.second ≠ 0 then [toString c.second]
    else []
  call "datetime.datetime" <|
    [toString t.date.year, toString t.date.month, toString t.date.day, toString c.hour, toString c.minute] ++ small
      ++ (match t.offset with
        | some o => ["tzinfo=" ++ o.literal]
        | none => [])

end Moment

namespace Value

def boolLiteral (b : Bool) : String := if b then "True" else "False"

/-- A tuple of the given texts; a comma tells a tuple of one from a parenthesis. -/
def tupleLiteral (items : List String) : String :=
  match items with
  | [x] => "(" ++ x ++ ",)"
  | xs => "(" ++ String.intercalate ", " xs ++ ")"

def listLiteral (items : List String) : String :=
  "[" ++ String.intercalate ", " items ++ "]"

mutual
/-- A value as messages show it. -/
def literal : Value → String
  | .null => "None"
  | .bool b => boolLiteral b
  | .int n => toString n
  | .float x => x.text
  | .decimal d => "Decimal('" ++ d.text ++ "')"
  | .date d => d.literal
  | .moment t => t.literal
  | .text s => Text.quoted s
  | .list xs => listLiteral (literals xs)
  | .tuple xs => tupleLiteral (literals xs)
  | .mapping a b c =>
    call "ForeignKeyMapping"
      ["entity=" ++ literal a, "internal_pk_field=" ++ literal b, "external_id_field=" ++ literal c]
  | .object es => "\x7b" ++ String.intercalate ", " (entryLiterals es) ++ "\x7d"
  | .alien kind => "<" ++ kind ++ ">"

def literals : List Value → List String
  | [] => []
  | x :: xs => literal x :: literals xs

def entryLiterals : List (Value × Value) → List String
  | [] => []
  | (k, v) :: es => (literal k ++ ": " ++ literal v) :: entryLiterals es
end

/-- A value on its own. -/
def plain : Value → String
  | .text s => s
  | .decimal d => d.text
  | .date d => d.iso
  | .moment t => t.date.iso ++ " " ++ t.clock.iso ++ t.offset.elim "" UtcOffset.iso
  | v => v.literal

end Value

end Sift
