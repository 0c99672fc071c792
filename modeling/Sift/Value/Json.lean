import Sift.Number.Shortest
import Sift.Number.Numeral
import Sift.Text.Quoted
import Sift.Value.Basic

/-!
# The document of a value

A value as a JSON document: texts in ASCII with everything else escaped, a blank after every comma and colon, and the
words `NaN` and `Infinity` for numbers that have no numeral. Keys that are no texts are written as texts. Values that a
document cannot hold have none.
-/

namespace Sift

/-- A character inside the quotes of a document. -/
def documentChar (c : Char) : List Char :=
  let unit (n : Nat) : List Char := '\\' :: 'u' :: Text.hexDigits 4 n
  if c = '"' || c = '\\' then ['\\', c]
  else if c = '\n' then ['\\', 'n']
  else if c = '\r' then ['\\', 'r']
  else if c = '\t' then ['\\', 't']
  else if c.toNat = 8 then ['\\', 'b']
  else if c.toNat = 12 then ['\\', 'f']
  else if 32 ≤ c.toNat && c.toNat < 127 then [c]
  else if c.toNat < 0x10000 then unit c.toNat
  else unit (0xD800 + (c.toNat - 0x10000) / 0x400) ++ unit (0xDC00 + (c.toNat - 0x10000) % 0x400)

/-- A text in the quotes of a document. -/
def documentQuoted (s : String) : String :=
  String.ofList ('"' :: s.toList.flatMap documentChar ++ ['"'])

/-- A number in a document. -/
def Binary64.document : Binary64 → String
  | .nan _ => "NaN"
  | .infinite negative => if negative then "-Infinity" else "Infinity"
  | x => x.text

/-- An integer in a document, if it is not too long to be written. -/
def documentInt? (n : Int) : Option String :=
  if n.natAbs < tenTo Numeral.maxDigits then some (toString n) else none

namespace Value

/-- A key of an object as a text, if it can be one. -/
def documentKey? : Value → Option String
  | .text s => some s
  | .float x => some x.document
  | .bool b => some (if b then "true" else "false")
  | .null => some "null"
  | .int n => documentInt? n
  | _ => none

mutual
/-- The document of a value, if it has one. -/
def document? : Value → Option String
  | .null => some "null"
  | .bool b => some (if b then "true" else "false")
  | .int n => documentInt? n
  | .float x => some x.document
  | .text s => some (documentQuoted s)
  | .list items | .tuple items => (documents? items).map fun ss => "[" ++ String.intercalate ", " ss ++ "]"
  | .mapping a b c => do
    return "[" ++ (← document? a) ++ ", " ++ (← document? b) ++ ", " ++ (← document? c) ++ "]"
  | .object entries => (documentEntries? entries).map fun ss => "\x7b" ++ String.intercalate ", " ss ++ "\x7d"
  | .decimal _ | .date _ | .moment _ | .alien _ => none

def documents? : List Value → Option (List String)
  | [] => some []
  | v :: vs => do return (← document? v) :: (← documents? vs)

def documentEntries? : List (Value × Value) → Option (List String)
  | [] => some []
  | (k, v) :: rest => do
    let entry := documentQuoted (← documentKey? k) ++ ": " ++ (← document? v)
    return entry :: (← documentEntries? rest)
end

mutual
/-- What a document says when it is read again: arrays are lists, and all keys are texts. -/
def asRead : Value → Value
  | .list items | .tuple items => .list (asReadAll items)
  | .mapping a b c => .list [asRead a, asRead b, asRead c]
  | .object entries => .object (Table.ofList (asReadEntries entries))
  | v => v

def asReadAll : List Value → List Value
  | [] => []
  | v :: vs => asRead v :: asReadAll vs

def asReadEntries : List (Value × Value) → List (Value × Value)
  | [] => []
  | (k, v) :: rest => (.text ((documentKey? k).getD ""), asRead v) :: asReadEntries rest
end

end Value

end Sift
