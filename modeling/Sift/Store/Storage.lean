import Sift.Calendar.Moment
import Sift.Error.Fault
import Sift.Store.Cell
import Sift.Value.Json

/-!
# Storage

How a column keeps values. A value reaches the store in two steps: the storage of a column, or the one that a value has
of its own, turns it into something that can be handed over, and the store takes that in if it has such a kind. A
column then draws what it meets to its own side: a column of texts takes numbers for their texts, a column of numbers
takes numerals for the numbers they write.
-/

namespace Sift

/-- How a column keeps its values. -/
inductive Storage where
  | integer
  | real
  | boolean
  | date
  | moment
  | text
  /-- Texts that an application has wrapped: whatever is compared with them is handed over as it is. -/
  | wrapped
  /-- Texts of which only some words are allowed. -/
  | choice (words : List String)
  /-- Documents that hold any value. -/
  | document
  | bytes
  /-- The result of a computation, which takes what it is compared with as it is. -/
  | computed
  deriving DecidableEq, Repr

namespace Storage

/-- The type under which the values of a request are checked. -/
def columnType : Storage → ColumnType
  | .integer => .integer
  | .real => .decimal
  | .boolean => .boolean
  | .date => .date
  | .moment => .datetime
  | .text | .wrapped | .choice _ => .text
  | .document | .bytes | .computed => .other

/-! ## Handing values over -/

/-- The storage that a value has of its own. -/
def ofValue? : Value → Option Storage
  | .bool _ => some .boolean
  | .int _ => some .integer
  | .float _ | .decimal _ => some .real
  | .date _ => some .date
  | .moment _ => some .moment
  | .text _ => some .text
  | _ => none

/-- Do a column and a storage of another kind keep the same kind of values? Words are texts. -/
def agrees : Storage → Storage → Bool
  | .choice _, .text => true
  | column, own => column = own

/-- The storage as which a value is handed over that is compared with a column: the one of the column, where the value
is of its kind or has no storage of its own. -/
def comparing (column : Storage) (v : Value) : Storage :=
  match column, v with
  | .wrapped, _ => .wrapped
  | .bytes, .text _ => .bytes
  | column, v =>
    match ofValue? v with
    | some own => if column.agrees own then column else own
    | none => column

/-- The binary number that a value is taken for. -/
def binary? : Value → Option Binary64
  | .bool b => some (.ofInt (if b then 1 else 0))
  | .int n => (Binary64.ofInt? n).toOption
  | .float x => some x
  | .decimal (.finite negative c x) => some (.ofDecimal negative c x)
  | .decimal (.infinite negative) => some (.infinite negative)
  | .decimal (.nan _ false _ o) => some (.nan o)
  | .text s => Numeral.binary64? (Numeral.bare s.toList)
  | _ => none

/-- A moment as a text of fixed length, without its offset. -/
def momentText (t : Moment) : String :=
  let c := t.clock
  t.date.iso ++ " " ++ Text.padded 2 c.hour ++ ":" ++ Text.padded 2 c.minute ++ ":" ++ Text.padded 2 c.second ++ "."
    ++ Text.padded 6 c.micro

/-- What is handed over for a value. -/
def handOver (s : Storage) (v : Value) : Except Fault Value :=
  match s, v with
  | .integer, v | .text, v | .wrapped, v | .computed, v => .ok v
  | .document, v => (v.document?).elim (.error .unfitting) fun d => .ok (.text d)
  | _, .null => .ok .null
  | .real, v => (binary? v).elim (.error .unfitting) fun x => .ok (.float x)
  | .boolean, v =>
    if v == .int 0 then .ok (.int 0) else if v == .int 1 then .ok (.int 1) else .error .unfitting
  | .date, .date d => .ok (.text d.iso)
  | .date, .moment t => .ok (.text t.date.iso)
  | .moment, .moment t => .ok (.text (momentText t))
  | .moment, .date d => .ok (.text (momentText (.midnight d)))
  | .choice _, .text w => .ok (.text w)
  | _, _ => .error .unfitting

/-- What the store takes in of what is handed over. -/
def takeIn : Value → Except Fault Cell
  | .null => .ok .null
  | .bool b => .ok (.integer (if b then 1 else 0))
  | .int n => if fitsStore n then .ok (.integer n) else .error .overflow
  | .float x => .ok (.ofBinary x)
  | .text s => .ok (.text s)
  | .date d => .ok (.text d.iso)
  | .moment t => .ok (.text (t.date.iso ++ " " ++ t.clock.iso ++ t.offset.elim "" UtcOffset.iso))
  | _ => .error .unstorable

/-! ## Drawing cells to the side of a column -/

/-- What a column makes of cells of other kinds. -/
inductive Affinity where
  | text
  | number
  /-- Numbers that are always kept as binary ones. -/
  | real
  | none
  deriving DecidableEq, Repr

def affinity : Storage → Affinity
  | .text | .wrapped | .choice _ => .text
  | .integer | .boolean | .date | .moment | .document => .number
  | .real => .real
  | .bytes | .computed => .none

/-- A cell as a column compares it with its own. -/
def beside (s : Storage) (c : Cell) : Cell :=
  match s.affinity, c with
  | .text, .integer _ | .text, .real _ => .text c.shown
  | .number, .text t | .real, .text t => (Cell.numeral? t).getD c
  | _, c => c

/-- A cell as a column keeps it. Binary numbers that are integers become such where the column keeps integers. -/
def kept (s : Storage) (c : Cell) : Cell :=
  match s.affinity, s.beside c with
  | .number, .real x =>
    match x.toInt? with
    | some n => if fitsStore (n - 1) && fitsStore n then .integer n else .real x
    | none => .real x
  | .real, .integer n => .real (Binary64.ofInt n)
  | .real, .real x => if x = Binary64.zero true then .real (Binary64.zero false) else .real x
  | _, c => c

end Storage

/-! ## Contents -/

/-- What a row holds under a column: what is compared, and what is shown. -/
structure Content where
  cell : Cell := .null
  shown : Value := .null

namespace Content

/-- The value that a cell shows by itself. -/
def ofCell (c : Cell) : Content where
  cell := c
  shown :=
    match c with
    | .null => .null
    | .integer n => .int n
    | .real x => .float x
    | .text s => .text s

def ofValue (s : Storage) (v : Value) : Except Fault Content := do
  let cell := s.kept (← Storage.takeIn (← s.handOver v))
  let shown :=
    match s, cell, v with
    | .boolean, .integer n, _ => .bool (n ≠ 0)
    | .date, .text _, .moment t => .date t.date
    | .date, .text _, v => v
    | .moment, .text _, .moment t => .moment { t with offset := none }
    | .moment, .text _, .date d => .moment (.midnight d)
    | .document, .text _, v => v.asRead
    | _, cell, _ => (ofCell cell).shown
  return { cell, shown }

/-- Can the content be shown? A word that its column does not allow cannot. -/
def isLegible (s : Storage) (c : Content) : Bool :=
  match s, c.shown with
  | .choice words, .text w => words.contains w
  | _, _ => true

end Content

end Sift
