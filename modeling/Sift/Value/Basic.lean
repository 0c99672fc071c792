import Sift.Calendar.Moment
import Sift.Number.Size
import Sift.Table

/-!
# Values

What requests, rows and settings are made of: the values of JSON, and the decimals, dates, tuples and key mappings that
an application may put among them. An object keeps the order of its keys, and its keys may be any values.
-/

namespace Sift

inductive Value where
  | null
  | bool (b : Bool)
  | int (n : Int)
  | float (x : Binary64)
  | decimal (d : Decimal)
  | date (d : Date)
  | moment (t : Moment)
  | text (s : String)
  | list (items : List Value)
  | tuple (items : List Value)
  | object (entries : List (Value × Value))
  /-- What the keys of an entity are replaced with, which is a tuple of three names too. -/
  | mapping (entity key exposed : Value)
  /-- A value of a kind that requests are not made of, and of which no more is known. -/
  | alien (kind : String)

namespace Value

instance : Inhabited Value := ⟨.null⟩

/-! ## Equality -/

/-- The size of a numeric value: truth values count as 0 and 1. Infinities have a size, "not a number" has none. -/
def size? : Value → Option Size
  | .bool b => some (.ofInt (if b then 1 else 0))
  | .int n => some (.ofInt n)
  | .float x => x.size?
  | .decimal d => d.size?
  | _ => none

mutual
/-- Equality of values: numbers of any kind by their size, moments by their instant, lists item by item, and
objects by their entries in any order. A list never equals a tuple, and what is not a number equals only itself. -/
def same : Value → Value → Bool
  | .null, .null => true
  | .date c, .date d => c == d
  | .moment s, .moment t => s.same t
  | .text s, .text t => s == t
  | .list xs, .list ys => sameList xs ys
  | .tuple xs, .tuple ys => sameList xs ys
  | .mapping a b c, .mapping x y z | .mapping a b c, .tuple [x, y, z] | .tuple [a, b, c], .mapping x y z =>
    same a x && same b y && same c z
  | .object es, .object fs => es.length == fs.length && sameEntries es fs
  | .float (.nan a), .float (.nan b) => a == b
  | .decimal (.nan _ _ _ a), .decimal (.nan _ _ _ b) => a == b
  | v, w =>
    match v.size?, w.size? with
    | some a, some b => a == b
    | _, _ => false

def sameList : List Value → List Value → Bool
  | [], [] => true
  | x :: xs, y :: ys => same x y && sameList xs ys
  | _, _ => false

/-- Every entry of the first object is an entry of the second. -/
def sameEntries : List (Value × Value) → List (Value × Value) → Bool
  | [], _ => true
  | (k, v) :: es, fs => fs.any (fun (k', v') => same k k' && same v v') && sameEntries es fs
end

instance : BEq Value := ⟨same⟩

/-- A text equals only itself. -/
theorem text_beq_iff {s : String} {v : Value} : (Value.text s == v) = true ↔ v = .text s := by
  show same (.text s) v = true ↔ v = .text s
  cases v with
  | text t =>
    simp only [same, beq_iff_eq, Value.text.injEq]
    exact eq_comm
  | _ => simp [same, size?]

def isNumeric : Value → Bool
  | .bool _ | .int _ | .float _ | .decimal _ => true
  | _ => false

/-- Is the value a decimal that refuses to be compared? -/
def isSignalling : Value → Bool
  | .decimal (.nan _ true _ _) => true
  | _ => false

mutual
/-- Does one of the values refuse the question whether they are equal? A signalling number refuses it beside every
other number. Items are asked about in order, up to the first that differ. -/
def refuses : Value → Value → Bool
  | .list xs, .list ys => xs.length == ys.length && refusesAny xs ys
  | .tuple xs, .tuple ys => refusesAny xs ys
  | .object es, .object fs => es.length == fs.length && refusesEntry es fs
  | v, w => (v.isSignalling || w.isSignalling) && v.isNumeric && w.isNumeric && !same v w

def refusesAny : List Value → List Value → Bool
  | x :: xs, y :: ys => refuses x y || (same x y && refusesAny xs ys)
  | _, _ => false

def refusesEntry : List (Value × Value) → List (Value × Value) → Bool
  | [], _ => false
  | (k, v) :: es, fs =>
    match fs.find? (same k ·.1) with
    | some (_, w) => refuses v w || (same v w && refusesEntry es fs)
    | none => false
end

/-! ## Kinds -/

/-- Does the value count as true? Null, zero and everything empty do not. -/
def truthy : Value → Bool
  | .null => false
  | .bool b => b
  | .int n => n != 0
  | .float (.finite _ m _) => m != 0
  | .decimal (.finite _ c _) => c != 0
  | .text s => !s.isEmpty
  | .list xs | .tuple xs => !xs.isEmpty
  | .object es => !es.isEmpty
  | .float _ | .decimal _ | .date _ | .moment _ | .mapping .. | .alien _ => true

mutual
/-- Can the value be a key of a table, or a member of a set? Lists and objects cannot, nor can a number that refuses to
be compared. -/
def isKey : Value → Bool
  | .list _ | .object _ => false
  | .decimal (.nan _ true _ _) => false
  | .tuple xs => areKeys xs
  | .mapping a b c => isKey a && isKey b && isKey c
  | _ => true

def areKeys : List Value → Bool
  | [] => true
  | x :: xs => isKey x && areKeys xs
end

/-- The name of a value's kind, as messages give it. -/
def kindName : Value → String
  | .null => "NoneType"
  | .bool _ => "bool"
  | .int _ => "int"
  | .float _ => "float"
  | .decimal _ => "Decimal"
  | .date _ => "date"
  | .moment _ => "datetime"
  | .text _ => "str"
  | .list _ => "list"
  | .tuple _ => "tuple"
  | .object _ => "dict"
  | .mapping .. => "ForeignKeyMapping"
  | .alien kind => kind

/-- The full name of a value's kind, with what it belongs to. -/
def fullKindName (v : Value) : String :=
  match v with
  | .decimal _ => "decimal." ++ v.kindName
  | .date _ | .moment _ => "datetime." ++ v.kindName
  | _ => v.kindName

def entries? : Value → Option (Table Value Value)
  | .object es => some es
  | _ => none

def text? : Value → Option String
  | .text s => some s
  | _ => none

end Value

/-- A row: a table of values by their names, which may hold other keys too. -/
abbrev Row := Table Value Value

namespace Row

/-- The value under a name; null when there is none. -/
def get (name : String) (row : Row) : Value :=
  (Table.get? (.text name) row).getD .null

def contains (name : String) (row : Row) : Bool :=
  Table.contains (.text name) row

def insert (name : String) (v : Value) (row : Row) : Row :=
  Table.insert (.text name) v row

def erase (name : String) (row : Row) : Row :=
  Table.erase (.text name) row

/-- The row with the given values, of which the last one under a name counts. -/
def ofList (pairs : List (String × Value)) : Row :=
  pairs.foldl (fun row (k, v) => row.insert k v) []

theorem get_insert (name name' : String) (v : Value) (row : Row) :
    (row.insert name v).get name' = if name' = name then v else row.get name' := by
  have text_beq (s s' : String) : (Value.text s == Value.text s') = decide (s = s') := by
    by_cases h : s = s'
    · subst h; simpa using Value.text_beq_iff.mpr rfl
    · have : ¬ (Value.text s == Value.text s') = true := fun e => h (by
        have := Value.text_beq_iff.mp e; injection this with this; exact this.symm)
      simp [h, Bool.eq_false_iff.mpr this]
  suffices h : Table.get? (.text name') (Table.insert (.text name) v row)
      = if name' = name then some v else Table.get? (.text name') row by
    simp only [get, insert, h]
    split <;> rfl
  induction row with
  | nil => simp [Table.insert, Table.get?, text_beq]
  | cons p row ih =>
    obtain ⟨k, w⟩ := p
    by_cases hk : (Value.text name == k) = true
    · have := Value.text_beq_iff.mp hk
      subst this
      by_cases h : name' = name <;> simp [Table.insert, Table.get?, text_beq, h]
    · by_cases h' : (Value.text name' == k) = true
      · have hne : name' ≠ name := by
          rintro rfl
          exact hk h'
        simp [Table.insert, Table.get?, hk, h', hne]
      · simp [Table.insert, Table.get?, hk, h', ih]

end Row

end Sift
