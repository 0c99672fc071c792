import Sift.Store.Basic

/-!
# Loading stores

A store is loaded with rows, one after another. Every row has to have a key of its own; a row without one gets the next
whole number, where its model is identified by one column.
-/

namespace Sift

namespace Record

/-- The record that stores a row of a model. Columns that the row does not give hold nothing. -/
def ofRow (m : Model) (row : Row) : Except Fault Record :=
  m.columns.mapM fun (column, s) => do
    let content ← match Table.get? (.text column) row with
      | some v => Content.ofValue s v
      | none => pure {}
    return (column, content)

end Record

namespace Model

def wholeKey? (m : Model) (r : Record) : Option Int :=
  match r.cell m.primaryKey with
  | .integer n => some n
  | _ => none

/-- The next whole number after the keys of some records. -/
def nextKey (m : Model) (records : List Record) : Int :=
  ((records.filterMap m.wholeKey?).max?).elim 1 (· + 1)

/-- Gives a record the next key, if it has none. -/
def keyed (m : Model) (records : List Record) (r : Record) : Record :=
  if m.key.length = 1 && (r.cell m.primaryKey).isNull then
    r.insert m.primaryKey (.ofCell (.integer (m.nextKey records)))
  else r

/-- Can a record be told apart by its key? A single column has to hold an integer. -/
def hasKey (m : Model) (r : Record) : Bool :=
  if m.key.length = 1 then (m.wholeKey? r).isSome else m.key.all fun column => !(r.cell column).isNull

/-- Adds the record of a row to those of its model. -/
def load (m : Model) (records : List Record) (row : Row) : Except Fault (List Record) := do
  let r := m.keyed records (← Record.ofRow m row)
  require (m.hasKey r && records.all fun other => m.keyOf other ≠ m.keyOf r) .brokenKey
  return records ++ [r]

def fits (m : Model) (row : Row) : Bool :=
  row.keys.all fun name => (name.text?.map m.columns.contains).getD false

/-- Records as they are kept: by a single column that identifies them, or else as they came. -/
def arranged (m : Model) (records : List Record) : List Record :=
  if m.key.length = 1 then m.byKey records else records

/-- The records that store the rows of a model. -/
def records (m : Model) (rows : List Row) : Except Fault (List Record) := do
  return m.arranged (← rows.foldlM m.load [])

end Model

namespace Store

/-- The cell of a key in an association. -/
def associated (v : Value) : Except Fault Cell := do
  let c := Storage.integer.kept (← Storage.takeIn (← Storage.integer.handOver v))
  require (!c.isNull) .brokenKey
  return c

/-- Adds a pair to an association, which holds every pair once. -/
def loadPair (pairs : List (Cell × Cell)) (pair : Value × Value) : Except Fault (List (Cell × Cell)) := do
  let (a, b) := (← associated pair.1, ← associated pair.2)
  require (pairs.all fun (c, d) => !(c.same a && d.same b)) .brokenKey
  return pairs ++ [(a, b)]

def ofRows (models : List Model) (rows : Table String (List Row))
    (associations : Table String (List (Value × Value))) (matcher : Matcher) : Except Fault Store := do
  let given (m : Model) : List Row := (rows.get? m.name).getD []
  require (models.all fun m => (given m).all m.fits) .wrongKind
  let tables ← models.mapM fun m => do return (m.name, ← m.records (given m))
  let associations ← associations.mapM fun (name, pairs) => do return (name, ← pairs.foldlM loadPair [])
  return { models, tables, associations, matcher }

end Store

end Sift
