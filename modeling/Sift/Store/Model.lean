import Sift.Schema.Catalog
import Sift.Sorting
import Sift.Store.Storage

/-!
# Models

What a store holds: a model has columns, a primary key and relations, and every relation knows how the rows it leads
to are found.
-/

namespace Sift

/-- How the rows that a relation leads to are found. -/
inductive Link where
  /-- By columns of this model that equal columns of the other. -/
  | columns (pairs : List (String × String))
  /-- By pairs of keys; the key of this model comes second when they are read backward. -/
  | association (table : String) (backward : Bool)
  deriving DecidableEq, Repr

structure Model where
  name : String
  columns : Table String Storage
  /-- The columns that identify a row. -/
  key : List String
  relations : List (Relation × Link) := []
  options : Row := []
  /-- Names under which the text of a column can be read in capitals. They are no columns. -/
  capitals : Table String String := []

/-- What a store holds for a row, by its columns. -/
abbrev Record := Table String Content

namespace Record

def content (r : Record) (column : String) : Content := (Table.get? column r).getD {}

/-- What is compared under a column. -/
def cell (r : Record) (column : String) : Cell := (r.content column).cell

/-- The columns as they are shown. -/
def toRow (r : Record) : Row := r.map fun (column, c) => (.text column, c.shown)

end Record

namespace Model

/-- The relation with a label, and how its rows are found. -/
def link? (m : Model) (label : String) : Option (Relation × Link) :=
  m.relations.find? (·.1.label = label)

/-- The column that identifies a row to other models. -/
def primaryKey (m : Model) : String := m.key.headD "id"

/-- What identifies a row among those of its model. -/
def keyOf (m : Model) (r : Record) : List Rank := m.key.map fun column => (r.cell column).rank

/-- Does the first record come no later than the second, by some columns? -/
def ordered (a b : Record) : List String → Bool
  | [] => true
  | column :: columns =>
    if (a.cell column).same (b.cell column) then ordered a b columns else (a.cell column).before (b.cell column)

def byKey (m : Model) (records : List Record) : List Record :=
  sortBy (fun a b => ordered a b m.key) records

/-- Can all columns of a row be shown? -/
def isLegible (m : Model) (r : Record) : Bool :=
  m.columns.all fun (column, s) => (r.content column).isLegible s

/-- A text with the small letters of ASCII as capitals. -/
def inCapitals (c : Cell) : Cell :=
  match c with
  | .text s => .text (String.ofList (s.toList.map Text.asciiUpper))
  | c => c

/-- What can be read from the rows under a name, and how it is kept: a column, or a column in capitals. -/
def attribute? (m : Model) (name : String) : Option (Storage × (Record → Content)) :=
  match m.columns.get? name with
  | some s => some (s, fun r => r.content name)
  | none => (m.capitals.get? name).map fun column => (.computed, fun r => .ofCell (inCapitals (r.cell column)))

end Model

def Model.find? (models : List Model) (name : String) : Option Model :=
  models.find? (·.name = name)

namespace Catalog

/-- An answer about a model, if it is there. -/
def ofModel {α : Type} (models : List Model) (name : Value) (answer : Model → α) : Except Fault α := do
  match (← name.requireKey).text?.bind (Model.find? models) with
  | some m => return answer m
  | none => throw .missingKey

/-- The catalog of some models. A relation to a model that is not among them cannot be seen. -/
def ofModels (models : List Model) : Catalog where
  columns entity := ofModel models entity fun m => m.columns.map fun (column, s) => (.text column, s.columnType)
  relations entity := ofModel models entity fun m =>
    (m.relations.filter fun (r, _) => (r.target.text?.bind (Model.find? models)).isSome).map fun (r, _) => (r.label, r)
  primaryKey entity := ofModel models entity fun m => .text m.primaryKey
  options entity := ofModel models entity fun m => .object m.options
  model entity := ofModel models entity Model.name

end Catalog

end Sift
