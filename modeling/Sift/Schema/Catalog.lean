import Sift.Schema.Column
import Sift.Value.Elements

/-!
# Catalogs

What a request can see of a schema: the entities with their columns, the relations between them, and a few options.
A catalog answers questions about one entity at a time, and may have no answer. Entities and columns are known by keys
of any kind, though a request can only name those that are texts.
-/

namespace Sift

/-- A relation from one entity to another, known by its label. What it says is kept as it was declared. -/
structure Relation where
  label : String
  target : Value
  /-- Does one row relate to many? -/
  many : Value := .bool false
  /-- The entity that associates the two, where there is one. -/
  through : Value := .null
  /-- The column of this entity that holds the key of the related row, where there is one. -/
  foreignKey : Value := .null

/-- How an entity shows its rows to the outside: in place of the internal key stands the exposed column. -/
structure KeyMapping where
  entity : Value
  key : Value
  exposed : Value

namespace KeyMapping

/-- The mapping of each entity, of which the last one counts. -/
def table (mappings : List KeyMapping) : Except Fault (Table Value KeyMapping) := do
  return Table.ofList (← mappings.mapM fun m => do return (← m.entity.requireKey, m))

end KeyMapping

structure Catalog where
  /-- The columns of an entity with their types, in order. -/
  columns : Value → Except Fault (Table Value ColumnType)
  /-- The relations of an entity by their labels. -/
  relations : Value → Except Fault (Table String Relation)
  /-- The column that identifies the rows of an entity. -/
  primaryKey : Value → Except Fault Value
  /-- Options of an entity: `page_size`, `order_by`, `order_dir`. -/
  options : Value → Except Fault Value
  /-- The model that stores an entity. -/
  model : Value → Except Fault String

namespace Catalog

def relation? (c : Catalog) (entity : Value) (label : String) : Except Fault (Option Relation) := do
  let relations ← c.relations entity
  return relations.get? label

/-- The foreign key columns of an entity with the relations they belong to. Of two relations with one column the last
one counts. -/
def foreignKeys (c : Catalog) (entity : Value) : Except Fault (Table Value Relation) := do
  let owned := (← c.relations entity).values.filter fun r => r.foreignKey.truthy && !r.many.truthy
  return Table.ofList (← owned.mapM fun r => do return (← r.foreignKey.requireKey, r))

def hasColumn (c : Catalog) (entity column : Value) : Except Fault Bool := do
  let columns ← c.columns entity
  return columns.contains (← column.requireKey)

def columnType (c : Catalog) (entity column : Value) : Except Fault ColumnType := do
  let columns ← c.columns entity
  match columns.get? (← column.requireKey) with
  | some type => return type
  | none => throw .missingKey

/-- One option of an entity; null where it is not given. -/
def option (c : Catalog) (entity : Value) (name : String) : Except Fault Value := do
  match ← c.options entity with
  | .object entries => return Row.get name entries
  | _ => throw .noMember

/-- The catalog that knows nothing. -/
def undeclared : Catalog where
  columns _ := .error .unsupported
  relations _ := .error .unsupported
  primaryKey _ := .ok (.text "id")
  options _ := .ok (.object [])
  model _ := .error .noMember

end Catalog

end Sift
