import Sift.Schema.Catalog

/-!
# Declared catalogs

A catalog that is written down: tables of columns, relations, keys and options by entity. Columns and relations are
read when the catalog is made, keys and options only when they are asked for.
-/

namespace Sift

def ColumnType.ofValue (v : Value) : Except Fault ColumnType :=
  match v.text?.bind ColumnType.ofName? with
  | some type => .ok type
  | none => .error (.badValue (.columnType v))

/-- A schema that is written down. -/
structure Declaration where
  columns : Table Value (Table Value ColumnType)
  relations : Table Value (Table String Relation)
  primaryKeys : Value
  options : Value

namespace Declaration

def entries : Value → Except Fault (List (Value × Value))
  | .object entries => .ok entries
  | _ => .error .noMember

/-- A relation from its fields. No other fields are known, and the target has to be given. -/
def relation (label : String) (v : Value) : Except Fault Relation := do
  let .object fields := v | throw .wrongKind
  let known := ["target_entity", "many", "through_entity", "foreign_key"]
  unless fields.all (fun (k, _) => (k.text?.map known.contains).getD false) && Row.contains "target_entity" fields do
    throw .wrongKind
  return {
    label := label
    target := Row.get "target_entity" fields
    many := (Table.get? (.text "many") fields).getD (.bool false)
    through := Row.get "through_entity" fields
    foreignKey := Row.get "foreign_key" fields
  }

def relationTable (v : Value) : Except Fault (Table String Relation) := do
  (← entries v).mapM fun (k, v) => do
    let .text label := k | throw .wrongKind
    return (label, ← relation label v)

def columnTypes (v : Value) : Except Fault (Table Value ColumnType) := do
  (← entries v).mapM fun (column, type) => do return (column, ← ColumnType.ofValue type)

/-- A declaration from the values of its four tables. What is null or empty has no entries. -/
def ofValues (columns relations primaryKeys options : Value) : Except Fault Declaration := do
  let columns ← (← entries columns).mapM fun (entity, v) => do return (entity, ← columnTypes v)
  let relations ← (← entries (relations.either (.object []))).mapM fun (entity, v) => do
    return (entity, ← relationTable v)
  return { columns, relations, primaryKeys, options }

/-- The entry of an entity in a table that may be left out. -/
def entry (table : Value) (entity default : Value) : Except Fault Value := do
  let found ← entries (table.either (.object []))
  return (Table.get? (← entity.requireKey) found).getD default

/-- The catalog of a declaration. An entity that is not declared has no columns to ask for, but it has no relations
and no options either, and its key is the usual one. -/
def catalog (d : Declaration) : Catalog where
  columns entity := do (d.columns.get? (← entity.requireKey)).elim (.error .missingKey) .ok
  relations entity := do return (d.relations.get? (← entity.requireKey)).getD []
  primaryKey entity := entry d.primaryKeys entity (.text "id")
  options entity := entry d.options entity (.object [])
  model _ := .error .noMember

end Declaration

end Sift
