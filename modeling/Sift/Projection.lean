import Sift.Operator.Pattern
import Sift.Schema.IncludeTree
import Sift.Value.Elements

/-!
# Projection

Rows are shown with exposed identifiers in place of internal keys. The keys that have to be looked up are collected
from the rows and from the related objects in them, looked up with one call per entity, and then replaced; a key that
is not found stays as it is. The walk follows the included relations, not whatever the rows hold.
-/

namespace Sift

/-- One call of a lookup: the keys of an entity for which exposed identifiers are wanted. -/
structure Lookup where
  entity : Value
  key : Value
  exposed : Value
  keys : Value

/-- Finds the exposed identifiers of keys. -/
abbrev LookupStore := Lookup → Except Fault Row

namespace LookupStore

/-- The lookup in tables of identifiers by keys. -/
def ofTables (tables : Table Value Row) : LookupStore := fun l => do
  let known := (tables.get? l.entity).getD []
  return Table.ofList ((← l.keys.elements).filterMap fun k => (known.get? k).map fun v => (k, v))

def empty : LookupStore := ofTables []

end LookupStore

structure Projector where
  catalog : Catalog
  entity : String
  includes : IncludeTree
  /-- The mapping of each mapped entity. -/
  mappings : Table Value KeyMapping

namespace Projector

/-- The projector of an entity. A column that is exposed as `id` of the base entity goes before its mapping. -/
def ofMappings (catalog : Catalog) (entity : String) (includes : IncludeTree) (mappings : List KeyMapping)
    (idColumn : Value) : Except Fault Projector := do
  let table ← KeyMapping.table mappings
  let own := Value.text entity
  let table ←
    if idColumn.truthy then do pure (table.insert own ⟨own, ← catalog.primaryKey own, idColumn⟩) else pure table
  return { catalog, entity, includes, mappings := table }

/-- The foreign keys of an entity that refer to mapped entities. -/
def foreignKeys (p : Projector) (entity : Value) : Except Fault (List (Value × KeyMapping)) := do
  let keys ← p.catalog.foreignKeys entity
  let found ← keys.mapM fun (column, relation) => do
    return (p.mappings.get? (← relation.target.requireKey)).map fun m => (column, m)
  return found.filterMap id

/-! ## Collecting keys -/

/-- A key and the entity it belongs to. -/
abbrev Request := Value × Value

/-- The key of an entity, if it can be looked up. -/
def request (entity : Value) (v : Value) : Except Fault (List Request) :=
  match v with
  | .null => .ok []
  | v => do return [(entity, ← v.requireKey)]

/-- The key of an object itself, when its exposed identifier was not loaded. -/
def ownRequest (p : Projector) (entity : Value) (row : Row) : Except Fault (List Request) :=
  match p.mappings.get? entity with
  | some m => do
    if Table.contains (← m.exposed.requireKey) row then return []
    request entity (Row.field (← m.key.requireKey) row)
  | none => .ok []

/-- The keys that an object holds. -/
def objectRequests (p : Projector) (entity : Value) (row : Row) : Except Fault (List Request) := do
  let own ← p.ownRequest entity row
  let foreign ← (← p.foreignKeys entity).mapM fun (column, m) => request m.entity (Row.field column row)
  return own ++ foreign.flatten

/-- The related objects in a value: itself, or those in a list. -/
def nestedObjects : Value → List Row
  | .list items => items.filterMap Value.entries?
  | .object entries => [entries]
  | _ => []

mutual
/-- The keys that the objects of one included relation hold. -/
def branchRequests (p : Projector) (row : Row) : Branch → Except Fault (List Request)
  | ⟨label, target, _, _, nested⟩ => do
    let found ← (nestedObjects (row.get label)).mapM fun o => do
      let own ← p.objectRequests target o
      return own ++ (← nestedRequests p o nested)
    return found.flatten

def nestedRequests (p : Projector) (row : Row) : List Branch → Except Fault (List Request)
  | [] => .ok []
  | b :: bs => do
    let first ← branchRequests p row b
    return first ++ (← nestedRequests p row bs)
end

/-- Does a value that is no object hold the name as an element? A text holds its parts. -/
def holds (name v : Value) : Except Fault Bool :=
  match v with
  | .text s => do
    let .text part := name | throw .wrongKind
    return Pattern.anySuffix (part.toList.isPrefixOf ·) s.toList
  | v => do return (← v.elements).contains name

/-- The keys that a row and the objects in it hold. A row that is no object holds none, and is accepted only as long as
nothing is asked of it. -/
def rowRequests (p : Projector) : Value → Except Fault (List Request)
  | .object row => do
    let own ← p.objectRequests (.text p.entity) row
    return own ++ (← nestedRequests p row p.includes.branches)
  | v => do
    if let some m := p.mappings.get? (.text p.entity) then
      unless ← holds m.exposed v do throw .noMember
    let asked := !(← p.foreignKeys (.text p.entity)).isEmpty || !p.includes.isEmpty
    if asked then throw .noMember
    return []

/-- Adds a key to those of its entity, unless it is there. -/
def addRequest (wanted : Table Value (List Value)) (r : Request) : Table Value (List Value) :=
  let keys := (wanted.get? r.1).getD []
  wanted.insert r.1 (if keys.contains r.2 then keys else keys ++ [r.2])

/-- The calls that look up the keys of some rows: one per entity, in the order in which the entities are met. The keys
are in the order of their texts. -/
def lookups (p : Projector) (rows : List Value) : Except Fault (List Lookup) := do
  let requests ← rows.mapM p.rowRequests
  let wanted := requests.flatten.foldl addRequest []
  return wanted.filterMap fun (entity, keys) =>
    (p.mappings.get? entity).map fun m =>
      ⟨entity, m.key, m.exposed, .list (sortBy (fun v w => decide (v.literal ≤ w.literal)) keys)⟩

/-! ## Looking keys up -/

/-- Makes one call. A failure of the store becomes a lookup error, unless it is one already. -/
def look (store : LookupStore) (l : Lookup) : Except Fault Row :=
  match store l with
  | .error (.query (.lookupFailed entity reason)) => .error (.query (.lookupFailed entity reason))
  | .error fault => .error (.query (.lookupFailed l.entity.plain fault.message))
  | found => found

/-- Makes the calls one after another, up to the first that fails. -/
def lookAll (store : LookupStore) (ls : List Lookup) : Except Fault (Table Value Row) :=
  ls.mapM fun l => do return (l.entity, ← look store l)

/-- The calls that are made: all of them at once, or one after another up to the first that fails. -/
def attempted (store : LookupStore) (atOnce : Bool) (ls : List Lookup) : List Lookup :=
  if atOnce && 1 < ls.length then ls
  else
    let good := ls.takeWhile fun l => (look store l).toOption.isSome
    good ++ (ls.drop good.length).take 1

/-! ## Replacing keys -/

/-- What a key is replaced with. -/
def identifier (found : Table Value Row) (entity : Value) (v : Value) : Except Fault Value := do
  return (((found.get? entity).getD []).get? (← v.requireKey)).getD v

/-- Puts the exposed identifier of an object under `id`. -/
def exposeOwn (p : Projector) (found : Table Value Row) (entity : Value) (row : Row) : Except Fault Row :=
  match p.mappings.get? entity with
  | some m => do
    let exposed ← m.exposed.requireKey
    if Table.contains exposed row then return Row.insert "id" (Row.field exposed row) (Table.erase exposed row)
    match Row.field (← m.key.requireKey) row with
    | .null => return row
    | key => return row.insert "id" (← identifier found entity key)
  | none => .ok row

/-- Replaces one foreign key of an object. -/
def exposeForeignKey (found : Table Value Row) (row : Row) (fk : Value × KeyMapping) : Except Fault Row :=
  match Row.field fk.1 row with
  | .null => .ok row
  | v => do return Table.insert fk.1 (← identifier found fk.2.entity v) row

/-- Replaces the keys that an object holds itself. -/
def exposeKeys (p : Projector) (found : Table Value Row) (entity : Value) (row : Row) : Except Fault Row := do
  let row ← p.exposeOwn found entity row
  (← p.foreignKeys entity).foldlM (exposeForeignKey found) row

mutual
/-- Replaces the keys in the objects of one included relation. -/
def exposeBranch (p : Projector) (found : Table Value Row) (row : Row) : Branch → Except Fault Row
  | ⟨label, target, _, _, nested⟩ => do
    let object (o : Row) : Except Fault Value := do
      return .object (← exposeNested p found (← p.exposeKeys found target o) nested)
    match row.get label with
    | .list items => return row.insert label (.list (← (nestedObjects (.list items)).mapM object))
    | .object entries => return row.insert label (← object entries)
    | _ => return row

def exposeNested (p : Projector) (found : Table Value Row) (row : Row) : List Branch → Except Fault Row
  | [] => .ok row
  | b :: bs => do exposeNested p found (← exposeBranch p found row b) bs
end

/-- Replaces the keys of a row and of the objects in it. -/
def expose (p : Projector) (found : Table Value Row) (v : Value) : Except Fault Row := do
  let row ← Row.ofValue v
  exposeNested p found (← p.exposeKeys found (.text p.entity) row) p.includes.branches

def project (p : Projector) (store : LookupStore) (rows : List Value) : Except Fault (List Row) := do
  let found ← lookAll store (← p.lookups rows)
  rows.mapM (p.expose found)

end Projector

end Sift
