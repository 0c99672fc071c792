import Sift.Flattening
import Sift.Policy
import Sift.Schema.IncludeTree

/-!
# Fields

How the names in a request find their columns. A plain name is a column of the base entity, a flat name or, for `id`,
the exposed column; a dotted name leads through included relations. The key of a mapped entity, and the foreign keys
that refer to it, stand for the column it is exposed by, because that is what a response shows in their place.
-/

namespace Sift

structure Scope where
  catalog : Catalog
  entity : String
  includes : IncludeTree
  /-- The mapping of each mapped entity. -/
  mappings : Table Value KeyMapping := []
  /-- The column that is exposed as `id` of the base entity; what counts as false stands for the mapped one. -/
  idColumn : Value := .null
  flattening : Flattening := {}

namespace Scope

/-- How an entity is exposed. -/
def mapping? (s : Scope) (entity : Value) : Except Fault (Option KeyMapping) := do
  return s.mappings.get? (← entity.requireKey)

theorem mapping?_text (s : Scope) (entity : String) :
    s.mapping? (.text entity) = .ok (s.mappings.get? (.text entity)) := rfl

/-- The column that is exposed as `id` of the base entity, if there is one. -/
def exposedId (s : Scope) : Value :=
  s.idColumn.either (((s.mappings.get? (.text s.entity)).map KeyMapping.exposed).getD .null)

def unknown {α : Type} (entity : Value) (name place : String) : Except Fault α :=
  .error (.query (.unknownField entity.plain name place))

/-- A column by its name. The name of a column that a request can mean is a text. -/
def columnRef (s : Scope) (entity column : Value) : Except Fault FieldRef := do
  let type ← s.catalog.columnType entity column
  let .text column := column | throw .wrongKind
  return { entity, column, type }

def ownField (s : Scope) (column place written : String) : Except Fault FieldRef := do
  let own := Value.text s.entity
  let column := if column = "id" then s.exposedId.either (.text column) else .text column
  unless ← s.catalog.hasColumn own column do unknown own written place
  match (← s.catalog.foreignKeys own).get? column with
  | some relation =>
    match ← s.mapping? relation.target with
    | some mapping =>
      let ref ← s.columnRef relation.target mapping.exposed
      return { ref with chain := [relation.label], foreignKey := column }
    | none => s.columnRef own column
  | none => s.columnRef own column

/-- The entity that a chain of labels leads to, and whether one of them leads to many rows. -/
def walk (place written : String) (entity many : Value) (branches : List Branch) :
    List String → Except Fault (Value × Value)
  | [] => .ok (entity, many)
  | label :: chain =>
    match Branch.find? label branches with
    | some b => walk place written b.target (many.either b.many) b.nested chain
    | none => unknown entity written place

/-- The foreign key of the base entity that shows the key of a relation. -/
def shownBy (s : Scope) (label : String) : Except Fault Value := do
  match ← s.catalog.relation? (.text s.entity) label with
  | some relation => return if relation.many.truthy then .null else relation.foreignKey
  | none => return .null

def relatedField (s : Scope) (chain : List String) (column place written : String) : Except Fault FieldRef := do
  let (entity, many) ← walk place written (.text s.entity) (.bool false) s.includes.branches chain
  unless ← s.catalog.hasColumn entity (.text column) do unknown entity written place
  match ← s.mapping? entity with
  | some mapping =>
    if Value.text column == mapping.key then
      let foreignKey ← match chain with
        | [label] => s.shownBy label
        | _ => pure .null
      return { ← s.columnRef entity mapping.exposed with chain, many, foreignKey }
  | none => pure ()
  return { ← s.columnRef entity (.text column) with chain, many }

/-- The dotted path that a name stands for. A name that is neither flat nor a text is a mistake of the configuration. -/
def path (s : Scope) (name : Value) : Except Fault String := do
  match s.flattening.path? (← name.requireKey), name with
  | some path, _ => return path
  | none, .text path => return path
  | none, _ => throw .noMember

/-- Finds the field that a name refers to. Messages give the name as the request wrote it, unless that is empty. -/
def resolve (s : Scope) (name : Value) (place written : String) : Except Fault FieldRef := do
  let written := if written.isEmpty then name.plain else written
  let segments := Text.pieces '.' (← s.path name)
  let chain := segments.dropLast
  let column := segments.getLastD ""
  if column.isEmpty || chain.any (·.isEmpty) then unknown (.text s.entity) written place
  else if chain.isEmpty then s.ownField column place written
  else s.relatedField chain column place written

end Scope

/-- A section of a request: where its names refer to, and which of them it may use. -/
structure Section where
  scope : Scope
  policy : Policy
  place : String

namespace Section

/-- The field behind a public name. -/
def resolve (s : Section) (name : Value) : Except Fault FieldRef :=
  s.scope.resolve (s.policy.toInternal name) s.place (if name.truthy then name.plain else "")

/-- The field behind a public name, if it may be used; the policy need not be asked. -/
def field (s : Section) (checked : Bool) (name : Value) : Except Fault FieldRef := do
  let ref ← s.resolve name
  if checked then s.policy.check s.place name (some ref)
  return ref

end Section

end Sift
