import Sift.Predicate.Criteria
import Sift.Request.Scope
import Sift.Text.Blank
import Sift.Text.Casing

/-!
# Orderings

An ordering is a text of fields with commas between them, each with a sign in front or without one, or an array of such
texts and of objects that name a field and a direction. A field without a direction gets the default one. When no field
is named, the default field orders the rows, so that pages are always stable.
-/

namespace Sift

inductive Direction where
  | ascending
  | descending
  deriving DecidableEq, Repr

namespace Direction

def word : Direction → String
  | .ascending => "ASC"
  | .descending => "DESC"

/-- The direction that a word names, in any case. -/
def ofWord? (s : String) : Option Direction :=
  let capitals := String.ofList ((Text.trim s.toList).map Text.capital)
  if capitals = "ASC" then some .ascending else if capitals = "DESC" then some .descending else none

/-- The direction that a number names by its sign: one or minus one. -/
def ofSize? (size : Size) : Option Direction :=
  if size = .ofInt 1 then some .ascending else if size = .ofInt (-1) then some .descending else none

/-- The direction that a value names; null and the empty text leave the default. -/
def parse (v : Value) (default : Direction) : Except Fault Direction :=
  let refuse : Except Fault Direction := .error (.malformed (.direction v))
  match v with
  | .null => .ok default
  | .text s => if s.isEmpty then .ok default else (ofWord? s).elim refuse .ok
  | .bool _ => refuse
  | .decimal (.nan _ true _ _) => .error .undecided
  | v => (v.size?.bind ofSize?).elim refuse .ok

end Direction

/-- One field that rows are ordered by. -/
structure OrderTerm where
  /-- The field as the request wrote it. -/
  field : String
  ref : FieldRef
  direction : Direction

namespace OrderTerm

def toRow (t : OrderTerm) : Row :=
  Row.ofList [("order_by", .text t.field), ("direction", .text t.direction.word)]

end OrderTerm

structure SortOrder where
  terms : List OrderTerm
  joins : Joins := []

namespace SortOrder

def toValues (o : SortOrder) : List Value := o.terms.map fun t => .object t.toRow

/-- The field of a signed name, with the direction its sign stands for; an empty item names nothing. -/
def signedField (item : List Char) : Option (String × Value) :=
  match Text.trim item with
  | '-' :: name => some (String.ofList (Text.trim name), .text "DESC")
  | '+' :: name => some (String.ofList (Text.trim name), .text "ASC")
  | [] => none
  | name => some (String.ofList name, .null)

/-- The fields of a text with commas between them. -/
def signedFields (s : String) : List (String × Value) :=
  (Text.splitAt ',' s.toList).filterMap signedField

/-- The field and the direction of an ordering object. Of the keys that may name the field the first one with a value
counts, of those that may name the direction the first one that is there. -/
def objectField (entries : Row) : Except Fault (String × Value) :=
  let field := (["order_by", "orderby", "column", "field"].map fun k => Row.get k entries).find? Value.truthy
  let direction := (["direction", "dir"].find? fun k => Row.contains k entries).elim .null fun k => Row.get k entries
  match field with
  | some (.text name) => .ok (name, direction)
  | _ => .error (.malformed .unnamedColumn)

/-- The fields of one item of an array. -/
def itemFields : Value → Except Fault (List (String × Value))
  | .text s => .ok (signedFields s)
  | .object entries => do return [← objectField entries]
  | v => .error (.malformed (.orderItem v.kindName))

/-- The fields that an ordering names, each with the value of its direction. -/
def fields (v : Value) : Except Fault (List (String × Value)) :=
  if v.truthy then
    match v with
    | .text s => .ok (signedFields s)
    | .object entries => do return [← objectField entries]
    | .list items | .tuple items => List.flatten <$> items.mapM itemFields
    | .mapping x y z => List.flatten <$> [x, y, z].mapM itemFields
    | v => .error (.malformed (.orderForm v.kindName))
  else .ok []

end SortOrder

structure OrderRules extends Section where
  /-- The field that rows are ordered by when none is named. -/
  defaultField : Value
  defaultDirection : Direction

namespace OrderRules

/-- The rules of the section that orderings are in. Options of the entity go before the given defaults. -/
def ofScope (scope : Scope) (policy : Policy) (field direction : Value) : Except Fault OrderRules := do
  let preferred (name : String) (v : Value) : Except Fault Value := do
    return (← scope.catalog.option (.text scope.entity) name).either v
  let defaultField ← preferred "order_by" field
  let defaultDirection ← Direction.parse (← preferred "order_dir" direction) .ascending
  return { scope, policy, place := "ordering", defaultField, defaultDirection }

/-- Compiles one field. Rows cannot be ordered by a field that they have many of. -/
def term (r : OrderRules) (default : Direction) (field : String) (direction : Value) : Except Fault OrderTerm := do
  let ref ← r.field true (.text field)
  if ref.many.truthy then throw (.malformed (.orderedByMany field))
  return ⟨field, ref, ← Direction.parse direction default⟩

/-- The term of the default field, which the policy is not asked about. -/
def defaultTerm (r : OrderRules) : Except Fault OrderTerm := do
  let .text field := r.defaultField | throw (if r.defaultField.isKey then .noMember else .wrongKind)
  return ⟨field, ← r.field false (.text field), r.defaultDirection⟩

/-- The joins of the terms that a request names. -/
def joins (terms : List OrderTerm) : Joins :=
  terms.foldl (fun js t => if t.ref.isRelated then js.insert t.ref.chain else js) []

/-- Compiles an ordering. The direction is the one of the fields without a direction of their own. -/
def compile (r : OrderRules) (v direction : Value) : Except Fault SortOrder := do
  let default ← Direction.parse direction r.defaultDirection
  let terms ← (← SortOrder.fields v).mapM fun (field, direction) => r.term default field direction
  if terms.isEmpty then return ⟨[← r.defaultTerm], []⟩
  return ⟨terms, joins terms⟩

end OrderRules

end Sift
