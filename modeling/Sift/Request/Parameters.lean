import Sift.Text.Percent
import Sift.Value.Elements

/-!
# Parameters

A request may come as parameters instead of a body: `field=value` and `field:operator=value` are conditions that all
have to hold, and a few control parameters give the ordering and the page. The last colon of a key separates the
operator. With a marker in front of the control parameters, all other parameters with that marker are ignored.
-/

namespace Sift

inductive Parameters where
  /-- A query string. -/
  | query (s : String)
  /-- A table of values by keys; an array gives one parameter per item. -/
  | fields (entries : List (Value × Value))
  /-- Anything else, which should be an array of pairs. -/
  | pairs (v : Value)

/-- Parameters in the form of a request body. -/
structure ParameterRequest where
  filtering : Value
  ordering : Value
  direction : Value
  paging : Row
  /-- The values of the conditions by their keys. -/
  echo : Row

namespace Parameters

/-- Parameters that are one value. -/
def ofValue : Value → Parameters
  | .text s => .query s
  | .object entries => .fields entries
  | v => .pairs v

def pair (v : Value) : Except Fault (Value × Value) := do
  match ← v.elements with
  | [k, v] => return (k, v)
  | items => throw (.badValue (if items.length < 2 then .tooFewItems 2 items.length else .tooManyItems 2))

/-- The parameters one by one, each possibly no pair at all. -/
def entries : Parameters → Except Fault (List (Except Fault (Value × Value)))
  | .query s =>
    let s := String.ofList (s.toList.dropWhile (· = '?'))
    .ok ((Text.formPairs s).map fun (k, v) => .ok (.text k, .text v))
  | .fields entries =>
    .ok (entries.flatMap fun (k, v) =>
      match v with
      | .list items | .tuple items => items.map fun item => .ok (k, item)
      | .mapping x y z => [.ok (k, x), .ok (k, y), .ok (k, z)]
      | v => [.ok (k, v)])
  | .pairs v => do return (← v.elements).map pair

structure Condition where
  key : String
  field : String
  operator : Option String
  value : Value

/-- What a parameter is for. -/
inductive Role where
  | control (name : String) (v : Value)
  | condition (c : Condition)
  | ignored

/-- The names of the control parameters. -/
def controls : List String := ["page", "page_size", "order_by", "order_dir"]

/-- The condition that a key and a value state. -/
def Condition.ofKey (key : String) (value : Value) : Condition :=
  match Text.cutLast ':' key.toList with
  | some (field, operator) =>
    ⟨key, String.ofList field, if operator.isEmpty then none else some (String.ofList operator), value⟩
  | none => ⟨key, key, none, value⟩

def role (marker : String) (key value : Value) : Except Fault Role :=
  match key with
  | .text key =>
    match controls.find? fun name => marker ++ name = key with
    | some name => .ok (.control name value)
    | none =>
      if !marker.isEmpty && marker.toList.isPrefixOf key.toList then .ok .ignored
      else .ok (.condition (.ofKey key value))
  | key => .error (if key.isKey then .noMember else .wrongKind)

def roles (p : Parameters) (marker : String) : Except Fault (List Role) := do
  (← p.entries).mapM fun entry => do
    let (key, value) ← entry
    role marker key value

def conditions (roles : List Role) : List Condition :=
  roles.filterMap fun
    | .condition c => some c
    | _ => none

/-- The last value of a control parameter; null when there is none. -/
def control (roles : List Role) (name : String) : Value :=
  (roles.reverse.findSome? fun
    | .control name' v => if name' = name then some v else none
    | _ => none).getD .null

def Condition.filter (c : Condition) : Row :=
  match c.operator with
  | none => [(.text c.field, c.value)]
  | some operator => [(.text c.field, .object [(.text operator, c.value)])]

/-- The filter of some conditions: one object where every field occurs once, else an array of filters. -/
def filtering (cs : List Condition) : Value :=
  if cs.isEmpty then .null
  else if (cs.map Condition.field).eraseDups.length = cs.length then .object (cs.flatMap Condition.filter)
  else .object [(.text "and", .list (cs.map fun c => .object c.filter))]

/-- Adds a condition to the values by their keys; a second value makes a list of them. -/
def echoed (row : Row) (c : Condition) : Row :=
  if row.contains c.key then
    match row.get c.key with
    | .list vs => row.insert c.key (.list (vs ++ [c.value]))
    | v => row.insert c.key (.list [v, c.value])
  else row.insert c.key c.value

/-- A value, or null where it is empty. -/
def orNull (v : Value) : Value := if v.truthy then v else .null

def request (p : Parameters) (marker : String) : Except Fault ParameterRequest := do
  let roles ← p.roles marker
  let cs := conditions roles
  return {
    filtering := filtering cs
    ordering := orNull (control roles "order_by")
    direction := orNull (control roles "order_dir")
    paging := Row.ofList [("page", control roles "page"), ("size", control roles "page_size")]
    echo := cs.foldl echoed []
  }

end Parameters

end Sift
