import Sift.Text.Split
import Sift.Value.Elements

/-!
# Flattening

Attributes of a related row that are shown in the row itself, under names of their own. Of many related rows the first
one counts. A request may use the flat names in place of the paths they stand for.
-/

namespace Sift

/-- The attributes that are lifted out of one relation, as pairs of a name there and a name here. -/
structure Lift where
  label : Value
  attributes : List (Value × Value)

namespace Lift

/-- Is a label missing, or does it hold a point? An array or an object holds it as an element. -/
def isIndirect : Value → Except Fault Bool
  | .text s => .ok (s.isEmpty || s.toList.contains '.')
  | v => if v.truthy then do return (← v.elements).contains (.text ".") else .ok true

/-- The parts of an attribute: one name for both places, or the elements of a pair. -/
def attributeParts : Value → Except Fault (List Value)
  | .text s => .ok [.text s, .text s]
  | v => v.elements

/-- The label and the parts of the attributes of a relation. Only a direct relation can be flattened. -/
def parts (v : Value) : Except Fault (Value × List (List Value)) := do
  let .object fields := v | throw .wrongKind
  let some label := Table.get? (.text "as") fields | throw .missingKey
  let attributes := (Table.get? (.text "attributes") fields).getD (.tuple [])
  if ← isIndirect label then throw (.badValue (.indirectFlattening label))
  return (label, ← (← attributes.elements).mapM attributeParts)

def pair : List Value → Except Fault (Value × Value)
  | [source, target] => do return (source, ← target.requireKey)
  | items =>
    .error (.badValue (if items.length < 2 then .tooFewItems 2 items.length else .tooManyItems 2))

/-- The related object whose attributes are lifted: the value itself or the first of a list. -/
def source : Value → Value
  | .list [] => .null
  | .list (v :: _) => v
  | v => v

/-- An attribute of a related object. What is empty has only nulls. -/
def lifted (name : Value) (v : Value) : Except Fault Value :=
  if v.truthy then
    match v with
    | .object entries => do return Row.field (← name.requireKey) entries
    | _ => .error .noMember
  else .ok .null

/-- Takes the relation out of a row and puts its attributes in. An empty row is not asked for the relation. -/
def flatten (l : Lift) (row : Row) : Except Fault Row := do
  let label ← if row.isEmpty then pure l.label else l.label.requireKey
  let related := source (Row.field label row)
  l.attributes.foldlM (fun row (name, flat) => do return Table.insert flat (← lifted name related) row)
    (Table.erase label row)

def literal (l : Lift) : String :=
  let pairs := l.attributes.map fun (a, b) => (Value.tuple [a, b]).literal
  call "FlattenedRelation" [l.label.literal, Value.listLiteral pairs]

end Lift

structure Flattening where
  lifts : List Lift := []

namespace Flattening

/-- A flattening from its configuration: one object or several. -/
def ofValue (v : Value) : Except Fault Flattening := do
  let configs ← match v with
    | .object _ => pure [v]
    | v => v.elementsOrNone
  let parts ← configs.mapM Lift.parts
  return ⟨← parts.mapM fun (label, attributes) => do return ⟨label, ← attributes.mapM Lift.pair⟩⟩

def isEmpty (f : Flattening) : Bool := f.lifts.isEmpty

def labels (f : Flattening) : List Value := f.lifts.map Lift.label

/-- The path that each flat name stands for. -/
def paths (f : Flattening) : Table Value String :=
  Table.ofList <| f.lifts.flatMap fun l =>
    l.attributes.map fun (name, flat) => (flat, l.label.plain ++ "." ++ name.plain)

def path? (f : Flattening) (name : Value) : Option String := f.paths.get? name

/-- Flattens one relation after another. -/
def flatten (f : Flattening) (row : Row) : Except Fault Row :=
  f.lifts.foldlM (fun row l => l.flatten row) row

/-- Flattens every row. Where nothing is flattened the rows stay as they are, whatever they are. -/
def flattenRows (f : Flattening) (rows : List Value) : Except Fault (List Value) :=
  if f.isEmpty then .ok rows
  else rows.mapM fun v => do return .object (← f.flatten (← Row.ofValue v))

def literal (f : Flattening) : String :=
  call "Flattening" [Value.listLiteral (f.lifts.map Lift.literal)]

end Flattening

end Sift
