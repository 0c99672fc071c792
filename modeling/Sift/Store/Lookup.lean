import Sift.Projection
import Sift.Request.Quantity
import Sift.Store.Basic
import Sift.Store.CountedPage

/-!
# Looking keys up in a store

The exposed identifiers of keys are read from the records of the store itself.
-/

namespace Sift.Store

/-- What can be read from the records of a model under a name; nothing for the label of a relation. -/
def attributeOf (m : Model) (name : Value) : Except Fault (Option (Storage × (Record → Content))) := do
  let .text name := name | throw .wrongKind
  if (m.link? name).isSome then return none
  (m.attribute? name).elim (.error .noMember) fun found => .ok (some found)

/-- The records of a model in the order in which keys find what is exposed for them. Where the keys are the first column
of the key of the model, or nothing but columns of it is read, this is the order of the keys of the model. -/
def scanned (s : Store) (m : Model) (l : Lookup) : List Record :=
  let inKey (v : Value) : Bool := (v.text?.map m.key.contains).getD false
  if l.key == .text m.primaryKey || (inKey l.key && inKey l.exposed) then m.byKey (s.records m.name)
  else s.records m.name

/-- Finds the exposed identifiers of keys; of two records with one key the last one counts. -/
def lookup (s : Store) : LookupStore := fun l => do
  let some m := (← l.entity.requireKey).text?.bind (Model.find? s.models) | throw .missingKey
  let (some (keyStorage, key), some (exposedStorage, exposed)) := (← attributeOf m l.key, ← attributeOf m l.exposed)
    | throw .unsupported
  let comparison ← Comparison.ofItems .oneOf keyStorage l.keys
  let operands ← comparison.operands keyStorage
  let records := (s.scanned m l).filter fun r => (key r).cell.satisfies .oneOf operands = .yes
  require (records.all fun r => (key r).isLegible keyStorage && (exposed r).isLegible exposedStorage) .unknownWord
  return Table.ofList (← records.mapM fun r => do return (← (key r).shown.requireKey, (exposed r).shown))

/-- A limit or an offset, which may also be given as a numeral. -/
def bound? (v : Value) : Except Fault (Option Int) :=
  match v with
  | .null => .ok none
  | .text s =>
    match Numeral.int (Numeral.bare s.toList) with
    | .ok n => .ok (some n)
    | .error .malformed => .error (.badValue (.mismatch (.notInteger s)))
    | .error (.tooLong count) => .error (.badValue (.mismatch (.tooManyDigits count)))
  | v => do return some (← (← Quantity.ofValue v).truncated)

/-- The identifiers of the records of an entity, from the given one on, cut to a page. -/
def idPage (s : Store) (entity : String) (limit offset least : Value) : Except Fault (CountedPage Value) := do
  let some m := Model.find? s.models entity | throw .missingKey
  let some storage := m.columns.get? "id" | throw .noMember
  let least ← match least with
    | .null => pure none
    | v => some <$> s.matcher.comparison storage .gte v
  let limit ← bound? limit
  let offset ← bound? offset
  let handed ← least.elim (.ok []) Comparison.handedOver
  discard <| (handed ++ (limit.toList ++ offset.toList).map Value.int).mapM Storage.takeIn
  let operands ← least.elim (.ok []) fun x => x.operands storage
  let reached (r : Record) : Bool := least.isNone || (r.cell "id").satisfies .gte operands = .yes
  return CountedPage.load limit offset (((s.records entity).filter reached).map fun r => (r.content "id").shown)

end Sift.Store
