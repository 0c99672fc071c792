import Sift.Predicate.Basic
import Sift.Value.Elements

/-!
# Policies

Which fields a request may use. A field is looked up under every name it is known by: the one the request wrote, the
internal and the public one, the path it resolves to, and for an exposed key also the foreign key that shows it. A
blocked name always wins; a list of allowed names has to have one of them.
-/

namespace Sift

/-- The fields that may be used for one purpose. -/
structure Policy where
  /-- The only fields that may be used; without it all may. -/
  allowed : Option (List Value) := none
  /-- Fields that may never be used. -/
  blocked : List Value := []
  /-- Public names with the internal names they stand for. -/
  aliases : Table Value Value := []

namespace Policy

/-- Some names without repetitions. -/
def distinct (names : List Value) : List Value :=
  names.foldl (fun known name => if known.contains name then known else known ++ [name]) []

def names (v : Value) : Except Fault (List Value) := do
  return distinct (← (← v.elements).mapM Value.requireKey)

def aliasTable (v : Value) : Except Fault (Table Value Value) := do
  let table ← Row.ofValue (v.either (.object []))
  unless table.values.all Value.isKey do throw .wrongKind
  return table

def ofValues (allowed blocked aliases : Value) : Except Fault Policy := do
  let allowed ← match allowed with
    | .null => pure none
    | v => some <$> names v
  let blocked ← names (blocked.either (.tuple []))
  return { allowed, blocked, aliases := ← aliasTable aliases }

/-- The internal name of a field. -/
def toInternal (p : Policy) (name : Value) : Value :=
  (p.aliases.get? name).getD name

/-- The public name of a field; of several the last one counts. -/
def toExternal (p : Policy) (name : Value) : Value :=
  let shown : Table Value Value := Table.ofList (p.aliases.map fun (a, b) => (b, a))
  (shown.get? name).getD name

/-- The names that a resolved field adds to the ones a request knows it by. -/
def refNames (p : Policy) (ref : FieldRef) : List Value :=
  .text ref.path :: if ref.foreignKey.truthy then [ref.foreignKey, p.toExternal ref.foreignKey] else []

/-- All the names a field is known by. -/
def namesOf (p : Policy) (name : Value) (ref : Option FieldRef) : List Value :=
  distinct ([name, p.toInternal name, p.toExternal name] ++ ref.elim [] p.refNames)

def allows (p : Policy) (name : Value) (ref : Option FieldRef) : Bool :=
  let known := p.namesOf name ref
  if known.any p.blocked.contains then false
  else p.allowed.elim true fun names => known.any names.contains

def check (p : Policy) (place : String) (name : Value) (ref : Option FieldRef) : Except Fault Unit :=
  if p.allows name ref then .ok () else .error (.query (.policyViolation name.plain place))

/-- A policy as messages show it, the listed names in order. -/
def literal (p : Policy) : Except Fault String := do
  let sorted (names : List Value) : Except Fault String := do
    return (Value.list (← Value.sortedKeys names)).literal
  let allowed ← match p.allowed with
    | some names => sorted names
    | none => pure "None"
  return call "Policy" ["allow_list=" ++ allowed, "block_list=" ++ (← sorted p.blocked),
    "alias_map=" ++ (Value.object p.aliases).literal]

end Policy

end Sift
