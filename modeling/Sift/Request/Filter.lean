import Sift.Operator.Preparation
import Sift.Predicate.Criteria
import Sift.Request.Scope

/-!
# Filters

A filter is an object whose entries all have to hold. The keys `and` and `or` combine arrays of filters; every other
key is a field, with a bare value or with an object of operators and their operands. An object with no known operator
at all asks for nothing, but a known operator beside an unknown one is an error.
-/

namespace Sift

structure FilterRules extends Section where
  registry : Registry := Registry.default

namespace FilterRules

def ofScope (scope : Scope) (policy : Policy) (registry : Registry) : FilterRules :=
  { scope, policy, place := "filtering", registry }

/-- One comparison of a field with an operand. -/
def clause (name : String) (ref : FieldRef) (op : Operator) (operand : Value) : Except Fault Clause := do
  return ⟨ref, op.kind, ← op.prepare name ref.type operand, op.token⟩

def known (r : FilterRules) (entry : Value × Value) : Bool :=
  (entry.1.text?.map r.registry.contains).getD false

/-- The comparisons that an object of operators asks for, if it has any known operator. -/
def operatorClauses (r : FilterRules) (name : String) (ref : FieldRef) (entries : List (Value × Value)) :
    Except Fault (Option (List Clause)) := do
  if entries.any r.known then
    match entries.find? (!r.known ·) with
    | some (token, _) => throw (.query (.unknownOperator name token.plain))
    | none =>
      some <$> entries.mapM fun (token, operand) => do
        clause name ref (← r.registry.get (token.text?.getD "")) operand
  else return none

/-- The comparisons that the value of a field asks for. -/
def fieldClauses (r : FilterRules) (name : String) (ref : FieldRef) : Value → Except Fault (Option (List Clause))
  | .object entries => r.operatorClauses name ref entries
  | v => do return some [← clause name ref (← r.registry.defaultFor ref.type v) v]

/-- The criteria of some comparisons of one field. -/
def criteria (ref : FieldRef) (clauses : List Clause) : Criteria :=
  ⟨.conj (clauses.map .clause), if ref.isRelated then [ref.chain] else []⟩

/-- Compiles what a filter says about one field. -/
def compileField (r : FilterRules) (checked : Bool) (name v : Value) : Except Fault Criteria := do
  let ref ← r.field checked name
  return (← r.fieldClauses name.plain ref v).elim {} (criteria ref)

mutual
/-- Compiles a filter. Where the policy is not asked, any field may be used. -/
def compile (r : FilterRules) (checked : Bool) : Value → Except Fault Criteria
  | .null => .ok {}
  | .object entries => .conj <$> compileEntries r checked entries
  | v => .error (.malformed (.notObject r.place v.kindName))

def compileEntries (r : FilterRules) (checked : Bool) : List (Value × Value) → Except Fault (List Criteria)
  | [] => .ok []
  | (key, v) :: rest => do
    let first ←
      match key with
      | .text "and" => .conj <$> compileOperand r checked "and" v
      | .text "or" => .disj <$> compileOperand r checked "or" v
      | name => r.compileField checked name v
    return first :: (← compileEntries r checked rest)

/-- Compiles the array of filters that a connective has. -/
def compileOperand (r : FilterRules) (checked : Bool) (connective : String) : Value → Except Fault (List Criteria)
  | .list items | .tuple items => compileItems r checked items
  | .mapping x y z => do return [← compile r checked x, ← compile r checked y, ← compile r checked z]
  | _ => .error (.malformed (.notArray connective))

def compileItems (r : FilterRules) (checked : Bool) : List Value → Except Fault (List Criteria)
  | [] => .ok []
  | v :: vs => do
    let first ← compile r checked v
    return first :: (← compileItems r checked vs)
end

end FilterRules

end Sift
