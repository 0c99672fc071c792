import Sift.Operator.Kind
import Sift.Operator.Pattern
import Sift.Schema.Column

/-!
# Operators

An operator is what a request writes between a field and a value. A registry is the table of the operators that a
request may use, by their tokens; a bare value gets one of them by its type.
-/

namespace Sift

/-- An operator. Its switches are kept as they were configured; only their truth counts. -/
structure Operator where
  token : String
  kind : OperatorKind
  /-- Where the text of a pattern is looked for; without it the value is not made a pattern. -/
  place : Option Pattern.Place := none
  /-- Usable with text columns only. -/
  textOnly : Value := .bool false
  /-- Usable with boolean columns only. -/
  booleanOnly : Value := .bool false
  /-- Takes a list of values. -/
  takesList : Value := .bool false
  /-- The value that stands in place of whatever the request gives; null where there is none. -/
  literal : Value := .null
  /-- Accepts null. -/
  nullable : Value := .bool false

namespace Operator

/-- An operator that looks for a text at a place. -/
def search (token : String) (kind : OperatorKind) (place : Pattern.Place) : Operator :=
  { token, kind, place := some place, textOnly := .bool true }

def defaults : List Operator := [
  { token := "eq", kind := .eq, nullable := .bool true },
  { token := "ieq", kind := .ieq, textOnly := .bool true, nullable := .bool true },
  { token := "neq", kind := .neq, nullable := .bool true },
  { token := "gt", kind := .gt },
  { token := "gte", kind := .gte },
  { token := "lt", kind := .lt },
  { token := "lte", kind := .lte },
  { token := "=", kind := .eq, nullable := .bool true },
  { token := "!=", kind := .neq, nullable := .bool true },
  { token := ">", kind := .gt },
  { token := ">=", kind := .gte },
  { token := "<", kind := .lt },
  { token := "<=", kind := .lte },
  { token := "in", kind := .oneOf, takesList := .bool true },
  { token := "not_in", kind := .notOneOf, takesList := .bool true },
  search "contains" .like .anywhere,
  search "icontains" .ilike .anywhere,
  search "not_contains" .notLike .anywhere,
  search "not_icontains" .notIlike .anywhere,
  search "starts_with" .like .atStart,
  search "istarts_with" .ilike .atStart,
  search "not_starts_with" .notLike .atStart,
  search "not_istarts_with" .notIlike .atStart,
  search "ends_with" .like .atEnd,
  search "iends_with" .ilike .atEnd,
  search "not_ends_with" .notLike .atEnd,
  search "not_iends_with" .notIlike .atEnd,
  { token := "is_true", kind := .eq, booleanOnly := .bool true, literal := .bool true },
  { token := "is_false", kind := .eq, booleanOnly := .bool true, literal := .bool false }]

end Operator

/-- The operators that a request may use, by their tokens. -/
abbrev Registry := Table String Operator

namespace Registry

/-- The registry of some operators, of which the last one with a token counts. -/
def ofOperators (ops : List Operator) : Registry :=
  Table.ofList (ops.map fun op => (op.token, op))

def default : Registry := ofOperators Operator.defaults

/-- Adds operators, in place of those with the same tokens. -/
def extended (r : Registry) (ops : List Operator) : Registry :=
  r.insertMany (ops.map fun op => (op.token, op))

def get (r : Registry) (token : String) : Except Fault Operator :=
  (r.get? token).elim (.error .missingKey) .ok

/-- The operator of a bare value: any of an array, a text without regard to case, and the very value of anything
else. -/
def defaultFor (r : Registry) (type : ColumnType) (v : Value) : Except Fault Operator :=
  match v with
  | .list _ | .tuple _ | .mapping .. => r.get "in"
  | .null => r.get "eq"
  | _ => r.get (if type = .text then "ieq" else "eq")

end Registry

end Sift
