import Sift.Error.Fault

/-!
# Operator kinds

The comparisons that a store has to know. Many operator tokens may stand for one kind.
-/

namespace Sift

inductive OperatorKind where
  | eq
  /-- Equality without regard to case. -/
  | ieq
  | neq
  | gt
  | gte
  | lt
  | lte
  | oneOf
  | notOneOf
  | like
  /-- Pattern matching without regard to case. -/
  | ilike
  | notLike
  | notIlike
  deriving DecidableEq, Repr

namespace OperatorKind

def all : List OperatorKind :=
  [.eq, .ieq, .neq, .gt, .gte, .lt, .lte, .oneOf, .notOneOf, .like, .ilike, .notLike, .notIlike]

def name : OperatorKind → String
  | .eq => "eq"
  | .ieq => "ieq"
  | .neq => "neq"
  | .gt => "gt"
  | .gte => "gte"
  | .lt => "lt"
  | .lte => "lte"
  | .oneOf => "in"
  | .notOneOf => "not_in"
  | .like => "like"
  | .ilike => "ilike"
  | .notLike => "not_like"
  | .notIlike => "not_ilike"

def ofValue (v : Value) : Except Fault OperatorKind :=
  match v.text?.bind fun s => all.find? (·.name = s) with
  | some kind => .ok kind
  | none => .error (.badValue (.operatorKind v))

/-- Does the kind deny another one, so that it holds where there is nothing to compare? -/
def isNegated : OperatorKind → Bool
  | .neq | .notOneOf | .notLike | .notIlike => true
  | _ => false

end OperatorKind

end Sift
