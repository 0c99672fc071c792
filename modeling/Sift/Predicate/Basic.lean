import Sift.Operator.Basic
import Sift.Text.Split

/-!
# Predicates

A compiled filter is a tree: clauses compare one field with one prepared value, and the nodes above them ask for all
or for any of their children. The node that asks for all of no children holds always.
-/

namespace Sift

/-- Where a field of a request is found. -/
structure FieldRef where
  /-- The entity that has the column. -/
  entity : Value
  column : String
  type : ColumnType
  /-- The labels that lead to that entity from the base entity. -/
  chain : List String := []
  /-- Does one of the labels lead to many rows? -/
  many : Value := .bool false
  /-- The column of the base entity that shows the same value to the outside; null where there is none. -/
  foreignKey : Value := .null

namespace FieldRef

def same (r s : FieldRef) : Bool :=
  r.entity == s.entity && r.column == s.column && r.type == s.type && r.chain == s.chain && r.many == s.many
    && r.foreignKey == s.foreignKey

instance : BEq FieldRef := ⟨same⟩

def isRelated (ref : FieldRef) : Bool := !ref.chain.isEmpty

def path (ref : FieldRef) : String := Text.dotted (ref.chain ++ [ref.column])

end FieldRef

structure Clause where
  field : FieldRef
  kind : OperatorKind
  value : Value
  /-- The token that the request wrote. -/
  token : String

namespace Clause

def same (c d : Clause) : Bool :=
  c.field == d.field && c.kind == d.kind && c.value == d.value && c.token == d.token

instance : BEq Clause := ⟨same⟩

/-- Do the values of two clauses refuse the question whether the clauses are equal? -/
def refuses (c d : Clause) : Bool :=
  c.field == d.field && c.kind == d.kind && c.value.refuses d.value

def literal (c : Clause) : String :=
  c.field.path ++ " " ++ c.kind.name ++ " " ++ c.value.literal

end Clause

inductive Predicate where
  | clause (c : Clause)
  | all (children : List Predicate)
  | any (children : List Predicate)

namespace Predicate

/-- The predicate of every row. -/
def always : Predicate := .all []

def isAlways : Predicate → Bool
  | .all [] => true
  | _ => false

theorem isAlways_iff {p : Predicate} : p.isAlways = true ↔ p = always := by
  match p with
  | .clause _ => simp [isAlways, always]
  | .all [] => simp [isAlways, always]
  | .all (_ :: _) => simp [isAlways, always]
  | .any _ => simp [isAlways, always]

mutual
def same : Predicate → Predicate → Bool
  | .clause c, .clause d => c == d
  | .all ps, .all qs => sameAll ps qs
  | .any ps, .any qs => sameAll ps qs
  | _, _ => false

def sameAll : List Predicate → List Predicate → Bool
  | [], [] => true
  | p :: ps, q :: qs => same p q && sameAll ps qs
  | _, _ => false
end

instance : BEq Predicate := ⟨same⟩

mutual
/-- Do two predicates refuse the question whether they are equal? Parts are asked about in order, up to the first that
differ. -/
def refuses : Predicate → Predicate → Bool
  | .clause c, .clause d => c.refuses d
  | .all ps, .all qs | .any ps, .any qs => refusesAny ps qs
  | _, _ => false

def refusesAny : List Predicate → List Predicate → Bool
  | p :: ps, q :: qs => refuses p q || (same p q && refusesAny ps qs)
  | _, _ => false
end

/-- What has to hold for a predicate to hold. -/
def conjuncts : Predicate → List Predicate
  | .all ps => ps
  | p => [p]

/-- All of some predicates. Nested conjunctions are spliced in, and one predicate stays as it is. -/
def conj (ps : List Predicate) : Predicate :=
  match ps.flatMap conjuncts with
  | [p] => p
  | qs => .all qs

/-- Any of some predicates. One predicate stays as it is; of none, or of one that always holds, the disjunction
always holds. -/
def disj (ps : List Predicate) : Predicate :=
  if ps.isEmpty || ps.any isAlways then always
  else
    match ps with
    | [p] => p
    | qs => .any qs

mutual
/-- The clauses of a predicate, from left to right. -/
def clauses : Predicate → List Clause
  | .clause c => [c]
  | .all ps | .any ps => clausesAll ps

def clausesAll : List Predicate → List Clause
  | [] => []
  | p :: ps => clauses p ++ clausesAll ps
end

mutual
def literal : Predicate → String
  | .clause c => c.literal
  | .all ps => "(and: " ++ Value.listLiteral (literals ps) ++ ")"
  | .any ps => "(or: " ++ Value.listLiteral (literals ps) ++ ")"

def literals : List Predicate → List String
  | [] => []
  | p :: ps => literal p :: literals ps
end

end Predicate

end Sift
