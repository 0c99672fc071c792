import Sift.Schema.IncludeTree
import Sift.Store.Comparison
import Sift.Store.Model

/-!
# Stores

A store holds the records of some models. A record meets a clause about a related field when some record that the chain
of labels leads to meets it. A clause about an exposed key looks at the foreign key first, because a row without a
related row shows null there and is to be found as such.
-/

namespace Sift

structure Store where
  models : List Model
  /-- The records of each model, in the order in which they are found. -/
  tables : Table String (List Record)
  /-- The pairs of keys of each association. -/
  associations : Table String (List (Cell × Cell)) := []
  matcher : Matcher := .lowering

namespace Store

def records (s : Store) (entity : String) : List Record := (s.tables.get? entity).getD []

/-- Is one record linked to another, which is one of the model `target`? -/
def linked (s : Store) (m : Model) (target : Model) (link : Link) (r other : Record) : Bool :=
  match link with
  | .columns pairs => pairs.all fun (here, there) => (r.cell here).equal (other.cell there) = .yes
  | .association table backward =>
    ((s.associations.get? table).getD []).any fun (a, b) =>
      let (near, far) := if backward then (b, a) else (a, b)
      (r.cell m.primaryKey).equal near = .yes && (other.cell target.primaryKey).equal far = .yes

/-- The model and the link behind a label of an entity, with the model that the label leads to. -/
def step? (s : Store) (entity label : String) : Option (Model × Link × Model) := do
  let m ← Model.find? s.models entity
  let (relation, link) ← m.link? label
  return (m, link, ← relation.target.text?.bind (Model.find? s.models))

/-- The records that a label leads to from a record of an entity. -/
def related (s : Store) (entity label : String) (r : Record) : List Record :=
  (s.step? entity label).elim [] fun (m, link, target) => (s.records target.name).filter (s.linked m target link r)

/-- The entity that a label leads to. -/
def target (s : Store) (entity label : String) : String :=
  (s.step? entity label).elim "" fun (_, _, target) => target.name

def targetOf (s : Store) (entity : String) (chain : List String) : String :=
  chain.foldl s.target entity

/-! ## Clauses -/

/-- The storage of the column that a field refers to, behind its chain of labels. -/
def storageOf (s : Store) (entity : String) (ref : FieldRef) : Storage :=
  ((Model.find? s.models (s.targetOf entity ref.chain)).bind fun m => m.columns.get? ref.column).getD .computed

/-- What a clause asks of its column. -/
def comparison (s : Store) (entity : String) (c : Clause) : Except Fault Comparison :=
  s.matcher.comparison (s.storageOf entity c.field) c.kind c.value

/-- The truth of a test of the records that a chain of labels leads to: some record has to meet it. Without labels the
record itself is tested. -/
def reaches (s : Store) (test : Record → Truth) (entity : String) (r : Record) : List String → Truth
  | [] => test r
  | label :: chain =>
    .ofBool ((s.related entity label r).any fun r => s.reaches test (s.target entity label) r chain = .yes)

/-- The truth of what a comparison asks of the column that a field refers to, wherever its record is. What cannot be
asked is unknown. -/
def comparisonTruth (s : Store) (entity : String) (ref : FieldRef) (x : Comparison) (r : Record) : Truth :=
  match x.operands (s.storageOf entity ref) with
  | .ok operands => s.reaches (fun r => (r.cell ref.column).satisfies x.kind operands) entity r ref.chain
  | .error _ => .unknown

/-- The truth of a clause about a column. -/
def columnTruth (s : Store) (entity : String) (c : Clause) (r : Record) : Truth :=
  match s.comparison entity c with
  | .ok x => s.comparisonTruth entity c.field x r
  | .error _ => .unknown

/-- The foreign key that shows the value of a field. -/
def shownBy? (ref : FieldRef) : Option String :=
  if ref.foreignKey.truthy then ref.foreignKey.text? else none

def isNull : Value → Bool
  | .null => true
  | _ => false

/-- Does a clause ask only whether there is a related record? -/
def asksForKey (c : Clause) : Bool := (shownBy? c.field).isSome && isNull c.value

def clauseTruth (s : Store) (entity : String) (r : Record) (c : Clause) : Truth :=
  match shownBy? c.field with
  | none => s.columnTruth entity c r
  | some column =>
    let missing := (r.cell column).isNull
    if isNull c.value then .ofBool (if c.kind = .neq then !missing else missing)
    else if c.kind.isNegated then (Truth.ofBool missing).or (s.columnTruth entity c r)
    else s.columnTruth entity c r

/-- Does a record meet a predicate? What is unknown is not met. -/
def meets (s : Store) (entity : String) (p : Predicate) (r : Record) : Bool :=
  p.truth (s.clauseTruth entity r) = .yes

end Store

end Sift
