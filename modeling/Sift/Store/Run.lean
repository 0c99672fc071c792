import Sift.Endpoint.Plan
import Sift.Sorting
import Sift.Store.Basic
import Sift.Store.CountedPage

/-!
# Running plans

A plan is run on a store: the records that meet its predicate are joined with the related records that the ordering
needs, sorted, cut to the page, and given their included records. Before that everything that is asked has to be
something that can be asked, and all of it is handed over.
-/

namespace Sift.Store

/-! ## Ordering -/

/-- A record with the related records that the ordering needs, by their chains; a chain may lead to no record. -/
structure Joined where
  base : Record
  others : Table (List String) (Option Record) := []

namespace Joined

def record? (j : Joined) (chain : List String) : Option Record :=
  if chain.isEmpty then some j.base else (j.others.get? chain).getD none

/-- The cell under a column of the record that a chain leads to; nothing where there is no such record. -/
def cell (j : Joined) (ref : FieldRef) : Cell :=
  (j.record? ref.chain).elim .null fun r => r.cell ref.column

end Joined

/-- Joins the related records at the end of a chain to the records before it. A record without related ones is kept. -/
def join (s : Store) (entity : String) (chain : List String) (j : Joined) : List Joined :=
  let parent := chain.dropLast
  let put (r : Option Record) : Joined := { j with others := j.others.insert chain r }
  match j.record? parent with
  | none => [put none]
  | some r =>
    match s.related (s.targetOf entity parent) (chain.getLastD "") r with
    | [] => [put none]
    | rs => rs.map fun r => put (some r)

/-- The chains that have to be joined for an ordering, parents first and each once. -/
def orderChains (terms : List OrderTerm) : List (List String) :=
  (terms.flatMap fun t => (List.range t.ref.chain.length).map fun i => t.ref.chain.take (i + 1)).eraseDups

/-- Joins all that an ordering needs. -/
def joinAll (s : Store) (entity : String) (terms : List OrderTerm) (records : List Record) : List Joined :=
  (orderChains terms).foldl (fun js chain => js.flatMap (s.join entity chain)) (records.map fun r => { base := r })

def ordered (a b : Joined) : List OrderTerm → Bool
  | [] => true
  | t :: ts =>
    let x := a.cell t.ref
    let y := b.cell t.ref
    if x.same y then ordered a b ts
    else match t.direction with
      | .ascending => x.before y
      | .descending => y.before x

/-- Sorts records; those that the ordering does not tell apart keep their order. -/
def sorted (terms : List OrderTerm) (js : List Joined) : List Joined :=
  sortBy (fun a b => ordered a b terms) js

/-! ## Included records -/

mutual
/-- What a record shows under an included relation: a list of rows, or one row, or null. -/
def included (s : Store) (entity : String) (r : Record) : Branch → Value
  | ⟨label, _, many, _, nested⟩ =>
    let shown := (s.related entity label r).map fun r =>
      Value.object (includedIn s (s.target entity label) r nested r.toRow)
    if many.truthy then .list shown else shown.headD .null

/-- Adds what a record shows under the included relations. -/
def includedIn (s : Store) (entity : String) (r : Record) : List Branch → Row → Row
  | [], shown => shown
  | ⟨label, target, many, through, nested⟩ :: bs, shown =>
    includedIn s entity r bs (shown.insert label (included s entity r ⟨label, target, many, through, nested⟩))
end

def present (s : Store) (entity : String) (includes : IncludeTree) (r : Record) : Row :=
  includedIn s entity r includes.branches r.toRow

/-- Can the columns of a record of an entity be shown? -/
def isLegible (s : Store) (entity : String) (r : Record) : Bool :=
  (Model.find? s.models entity).all fun m => m.isLegible r

mutual
/-- Can the records under an included relation be shown? -/
def branchIsLegible (s : Store) (entity : String) (r : Record) : Branch → Bool
  | ⟨label, _, _, _, nested⟩ =>
    let target := s.target entity label
    (s.related entity label r).all fun r => s.isLegible target r && nestedAreLegible s target r nested

def nestedAreLegible (s : Store) (entity : String) (r : Record) : List Branch → Bool
  | [] => true
  | b :: bs => branchIsLegible s entity r b && nestedAreLegible s entity r bs
end

/-! ## Plans -/

/-- The comparisons that a plan asks for, in order. Where a clause asks for a foreign key there is nothing to
compare. -/
def comparisons (s : Store) (plan : Plan) : Except Fault (List Comparison) :=
  (plan.criteria.predicate.clauses.filter (!asksForKey ·)).mapM (s.comparison plan.entity)

/-- The limit of a plan, and its offset where it has one. -/
def window (page : Page) : Except Fault (Int × Option Int) := do
  let limit ← page.limit.truncated
  let offset ← page.offset
  return (limit, ← if offset.toValue.truthy then some <$> offset.truncated else pure none)

/-- Everything that is asked has to be taken in by the store: first it is all handed over, then it is taken in. -/
def ask (xs : List Comparison) (limit : Int) (offset : Option Int) : Except Fault Unit := do
  let handed ← xs.mapM Comparison.handedOver
  let numbers : List Int := limit :: offset.toList
  discard <| (handed.flatten ++ numbers.map Value.int).mapM Storage.takeIn

mutual
/-- Does a predicate leave only a range of a column, or some ranges of it? -/
def narrows (column : String) : Predicate → Bool
  | .clause c => c.field.chain.isEmpty && c.field.column = column &&
    match c.kind with
    | .eq | .gt | .gte | .lt | .lte | .oneOf => true
    | _ => false
  | .all ps => narrowsAny column ps
  | .any ps => narrowsAll column ps

def narrowsAny (column : String) : List Predicate → Bool
  | [] => false
  | p :: ps => narrows column p || narrowsAny column ps

def narrowsAll (column : String) : List Predicate → Bool
  | [] => true
  | p :: ps => narrows column p && narrowsAll column ps
end

/-- The records that may meet a predicate. Ranges of a key are read in the order of the keys. -/
def candidates (s : Store) (m : Model) (p : Predicate) : List Record :=
  if narrows m.primaryKey p then m.byKey (s.records m.name) else s.records m.name

def found (s : Store) (m : Model) (plan : Plan) : List Record :=
  let matching := (s.candidates m plan.criteria.predicate).filter (s.meets m.name plan.criteria.predicate)
  (sorted plan.order (s.joinAll plan.entity plan.order matching)).map Joined.base

/-- The first record with each key. -/
def distinct (m : Model) (records : List Record) : List Record :=
  records.foldl (fun seen r => if seen.any fun other => m.keyOf other = m.keyOf r then seen else seen ++ [r]) []

def run (s : Store) : Executor := fun plan => do
  let plan ← plan.consume
  let some m := Model.find? s.models plan.entity | throw .missingKey
  let comparisons ← s.comparisons plan
  let (limit, offset) ← window plan.page
  ask comparisons limit offset
  let page := CountedPage.load (some limit) offset (s.found m plan)
  let records := distinct m page.rows
  require (records.all fun r => m.isLegible r && s.nestedAreLegible plan.entity r plan.includes.branches) .unknownWord
  return ⟨records.map fun r => .object (s.present plan.entity plan.includes r), .int page.count⟩

end Sift.Store
