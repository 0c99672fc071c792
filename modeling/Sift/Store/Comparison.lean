import Sift.Store.Storage
import Sift.Value.Elements

/-!
# Comparisons

What a clause asks of a column: a kind of comparison, and the values that are handed over for it. Some values cannot be
asked about, which is found out before any value is handed over.
-/

namespace Sift

/-- How a store compares texts without regard to case. -/
inductive Matcher where
  /-- By patterns that ignore case. -/
  | patterns
  /-- By comparing the small letters of both sides. -/
  | lowering
  /-- Not at all. -/
  | none
  deriving DecidableEq, Repr

/-- The matcher that suits a kind of database. -/
def Matcher.ofDialect (name : String) : Matcher :=
  if name = "postgresql" then .patterns else .lowering

def require (acceptable : Bool) (fault : Fault) : Except Fault Unit :=
  if acceptable then .ok () else .error fault

/-- What a clause asks of a column. -/
structure Comparison where
  kind : OperatorKind
  /-- The storage as which the values are handed over. -/
  storage : Storage
  /-- None, for the question whether there is anything; the items of a list; or one value. -/
  values : List Value

namespace Comparison

/-- The comparison of a column with one value. -/
def ofValue (kind : OperatorKind) (column : Storage) (v : Value) : Comparison :=
  ⟨kind, column.comparing v, [v]⟩

/-- The comparison of the text of a column with one value, which is taken by itself. -/
def ofText (kind : OperatorKind) (v : Value) : Comparison :=
  ⟨kind, (Storage.ofValue? v).getD .computed, [v]⟩

/-- The comparison of a column with the items of a value, which are all handed over as the first one is. -/
def ofItems (kind : OperatorKind) (column : Storage) : Value → Except Fault Comparison
  | .text _ => .error .uncomparable
  | v =>
    match v.elements with
    | .ok items => .ok ⟨kind, column.comparing (items.headD .null), items⟩
    | .error _ => .error .uncomparable

/-- Has the value an order beside those of a column? Null has none, and truth values only beside wrapped texts. -/
def isOrdered (column : Storage) : Value → Bool
  | .null => false
  | .bool _ => column = .wrapped
  | _ => true

/-- The comparison of a column with a value that has to have an order. -/
def ofOrdered (kind : OperatorKind) (column : Storage) (v : Value) : Except Fault Comparison :=
  if isOrdered column v then .ok (ofValue kind column v) else .error .uncomparable

def handedOver (x : Comparison) : Except Fault (List Value) :=
  x.values.mapM x.storage.handOver

/-- Does the column draw the values to its side? It does not where texts are compared, or matched with a pattern. -/
def isDrawn (x : Comparison) : Bool :=
  match x.kind with
  | .ieq | .like | .ilike | .notLike | .notIlike => false
  | _ => true

/-- The cells that a column is compared with. -/
def operands (x : Comparison) (column : Storage) : Except Fault (List Cell) := do
  let cells ← (← x.handedOver).mapM Storage.takeIn
  return if x.isDrawn then cells.map column.beside else cells

end Comparison

namespace Matcher

/-- The pattern for a text without regard to case. Only texts can be made one. -/
def pattern : Value → Except Fault Value
  | .text s => .ok (.text (Pattern.escaped s))
  | .date _ | .moment _ => .error .wrongKind
  | _ => .error .noMember

def comparison (m : Matcher) (column : Storage) (kind : OperatorKind) (v : Value) : Except Fault Comparison :=
  match kind, v with
  | .eq, .null | .neq, .null | .ieq, .null => .ok ⟨kind, column, []⟩
  | .eq, v | .neq, v => .ok (.ofValue kind column v)
  | .gt, v | .gte, v | .lt, v | .lte, v | .like, v | .notLike, v => Comparison.ofOrdered kind column v
  | .oneOf, v | .notOneOf, v => Comparison.ofItems kind column v
  | .ieq, v =>
    match m with
    | .patterns => do return .ofValue .like column (← pattern v)
    | .lowering => .ok (.ofText .ieq v)
    | .none => .error .unsupported
  | .ilike, v | .notIlike, v =>
    match m with
    | .patterns => Comparison.ofOrdered kind column v
    | .lowering => .ok (.ofText kind v)
    | .none => .error .unsupported

end Matcher

end Sift
