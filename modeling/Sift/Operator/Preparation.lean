import Sift.Operator.Basic
import Sift.Schema.Coercion
import Sift.Text.Split

/-!
# Preparing values

Before a store sees a value, the operator has accepted the column and the value has become one of the column's type.
-/

namespace Sift

/-- The items of an array, or of a text with commas between them; anything else is its own only item. -/
def splitList : Value → List Value
  | .list items | .tuple items => items
  | .mapping x y z => [x, y, z]
  | .text s => ((Text.pieces ',' s).map Text.trimmed).filterMap fun item =>
      if item.isEmpty then none else some (.text item)
  | v => [v]

namespace Operator

/-- Makes a pattern of a text, where the operator asks for one. A date or a moment of a request is refused as
something that no pattern can be made of; that an operator looks for any other kind of value is a mistake of the
configuration. -/
def pattern (op : Operator) (field : String) (v : Value) : Except Fault Value :=
  match op.place, v with
  | none, v => .ok v
  | some place, .text s => .ok (.text (place.around (Pattern.escaped s)))
  | some _, .date _ | some _, .moment _ => .error (.query (.typeMismatch field op.token v .patternOfCalendar))
  | some _, _ => .error .noMember

/-- The value to compare a column with. -/
def prepare (op : Operator) (field : String) (type : ColumnType) (v : Value) : Except Fault Value :=
  let refuse (reason : Mismatch) : Except Fault Value := .error (.query (.typeMismatch field op.token v reason))
  let coerced {α : Type} (result : Except Mismatch α) : Except Fault α :=
    result.mapError fun reason => .query (.typeMismatch field op.token v reason)
  if op.textOnly.truthy && type ≠ .text then refuse .textColumnsOnly
  else if op.booleanOnly.truthy && type ≠ .boolean then refuse .booleanColumnsOnly
  else
    match op.literal, v with
    | .null, .null => if op.nullable.truthy then .ok .null else refuse .valueRequired
    | .null, v =>
      if op.takesList.truthy then .tuple <$> coerced ((splitList v).mapM type.coerce)
      else
        match v with
        | .list _ | .tuple _ | .mapping .. | .object _ => refuse .scalarExpected
        | v => do op.pattern field (← coerced (type.coerce v))
    | literal, _ => .ok literal

end Operator

end Sift
