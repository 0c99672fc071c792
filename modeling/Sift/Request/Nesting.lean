import Sift.Request.Filter
import Sift.Stack

/-!
# Nested filters

Compiling a filter goes down into it. A filter takes a frame of the stack, a connective takes one more and another one to
go through the filters it combines.
-/

namespace Sift

namespace FilterRules

mutual
/-- Compiles a filter on a stack with some frames left. -/
def compileWithin (r : FilterRules) (checked : Bool) (room : Nat) : Value → Except Fault Criteria
  | .null => enter room fun _ => .ok {}
  | .object entries => enter room fun room => .conj <$> compileEntriesWithin r checked room entries
  | v => enter room fun _ => .error (.malformed (.notObject r.place v.kindName))

def compileEntriesWithin (r : FilterRules) (checked : Bool) (room : Nat) :
    List (Value × Value) → Except Fault (List Criteria)
  | [] => .ok []
  | (key, v) :: rest => do
    let first ←
      match key with
      | .text "and" => .conj <$> compileOperandWithin r checked room "and" v
      | .text "or" => .disj <$> compileOperandWithin r checked room "or" v
      | name => worded room (r.compileField checked name v)
    return first :: (← compileEntriesWithin r checked room rest)

def compileOperandWithin (r : FilterRules) (checked : Bool) (room : Nat) (connective : String) :
    Value → Except Fault (List Criteria)
  | .list items | .tuple items => enter room fun room => enter room fun room => compileItemsWithin r checked room items
  | .mapping x y z =>
    enter room fun room => enter room fun room => do
      return [← compileWithin r checked room x, ← compileWithin r checked room y, ← compileWithin r checked room z]
  | _ => enter room fun _ => .error (.malformed (.notArray connective))

def compileItemsWithin (r : FilterRules) (checked : Bool) (room : Nat) : List Value → Except Fault (List Criteria)
  | [] => .ok []
  | v :: vs => do
    let first ← compileWithin r checked room v
    return first :: (← compileItemsWithin r checked room vs)
end

end FilterRules

end Sift
