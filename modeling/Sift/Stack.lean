import Sift.Error.Fault

/-!
# Frames of a stack

A request may be nested as deep as its sender likes, but the stack that it is compiled on has only so many frames. A
filter inside of a filter takes some of them, and so does an array or an object that the wording of an error shows. What
only the depth of a request decides is counted here; the few calls that every request makes are not. A request that
needs more frames than there are is not rejected, but ends with a fault.
-/

namespace Sift

/-- The frames of a stack that nobody has made larger. -/
def usualFrames : Nat := 1000

/-- Goes one frame down, and on with those that are left. -/
def enter {α : Type} (room : Nat) (go : Nat → Except Fault α) : Except Fault α :=
  match room with
  | 0 => .error (.exhausted false)
  | left + 1 => go left

namespace Value

mutual
/-- How deep arrays and objects are nested in a value. -/
def depth : Value → Nat
  | .list vs | .tuple vs => itemDepth vs + 1
  | .object entries => entryDepth entries + 1
  | .mapping x y z => max (depth x) (max (depth y) (depth z)) + 1
  | _ => 0

def itemDepth : List Value → Nat
  | [] => 0
  | v :: vs => max (depth v) (itemDepth vs)

def entryDepth : List (Value × Value) → Nat
  | [] => 0
  | (key, v) :: rest => max (max (depth key) (depth v)) (entryDepth rest)
end

end Value

/-- The depth of the value that the wording of a request error shows. -/
def Fault.shownDepth : Fault → Nat
  | .query (.typeMismatch _ _ v _) | .query (.malformedSpec (.direction v)) => v.depth
  | _ => 0

def shownDepth {α : Type} : Except Fault α → Nat
  | .error fault => fault.shownDepth
  | .ok _ => 0

/-- What comes out where an error is put into words with some frames left. -/
def worded {α : Type} (room : Nat) (x : Except Fault α) : Except Fault α :=
  if shownDepth x ≤ room then x else .error (.exhausted true)

end Sift
