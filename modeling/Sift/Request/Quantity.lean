import Sift.Error.Fault

/-!
# Quantities

Sizes and counts may be numbers of any kind, and stay what they are: a size of two and a half rows is shown as such,
and its pages start where the exact or the rounded product says. Only a store asks for whole numbers.
-/

namespace Sift

/-- A number of any kind. A truth value counts as 0 or 1. -/
inductive Quantity where
  | flag (b : Bool)
  | whole (n : Int)
  | binary (x : Binary64)
  | decimal (d : Decimal)
  deriving DecidableEq, Repr

namespace Quantity

/-- The quantity that a value is. -/
def ofValue : Value → Except Fault Quantity
  | .bool b => .ok (.flag b)
  | .int n => .ok (.whole n)
  | .float x => .ok (.binary x)
  | .decimal d => .ok (.decimal d)
  | _ => .error .wrongKind

def toValue : Quantity → Value
  | .flag b => .bool b
  | .whole n => .int n
  | .binary x => .float x
  | .decimal d => .decimal d

/-- The exact size of a quantity. -/
def size? (q : Quantity) : Option Size := q.toValue.size?

/-- Is the first quantity smaller than the second? What is not a number is not. -/
def before (q r : Quantity) : Bool :=
  match q.size?, r.size? with
  | some a, some b => a.before b
  | _, _ => false

/-- Refuses a quantity that is not positive. -/
def requirePositive (q : Quantity) : Except Fault Quantity :=
  match q with
  | .decimal (.nan ..) => .error .undecided
  | q => if (whole 0).before q then .ok q else .error .brokenPremise

/-- The integer that is left when the fraction is dropped. -/
def truncated : Quantity → Except Fault Int
  | .flag b => .ok (if b then 1 else 0)
  | .whole n => .ok n
  | .binary x => x.truncated.mapError Fault.ofArithmetic
  | .decimal d => d.truncated.mapError Fault.ofArithmetic

/-- So many times a quantity. -/
def times (n : Int) (q : Quantity) : Except Fault Quantity :=
  Except.mapError Fault.ofArithmetic <|
    match q with
    | .flag b => .ok (.whole (if b then n else 0))
    | .whole m => .ok (.whole (n * m))
    | .binary x => do return .binary ((← Binary64.ofInt? n).times x)
    | .decimal d => do return .decimal (← (Decimal.ofInt n).times d)

/-- The integer among the quantities that are integers. -/
def integer? : Quantity → Option Int
  | .flag b => some (if b then 1 else 0)
  | .whole n => some n
  | _ => none

def ratio (n m : Int) : Except ArithmeticFault Binary64 :=
  match Binary64.ofRatio ((n < 0) != (m < 0)) n.natAbs m.natAbs with
  | .infinite _ => .error .tooLarge
  | x => .ok x

/-- The quotient of a quantity and a positive one, rounded up to an integer. Binary and decimal numbers have none. -/
def fills (count size : Quantity) : Except Fault Int :=
  Except.mapError Fault.ofArithmetic <|
    match count, size with
    | .binary x, .binary y => (x.dividedBy y).ceiling
    | .decimal d, .decimal e => d.dividedBy e >>= Decimal.ceiling
    | .binary _, .decimal _ | .decimal _, .binary _ => .error .mixed
    | .binary x, q => do (x.dividedBy (← Binary64.ofInt? (q.integer?.getD 1))).ceiling
    | .decimal d, q => d.dividedBy (.ofInt (q.integer?.getD 1)) >>= Decimal.ceiling
    | q, .binary y => do ((← Binary64.ofInt? (q.integer?.getD 0)).dividedBy y).ceiling
    | q, .decimal e => (Decimal.ofInt (q.integer?.getD 0)).dividedBy e >>= Decimal.ceiling
    | q, r => ratio (q.integer?.getD 0) (r.integer?.getD 1) >>= Binary64.ceiling

end Quantity

end Sift
