import Sift.Number.Binary64
import Sift.Number.Decimal

/-!
# Sizes

The exact size of a number of any kind, in one form: a coefficient that is no multiple of ten times a power of ten, so
that equal sizes are equal terms. No power of ten is computed that the digits of a number do not ask for.
-/

namespace Sift

inductive Size where
  /-- The number `coefficient * 10 ^ exponent`. -/
  | finite (coefficient exponent : Int)
  | infinite (negative : Bool)
  deriving DecidableEq, Repr

/-- A positive number without the zeros at its end, and how many there were. -/
def splitTens (n : Nat) : Nat × Nat :=
  if n ≠ 0 ∧ n % 10 = 0 then
    let (m, k) := splitTens (n / 10)
    (m, k + 1)
  else (n, 0)
termination_by n
decreasing_by omega

namespace Size

/-- The size of `coefficient * 10 ^ exponent` with the given sign. -/
def ofScaled (negative : Bool) (coefficient : Nat) (exponent : Int) : Size :=
  if coefficient = 0 then .finite 0 0
  else
    let (c, k) := splitTens coefficient
    .finite (if negative then -(c : Int) else c) (exponent + k)

def ofInt (n : Int) : Size := ofScaled (n < 0) n.natAbs 0

/-- The integer that a size is, if it is one. -/
def toInt? : Size → Option Int
  | .finite c x => if 0 ≤ x then some (c * tenTo x.toNat) else none
  | .infinite _ => none

/-- The place of the first digit of a number that is not zero. -/
def order (coefficient exponent : Int) : Int :=
  ((toString coefficient.natAbs).length : Int) + exponent

def before : Size → Size → Bool
  | .infinite a, .infinite b => a && !b
  | .infinite a, .finite .. => a
  | .finite .., .infinite b => !b
  | .finite c x, .finite d y =>
    if c.sign ≠ d.sign then c.sign < d.sign
    else if c = 0 then false
    else if order c x ≠ order d y then decide (order c x < order d y) != (c < 0)
    else
      let low := min x y
      decide (c * tenTo (x - low).toNat < d * tenTo (y - low).toNat)

end Size

/-- The size of a binary number; "not a number" has none. -/
def Binary64.size? : Binary64 → Option Size
  | .nan _ => none
  | .infinite negative => some (.infinite negative)
  | .finite negative m e =>
    if 0 ≤ e then some (.ofScaled negative (m * twoTo e.toNat) 0)
    else some (.ofScaled negative (m * Nat.pow 5 (-e).toNat) e)

/-- The size of a decimal number; "not a number" has none. -/
def Decimal.size? : Decimal → Option Size
  | .nan .. => none
  | .infinite negative => some (.infinite negative)
  | .finite negative c x => some (.ofScaled negative c x)

end Sift
