import Sift.Number.Power

/-!
# Binary floating-point numbers

A 64-bit floating-point number is kept by its meaning, a sign, a mantissa and a power of two, so that every
operation on it is exact arithmetic on natural numbers followed by one rounding. Finite numbers are kept in one
form: the mantissa has 53 bits, unless the exponent is the smallest one.
-/

namespace Sift

inductive Binary64 where
  /-- Not a number. Two of them are the same only if they come from one place. -/
  | nan (origin : Nat)
  | infinite (negative : Bool)
  /-- The number `mantissa * 2 ^ exponent` with the given sign. -/
  | finite (negative : Bool) (mantissa : Nat) (exponent : Int)
  deriving DecidableEq, Repr

/-- A quotient rounded to the nearest natural number, a half to the even neighbour. -/
def roundedQuotient (num den : Nat) : Nat :=
  let q := num / den
  let r := num % den
  if 2 * r < den then q
  else if den < 2 * r then q + 1
  else if q % 2 = 0 then q else q + 1

namespace Binary64

/-- The exponent of the smallest positive number, and of zero. -/
def minExponent : Int := -1074

/-- The largest exponent of a finite number. -/
def maxExponent : Int := 971

/-- The integer `e` with `2 ^ e ≤ num / den < 2 ^ (e + 1)`, for positive operands. -/
def binaryOrder (num den : Nat) : Int :=
  let e : Int := (num.log2 : Int) - den.log2
  if den * twoTo e.toNat ≤ num * twoTo (-e).toNat then e else e - 1

/-- Zero of either sign. -/
def zero (negative : Bool) : Binary64 := .finite negative 0 minExponent

/-- The number nearest to `num / den`, a half to the even mantissa; too large a quotient is infinite. -/
def ofRatio (negative : Bool) (num den : Nat) : Binary64 :=
  if num = 0 then zero negative
  else
    let e := max minExponent (binaryOrder num den - 52)
    let m := roundedQuotient (num * twoTo (-e).toNat) (den * twoTo e.toNat)
    let (m, e) := if m = twoTo 53 then (twoTo 52, e + 1) else (m, e)
    if maxExponent < e then .infinite negative else .finite negative m e

/-- The number nearest to `coefficient * 10 ^ exponent`. Far outside the range no power of ten is computed. -/
def ofDecimal (negative : Bool) (coefficient : Nat) (exponent : Int) : Binary64 :=
  let size : Int := (toString coefficient).length + exponent
  if coefficient = 0 || size < -400 then zero negative
  else if 400 < size then .infinite negative
  else ofRatio negative (coefficient * tenTo exponent.toNat) (tenTo (-exponent).toNat)

def ofInt (n : Int) : Binary64 := ofRatio (n < 0) n.natAbs 1

/-- Neither infinite nor not a number. -/
def isFinite : Binary64 → Bool
  | .finite .. => true
  | _ => false

/-- The exact value of a finite number. -/
def toRat? : Binary64 → Option Rat
  | .finite negative m e =>
    let n : Int := m * twoTo e.toNat
    some (mkRat (if negative then -n else n) (twoTo (-e).toNat))
  | _ => none

/-- The integer that a finite number is, if it is one. -/
def toInt? : Binary64 → Option Int
  | .finite negative m e =>
    let den := twoTo (-e).toNat
    if m % den = 0 then
      let n : Int := (m / den * twoTo e.toNat : Nat)
      some (if negative then -n else n)
    else none
  | _ => none

/-- The least integer that is not below a finite number. -/
def ceil? : Binary64 → Option Int
  | .finite negative m e =>
    let n : Int := m * twoTo e.toNat
    let den : Int := (twoTo (-e).toNat : Nat)
    some (if negative then -(n / den) else -((-n) / den))
  | _ => none

end Binary64

end Sift
