import Sift.Number.Shortest
import Sift.Number.Size

/-!
# Arithmetic

Products and quotients of binary and of decimal numbers, and the integers around them. Every result is the exact one,
rounded once: to 53 bits for binary numbers, to 28 digits for decimal ones, a half to the even neighbour.
-/

namespace Sift

/-- Why numbers have no product, no quotient or no integer. -/
inductive ArithmeticFault where
  | tooLarge
  /-- "Not a number" is no integer. -/
  | noInteger (decimal : Bool)
  /-- Decimal numbers for which an operation is not defined. -/
  | undefined
  /-- Kinds of numbers that do not go together. -/
  | mixed
  /-- A decimal number beyond the largest power of ten. -/
  | unbounded
  deriving DecidableEq, Repr

namespace Binary64

def times : Binary64 → Binary64 → Binary64
  | .nan o, _ | _, .nan o => .nan o
  | .infinite a, .infinite b => .infinite (a != b)
  | .infinite a, .finite b n _ | .finite b n _, .infinite a => if n = 0 then .nan 0 else .infinite (a != b)
  | .finite a m x, .finite b n y =>
    ofRatio (a != b) (m * n * twoTo (x + y).toNat) (twoTo (-(x + y)).toNat)

/-- The quotient of a number and one that is not zero. -/
def dividedBy : Binary64 → Binary64 → Binary64
  | .nan o, _ | _, .nan o => .nan o
  | .infinite _, .infinite _ => .nan 0
  | .infinite a, .finite b .. => .infinite (a != b)
  | .finite a .., .infinite b => zero (a != b)
  | .finite a m x, .finite b n y =>
    ofRatio (a != b) (m * twoTo (x - y).toNat) (n * twoTo (y - x).toNat)

def ofInt? (n : Int) : Except ArithmeticFault Binary64 :=
  match ofInt n with
  | .infinite _ => .error .tooLarge
  | x => .ok x

/-- The integer that is left when the fraction is dropped. -/
def truncated : Binary64 → Except ArithmeticFault Int
  | .nan _ => .error (.noInteger false)
  | .infinite _ => .error .tooLarge
  | .finite negative m e =>
    let n : Int := m * twoTo e.toNat / twoTo (-e).toNat
    .ok (if negative then -n else n)

/-- The least integer that is not below a number. -/
def ceiling (x : Binary64) : Except ArithmeticFault Int :=
  match x.ceil? with
  | some n => .ok n
  | none => .error (match x with | .nan _ => .noInteger false | _ => .tooLarge)

end Binary64

namespace Decimal

/-- The number of digits that results have. -/
def precision : Nat := 28

/-- The number `num / den * 10 ^ exponent`, rounded. -/
def ofRatio (negative : Bool) (num den : Nat) (exponent : Int) : Decimal :=
  if num = 0 then .finite negative 0 exponent
  else
    let shift := Binary64.decimalOrder num den - precision
    let c := roundedQuotient (num * tenTo (-shift).toNat) (den * tenTo shift.toNat)
    if c = tenTo precision then .finite negative (tenTo (precision - 1)) (exponent + shift + 1)
    else .finite negative c (exponent + shift)

/-- A coefficient that is short enough is left as it is. -/
def rounded (negative : Bool) (coefficient : Nat) (exponent : Int) : Decimal :=
  if (toString coefficient).length ≤ precision then .finite negative coefficient exponent
  else ofRatio negative coefficient 1 exponent

/-- The largest power of ten that the first digit of a result may stand for. -/
def largestPower : Int := 999999

/-- The power of ten that the last digit of the smallest result stands for. -/
def leastPower : Int := 1 - largestPower - (precision : Int)

/-- A result with a power of ten that is not too small, and none that is too large. -/
def bounded : Decimal → Except ArithmeticFault Decimal
  | .finite negative 0 x => .ok (.finite negative 0 (max leastPower (min largestPower x)))
  | .finite negative c x =>
    let order := Size.order c x
    if largestPower < order - 1 then .error .unbounded
    else if leastPower ≤ x then .ok (.finite negative c x)
    else if order < leastPower then .ok (.finite negative 0 leastPower)
    else .ok (.finite negative (roundedQuotient c (tenTo (leastPower - x).toNat)) leastPower)
  | d => .ok d

def ofInt (n : Int) : Decimal := .finite (n < 0) n.natAbs 0

/-- Operands that are not numbers: a signalling one refuses the operation, any other is its result. -/
def unlessNan (a b : Decimal) (result : Except ArithmeticFault Decimal) : Except ArithmeticFault Decimal :=
  match a, b with
  | .nan _ true _ _, _ | _, .nan _ true _ _ => .error .undefined
  | .nan n s p o, _ | _, .nan n s p o => .ok (.nan n s p o)
  | _, _ => result

def times (a b : Decimal) : Except ArithmeticFault Decimal :=
  unlessNan a b <|
    match a, b with
    | .finite s c x, .finite t d y => bounded (rounded (s != t) (c * d) (x + y))
    | .infinite s, .infinite t => .ok (.infinite (s != t))
    | .infinite s, .finite t c _ | .finite t c _, .infinite s =>
      if c = 0 then .error .undefined else .ok (.infinite (s != t))
    | _, _ => .error .undefined

def dividedBy (a b : Decimal) : Except ArithmeticFault Decimal :=
  unlessNan a b <|
    match a, b with
    | .finite s c x, .finite t d y => bounded (ofRatio (s != t) c d (x - y))
    | .infinite s, .finite t .. => .ok (.infinite (s != t))
    | .finite s .., .infinite t => .ok (.finite (s != t) 0 0)
    | _, _ => .error .undefined

/-- The integers next to a number that is not an integer, or the integer it is: the one toward zero, and how far the
one away from zero is from it. Nothing is computed for the digits of a tiny number. -/
def whole (coefficient : Nat) (exponent : Int) : Nat × Nat :=
  if 0 ≤ exponent then (coefficient * tenTo exponent.toNat, 0)
  else if coefficient = 0 then (0, 0)
  else if Size.order coefficient exponent ≤ 0 then (0, 1)
  else
    let den := tenTo (-exponent).toNat
    (coefficient / den, if coefficient % den = 0 then 0 else 1)

def truncated : Decimal → Except ArithmeticFault Int
  | .nan .. => .error (.noInteger true)
  | .infinite _ => .error .tooLarge
  | .finite negative c x =>
    let n : Int := (whole c x).1
    .ok (if negative then -n else n)

def ceiling : Decimal → Except ArithmeticFault Int
  | .nan .. => .error (.noInteger true)
  | .infinite _ => .error .tooLarge
  | .finite negative c x =>
    let (n, more) := whole c x
    .ok (if negative then -(n : Int) else n + more)

end Decimal

end Sift
