import Sift.Number.Binary64

/-!
# Decimal numbers

A decimal number remembers the digits it was written with: `1.50` and `1.5` have one value and two texts.
-/

namespace Sift

inductive Decimal where
  /-- The number `coefficient * 10 ^ exponent` with the given sign. -/
  | finite (negative : Bool) (coefficient : Nat) (exponent : Int)
  | infinite (negative : Bool)
  /-- Not a number; a signalling one refuses every operation. The payload is kept as written, and two of them are the
  same only if they come from one place. -/
  | nan (negative signalling : Bool) (payload : String) (origin : Nat)
  deriving DecidableEq, Repr

namespace Decimal

/-- The text of a number: positional as long as few zeros have to be filled in. -/
def text : Decimal → String
  | .nan negative signalling payload _ =>
    (if negative then "-" else "") ++ (if signalling then "sNaN" else "NaN") ++ payload
  | .infinite negative => if negative then "-Infinity" else "Infinity"
  | .finite negative c x =>
    let digits := toString c
    let n : Int := digits.length
    let left := x + n
    let point := if x ≤ 0 && -6 < left then left else 1
    let zeros (k : Int) : String := String.ofList (List.replicate k.toNat '0')
    let body :=
      if point ≤ 0 then "0." ++ zeros (-point) ++ digits
      else if n ≤ point then digits ++ zeros (point - n)
      else String.ofList (digits.toList.take point.toNat) ++ "." ++ String.ofList (digits.toList.drop point.toNat)
    let power := left - point
    let tail := if power = 0 then "" else "E" ++ (if power < 0 then "-" else "+") ++ toString power.natAbs
    (if negative then "-" else "") ++ body ++ tail

end Decimal

end Sift
