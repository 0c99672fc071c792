import Sift.Number.Binary64

/-!
# The shortest decimal text of a number

A number is written with the fewest digits that read back to it, and among those with the digits nearest to it.
Whole numbers keep a `.0`; the exponent form is used below `1e-04` and from `1e+16` on.
-/

namespace Sift.Binary64

/-- The integer `k` with `10 ^ (k - 1) ≤ num / den < 10 ^ k`, for positive operands. -/
def decimalOrder (num den : Nat) : Int :=
  let k : Int := ((toString num).length : Int) - (toString den).length
  if den * tenTo k.toNat ≤ num * tenTo (-k).toNat then k + 1 else k

/-- The nearer of the two decimals with `digits` digits around `num / den` that reads back as `x`, as a coefficient
and a power of ten. -/
def roundTrip? (x : Binary64) (num den digits : Nat) : Option (Nat × Int) :=
  let shift := decimalOrder num den - digits
  let top := num * tenTo (-shift).toNat
  let bottom := den * tenTo shift.toNat
  let low := top / bottom
  let rest := top % bottom
  let lowReads := ofDecimal false low shift = x
  let highReads := ofDecimal false (low + 1) shift = x
  if lowReads && (!highReads || 2 * rest < bottom || (2 * rest = bottom && low % 2 = 0)) then some (low, shift)
  else if highReads then some (low + 1, shift)
  else none

/-- The coefficient and the power of ten of the shortest decimal that reads back as a positive number. -/
def shortest (m : Nat) (e : Int) : Nat × Int :=
  let num := m * twoTo e.toNat
  let den := twoTo (-e).toNat
  ((List.range' 1 17).findSome? fun digits => roundTrip? (.finite false m e) num den digits).getD (m, e)

/-- A decimal without the zeros at the end of its coefficient. -/
def stripZeros : Nat → Nat × Int → Nat × Int
  | 0, d => d
  | fuel + 1, (c, x) => if c % 10 = 0 then stripZeros fuel (c / 10, x + 1) else (c, x)

/-- Digits with a point after the first `point` of them, filled up with zeros on either side. -/
def positional (digits : String) (point : Int) : String :=
  let n : Int := digits.length
  let zeros (k : Int) : String := String.ofList (List.replicate k.toNat '0')
  if point ≤ 0 then "0." ++ zeros (-point) ++ digits
  else if n ≤ point then digits ++ zeros (point - n) ++ ".0"
  else String.ofList (digits.toList.take point.toNat) ++ "." ++ String.ofList (digits.toList.drop point.toNat)

/-- Digits with a point after the first one and a signed power of ten of at least two digits. -/
def scientific (digits : String) (power : Int) : String :=
  let mantissa := match digits.toList with
    | [] => ""
    | [c] => String.ofList [c]
    | c :: cs => String.ofList (c :: '.' :: cs)
  let size := toString power.natAbs
  mantissa ++ "e" ++ (if power < 0 then "-" else "+") ++ (if size.length < 2 then "0" ++ size else size)

def text : Binary64 → String
  | .nan _ => "nan"
  | .infinite negative => if negative then "-inf" else "inf"
  | .finite negative m e =>
    let sign := if negative then "-" else ""
    if m = 0 then sign ++ "0.0"
    else
      let (c, x) := stripZeros 20 (shortest m e)
      let digits := toString c
      let point := digits.length + x
      sign ++ if -4 < point && point ≤ 16 then positional digits point else scientific digits (point - 1)

end Sift.Binary64
