import Sift.Number.Shortest

/-!
# The brief decimal text of a number

A number is written with fifteen digits at most, a half rounded away from zero, and with one digit after the point at
least. The exponent form is used below `1.0e-04` and from `1.0e+15` on.
-/

namespace Sift.Binary64

/-- The number of digits that are kept. -/
def briefDigits : Nat := 15

/-- The coefficient and the power of ten of a positive number cut to the digits that are kept. -/
def briefly (m : Nat) (e : Int) : Nat × Int :=
  let num := m * twoTo e.toNat
  let den := twoTo (-e).toNat
  let shift := decimalOrder num den - briefDigits
  let bottom := den * tenTo shift.toNat
  ((2 * num * tenTo (-shift).toNat + bottom) / (2 * bottom), shift)

def briefText : Binary64 → String
  | .nan _ => ""
  | .infinite negative => if negative then "-Inf" else "Inf"
  | .finite negative m e =>
    if m = 0 then "0.0"
    else
      let (c, x) := stripZeros 20 (briefly m e)
      let digits := toString c
      let point := digits.length + x
      let body :=
        if -4 < point && point ≤ briefDigits then positional digits point
        else scientific (if digits.length < 2 then digits ++ "0" else digits) (point - 1)
      (if negative then "-" else "") ++ body

end Sift.Binary64
