import Sift.Number.Brief
import Sift.Number.Numeral
import Sift.Operator.Kind
import Sift.Operator.Pattern
import Sift.Predicate.Truth
import Sift.Text.Casing

/-!
# Cells

What a store keeps under a column, and what it compares. Nothing comes first, then numbers by their exact size,
whatever their form, then texts character by character. Only the letters of ASCII have a case that can be ignored, and
patterns always ignore it.
-/

namespace Sift

inductive Cell where
  | null
  | integer (n : Int)
  | real (x : Binary64)
  | text (s : String)
  deriving DecidableEq

/-- The place of a cell among all cells. Cells with one place are equal. -/
inductive Rank where
  | nothing
  | lowest
  | number (q : Rat)
  | highest
  | text (s : String)
  deriving DecidableEq

def Rank.before : Rank → Rank → Bool
  | .nothing, r => r ≠ .nothing
  | .lowest, .number _ | .lowest, .highest | .lowest, .text _ => true
  | .number p, .number q => p < q
  | .number _, .highest | .number _, .text _ | .highest, .text _ => true
  | .text s, .text t => s < t
  | _, _ => false

/-- The least and the largest integer that a store keeps lie around zero. -/
def fitsStore (n : Int) : Bool :=
  let size : Int := twoTo 63
  decide (-size ≤ n) && n < size

namespace Cell

def rank : Cell → Rank
  | .null => .nothing
  | .integer n => .number n
  | .real (.infinite negative) => if negative then .lowest else .highest
  | .real x => x.toRat?.elim .nothing .number
  | .text s => .text s

def isNull (c : Cell) : Bool := c.rank = .nothing

def before (a b : Cell) : Bool := a.rank.before b.rank

def same (a b : Cell) : Bool := a.rank = b.rank

/-- The cell of a binary number; "not a number" is nothing. -/
def ofBinary : Binary64 → Cell
  | .nan _ => .null
  | x => .real x

/-- The text of a cell, where texts are asked for. -/
def shown : Cell → String
  | .null => ""
  | .integer n => toString n
  | .real x => x.briefText
  | .text s => s

/-! ## Numerals -/

/-- A blank that may stand around a numeral. -/
def isGap (c : Char) : Bool := c = ' ' || (9 ≤ c.toNat && c.toNat ≤ 13)

/-- The number that a text writes in full: an integer where it has neither point nor power and fits, else the nearest
binary number. Its digits are those of ASCII. -/
def numeral? (s : String) : Option Cell :=
  let trimmed := ((s.toList.dropWhile isGap).reverse.dropWhile isGap).reverse
  if trimmed.all fun c => c.toNat < 128 && c ≠ '_' then
    let (negative, body) := Numeral.sign trimmed
    (Numeral.unsigned body).map fun (c, x) =>
      let n : Int := if negative then -c else c
      if body.all Char.isDigit && fitsStore n then .integer n else .real (Binary64.ofDecimal negative c x)
  else none

/-! ## Comparisons -/

/-- A comparison that is unknown when either side holds nothing. -/
def compareWith (test : Cell → Cell → Bool) (a b : Cell) : Truth :=
  if a.isNull || b.isNull then .unknown else .ofBool (test a b)

def equal : Cell → Cell → Truth := compareWith same

/-- A text with the capitals of ASCII as small letters. -/
def small (s : String) : List Char := s.toList.map Text.asciiLower

/-- Equality of the texts of cells, without regard to the case of ASCII letters. -/
def equalText : Cell → Cell → Truth := compareWith fun a b => small a.shown = small b.shown

/-- Characters that a pattern does not tell apart. -/
def alike (c d : Char) : Bool := Text.asciiLower c = Text.asciiLower d

/-- A text as far as patterns look at it: up to the first null character. -/
def visible (s : String) : List Char := s.toList.takeWhile (·.toNat ≠ 0)

/-- Does the pattern match the text of the cell? -/
def like : Cell → Cell → Truth :=
  compareWith fun a pattern => Pattern.matchText alike (visible pattern.shown) (visible a.shown)

/-- Is the cell equal to any of some others? -/
def oneOf (c : Cell) : List Cell → Truth
  | [] => .no
  | d :: ds => (c.equal d).or (c.oneOf ds)

/-- The truth of a comparison of a cell with what is handed over for it: nothing, for the question whether the cell
holds anything; the items of a list; or one cell. -/
def satisfies (kind : OperatorKind) (c : Cell) (operands : List Cell) : Truth :=
  match kind, operands with
  | .oneOf, ds => c.oneOf ds
  | .notOneOf, ds => (c.oneOf ds).not
  | .neq, [] => .ofBool !c.isNull
  | _, [] => .ofBool c.isNull
  | kind, d :: _ =>
    match kind with
    | .eq | .oneOf | .notOneOf => c.equal d
    | .ieq => c.equalText d
    | .neq => .ofBool !c.same d
    | .gt => compareWith (fun a b => b.before a) c d
    | .gte => compareWith (fun a b => !a.before b) c d
    | .lt => compareWith (fun a b => a.before b) c d
    | .lte => compareWith (fun a b => !b.before a) c d
    | .like | .ilike => c.like d
    | .notLike | .notIlike => (c.like d).not

end Cell

end Sift
