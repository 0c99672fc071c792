import Sift.Number.Binary64
import Sift.Number.Decimal
import Sift.Text.Blank
import Sift.Text.Casing
import Sift.Text.Digit

/-!
# Numerals

Readers of written numbers. Digits may be of any script, and one underscore may stand between two digits. The
readers take a text without blanks around it.
-/

namespace Sift.Numeral

open Text

/-- Why a text is not the numeral of an integer. -/
inductive Fault where
  | malformed
  /-- More digits than the reader accepts; it counts them before it looks at what follows. -/
  | tooLong (digits : Nat)
  deriving DecidableEq, Repr

/-- The largest number of digits that an integer may be written with. -/
def maxDigits : Nat := 4300

/-- A blank that may stand around a numeral: any but the four information separators. -/
def isMargin (c : Char) : Bool := isBlank c && !(28 ≤ c.toNat && c.toNat ≤ 31)

/-- A numeral without the blanks around it. -/
def bare (cs : List Char) : List Char :=
  ((cs.dropWhile isMargin).reverse.dropWhile isMargin).reverse

/-- The digits that follow a digit, and the rest. An underscore must have a digit after it. -/
def moreDigits : List Char → Option (List Nat × List Char)
  | [] => some ([], [])
  | c :: cs =>
    if c = '_' then
      match cs with
      | [] => none
      | c' :: cs' =>
        match digitValue? c' with
        | some d => (moreDigits cs').map fun (ds, rest) => (d :: ds, rest)
        | none => none
    else
      match digitValue? c with
      | some d => (moreDigits cs).map fun (ds, rest) => (d :: ds, rest)
      | none => some ([], c :: cs)

/-- The digits at the front, possibly none, and the rest; nothing when an underscore is misplaced. -/
def digitRun : List Char → Option (List Nat × List Char)
  | [] => some ([], [])
  | c :: cs =>
    match digitValue? c with
    | some d => (moreDigits cs).map fun (ds, rest) => (d :: ds, rest)
    | none => if c = '_' then none else some ([], c :: cs)

/-- A sign at the front, as "is it negative", and the rest. -/
def sign : List Char → Bool × List Char
  | '-' :: cs => (true, cs)
  | '+' :: cs => (false, cs)
  | cs => (false, cs)

/-- The integer that a numeral writes. -/
def int (cs : List Char) : Except Fault Int :=
  let (negative, body) := sign cs
  match digitRun body with
  | none => .error .malformed
  | some (ds, rest) =>
    if maxDigits < ds.length then .error (.tooLong ds.length)
    else if ds.isEmpty || !rest.isEmpty then .error .malformed
    else
      let n : Int := ofDigits ds
      .ok (if negative then -n else n)

/-- The digits of a fraction after its point, and the rest. -/
def fraction : List Char → Option (List Nat × List Char)
  | '.' :: cs => digitRun cs
  | cs => some ([], cs)

/-- The power of ten at the end of a numeral. -/
def power : List Char → Option Int
  | [] => some 0
  | c :: cs =>
    if c = 'e' || c = 'E' then
      let (negative, body) := sign cs
      match digitRun body with
      | some (d :: ds, []) =>
        let n : Int := ofDigits (d :: ds)
        some (if negative then -n else n)
      | _ => none
    else none

/-- The coefficient and the power of ten of an unsigned decimal numeral. -/
def unsigned (cs : List Char) : Option (Nat × Int) := do
  let (whole, rest) ← digitRun cs
  let (part, rest) ← fraction rest
  if whole.isEmpty && part.isEmpty then none
  else
    let x ← power rest
    some (ofDigits (whole ++ part), x - part.length)

/-- The number nearest to what a numeral writes; the words for infinity and for "not a number" are numerals too. -/
def binary64? (cs : List Char) : Option Binary64 :=
  let (negative, body) := sign cs
  let word := String.ofList (body.map asciiLower)
  if word = "inf" || word = "infinity" then some (.infinite negative)
  else if word = "nan" then some (.nan 0)
  else (unsigned body).map fun (c, x) => Binary64.ofDecimal negative c x

/-- The decimal number that a text writes. Underscores are ignored here. -/
def decimal? (cs : List Char) : Option Decimal :=
  let (negative, body) := sign ((trim cs).filter (· ≠ '_'))
  let lower := body.map asciiLower
  let payload? (tail : List Char) : Option String :=
    match digitRun tail with
    | some (ds, []) => some (if ds.all (· = 0) then "" else toString (ofDigits ds))
    | _ => none
  let word := String.ofList lower
  if word = "inf" || word = "infinity" then some (.infinite negative)
  else
    match lower with
    | 'n' :: 'a' :: 'n' :: tail => (payload? tail).map (.nan negative false · 0)
    | 's' :: 'n' :: 'a' :: 'n' :: tail => (payload? tail).map (.nan negative true · 0)
    | _ => (unsigned body).map fun (c, x) => .finite negative c x

end Sift.Numeral
