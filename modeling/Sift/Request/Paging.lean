import Sift.Number.Numeral
import Sift.Request.Quantity
import Sift.Text.Blank

/-!
# Paging

A page is a number, from one on, and a size. What is missing or makes no sense falls back to the defaults, and no page
is larger than the largest size. The number of pages is a quotient, rounded up.
-/

namespace Sift

structure Page where
  number : Int
  size : Quantity
  deriving DecidableEq, Repr

namespace Page

/-- The largest number of rows on the page. -/
def limit (p : Page) : Quantity := p.size

/-- The number of rows before the page. -/
def offset (p : Page) : Except Fault Quantity := p.size.times (p.number - 1)

/-- The number of pages that some rows fill, which is one at least. -/
def total (p : Page) (count : Value) : Except Fault Int := do
  return max 1 (← (← Quantity.ofValue count).fills p.size)

end Page

/-- The positive integer that a value stands for. -/
def positive? (v : Value) : Option Int :=
  let n? : Option Int :=
    match v with
    | .int n => some n
    | .float x => x.toInt?
    | .text s => (Numeral.int (Text.trim s.toList)).toOption
    | _ => none
  n?.filter (1 ≤ ·)

/-- The sizes that pages may have. -/
structure PageSizes where
  default : Quantity
  largest : Option Quantity := none
  deriving DecidableEq, Repr

namespace PageSizes

/-- A size that has to be positive. -/
def size (v : Value) : Except Fault Quantity := do
  (← Quantity.ofValue v).requirePositive

/-- The sizes from their settings. The size of an entity goes before the default one. -/
def ofValues (default entity largest : Value) : Except Fault PageSizes := do
  let default ← size (if entity.truthy then entity else default)
  let largest ← match largest with
    | .null => pure none
    | v => some <$> size v
  return { default, largest }

/-- A size cut down to the largest one. -/
def cut (s : PageSizes) (q : Quantity) : Quantity :=
  match s.largest with
  | some most => if q.before most then q else most
  | none => q

def compile (s : PageSizes) (v : Value) : Except Fault Page := do
  let row ← match v with
    | .null => pure []
    | .object entries => pure entries
    | v => throw (.malformed (.notObject "paging" v.kindName))
  let number := (positive? (Row.get "page" row)).getD 1
  let wanted := if Row.contains "size" row then Row.get "size" row else Row.get "page_size" row
  return ⟨number, s.cut ((positive? wanted).elim s.default .whole)⟩

end PageSizes

end Sift
