/-!
# Counted pages

A page of rows together with the number of all rows that match. Every row of the page tells the total; only when the
page is empty, and rows may have been left out before it, does the total take a statement of its own.
-/

namespace Sift

/-- A page of rows with the number of rows on all pages. -/
structure CountedPage (α : Type) where
  rows : List α
  count : Nat
  /-- The number of statements that were run. -/
  statements : Nat

namespace CountedPage

/-- The first rows, as many as the limit says. A negative limit is none. -/
def limited {α : Type} (limit : Option Int) (rows : List α) : List α :=
  match limit with
  | some n => if n < 0 then rows else rows.take n.toNat
  | none => rows

/-- The page that a limit and an offset cut out of the matching rows. -/
def load {α : Type} (limit offset : Option Int) (found : List α) : CountedPage α :=
  let rows := limited limit (found.drop (offset.getD 0).toNat)
  if !rows.isEmpty then ⟨rows, found.length, 1⟩
  else if offset.isSome then ⟨[], found.length, 2⟩
  else ⟨[], 0, 1⟩

end CountedPage

end Sift
