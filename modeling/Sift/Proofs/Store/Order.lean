import Mathlib.Algebra.Order.Ring.Rat
import Mathlib.Data.String.Basic
import Sift.Store.Run

/-!
# The order of rows

The places of cells are linearly ordered, nothing first. So the terms of an ordering compare rows one after another: the
first term that tells two rows apart decides, in its own direction.
-/

namespace Sift

namespace Rank

variable {a b c : Rank}

theorem before_irrefl (a : Rank) : a.before a = false := by
  cases a <;> simp only [before, ne_eq, not_true_eq_false, decide_false, lt_irrefl]

theorem before_trans (hab : a.before b = true) (hbc : b.before c = true) : a.before c = true := by
  cases a <;> cases b <;> try cases hab
  all_goals cases c <;> try cases hbc
  case number.number.number => exact decide_eq_true ((of_decide_eq_true hab).trans (of_decide_eq_true hbc))
  case text.text.text => exact decide_eq_true ((of_decide_eq_true hab).trans (of_decide_eq_true hbc))
  all_goals rfl

theorem eq_of_not_before (hab : a.before b = false) (hba : b.before a = false) : a = b := by
  cases a <;> cases b
  case number.number =>
    exact congrArg number (le_antisymm (not_lt.mp (of_decide_eq_false hba)) (not_lt.mp (of_decide_eq_false hab)))
  case text.text =>
    exact congrArg text (le_antisymm (not_lt.mp (of_decide_eq_false hba)) (not_lt.mp (of_decide_eq_false hab)))
  -- of two kinds one comes first
  all_goals first
    | rfl
    | cases hab; done
    | cases hba

end Rank

/-- Does the term put the first of two cells before the second? -/
def OrderTerm.before (t : OrderTerm) (x y : Cell) : Bool :=
  match t.direction with
  | .ascending => x.before y
  | .descending => y.before x

namespace OrderTerm

variable {t : OrderTerm} {x y z : Cell}

theorem before_congr (h : x.rank = y.rank) (z : Cell) : t.before x z = t.before y z := by
  unfold before Cell.before
  rw [h]

theorem before_congr_right (x : Cell) (h : y.rank = z.rank) : t.before x y = t.before x z := by
  unfold before Cell.before
  rw [h]

theorem before_trans (hxy : t.before x y = true) (hyz : t.before y z = true) : t.before x z = true := by
  unfold before at hxy hyz ⊢
  cases ht : t.direction <;> simp only [ht] at hxy hyz ⊢
  · exact Rank.before_trans hxy hyz
  · exact Rank.before_trans hyz hxy

theorem before_of_rank_ne (hne : x.rank ≠ y.rank) (h : t.before x y = false) : t.before y x = true := by
  unfold before at h ⊢
  by_contra hyx
  rw [Bool.not_eq_true] at hyx
  cases ht : t.direction <;> simp only [ht] at h hyx
  · exact hne (Rank.eq_of_not_before h hyx)
  · exact hne (Rank.eq_of_not_before hyx h)

end OrderTerm

namespace Store

variable {α : Type} {cell : α → FieldRef → Cell} {terms : List OrderTerm} {a b c : α}

/-- Does the first of two items come no later than the second? The first term that tells them apart decides. -/
def inOrder (cell : α → FieldRef → Cell) (a b : α) : List OrderTerm → Bool
  | [] => true
  | t :: ts => t.before (cell a t.ref) (cell b t.ref) || ((cell a t.ref).same (cell b t.ref) && inOrder cell a b ts)

theorem inOrder_cons {t : OrderTerm} : inOrder cell a b (t :: terms) = true ↔
    t.before (cell a t.ref) (cell b t.ref) = true ∨
      (cell a t.ref).rank = (cell b t.ref).rank ∧ inOrder cell a b terms = true := by
  simp only [inOrder, Cell.same, Bool.or_eq_true, Bool.and_eq_true, decide_eq_true_eq]

theorem inOrder_total (h : inOrder cell a b terms = false) : inOrder cell b a terms = true := by
  induction terms with
  | nil => cases h
  | cons t ts ih =>
    rw [← Bool.not_eq_true, inOrder_cons, not_or, not_and, Bool.not_eq_true, Bool.not_eq_true] at h
    obtain ⟨hbefore, hrest⟩ := h
    rw [inOrder_cons]
    by_cases hrank : (cell a t.ref).rank = (cell b t.ref).rank
    · exact .inr ⟨hrank.symm, ih (hrest hrank)⟩
    · exact .inl (OrderTerm.before_of_rank_ne hrank hbefore)

theorem inOrder_trans (hab : inOrder cell a b terms = true) (hbc : inOrder cell b c terms = true) :
    inOrder cell a c terms = true := by
  induction terms with
  | nil => rfl
  | cons t ts ih =>
    rw [inOrder_cons] at hab hbc ⊢
    rcases hab with hab | ⟨hab, habs⟩
    · rcases hbc with hbc | ⟨hbc, -⟩
      · exact .inl (OrderTerm.before_trans hab hbc)
      · exact .inl (OrderTerm.before_congr_right _ hbc ▸ hab)
    · rcases hbc with hbc | ⟨hbc, hbcs⟩
      · exact .inl (OrderTerm.before_congr hab _ ▸ hbc)
      · exact .inr ⟨hab.trans hbc, ih habs hbcs⟩

theorem ordered_eq_inOrder (i j : Joined) (terms : List OrderTerm) :
    ordered i j terms = inOrder Joined.cell i j terms := by
  induction terms with
  | nil => rfl
  | cons t ts ih =>
    simp only [ordered, inOrder, ih, OrderTerm.before, Cell.before]
    by_cases hsame : (i.cell t.ref).same (j.cell t.ref) = true
    · have hrank : (i.cell t.ref).rank = (j.cell t.ref).rank := of_decide_eq_true hsame
      rw [if_pos hsame, hsame, hrank]
      cases t.direction <;> simp only [Rank.before_irrefl, Bool.false_or, Bool.true_and]
    · rw [Bool.not_eq_true] at hsame
      cases t.direction <;> simp only [hsame, Bool.false_eq_true, if_false, Bool.false_and, Bool.or_false]

end Store

end Sift
