/-!
# Sorting

Sorting by a test of which of two items may come first. Items that may come in either order keep the order they have.
-/

namespace Sift

/-- Puts an item before the first one that it may come before. -/
def insertBy {α : Type} (first : α → α → Bool) (a : α) : List α → List α
  | [] => [a]
  | b :: bs => if first a b then a :: b :: bs else b :: insertBy first a bs

def sortBy {α : Type} (first : α → α → Bool) : List α → List α
  | [] => []
  | a :: as => insertBy first a (sortBy first as)

theorem insertBy_perm {α : Type} (first : α → α → Bool) (a : α) (l : List α) :
    (insertBy first a l).Perm (a :: l) := by
  induction l with
  | nil => exact List.Perm.refl _
  | cons b bs ih =>
    simp only [insertBy]
    split
    · exact List.Perm.refl _
    · exact (ih.cons b).trans (List.Perm.swap a b bs)

/-- Sorting only reorders. -/
theorem sortBy_perm {α : Type} (first : α → α → Bool) (l : List α) : (sortBy first l).Perm l := by
  induction l with
  | nil => exact List.Perm.refl _
  | cons a as ih => exact (insertBy_perm first a _).trans (ih.cons a)

theorem mem_sortBy {α : Type} {first : α → α → Bool} {a : α} {l : List α} : a ∈ sortBy first l ↔ a ∈ l :=
  (sortBy_perm first l).mem_iff

theorem pairwise_insertBy {α : Type} {first : α → α → Bool}
    (total : ∀ a b, first a b = false → first b a = true)
    (trans : ∀ a b c, first a b = true → first b c = true → first a c = true) (a : α) {l : List α}
    (h : l.Pairwise (first · · = true)) : (insertBy first a l).Pairwise (first · · = true) := by
  induction l with
  | nil => exact List.pairwise_singleton _ _
  | cons b bs ih =>
    obtain ⟨hb, hbs⟩ := List.pairwise_cons.mp h
    simp only [insertBy]
    split
    · rename_i hab
      refine List.pairwise_cons.mpr ⟨?_, h⟩
      intro c hc
      rcases List.mem_cons.mp hc with rfl | hc
      · exact hab
      · exact trans a b c hab (hb c hc)
    · rename_i hab
      refine List.pairwise_cons.mpr ⟨?_, ih hbs⟩
      intro c hc
      rcases List.mem_cons.mp ((insertBy_perm first a bs).mem_iff.mp hc) with rfl | hc
      · exact total c b (Bool.eq_false_iff.mpr hab)
      · exact hb c hc

/-- Where of two items one may always come first, and the test is transitive, no item of a sorted list stands before
one that may come first. -/
theorem pairwise_sortBy {α : Type} {first : α → α → Bool}
    (total : ∀ a b, first a b = false → first b a = true)
    (trans : ∀ a b c, first a b = true → first b c = true → first a c = true) (l : List α) :
    (sortBy first l).Pairwise (first · · = true) := by
  induction l with
  | nil => exact List.Pairwise.nil
  | cons a as ih => exact pairwise_insertBy total trans a ih

end Sift
