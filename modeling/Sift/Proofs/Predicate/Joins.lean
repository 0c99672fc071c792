import Mathlib.Data.List.Sort
import Sift.Predicate.Criteria

/-!
# Sets of joins

Joins are kept in order and without repetitions, so two sets of joins with the same chains are the same list: adding
chains that are in order already puts each of them at the end.
-/

namespace Sift.Joins

variable {a b c : List String} {js ks : Joins}

/-! ## The order of chains -/

theorem before_cons_iff {s t : String} : before (s :: a) (t :: b) = true ↔ s < t ∨ s = t ∧ before a b = true := by
  rw [before]
  split
  · rename_i heq
    subst heq
    exact ⟨fun h => .inr ⟨rfl, h⟩, fun h => h.elim (fun hlt => absurd hlt (String.lt_irrefl s)) And.right⟩
  · rename_i hne
    simp [hne]

theorem before_trans (hab : before a b = true) (hbc : before b c = true) : before a c = true := by
  induction a generalizing b c with
  | nil =>
    match b, c, hab, hbc with
    | _ :: _, _ :: _, _, _ => rfl
  | cons s a ih =>
    match b, c, hab, hbc with
    | t :: b, u :: c, hab, hbc =>
      rw [before_cons_iff] at hab hbc ⊢
      rcases hab with hst | ⟨rfl, hab⟩
      · rcases hbc with htu | ⟨rfl, -⟩
        · exact .inl (String.lt_trans hst htu)
        · exact .inl hst
      · exact hbc.imp_right fun ⟨htu, hbc⟩ => ⟨htu, ih hab hbc⟩

theorem before_irrefl (a : List String) : ¬ before a a = true := by
  induction a with
  | nil => exact Bool.false_ne_true
  | cons s a ih =>
    rw [before_cons_iff]
    rintro (h | ⟨-, h⟩)
    · exact String.lt_irrefl s h
    · exact ih h

/-- Of two chains that differ one stands before the other. -/
theorem before_of_ne_of_not_before (hne : a ≠ b) (hab : ¬ before a b = true) : before b a = true := by
  induction a generalizing b with
  | nil =>
    cases b with
    | nil => exact absurd rfl hne
    | cons t b => exact absurd rfl hab
  | cons s a ih =>
    cases b with
    | nil => rfl
    | cons t b =>
      rw [before_cons_iff, not_or] at hab
      rw [before_cons_iff]
      by_cases hst : s = t
      · subst hst
        exact .inr ⟨rfl, ih (fun h => hne (by rw [h])) fun h => hab.2 ⟨rfl, h⟩⟩
      · exact .inl (Std.lt_of_le_of_ne (String.not_lt.mp hab.1) (Ne.symm hst))

/-! ## Joins in order -/

/-- Every chain stands before those that follow it. -/
def Sorted (js : Joins) : Prop := js.Pairwise fun a b => before a b = true

theorem Sorted.insert (h : js.Sorted) (chain : List String) : (insert chain js).Sorted := by
  induction js with
  | nil => exact List.pairwise_singleton _ _
  | cons c cs ih =>
    obtain ⟨hc, hcs⟩ := List.pairwise_cons.mp h
    rw [Joins.insert]
    split
    · exact h
    · rename_i hne
      split
      · rename_i hbefore
        refine List.pairwise_cons.mpr ⟨List.forall_mem_cons.mpr ⟨hbefore, fun d hd => ?_⟩, h⟩
        exact before_trans hbefore (hc d hd)
      · rename_i hbefore
        refine List.pairwise_cons.mpr ⟨fun d hd => ?_, ih hcs⟩
        rcases mem_insert.mp hd with rfl | hd
        · exact before_of_ne_of_not_before hne hbefore
        · exact hc d hd

theorem Sorted.union (h : js.Sorted) (ks : Joins) : (union js ks).Sorted := by
  induction ks generalizing js with
  | nil => exact h
  | cons k ks ih => exact ih (h.insert k)

/-- A chain after all others is put at the end. -/
theorem insert_eq_append {chain : List String} (h : ∀ c ∈ js, before c chain = true) :
    insert chain js = js ++ [chain] := by
  induction js with
  | nil => rfl
  | cons c cs ih =>
    obtain ⟨hc, hcs⟩ := List.forall_mem_cons.mp h
    rw [insert, if_neg, if_neg, ih hcs, List.cons_append]
    · exact fun hbefore => before_irrefl c (before_trans hc hbefore)
    · rintro rfl
      exact before_irrefl chain hc

theorem union_eq_append (h : Sorted (js ++ ks)) : union js ks = js ++ ks := by
  induction ks generalizing js with
  | nil => exact (List.append_nil js).symm
  | cons k ks ih =>
    obtain ⟨-, -, hbefore⟩ := List.pairwise_append.mp h
    have hinsert : insert k js = js ++ [k] := insert_eq_append fun c hc => hbefore c hc k List.mem_cons_self
    have hstep : union js (k :: ks) = union (insert k js) ks := rfl
    rw [hstep, hinsert, ih (by rwa [List.append_assoc]), List.append_assoc, List.singleton_append]

theorem nil_union (h : js.Sorted) : union [] js = js := union_eq_append h

/-- Two sets of joins with the same chains are the same list. -/
theorem Sorted.eq_of_mem_iff (hj : js.Sorted) (hk : ks.Sorted) (h : ∀ chain, chain ∈ js ↔ chain ∈ ks) : js = ks := by
  have hantisymm : Std.Antisymm fun a b : List String => before a b = true :=
    ⟨fun a _ hab hba => absurd (before_trans hab hba) (before_irrefl a)⟩
  have hirrefl : Std.Irrefl fun a b : List String => before a b = true := ⟨before_irrefl⟩
  exact List.Pairwise.eq_of_mem_iff hj hk h

end Sift.Joins

namespace Sift.Criteria

theorem mem_allJoins {chain : List String} {xs : List Criteria} :
    chain ∈ allJoins xs ↔ ∃ x ∈ xs, chain ∈ x.joins := by
  have hfold : ∀ js : Joins, chain ∈ xs.foldl (fun js x => js.union x.joins) js ↔
      chain ∈ js ∨ ∃ x ∈ xs, chain ∈ x.joins := by
    induction xs with
    | nil => simp
    | cons x xs ih =>
      intro js
      rw [List.foldl_cons, ih, Joins.mem_union, or_assoc, List.exists_mem_cons_iff]
  exact (hfold []).trans (or_iff_right List.not_mem_nil)

theorem sorted_allJoins (xs : List Criteria) : (allJoins xs).Sorted := by
  have hfold : ∀ js : Joins, js.Sorted → Joins.Sorted (xs.foldl (fun js x => js.union x.joins) js) := by
    induction xs with
    | nil => exact fun _ h => h
    | cons x xs ih => exact fun js h => ih _ (h.union x.joins)
  exact hfold [] List.Pairwise.nil

end Sift.Criteria
