import Sift.Predicate.Basic

/-!
# Clauses of combined predicates

Splicing keeps the clauses of a conjunction. A disjunction that always holds drops its clauses, and adds none.
-/

namespace Sift.Predicate

theorem clausesAll_eq (ps : List Predicate) : clausesAll ps = ps.flatMap clauses := by
  induction ps with
  | nil => rfl
  | cons p ps ih =>
    rw [clausesAll, ih, List.flatMap_cons]

theorem clauses_conjuncts (p : Predicate) : p.conjuncts.flatMap clauses = p.clauses := by
  cases p with
  | clause c => simp only [conjuncts, List.flatMap_cons, List.flatMap_nil, List.append_nil]
  | all ps => simp only [conjuncts, clauses, clausesAll_eq]
  | any ps => simp only [conjuncts, List.flatMap_cons, List.flatMap_nil, List.append_nil]

theorem clauses_conj (ps : List Predicate) : (conj ps).clauses = ps.flatMap clauses := by
  have spliced : (ps.flatMap conjuncts).flatMap clauses = ps.flatMap clauses := by
    simp only [List.flatMap_assoc, clauses_conjuncts]
  rw [← spliced, conj]
  split
  · rename_i p h
    rw [h, List.flatMap_cons, List.flatMap_nil, List.append_nil]
  · rw [clauses, clausesAll_eq]

theorem mem_clauses_of_disj {ps : List Predicate} {c : Clause} (h : c ∈ (disj ps).clauses) :
    ∃ p ∈ ps, c ∈ p.clauses := by
  unfold disj at h
  split at h
  · cases h
  · split at h
    · exact ⟨_, List.mem_singleton_self _, h⟩
    · rw [clauses, clausesAll_eq] at h
      exact List.mem_flatMap.mp h

theorem clauses_conj_clause (cs : List Clause) : (conj (cs.map clause)).clauses = cs := by
  rw [clauses_conj, List.flatMap_map]
  simp only [clauses, List.flatMap_singleton']

end Sift.Predicate
