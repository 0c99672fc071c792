import Sift.Proofs.Filter.Fold
import Sift.Proofs.Predicate.Clauses
import Sift.Proofs.Sample

/-!
# The canonical form of predicates

Putting predicates together looks one level down only: a conjunction splices the conjunctions among its parts, a
disjunction looks for a part that always holds. That is enough where no part has a node that could be left out, and the
result has none either. So whatever is made of compiled filters either holds always or compares something, at every node.
-/

namespace Sift

namespace Predicate

def isConjunction : Predicate → Bool
  | .all _ => true
  | _ => false

/-- No node could be left out: each connective joins two predicates at least, and a conjunction no conjunctions. -/
inductive Tight : Predicate → Prop
  | clause (c : Clause) : Tight (.clause c)
  | all {ps : List Predicate} (several : 2 ≤ ps.length) (spliced : ∀ p ∈ ps, p.isConjunction = false)
      (parts : ∀ p ∈ ps, Tight p) : Tight (.all ps)
  | any {ps : List Predicate} (several : 2 ≤ ps.length) (parts : ∀ p ∈ ps, Tight p) : Tight (.any ps)

/-- The predicate of every row, or one without needless nodes. -/
def Canonical (p : Predicate) : Prop := p = always ∨ p.Tight

mutual
/-- The predicates below the root of a predicate, from left to right. -/
def descendants : Predicate → List Predicate
  | .clause _ => []
  | .all ps | .any ps => descendantsAll ps

def descendantsAll : List Predicate → List Predicate
  | [] => []
  | p :: ps => p :: (descendants p ++ descendantsAll ps)
end

variable {p q : Predicate} {ps : List Predicate}

theorem mem_descendantsAll_iff : q ∈ descendantsAll ps ↔ ∃ p ∈ ps, q = p ∨ q ∈ p.descendants := by
  induction ps with
  | nil => simp [descendantsAll]
  | cons p ps ih =>
    rw [descendantsAll, List.mem_cons, List.mem_append, ih, List.exists_mem_cons_iff, or_assoc]

/-! ## Predicates that compare something -/

theorem Tight.clauses_ne_nil (h : p.Tight) : p.clauses ≠ [] := by
  have hparts : ∀ ps : List Predicate, 2 ≤ ps.length → (∀ p ∈ ps, p.clauses ≠ []) → clausesAll ps ≠ [] := by
    intro ps hlength hps hnil
    obtain ⟨p, ps, rfl⟩ := List.exists_cons_of_length_pos (Nat.lt_of_lt_of_le Nat.two_pos hlength)
    rw [clausesAll, List.append_eq_nil_iff] at hnil
    exact hps p List.mem_cons_self hnil.1
  induction h with
  | clause c => exact List.cons_ne_nil c []
  | all several _ _ ih =>
    rw [clauses]
    exact hparts _ several ih
  | any several _ ih =>
    rw [clauses]
    exact hparts _ several ih

theorem Tight.ne_always (h : p.Tight) : p ≠ always := by
  rintro rfl
  exact h.clauses_ne_nil rfl

theorem Tight.of_mem_descendants (h : p.Tight) : ∀ q ∈ p.descendants, q.Tight := by
  have hparts : ∀ ps : List Predicate, (∀ p ∈ ps, p.Tight) → (∀ p ∈ ps, ∀ q ∈ p.descendants, q.Tight) →
      ∀ q ∈ descendantsAll ps, q.Tight := by
    intro ps hps hinner q hq
    obtain ⟨p, hp, rfl | hq⟩ := mem_descendantsAll_iff.mp hq
    · exact hps _ hp
    · exact hinner p hp q hq
  induction h with
  | clause c => exact fun _ hq => absurd hq List.not_mem_nil
  | all _ _ parts ih =>
    rw [Predicate.descendants]
    exact hparts _ parts ih
  | any _ parts ih =>
    rw [Predicate.descendants]
    exact hparts _ parts ih

namespace Canonical

theorem tight_of_not_isAlways (h : p.Canonical) (hp : ¬ p.isAlways = true) : p.Tight :=
  h.resolve_left fun hp' => hp (isAlways_iff.mpr hp')

theorem isAlways_iff_clauses (h : p.Canonical) : p.isAlways = true ↔ p.clauses = [] := by
  rw [isAlways_iff]
  constructor
  · rintro rfl
    rfl
  · exact fun hnil => h.resolve_right fun htight => htight.clauses_ne_nil hnil

theorem tight_of_mem_descendants (h : p.Canonical) : ∀ q ∈ p.descendants, q.Tight := by
  rcases h with rfl | h
  · exact fun _ hq => absurd hq List.not_mem_nil
  · exact h.of_mem_descendants

/-! ## Connectives -/

/-- What is spliced into a conjunction can be spliced no further. -/
theorem conjuncts (h : p.Canonical) : ∀ q ∈ p.conjuncts, q.Tight ∧ q.isConjunction = false := by
  rcases h with rfl | h
  · exact fun _ hq => absurd hq List.not_mem_nil
  · cases h with
    | clause c => exact List.forall_mem_singleton.mpr ⟨.clause c, rfl⟩
    | all _ spliced parts => exact fun q hq => ⟨parts q hq, spliced q hq⟩
    | any several parts => exact List.forall_mem_singleton.mpr ⟨.any several parts, rfl⟩

theorem conj (h : ∀ p ∈ ps, p.Canonical) : (conj ps).Canonical := by
  have hall : ∀ q ∈ ps.flatMap Predicate.conjuncts, q.Tight ∧ q.isConjunction = false := by
    intro q hq
    obtain ⟨p, hp, hq⟩ := List.mem_flatMap.mp hq
    exact (h p hp).conjuncts q hq
  unfold Predicate.conj
  match hqs : ps.flatMap Predicate.conjuncts with
  | [] => exact .inl rfl
  | [q] => exact .inr (hall q (by rw [hqs]; exact List.mem_singleton_self q)).1
  | q :: r :: qs =>
    rw [hqs] at hall
    exact .inr (.all (by simp) (fun q hq => (hall q hq).2) fun q hq => (hall q hq).1)

theorem disj (h : ∀ p ∈ ps, p.Canonical) : (disj ps).Canonical := by
  unfold Predicate.disj
  split
  · exact .inl rfl
  · rename_i hnone
    rw [Bool.or_eq_true, not_or, List.any_eq_true] at hnone
    obtain ⟨hne, hnone⟩ := hnone
    have hall : ∀ p ∈ ps, p.Tight := fun p hp => (h p hp).tight_of_not_isAlways fun hp' => hnone ⟨p, hp, hp'⟩
    match ps, hne with
    | [p], _ => exact .inr (hall p (List.mem_singleton_self p))
    | p :: q :: ps, _ => exact .inr (.any (by simp) hall)

end Canonical

end Predicate

/-! ## Compiled filters -/

namespace FilterRules

variable {r : FilterRules} {checked : Bool}

theorem canonical_of_compileField {name v : Value} {x : Criteria} (h : r.compileField checked name v = .ok x) :
    x.predicate.Canonical := by
  simp only [compileField, bind_eq_ok_iff, pure_eq_ok_iff] at h
  obtain ⟨ref, -, cs, -, rfl⟩ := h
  cases cs with
  | none => exact .inl rfl
  | some cs =>
    refine Predicate.Canonical.conj fun p hp => ?_
    obtain ⟨c, -, rfl⟩ := List.mem_map.mp hp
    exact .inr (.clause c)

theorem forall_canonical_of_forall₂ {xs : List Criteria} {us : List Unit}
    (h : List.Forall₂ (fun x (_ : Unit) => x.predicate.Canonical) xs us) :
    ∀ p ∈ xs.map Criteria.predicate, p.Canonical := by
  induction h with
  | nil => exact fun _ hp => absurd hp List.not_mem_nil
  | cons hx _ ih => exact List.forall_mem_cons.mpr ⟨hx, ih⟩

/-- The connectives keep the canonical form, whatever the filter looks like. -/
theorem tied_canonical : r.Tied checked (fun _ _ => ()) (fun _ => ()) (fun _ => ())
    (fun x _ => x.predicate.Canonical) where
  field := canonical_of_compileField
  conj h := Predicate.Canonical.conj (forall_canonical_of_forall₂ h)
  disj h := Predicate.Canonical.disj (forall_canonical_of_forall₂ h)

end FilterRules

namespace Criteria

/-- Compiled filters, and what is made of them by asking for all or for any of some. -/
inductive Composed : Criteria → Prop
  | compiled {r : FilterRules} {checked : Bool} {v : Value} {x : Criteria} (h : r.compile checked v = .ok x) : Composed x
  | conj {xs : List Criteria} (h : ∀ x ∈ xs, Composed x) : Composed (.conj xs)
  | disj {xs : List Criteria} (h : ∀ x ∈ xs, Composed x) : Composed (.disj xs)

variable {x : Criteria}

theorem Composed.canonical (h : Composed x) : x.predicate.Canonical := by
  induction h with
  | compiled h => exact FilterRules.tied_canonical.compile h
  | conj _ ih =>
    refine Predicate.Canonical.conj fun p hp => ?_
    obtain ⟨x, hx, rfl⟩ := List.mem_map.mp hp
    exact ih x hx
  | disj _ ih =>
    refine Predicate.Canonical.disj fun p hp => ?_
    obtain ⟨x, hx, rfl⟩ := List.mem_map.mp hp
    exact ih x hx

/-- What is made of compiled filters always holds, or compares something at every node. -/
theorem composed_canonical (h : Composed x) :
    (x.predicate = .always ∨ x.predicate.clauses ≠ [] ∧ x.predicate.Tight) ∧
      (x.isAlways = true ↔ x.predicate.clauses = []) ∧ ∀ p ∈ x.predicate.descendants, p ≠ .always :=
  ⟨h.canonical.imp_right fun htight => ⟨htight.clauses_ne_nil, htight⟩, h.canonical.isAlways_iff_clauses,
    fun p hp => (h.canonical.tight_of_mem_descendants p hp).ne_always⟩

theorem composed_canonical_mixed : ∃ x y z, (Shop.products Shop.fullCatalog {}).compile true Shop.mixed = .ok x ∧
    (Shop.products Shop.fullCatalog {}).compile false Shop.owned = .ok y ∧
    z = disj [conj [x, y, x], y] ∧ (z.predicate = .always ∨ z.predicate.clauses ≠ [] ∧ z.predicate.Tight) ∧
      (z.isAlways = true ↔ z.predicate.clauses = []) ∧ ∀ p ∈ z.predicate.descendants, p ≠ .always := by
  obtain ⟨x, hx⟩ : ∃ x, (Shop.products Shop.fullCatalog {}).compile true Shop.mixed = .ok x := ⟨_, rfl⟩
  obtain ⟨y, hy⟩ : ∃ y, (Shop.products Shop.fullCatalog {}).compile false Shop.owned = .ok y := ⟨_, rfl⟩
  have hboth : Composed (conj [x, y, x]) := by
    refine .conj fun z hz => ?_
    simp only [List.mem_cons, List.not_mem_nil, or_false] at hz
    rcases hz with rfl | rfl | rfl
    · exact .compiled hx
    · exact .compiled hy
    · exact .compiled hx
  refine ⟨x, y, _, hx, hy, rfl, composed_canonical (.disj (List.forall_mem_cons.mpr ⟨hboth, ?_⟩))⟩
  exact List.forall_mem_singleton.mpr (.compiled hy)

end Criteria

end Sift
