import Sift.Proofs.Filter.Conjunction

/-!
# Combined filters

Compiled filters can be asked for all at once or in groups. All of them come to the same criteria, however they are
grouped. Any of them keeps the groups as nodes of their own, and so means the same and needs the same joins.
-/

namespace Sift

namespace Predicate

variable {value : Clause → Truth} {p : Predicate} {ps : List Predicate}

theorem truthAny_append (ps qs : List Predicate) :
    truthAny value (ps ++ qs) = (truthAny value ps).or (truthAny value qs) := by
  induction ps with
  | nil => rw [List.nil_append, truthAny, Truth.or_comm, Truth.or_no]
  | cons p ps ih => rw [List.cons_append, truthAny, truthAny, ih, Truth.or_assoc]

theorem isAlways_disj_of_mem (hp : p ∈ ps) (h : p.isAlways = true) : (disj ps).isAlways = true := by
  have hany : (ps.isEmpty || ps.any isAlways) = true := by
    rw [Bool.or_eq_true, List.any_eq_true]
    exact .inr ⟨p, hp, h⟩
  unfold disj
  rw [if_pos hany]
  rfl

theorem disj_singleton (p : Predicate) : disj [p] = p := by
  cases h : p.isAlways with
  | true => rw [isAlways_iff.mp (isAlways_disj_of_mem (List.mem_singleton_self p) h), isAlways_iff.mp h]
  | false => simp [disj, h]

end Predicate

namespace Criteria

variable {x y z : Criteria} {xs ys : List Criteria}

/-! ## All of some -/

theorem Composed.settled (h : Composed x) : x.Settled where
  canonical := h.canonical
  sorted := by
    cases h with
    | @compiled r checked v x h =>
      cases v with
      | null =>
        rw [FilterRules.compile] at h
        cases h
        exact List.Pairwise.nil
      | object entries =>
        rw [FilterRules.compile] at h
        obtain ⟨xs, -, rfl⟩ := map_eq_ok_iff.mp h
        exact sorted_allJoins xs
      | _ =>
        rw [FilterRules.compile] at h
        · cases h
        all_goals simp
    | conj _ => exact sorted_allJoins _
    | disj _ => exact sorted_allJoins _

/-- Two groups come to what all of their members come to. -/
theorem conj_append (hxs : ∀ x ∈ xs, x.Settled) (hys : ∀ y ∈ ys, y.Settled) :
    conj [conj xs, conj ys] = conj (xs ++ ys) := by
  have hgroups : conj ([xs, ys].map conj) = conj [xs, ys].flatten := by
    refine conj_map_conj ?_
    simp only [List.forall_mem_cons]
    exact ⟨hxs, hys, fun _ h => absurd h List.not_mem_nil⟩
  simpa using hgroups

/-! ## Any of some -/

/-- Criteria that need the same joins, and are as true as each other whatever is true of the clauses. -/
structure Equivalent (x y : Criteria) : Prop where
  joins : x.joins = y.joins
  truth : ∀ value, x.predicate.truth value = y.predicate.truth value

theorem Settled.disj_singleton (h : x.Settled) : disj [x] = x := by
  have hjoins : allJoins [x] = x.joins := Joins.nil_union h.sorted
  rw [disj, List.map_singleton, Predicate.disj_singleton, hjoins]

theorem truth_disj_of_ne_nil (h : xs ≠ []) (value : Clause → Truth) :
    (disj xs).predicate.truth value = Predicate.truthAny value (xs.map predicate) := by
  rw [disj, Predicate.truth_disj, if_neg (by simpa using h)]

theorem allJoins_append_disj (xs ys : List Criteria) : allJoins [disj xs, disj ys] = allJoins (xs ++ ys) := by
  -- joins do not depend on the connective
  have hconj : allJoins [disj xs, disj ys] = allJoins ([xs, ys].map conj) := rfl
  rw [hconj, allJoins_map_conj, List.flatten_cons, List.flatten_cons, List.flatten_nil, List.append_nil]

/-- Two groups, neither of which is empty, mean what any of their members means. -/
theorem equivalent_disj_append (hxs : xs ≠ []) (hys : ys ≠ []) :
    Equivalent (disj [disj xs, disj ys]) (disj (xs ++ ys)) where
  joins := allJoins_append_disj xs ys
  truth := by
    intro value
    rw [truth_disj_of_ne_nil (List.cons_ne_nil _ _), truth_disj_of_ne_nil (List.append_ne_nil_of_left_ne_nil hxs ys)]
    simp only [List.map_cons, List.map_nil, Predicate.truthAny, truth_disj_of_ne_nil hxs, truth_disj_of_ne_nil hys,
      Truth.or_no, List.map_append, Predicate.truthAny_append]

/-! ## Regrouping -/

/-- Compiled filters, and what is made of them, can be regrouped. All of some come to the same criteria, and the empty
criteria add nothing. Any of some mean that one of them holds, and always hold as soon as one does. -/
theorem composed_regroups (hx : Composed x) (hy : Composed y) (hz : Composed z) :
    (conj [conj [x, y], z] = conj [x, y, z] ∧ conj [x, conj [y, z]] = conj [x, y, z] ∧
      conj [{}, x] = x ∧ conj [x, {}] = x) ∧
    (Equivalent (disj [disj [x, y], z]) (disj [x, y, z]) ∧ Equivalent (disj [x, disj [y, z]]) (disj [x, y, z]) ∧
      ∀ value, (disj [x, y, z]).predicate.truth value =
        ((x.predicate.truth value).or (y.predicate.truth value)).or (z.predicate.truth value)) ∧
    (x.isAlways = true ∨ y.isAlways = true → (disj [x, y]).isAlways = true) := by
  have hnone : ∀ w ∈ ([] : List Criteria), w.Settled := fun _ hw => absurd hw List.not_mem_nil
  have hone : ∀ {w}, Composed w → ∀ v ∈ [w], v.Settled := fun hw => List.forall_mem_singleton.mpr hw.settled
  have htwo : ∀ {v w}, Composed v → Composed w → ∀ u ∈ [v, w], u.Settled :=
    fun hv hw => List.forall_mem_cons.mpr ⟨hv.settled, hone hw⟩
  refine ⟨⟨?_, ?_, ?_, ?_⟩, ⟨?_, ?_, fun value => ?_⟩, fun h => ?_⟩
  · have hgroups := conj_append (htwo hx hy) (hone hz)
    rwa [hz.settled.conj_singleton] at hgroups
  · have hgroups := conj_append (hone hx) (htwo hy hz)
    rwa [hx.settled.conj_singleton] at hgroups
  · have hgroups := conj_append hnone (hone hx)
    rwa [List.nil_append, hx.settled.conj_singleton] at hgroups
  · have hgroups := conj_append (hone hx) hnone
    rwa [List.append_nil, hx.settled.conj_singleton] at hgroups
  · have hgroups := equivalent_disj_append (List.cons_ne_nil x [y]) (List.cons_ne_nil z [])
    rwa [hz.settled.disj_singleton] at hgroups
  · have hgroups := equivalent_disj_append (List.cons_ne_nil x []) (List.cons_ne_nil y [z])
    rwa [hx.settled.disj_singleton] at hgroups
  · rw [truth_disj_of_ne_nil (List.cons_ne_nil _ _)]
    simp only [List.map_cons, List.map_nil, Predicate.truthAny, Truth.or_no, Truth.or_assoc]
  · rcases h with h | h
    · exact Predicate.isAlways_disj_of_mem List.mem_cons_self h
    · exact Predicate.isAlways_disj_of_mem (List.mem_cons_of_mem _ List.mem_cons_self) h

theorem composed_regroups_mixed : ∃ x y z, (Shop.products Shop.fullCatalog {}).compile true Shop.mixed = .ok x ∧
    (Shop.products Shop.fullCatalog {}).compile false Shop.owned = .ok y ∧ z = disj [x, y] ∧
    conj [conj [x, y], z] = conj [x, y, z] ∧ conj [x, conj [y, z]] = conj [x, y, z] ∧ conj [{}, x] = x ∧
    Equivalent (disj [disj [x, y], z]) (disj [x, y, z]) ∧ (disj [x, {}]).isAlways = true := by
  obtain ⟨x, hx⟩ : ∃ x, (Shop.products Shop.fullCatalog {}).compile true Shop.mixed = .ok x := ⟨_, rfl⟩
  obtain ⟨y, hy⟩ : ∃ y, (Shop.products Shop.fullCatalog {}).compile false Shop.owned = .ok y := ⟨_, rfl⟩
  have hz : Composed (disj [x, y]) :=
    .disj (List.forall_mem_cons.mpr ⟨.compiled hx, List.forall_mem_singleton.mpr (.compiled hy)⟩)
  have hnull : (Shop.products Shop.fullCatalog {}).compile true .null = .ok {} := rfl
  have hempty : Composed {} := .compiled hnull
  obtain ⟨⟨hleft, hright, hnone, -⟩, ⟨hgroups, -, -⟩, -⟩ := composed_regroups (.compiled hx) (.compiled hy) hz
  obtain ⟨-, -, halways⟩ := composed_regroups (.compiled hx) hempty hz
  exact ⟨x, y, _, hx, hy, rfl, hleft, hright, hnone, hgroups, halways (.inr rfl)⟩

end Criteria

end Sift
