import Sift.Proofs.Predicate.Canonical
import Sift.Proofs.Predicate.Joins

/-!
# Conditions that all have to hold

The entries of one object all have to hold, and so do the filters of an array under `and`. Both come to the same
criteria, or to the same error, however the entries are divided among the filters: what is spliced into a conjunction
may have been spliced before, and a conjunction of one compiled filter is that filter.
-/

namespace Sift

namespace Predicate

variable {ps : List Predicate}

theorem Canonical.conj_singleton {p : Predicate} (h : p.Canonical) : Predicate.conj [p] = p := by
  rcases h with rfl | h
  · rfl
  · cases h with
    | clause c => rfl
    | any _ _ => rfl
    | @all ps several _ _ =>
      match ps, several with
      | p :: q :: ps, _ =>
        simp only [Predicate.conj, Predicate.conjuncts, List.flatMap_cons, List.flatMap_nil, List.append_nil]

/-- A conjunction that is spliced into another leaves what was spliced into it. -/
theorem conjuncts_conj (h : ∀ p ∈ ps, p.Canonical) : (conj ps).conjuncts = ps.flatMap conjuncts := by
  unfold conj
  split
  · rename_i q hq
    obtain ⟨p, hp, hmem⟩ := List.mem_flatMap.mp (hq ▸ List.mem_singleton_self q)
    have hconjunction := ((h p hp).conjuncts q hmem).2
    rw [hq]
    cases q with
    | all _ => cases hconjunction
    | clause _ => rfl
    | any _ => rfl
  · rfl

theorem conj_map_conj {pss : List (List Predicate)} (h : ∀ ps ∈ pss, ∀ p ∈ ps, p.Canonical) :
    conj (pss.map conj) = conj pss.flatten := by
  have hspliced : (pss.map conj).flatMap conjuncts = pss.flatten.flatMap conjuncts := by
    induction pss with
    | nil => rfl
    | cons ps pss ih =>
      obtain ⟨hps, hpss⟩ := List.forall_mem_cons.mp h
      rw [List.map_cons, List.flatMap_cons, conjuncts_conj hps, ih hpss, List.flatten_cons, List.flatMap_append]
  simp only [conj, hspliced]

end Predicate

namespace Criteria

/-- Nothing is left out by asking for the criteria once more: the predicate is canonical and the joins are in order. -/
structure Settled (x : Criteria) : Prop where
  canonical : x.predicate.Canonical
  sorted : x.joins.Sorted

theorem Settled.conj_singleton {x : Criteria} (h : x.Settled) : conj [x] = x := by
  have hjoins : allJoins [x] = x.joins := Joins.nil_union h.sorted
  rw [conj, List.map_singleton, h.canonical.conj_singleton, hjoins]

theorem allJoins_map_conj (xss : List (List Criteria)) : allJoins (xss.map conj) = allJoins xss.flatten := by
  refine (sorted_allJoins _).eq_of_mem_iff (sorted_allJoins _) fun chain => ?_
  rw [mem_allJoins, mem_allJoins]
  constructor
  · rintro ⟨y, hy, hchain⟩
    obtain ⟨xs, hxs, rfl⟩ := List.mem_map.mp hy
    obtain ⟨x, hx, hchain⟩ := mem_allJoins.mp hchain
    exact ⟨x, List.mem_flatten_of_mem hxs hx, hchain⟩
  · rintro ⟨x, hx, hchain⟩
    obtain ⟨xs, hxs, hx⟩ := List.mem_flatten.mp hx
    exact ⟨conj xs, List.mem_map_of_mem hxs, mem_allJoins.mpr ⟨x, hx, hchain⟩⟩

theorem conj_map_conj {xss : List (List Criteria)} (h : ∀ xs ∈ xss, ∀ x ∈ xs, x.Settled) :
    conj (xss.map conj) = conj xss.flatten := by
  have hpredicates : (xss.map conj).map predicate = (xss.map (List.map predicate)).map Predicate.conj := by
    simp only [List.map_map]
    rfl
  have hcanonical : ∀ ps ∈ xss.map (List.map predicate), ∀ p ∈ ps, p.Canonical := by
    simp only [List.forall_mem_map]
    exact fun xs hxs x hx => (h xs hxs x hx).canonical
  rw [conj, hpredicates, Predicate.conj_map_conj hcanonical, allJoins_map_conj, ← List.map_flatten]
  rfl

end Criteria

namespace FilterRules

variable {r : FilterRules} {checked : Bool}

theorem sorted_of_compileField {name v : Value} {x : Criteria} (h : r.compileField checked name v = .ok x) :
    x.joins.Sorted := by
  simp only [compileField, bind_eq_ok_iff, pure_eq_ok_iff] at h
  obtain ⟨ref, -, cs, -, rfl⟩ := h
  cases cs with
  | none => exact List.Pairwise.nil
  | some cs =>
    simp only [Option.elim_some, criteria]
    split
    · exact List.pairwise_singleton _ _
    · exact List.Pairwise.nil

theorem settled_of_compileEntry {key v : Value} {x : Criteria} (h : r.compileEntry checked key v = .ok x) :
    x.Settled where
  canonical := tied_canonical.compileEntry (Tied.compileOperand tied_canonical) h
  sorted := by
    unfold compileEntry at h
    split at h
    · obtain ⟨xs, -, rfl⟩ := map_eq_ok_iff.mp h
      exact Criteria.sorted_allJoins xs
    · obtain ⟨xs, -, rfl⟩ := map_eq_ok_iff.mp h
      exact Criteria.sorted_allJoins xs
    · exact sorted_of_compileField h

/-- Entries are compiled one by one, so that each of them is settled. -/
theorem settled_of_compileEntries {entries : List (Value × Value)} {xs : List Criteria}
    (h : r.compileEntries checked entries = .ok xs) : ∀ x ∈ xs, x.Settled := by
  induction entries generalizing xs with
  | nil =>
    rw [compileEntries] at h
    cases h
    exact fun _ hx => absurd hx List.not_mem_nil
  | cons entry rest ih =>
    rw [compileEntries_cons] at h
    simp only [bind_eq_ok_iff, pure_eq_ok_iff] at h
    obtain ⟨x, hx, xs, hxs, rfl⟩ := h
    exact List.forall_mem_cons.mpr ⟨settled_of_compileEntry hx, ih hxs⟩

/-- An object with one entry comes to what the entry comes to. -/
theorem compile_entry (key v : Value) :
    r.compile checked (.object [(key, v)]) = r.compileEntry checked key v := by
  rw [compile, compileEntries_cons, compileEntries]
  match hx : r.compileEntry checked key v with
  | .error _ => rfl
  | .ok x => exact congrArg Except.ok (settled_of_compileEntry hx).conj_singleton

theorem compileEntries_append (first rest : List (Value × Value)) :
    r.compileEntries checked (first ++ rest) = (do
      let xs ← r.compileEntries checked first
      let ys ← r.compileEntries checked rest
      return xs ++ ys) := by
  induction first with
  | nil =>
    rw [List.nil_append, compileEntries]
    exact (bind_pure (r.compileEntries checked rest)).symm
  | cons entry first ih =>
    rw [List.cons_append, compileEntries_cons, compileEntries_cons, ih]
    simp only [bind_assoc, pure_bind, List.cons_append]

/-- Groups of entries that are objects of their own are compiled in the order of the entries. -/
theorem compileItems_groups (groups : List (List (Value × Value))) :
    r.compileItems checked (groups.map .object) =
      (List.map Criteria.conj) <$> groups.mapM (r.compileEntries checked) := by
  induction groups with
  | nil => rw [List.map_nil, compileItems]; rfl
  | cons group groups ih =>
    simp only [List.map_cons, compileItems_cons, ih, compile, List.mapM_cons, map_eq_pure_bind, bind_assoc, pure_bind]

theorem compileEntries_flatten (groups : List (List (Value × Value))) :
    r.compileEntries checked groups.flatten = List.flatten <$> groups.mapM (r.compileEntries checked) := by
  induction groups with
  | nil => rw [List.flatten_nil, compileEntries]; rfl
  | cons group groups ih =>
    simp only [List.flatten_cons, compileEntries_append, ih, List.mapM_cons, map_eq_pure_bind, bind_assoc, pure_bind]

/-- However the entries of an object are divided, the groups as filters under `and` come to what the object comes to,
with the same errors in the same order. -/
theorem compile_groups (groups : List (List (Value × Value))) :
    r.compile checked (.object [(.text "and", .list (groups.map .object))]) =
      r.compile checked (.object groups.flatten) := by
  rw [compile_entry, compileEntry, compileOperand, compileItems_groups, compile, compileEntries_flatten]
  cases hxss : groups.mapM (r.compileEntries checked) with
  | error _ => rfl
  | ok xss =>
    have hsettled : ∀ xs ∈ xss, ∀ x ∈ xs, x.Settled := by
      intro xs hxs
      obtain ⟨entries, -, hentries⟩ := mem_of_mapM_eq_ok hxss xs hxs
      exact settled_of_compileEntries hentries
    exact congrArg Except.ok (Criteria.conj_map_conj hsettled)

/-- An object asks for what its entries ask for as filters of their own: for the same predicate and the same joins, or
it is refused with the same error. -/
theorem compile_object_eq_and (r : FilterRules) (checked : Bool) (entries : List (Value × Value)) :
    r.compile checked (.object entries) =
      r.compile checked (.object [(.text "and", .list (entries.map fun entry => .object [entry]))]) := by
  have hgroups : r.compile checked (.object [(.text "and", .list ((entries.map fun entry => [entry]).map .object))]) =
      r.compile checked (.object (entries.map fun entry => [entry]).flatten) := compile_groups _
  rw [List.map_map, ← List.flatMap_def, List.flatMap_singleton'] at hgroups
  exact hgroups.symm

/-- No conditions ask for nothing. -/
theorem compile_null : r.compile checked .null = r.compile checked (.object []) := by
  rw [compile, compile, compileEntries]
  rfl

end FilterRules

end Sift
