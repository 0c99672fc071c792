import Sift.Predicate.Truth
import Sift.Proofs.Filter.Fold
import Sift.Proofs.Sample

/-!
# What a filter says

A filter can be read without compiling it: null says nothing, an object says all that its entries say, `and` and `or`
combine what their items say, and a field says all that its operators ask of it. A compiled filter has the truth value
of this reading, whatever the truth values of its clauses are.
-/

namespace Sift

namespace Truth

def allOf (ts : List Truth) : Truth := ts.foldr and .yes

/-- Any of some conditions; of none it holds. -/
def anyOf (ts : List Truth) : Truth := if ts.isEmpty then .yes else ts.foldr or .no

end Truth

namespace Predicate

variable {value : Clause → Truth}

theorem truthAll_eq (ps : List Predicate) : truthAll value ps = Truth.allOf (ps.map (truth value)) := by
  induction ps with
  | nil => rfl
  | cons p ps ih =>
    simp only [truthAll, ih]
    rfl

theorem truthAny_eq (ps : List Predicate) : truthAny value ps = (ps.map (truth value)).foldr Truth.or .no := by
  induction ps with
  | nil => rfl
  | cons p ps ih =>
    simp only [truthAny, ih]
    rfl

theorem truth_conj_eq (ps : List Predicate) : (conj ps).truth value = Truth.allOf (ps.map (truth value)) := by
  rw [truth_conj, truthAll_eq]

theorem truth_disj_eq (ps : List Predicate) : (disj ps).truth value = Truth.anyOf (ps.map (truth value)) := by
  rw [truth_disj, truthAny_eq, Truth.anyOf, List.isEmpty_map]

end Predicate

namespace FilterRules

variable {r : FilterRules} {checked : Bool}

/-! ## Fields -/

/-- The known operators among some entries, with their operands. -/
def knownOperators (r : FilterRules) (entries : List (Value × Value)) : List (Operator × Value) :=
  entries.filterMap fun (token, operand) =>
    (token.text?.bind fun token => r.registry.get? token).map fun op => (op, operand)

/-- The operators that the value of a field writes, with their operands. Any value but an object has the operator that
goes without saying. -/
def operators (r : FilterRules) (type : ColumnType) : Value → Except Fault (List (Operator × Value))
  | .object entries => .ok (r.knownOperators entries)
  | v => do return [(← r.registry.defaultFor type v, v)]

def comparisons (r : FilterRules) (name v : Value) : Except Fault (List Clause) := do
  let ref ← r.resolve name
  (← r.operators ref.type v).mapM fun (op, operand) => clause name.plain ref op operand

theorem resolve_of_field {name : Value} {ref : FieldRef} (h : r.field checked name = .ok ref) :
    r.resolve name = .ok ref := by
  simp only [Section.field, bind_eq_ok_iff] at h
  obtain ⟨ref', href, h⟩ := h
  split at h
  · obtain ⟨-, -, h⟩ := bind_eq_ok_iff.mp h
    rw [href, pure_eq_ok_iff.mp h]
  · rw [href, pure_eq_ok_iff.mp h]

theorem known_eq (token operand : Value) :
    r.known (token, operand) = (token.text?.bind fun token => r.registry.get? token).isSome := by
  simp only [known]
  cases token.text? with
  | none => rfl
  | some s => rfl

theorem mapM_knownOperators {name : String} {ref : FieldRef} {entries : List (Value × Value)}
    (h : ∀ entry ∈ entries, r.known entry = true) :
    (entries.mapM fun (token, operand) => do clause name ref (← r.registry.get (token.text?.getD "")) operand) =
      (r.knownOperators entries).mapM fun (op, operand) => clause name ref op operand := by
  induction entries with
  | nil => rfl
  | cons entry entries ih =>
    obtain ⟨token, operand⟩ := entry
    have hk := h (token, operand) List.mem_cons_self
    have ht := ih fun entry he => h entry (List.mem_cons_of_mem _ he)
    rw [known_eq] at hk
    obtain ⟨op, hop⟩ := Option.isSome_iff_exists.mp hk
    obtain ⟨s, hs, hget⟩ := Option.bind_eq_some_iff.mp hop
    have hreg : r.registry.get (token.text?.getD "") = .ok op := by
      simp only [hs, Option.getD_some, Registry.get, hget, Option.elim_some]
    have hops : r.knownOperators ((token, operand) :: entries) = (op, operand) :: r.knownOperators entries := by
      simp only [knownOperators, List.filterMap_cons, hop, Option.map_some]
    simp only [List.mapM_cons, hreg, hops, ht]
    rfl

theorem knownOperators_of_not_known {entries : List (Value × Value)} (h : ¬ entries.any r.known = true) :
    r.knownOperators entries = [] := by
  refine List.filterMap_eq_nil_iff.mpr ?_
  rintro ⟨token, operand⟩ he
  have hk : ¬ r.known (token, operand) = true := fun hk => h (List.any_eq_true.mpr ⟨_, he, hk⟩)
  rw [known_eq, Option.not_isSome_iff_eq_none] at hk
  simp only [hk, Option.map_none]

/-- What compiles makes a clause of every operator that is written, and of nothing else. -/
theorem fieldClauses_operators {name : String} {ref : FieldRef} {v : Value} {cs : Option (List Clause)}
    (h : r.fieldClauses name ref v = .ok cs) :
    ∃ ops, r.operators ref.type v = .ok ops ∧
      (ops.mapM fun (op, operand) => clause name ref op operand) = .ok (cs.getD []) := by
  cases v with
  | object entries =>
    refine ⟨_, rfl, ?_⟩
    simp only [fieldClauses, operatorClauses] at h
    split at h
    · split at h
      · cases h
      · rename_i hfind
        obtain ⟨cs, hcs, rfl⟩ := map_eq_ok_iff.mp h
        rw [mapM_knownOperators fun entry he => by simpa using List.find?_eq_none.mp hfind entry he] at hcs
        exact hcs
    · rename_i hany
      rw [knownOperators_of_not_known hany]
      cases h
      rfl
  | _ =>
    simp only [fieldClauses, bind_eq_ok_iff, pure_eq_ok_iff] at h
    obtain ⟨op, hop, c, hc, rfl⟩ := h
    refine ⟨[(op, _)], bind_eq_ok_iff.mpr ⟨op, hop, rfl⟩, ?_⟩
    simp only [List.mapM_cons, List.mapM_nil, hc, Option.getD_some]
    rfl

theorem compileField_comparisons {name v : Value} {x : Criteria} (h : r.compileField checked name v = .ok x) :
    ∃ cs, r.comparisons name v = .ok cs ∧ x.predicate = .conj (cs.map .clause) := by
  simp only [compileField, bind_eq_ok_iff, pure_eq_ok_iff] at h
  obtain ⟨ref, href, cs, hcs, rfl⟩ := h
  obtain ⟨ops, hops, hclauses⟩ := fieldClauses_operators hcs
  refine ⟨cs.getD [], ?_, ?_⟩
  · simp only [comparisons, bind_eq_ok_iff]
    exact ⟨ref, resolve_of_field href, ops, hops, hclauses⟩
  · cases cs <;> rfl

/-! ## Filters -/

/-- What a filter says, given what its clauses say. A part that cannot be read leaves the whole without a reading. -/
def reading (r : FilterRules) (value : Clause → Truth) : Value → Except Fault Truth :=
  Filter.fold (fun name v => do return Truth.allOf ((← r.comparisons name v).map value))
    (fun parts => do return Truth.allOf (← parts.mapM id))
    (fun parts => do return Truth.anyOf (← parts.mapM id))

theorem mapM_readings {value : Clause → Truth} {xs : List Criteria} {parts : List (Except Fault Truth)}
    (h : List.Forall₂ (fun x part => part = .ok (x.predicate.truth value)) xs parts) :
    parts.mapM id = .ok ((xs.map Criteria.predicate).map (Predicate.truth value)) := by
  induction h with
  | nil => rfl
  | cons hx _ ih =>
    subst hx
    simp only [List.mapM_cons, ih, id]
    rfl

theorem tied_reading (value : Clause → Truth) :
    r.Tied checked (fun name v => do return Truth.allOf ((← r.comparisons name v).map value))
      (fun parts => do return Truth.allOf (← parts.mapM id)) (fun parts => do return Truth.anyOf (← parts.mapM id))
      (fun x part => part = .ok (x.predicate.truth value)) where
  field h := by
    obtain ⟨cs, hcs, hx⟩ := compileField_comparisons h
    simp only [hcs, hx, Predicate.truth_conj_eq, List.map_map]
    rfl
  conj h := by
    simp only [mapM_readings h, Criteria.conj, Predicate.truth_conj_eq]
    rfl
  disj h := by
    simp only [mapM_readings h, Criteria.disj, Predicate.truth_disj_eq]
    rfl

/-- A compiled filter is as true as what it was compiled from. -/
theorem truth_eq_reading {v : Value} {x : Criteria} (h : r.compile checked v = .ok x) (value : Clause → Truth) :
    r.reading value v = .ok (x.predicate.truth value) :=
  (tied_reading value).compile h

theorem truth_eq_reading_mixed :
    ∃ x, (Shop.products Shop.fullCatalog {}).compile true Shop.mixed = .ok x ∧
      ∀ value, (Shop.products Shop.fullCatalog {}).reading value Shop.mixed = .ok (x.predicate.truth value) := by
  obtain ⟨x, h⟩ : ∃ x, (Shop.products Shop.fullCatalog {}).compile true Shop.mixed = .ok x := ⟨_, rfl⟩
  exact ⟨x, h, truth_eq_reading h⟩

end FilterRules

end Sift
