import Sift.Proofs.Filter.Reading
import Sift.Proofs.Predicate.Clauses
import Sift.Proofs.Schema.WellFormed
import Sift.Proofs.Store.Asking

/-!
# Compiled filters are well-typed

A compiled filter compares a column with nothing but values that suit the column and the kind of the comparison: the
store takes them as they are.
-/

namespace Sift

namespace Clause

/-- The value of the clause suits its column and its kind. -/
def WellTyped (c : Clause) : Prop :=
  match c.kind with
  | .oneOf | .notOneOf => ∃ vs, c.value = .tuple vs ∧ ∀ v ∈ vs, c.field.type.Fits v
  | .like | .ilike | .notLike | .notIlike => c.field.type = .text ∧ ∃ s, c.value = .text s
  | .gt | .gte | .lt | .lte => c.field.type.Fits c.value ∧ c.value ≠ .null
  | .eq | .neq => c.value = .null ∨ c.field.type.Fits c.value
  | .ieq => c.field.type = .text ∧ (c.value = .null ∨ c.field.type.Fits c.value)

variable {ref : FieldRef} {kind : OperatorKind} {v : Value} {token : String}

theorem wellTyped_null (hkind : kind.isEquality = true) (htext : kind.isTextual = true → ref.type = .text) :
    WellTyped ⟨ref, kind, .null, token⟩ := by
  cases kind with
  | eq | neq => exact .inl rfl
  | ieq => exact ⟨htext rfl, .inl rfl⟩
  | _ => cases hkind

theorem wellTyped_items {vs : List Value} (hkind : kind.isMembership = true) (hvs : ∀ v ∈ vs, ref.type.Fits v) :
    WellTyped ⟨ref, kind, .tuple vs, token⟩ := by
  cases kind with
  | oneOf | notOneOf => exact ⟨vs, rfl, hvs⟩
  | _ => cases hkind

theorem wellTyped_one (hkind : kind.isMembership = false) (htext : kind.isTextual = true → ref.type = .text)
    (hv : ref.type.Fits v) (hnull : v ≠ .null) : WellTyped ⟨ref, kind, v, token⟩ := by
  cases kind with
  | eq | neq => exact .inr hv
  | gt | gte | lt | lte => exact ⟨hv, hnull⟩
  | ieq => exact ⟨htext rfl, .inr hv⟩
  | like | ilike | notLike | notIlike => exact ⟨htext rfl, hv.exists_text (htext rfl)⟩
  | oneOf | notOneOf => cases hkind

theorem wellTyped_of_yields {op : Operator} (h : op.Yields ref.type v) : WellTyped ⟨ref, op.kind, v, token⟩ := by
  cases h with
  | null hkind htext => exact wellTyped_null hkind htext
  | items vs hkind hvs => exact wellTyped_items hkind hvs
  | one _ hkind htext hv hnull => exact wellTyped_one hkind htext hv hnull

end Clause

namespace Shop

/-- A filter on products with operands of many kinds. -/
def searched : Value :=
  .object [(.text "or", .list [
    .object [(.text "name", .object [(.text "contains", .text "50%"), (.text "in", .list [.text "Lamp", .int 5])]),
      (.text "category", .null)],
    .object [(.text "score", .object [(.text "gt", .int 7), (.text "not_in", .list [.int 9])]),
      (.text "in_stock", .object [(.text "is_true", .null)])]])]

end Shop

namespace FilterRules

variable {r : FilterRules} {checked : Bool}

/-! ## All clauses -/

theorem forall_clauses_of_forall₂ {P : Clause → Prop} {xs : List Criteria} {us : List Unit}
    (h : List.Forall₂ (fun x (_ : Unit) => ∀ c ∈ x.predicate.clauses, P c) xs us) :
    ∀ p ∈ xs.map Criteria.predicate, ∀ c ∈ p.clauses, P c := by
  induction h with
  | nil => exact fun _ hp => absurd hp List.not_mem_nil
  | cons hx _ ih => exact List.forall_mem_cons.mpr ⟨hx, ih⟩

/-- What holds of the clauses of fields holds of the clauses of a filter, however deep they are. -/
theorem tied_clauses {P : Clause → Prop}
    (h : ∀ {name v cs}, r.comparisons name v = .ok cs → ∀ c ∈ cs, P c) :
    r.Tied checked (fun _ _ => ()) (fun _ => ()) (fun _ => ()) (fun x _ => ∀ c ∈ x.predicate.clauses, P c) where
  field hx := by
    obtain ⟨cs, hcs, hx⟩ := compileField_comparisons hx
    rw [hx, Predicate.clauses_conj_clause]
    exact h hcs
  conj hxs c hc := by
    rw [Criteria.conj, Predicate.clauses_conj] at hc
    obtain ⟨p, hp, hc⟩ := List.mem_flatMap.mp hc
    exact forall_clauses_of_forall₂ hxs p hp c hc
  disj hxs c hc := by
    obtain ⟨p, hp, hc⟩ := Predicate.mem_clauses_of_disj hc
    exact forall_clauses_of_forall₂ hxs p hp c hc

/-! ## The usual operators -/

theorem isSound_of_get? {token : String} {op : Operator} (h : Registry.default.get? token = some op) :
    op.isSound = true := by
  have hall : ∀ entry ∈ Registry.default, entry.2.isSound = true := by
    refine Table.forall_mem_ofList (P := fun _ (op : Operator) => op.isSound = true) (fun _ _ _ _ h => h) fun entry hentry => ?_
    obtain ⟨op, hop, rfl⟩ := List.mem_map.mp hentry
    exact Operator.isSound_of_mem_defaults hop
  exact hall _ (Table.mem_of_get?_eq_some h)

theorem isSound_of_get {token : String} {op : Operator} (h : Registry.default.get token = .ok op) :
    op.isSound = true := by
  unfold Registry.get at h
  cases hop : Registry.default.get? token with
  | none => rw [hop] at h; cases h
  | some op' =>
    rw [hop] at h
    cases h
    exact isSound_of_get? hop

theorem isSound_of_operators (hr : r.registry = .default) {type : ColumnType} {v : Value}
    {ops : List (Operator × Value)} (h : r.operators type v = .ok ops) : ∀ p ∈ ops, p.1.isSound = true := by
  unfold operators at h
  split at h
  · cases h
    intro p hp
    obtain ⟨⟨token, operand⟩, -, hp⟩ := List.mem_filterMap.mp hp
    obtain ⟨op, hop, rfl⟩ := Option.map_eq_some_iff.mp hp
    obtain ⟨s, -, hop⟩ := Option.bind_eq_some_iff.mp hop
    exact isSound_of_get? (hr ▸ hop)
  · obtain ⟨op, hop, h⟩ := bind_eq_ok_iff.mp h
    cases pure_eq_ok_iff.mp h
    rw [hr] at hop
    refine List.forall_mem_singleton.mpr ?_
    unfold Registry.defaultFor at hop
    split at hop <;> exact isSound_of_get hop

theorem wellTyped_of_comparisons (hr : r.registry = .default) {name v : Value} {cs : List Clause}
    (h : r.comparisons name v = .ok cs) : ∀ c ∈ cs, c.WellTyped := by
  simp only [comparisons, bind_eq_ok_iff] at h
  obtain ⟨ref, -, ops, hops, hcs⟩ := h
  intro c hc
  obtain ⟨⟨op, operand⟩, hop, hclause⟩ := mem_of_mapM_eq_ok hcs c hc
  simp only [clause, bind_eq_ok_iff, pure_eq_ok_iff] at hclause
  obtain ⟨w, hw, rfl⟩ := hclause
  exact Clause.wellTyped_of_yields (Operator.prepare_yields (isSound_of_operators hr hops _ hop) hw)

/-- With the usual operators, every clause of a compiled filter is well-typed, and what was coerced for a column is
taken by the column as it is. -/
theorem compile_wellTyped (hr : r.registry = .default) {v : Value} {x : Criteria} (h : r.compile checked v = .ok x) :
    (∀ c ∈ x.predicate.clauses, c.WellTyped) ∧
      ∀ (type : ColumnType) (v w : Value), type.coerce v = .ok w → type.Fits w ∧ type.coerce w = .ok w :=
  ⟨(tied_clauses (wellTyped_of_comparisons hr)).compile h,
    fun _ _ _ hw => ⟨ColumnType.coerce_fits hw, ColumnType.coerce_coerced hw⟩⟩

theorem compile_wellTyped_searched : ∃ x, (Shop.products Shop.fullCatalog {}).compile true Shop.searched = .ok x ∧
    x.predicate.clauses.length = 6 ∧ (∀ c ∈ x.predicate.clauses, c.WellTyped) ∧
      ColumnType.boolean.coerce (.int 1) = .ok (.bool true) ∧
        ColumnType.boolean.coerce (.bool true) = .ok (.bool true) := by
  obtain ⟨x, hx, hlength⟩ : ∃ x, (Shop.products Shop.fullCatalog {}).compile true Shop.searched = .ok x ∧
    x.predicate.clauses.length = 6 := ⟨_, rfl, rfl⟩
  obtain ⟨htyped, hcoerced⟩ := compile_wellTyped rfl hx
  exact ⟨x, hx, hlength, htyped, rfl, (hcoerced .boolean (.int 1) (.bool true) rfl).2⟩

end FilterRules

end Sift
