import Sift.Endpoint.Basic
import Sift.Proofs.Filter.Related
import Sift.Proofs.Projection.Tables
import Sift.Proofs.Sample
import Sift.Proofs.Store.Rendered
import Sift.Proofs.Store.Valued

/-!
# Endpoints that serve a store

An endpoint compiles filters by its rules and shows rows by its projector, both for the same included relations. Where
these suit a store, rows show what its records hold, and filters of one comparison select records by what stands behind
the labels of their field.
-/

namespace Sift

namespace Endpoint

/-- The endpoint serves the records of a store: with these relations it compiles by these rules and shows by this
projector, which suits the store and finds in the lookups what is there. -/
structure Serves (e : Endpoint) (s : Store) (includes : IncludeTree) (rules : FilterRules) (p : Projector)
    (lookups : LookupStore) : Prop where
  catalog : e.catalog = .ofModels s.models
  model : ∃ m, Model.find? s.models e.entity = some m
  entity : includes.entity = e.entity
  follows : includes.Follows (.ofModels s.models)
  rules : e.filterRules includes = .ok rules
  projector : Projector.ofMappings e.catalog e.entity includes e.mappings e.idColumn = .ok p
  labelled : s.WellLabelled
  stored : s.Stored
  suits : p.Suits s
  answered : p.Answered s lookups

namespace Serves

variable {e : Endpoint} {s : Store} {includes : IncludeTree} {rules : FilterRules} {p : Projector}
  {lookups : LookupStore} (h : e.Serves s includes rules p lookups)

include h in
theorem exists_table :
    ∃ table, rules.scope = ⟨.ofModels s.models, e.entity, includes, table, e.idColumn, e.flattening⟩ ∧
      p.entity = e.entity ∧ p.includes = includes := by
  obtain ⟨scope, hscope, hrules⟩ := bind_eq_ok_iff.mp h.rules
  obtain ⟨table, htable, hscope⟩ := bind_eq_ok_iff.mp hscope
  cases pure_eq_ok_iff.mp hscope
  cases pure_eq_ok_iff.mp hrules
  refine ⟨table, by rw [← h.catalog]; rfl, ?_⟩
  obtain ⟨table', htable', hprojector⟩ := bind_eq_ok_iff.mp h.projector
  cases htable.symm.trans htable'
  split at hprojector
  · simp only [pure_bind] at hprojector
    obtain ⟨key, -, hprojector⟩ := bind_eq_ok_iff.mp hprojector
    cases pure_eq_ok_iff.mp hprojector
    exact ⟨rfl, rfl⟩
  · cases pure_eq_ok_iff.mp hprojector
    exact ⟨rfl, rfl⟩

include h in
theorem exists_rendered {records : List Record} (hrecords : ∀ r ∈ records, r ∈ s.records e.entity) : ∃ found rows,
    p.project lookups (records.map fun r => .object (s.present e.entity includes r)) = .ok rows ∧
      Projector.Finds s found ∧ List.Forall₂ (p.Renders s found e.entity includes.branches) records rows := by
  obtain ⟨-, -, hentity, hincludes⟩ := h.exists_table
  obtain ⟨m, hm⟩ := h.model
  subst hincludes
  rw [← hentity] at hm hrecords ⊢
  exact Projector.exists_rendered h.suits h.stored h.labelled h.answered hm (h.entity.trans hentity.symm) h.follows
    hrecords

/-! ## Filters of one comparison -/

variable {checked : Bool} {name column last token : String} {chain : List String} {bs : List Branch} {op : Operator}
  {x w : Value} {st : Storage} {m : Model}

include h in
/-- A path along relations with one row at most, to a column that is no key of a mapped entity, is that column. -/
theorem exists_resolve (hname : rules.scope.path (rules.policy.toInternal (.text name)) =
      .ok (Text.dotted (chain ++ [column]))) (hne : chain ≠ []) (hnames : Scope.IsPath (chain ++ [column]))
    (hchain : Branch.Along e.entity includes.branches chain last bs) (hm : Model.find? s.models last = some m)
    (hst : m.columns.get? column = some st)
    (hkey : ∀ k, rules.scope.mappings.get? (.text last) = some k → k.key ≠ .text column) :
    ∃ many, rules.resolve (.text name) = .ok { entity := .text last, column, type := st.columnType, chain, many } := by
  obtain ⟨table, hscope, -⟩ := h.exists_table
  have hfollow : Branch.AllFollow (.ofModels s.models) (.text e.entity) includes.branches := h.entity ▸ h.follows
  rw [Section.resolve, Scope.resolve_related hne hname hnames]
  rw [hscope] at hkey ⊢
  obtain ⟨many, hwalk⟩ := Scope.walk_along hchain hfollow (.bool false)
  exact ⟨many, Scope.relatedField_column hwalk (Catalog.hasColumn_ofModels hm hst) (Catalog.columnType_ofModels hm hst)
    hkey⟩

include h in
/-- A filter that asks a field for a value selects the records with the value behind the labels of the field. -/
theorem exists_compile {ref : FieldRef} (hand : name ≠ "and") (hor : name ≠ "or")
    (href : rules.resolve (.text name) = .ok ref) (hpermits : checked = true → rules.permits (.text name) = true)
    (hop : rules.registry.get? token = some op) (hkind : op.kind = .eq)
    (hm : Model.find? s.models (s.targetOf e.entity ref.chain) = some m) (hst : m.columns.get? ref.column = some st)
    (hone : s.LeadsToOne e.entity ref.chain) (hx : op.prepare name ref.type x = .ok w) (hw : st.columnType.Holds w)
    (hrange : w.InRange) (hoffset : ∀ t, w = .moment t → t.offset = none) :
    ∃ c, rules.compile checked (.object [(.text name, .object [(.text token, x)])]) = .ok c ∧
      (∀ d ∈ c.predicate.clauses, s.Askable e.entity d) ∧ ∀ r ∈ s.records e.entity,
        s.meets e.entity c.predicate r = true ↔
          ∃ other, s.behind e.entity r ref.chain = some other ∧ ((other.content ref.column).shown == w) = true := by
  have hcompile := FilterRules.compile_single (x := x) hand hor href hpermits hop
  rw [hx, hkind] at hcompile
  refine ⟨_, hcompile, fun d hd => ?_, fun r hr => ?_⟩
  · obtain rfl : d = ⟨ref, .eq, w, op.token⟩ := List.mem_singleton.mp hd
    have hstorage : s.storageOf e.entity ref = st := by
      rw [Store.storageOf, hm, Option.bind_some, hst, Option.getD_some]
    exact ⟨_, Store.comparison_value hstorage hw.ne_null, Comparison.taken_ofValue hw hrange⟩
  · rw [Store.meets, decide_eq_true_iff, Predicate.truth]
    exact Store.clauseTruth_iff_behind h.stored hm hst hone hr hw hrange hoffset

end Serves

end Endpoint

/-! ## Labelled products -/

namespace Shop

theorem find?_employed {entity : String} {m : Model} (hm : Model.find? employed.models entity = some m) :
    (entity = "Company" ∧ m = company) ∨ (entity = "User" ∧ m = user) ∨ (entity = "Product" ∧ m = product) := by
  have hname := Model.name_of_find? hm
  have hmem : m ∈ [company, user, product] := List.mem_of_find?_eq_some hm
  simp only [List.mem_cons, List.not_mem_nil, or_false] at hmem
  rcases hmem with rfl | rfl | rfl
  · exact .inl ⟨hname.symm, rfl⟩
  · exact .inr (.inl ⟨hname.symm, rfl⟩)
  · exact .inr (.inr ⟨hname.symm, rfl⟩)

theorem user_employed : Model.find? employed.models "User" = some user := rfl

theorem wellLabelled_employed : employed.WellLabelled := by
  intro m hm
  have hmem : m = company ∨ m = user ∨ m = product := by simpa [employed] using hm
  rcases hmem with rfl | rfl | rfl
  · exact ⟨by decide, by decide⟩
  · exact ⟨by decide, by decide⟩
  · exact ⟨by decide, by decide⟩

theorem rows_employed : ∀ table ∈ employed.tables, ∀ m, Model.find? employed.models table.1 = some m → ∀ r ∈ table.2,
    ∃ row, Record.ofRow m row = .ok r := by
  intro table htable m hm r hr
  rcases List.mem_cons.mp htable with rfl | htable
  · cases hm
    obtain rfl := List.mem_singleton.mp hr
    exact ⟨Row.ofList [("id", .int 1), ("slug", .text "acme")], rfl⟩
  rcases List.mem_cons.mp htable with rfl | htable
  · cases hm
    obtain rfl := List.mem_singleton.mp hr
    exact ⟨Row.ofList [("id", .int 7), ("external_id", .text "ext-007"), ("company_id", .int 1)], rfl⟩
  · obtain rfl := List.mem_singleton.mp htable
    cases hm
    rcases List.mem_cons.mp hr with rfl | hr
    · exact ⟨Row.ofList [("id", .int 1), ("owner_id", .int 7)], rfl⟩
    · obtain rfl := List.mem_singleton.mp hr
      exact ⟨Row.ofList [("id", .int 2)], rfl⟩

theorem stored_employed : employed.Stored := Store.stored_of_rows (by decide) rows_employed

theorem suits_labelled : labelledRows.Suits employed where
  catalog := rfl
  mapped := by
    intro name m k hm hk
    rcases find?_employed hm with ⟨rfl, rfl⟩ | ⟨rfl, rfl⟩ | ⟨rfl, rfl⟩
    · cases hk
      exact ⟨"id", "slug", rfl, ⟨company, .integer, rfl, rfl, Storage.noConfusion⟩,
        ⟨company, .wrapped, rfl, rfl, Storage.noConfusion⟩⟩
    · cases hk
      exact ⟨"id", "external_id", rfl, ⟨user, .integer, rfl, rfl, Storage.noConfusion⟩,
        ⟨user, .text, rfl, rfl, Storage.noConfusion⟩⟩
    · cases hk
  owned := by
    intro entity m hm r hr
    rcases find?_employed hm with ⟨rfl, rfl⟩ | ⟨rfl, rfl⟩ | ⟨rfl, rfl⟩
    · cases hr
    · rcases List.mem_cons.mp hr with rfl | hr
      · exact ⟨"company_id", rfl, user, .integer, rfl, rfl, Storage.noConfusion⟩
      · obtain rfl := List.mem_singleton.mp hr
        exact ⟨"manager_id", rfl, user, .integer, rfl, rfl, Storage.noConfusion⟩
    · obtain rfl := List.mem_singleton.mp hr
      exact ⟨"owner_id", rfl, product, .integer, rfl, rfl, Storage.noConfusion⟩

theorem tabulates_labelled : labelledRows.Tabulates employed shownAs := by
  rintro name key exposed ⟨hmapping, -, -⟩
  obtain ⟨k, hk, -⟩ := Table.exists_mem_of_get?_eq_some hmapping
  rcases List.mem_cons.mp hk with heq | hk
  · cases heq
    refine ⟨fun e he => ?_, fun r hr _ => ?_⟩
    · obtain rfl := List.mem_singleton.mp he
      exact ⟨_, List.mem_cons_self, Value.int_beq_int.mpr rfl, rfl⟩
    · obtain rfl := List.mem_singleton.mp hr
      exact ⟨_, List.mem_cons_self, Value.int_beq_int.mpr rfl⟩
  · cases List.mem_singleton.mp hk
    refine ⟨fun e he => ?_, fun r hr _ => ?_⟩
    · obtain rfl := List.mem_singleton.mp he
      exact ⟨_, List.mem_cons_self, Value.int_beq_int.mpr rfl, rfl⟩
    · obtain rfl := List.mem_singleton.mp hr
      exact ⟨_, List.mem_cons_self, Value.int_beq_int.mpr rfl⟩

theorem serves_labelled : labelled.Serves employed owners labelledRules labelledRows (.ofTables shownAs) where
  catalog := rfl
  model := ⟨product, rfl⟩
  entity := rfl
  follows := by
    refine ⟨by decide, fun b hb => ?_⟩
    obtain rfl := List.mem_singleton.mp hb
    have hrelation : (Catalog.ofModels employed.models).relation? (.text "Product") "owner" =
      .ok (some { label := "owner", target := .text "User", foreignKey := .text "owner_id" }) := rfl
    exact .mk hrelation List.nodup_nil fun _ hb => absurd hb List.not_mem_nil
  rules := rfl
  projector := rfl
  labelled := wellLabelled_employed
  stored := stored_employed
  suits := suits_labelled
  answered := tabulates_labelled.answered stored_employed

end Shop

end Sift
