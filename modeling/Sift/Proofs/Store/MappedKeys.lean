import Sift.Proofs.Store.Denials
import Sift.Proofs.Store.Presented

/-!
# Denials behind a foreign key

What is asked of a mapped foreign key is asked of the row that it refers to. A row without the key has none, and is found
as one that shows null: by every denial, and by nothing else. So a denial selects what the operator that it denies does
not select, wherever each key refers to one row and that is exposed by something.
-/

namespace Sift

namespace MappedKey

variable {s : Store} {mappings : Table Value KeyMapping} {k : MappedKey s.models mappings}

/-- The store keeps its promises about the key: it refers to a row, and to one only, which is exposed by something. -/
structure Refers (k : MappedKey s.models mappings) : Prop where
  refers : ∀ r ∈ s.records k.entity, (r.cell k.column).isNull = false →
    ∃ o ∈ s.records k.target, (r.cell k.column).equal (o.cell k.key) = .yes
  unique : ∀ o ∈ s.records k.target, ∀ o' ∈ s.records k.target, (o.cell k.key).rank = (o'.cell k.key).rank → o = o'
  exposes : ∀ o ∈ s.records k.target, (o.cell k.exposed).isNull = false

/-! ## Related records -/

variable {r o : Record} {many w : Value} {token : String}

theorem mem_related_iff (hlabels : s.WellLabelled) :
    o ∈ s.related k.entity k.relation.label r ↔
      o ∈ s.records k.target ∧ (r.cell k.column).equal (o.cell k.key) = .yes := by
  have hstep := Store.step?_of_mem k.model_found (hlabels.of_find? k.model_found) k.linked k.target_eq k.owner_found
  rw [Store.related, hstep]
  simp only [Option.elim_some, Model.name_of_find? k.owner_found, List.mem_filter, Store.linked, List.all_cons,
    List.all_nil, Bool.and_true, decide_eq_true_iff]

/-- A key that refers leads to one record only. -/
theorem eq_of_mem_related (hlabels : s.WellLabelled) (hrefers : k.Refers) {o' : Record}
    (ho : o ∈ s.related k.entity k.relation.label r) (ho' : o' ∈ s.related k.entity k.relation.label r) : o = o' := by
  obtain ⟨hmem, heq⟩ := (mem_related_iff hlabels).mp ho
  obtain ⟨hmem', heq'⟩ := (mem_related_iff hlabels).mp ho'
  refine hrefers.unique o hmem o' hmem' ?_
  rw [← (Cell.equal_eq_yes_iff.mp heq).2.2, ← (Cell.equal_eq_yes_iff.mp heq').2.2]

theorem not_missing (hlabels : s.WellLabelled) (ho : o ∈ s.related k.entity k.relation.label r) :
    (r.cell k.column).isNull = false :=
  (Cell.equal_eq_yes_iff.mp ((mem_related_iff hlabels).mp ho).2).1

/-! ## Clauses -/

theorem shownBy?_field : Store.shownBy? (k.field many) = some k.column := by
  rw [Store.shownBy?, show (k.field many).foreignKey = .text k.column from rfl, if_pos k.column_truthy]
  rfl

theorem storageOf_field (hlabels : s.WellLabelled) : s.storageOf k.entity (k.field many) = k.storage := by
  have htarget : s.targetOf k.entity (k.field many).chain = k.target :=
    Store.target_of_mem k.model_found (hlabels.of_find? k.model_found) k.linked k.target_eq k.owner_found
  rw [Store.storageOf, htarget, k.owner_found, Option.bind_some, show (k.field many).column = k.exposed from rfl,
    k.exposed_kept, Option.getD_some]

theorem clauseTruth_null : s.clauseTruth k.entity r ⟨k.field many, .eq, .null, token⟩ = .yes ↔
    (r.cell k.column).isNull = true := by
  simp only [Store.clauseTruth, shownBy?_field, Store.isNull, if_true]
  cases (r.cell k.column).isNull <;> simp [Truth.ofBool]

theorem clauseTruth_not_null : s.clauseTruth k.entity r ⟨k.field many, .neq, .null, token⟩ = .yes ↔
    ¬(r.cell k.column).isNull = true := by
  simp only [Store.clauseTruth, shownBy?_field, Store.isNull, if_true]
  cases (r.cell k.column).isNull <;> simp [Truth.ofBool]

variable {kind kind' : OperatorKind} {ds : List Cell}

/-- Of a row with the key, a comparison and its denial are asked of the one row that it refers to. Of a row without it
the comparison does not hold, and the denial does. -/
theorem clauseTruth_denied (token' : String) (hlabels : s.WellLabelled) (hrefers : k.Refers) (h : kind'.Denies kind) (hw : w ≠ .null)
    (hds : s.operands k.entity ⟨k.field many, kind, w, token⟩ = .ok ds) (hnull : ∀ d ∈ ds, d.isNull = false)
    (hr : r ∈ s.records k.entity) :
    (s.clauseTruth k.entity r ⟨k.field many, kind', w, token'⟩ = .yes ↔
      ¬s.clauseTruth k.entity r ⟨k.field many, kind, w, token⟩ = .yes) ∧
      ((r.cell k.column).isNull = true → s.clauseTruth k.entity r ⟨k.field many, kind', w, token'⟩ = .yes) := by
  obtain ⟨hne, htruth⟩ := Store.columnTruth_denied h hds token'
  obtain ⟨hpos, hneg⟩ := htruth r
  obtain ⟨hnegated, hplain⟩ := h.isNegated
  have hpos : s.clauseTruth k.entity r ⟨k.field many, kind, w, token⟩ = .yes ↔
      ∃ o ∈ s.related k.entity k.relation.label r, (o.cell k.exposed).satisfies kind ds = .yes := by
    simp only [Store.clauseTruth, shownBy?_field, Store.isNull_eq_false hw, hplain, Bool.false_eq_true, if_false, hpos]
    exact Store.reaches_cons_iff
  have hneg : s.clauseTruth k.entity r ⟨k.field many, kind', w, token'⟩ = .yes ↔ (r.cell k.column).isNull = true ∨
      ∃ o ∈ s.related k.entity k.relation.label r, (o.cell k.exposed).satisfies kind' ds = .yes := by
    simp only [Store.clauseTruth, shownBy?_field, Store.isNull_eq_false hw, hnegated, Bool.false_eq_true, if_false,
      if_true, hneg, Truth.or_eq_yes_iff, Truth.ofBool_eq_yes_iff]
    exact or_congr_right Store.reaches_cons_iff
  rw [hpos, hneg]
  cases hmissing : (r.cell k.column).isNull with
  | true =>
    -- without the key there is no related row
    refine ⟨⟨fun _ => ?_, fun _ => .inl rfl⟩, fun _ => .inl rfl⟩
    rintro ⟨o, ho, -⟩
    rw [not_missing hlabels ho] at hmissing
    cases hmissing
  | false =>
    obtain ⟨o, hmem, hequal⟩ := hrefers.refers r hr hmissing
    have ho := (mem_related_iff hlabels).mpr ⟨hmem, hequal⟩
    -- there is one related row, so what some related row fulfils is what this one does
    have hone (P : Record → Prop) : (∃ o ∈ s.related k.entity k.relation.label r, P o) ↔ P o := by
      constructor
      · rintro ⟨o', ho', hP⟩
        rwa [eq_of_mem_related hlabels hrefers ho ho']
      · exact fun hP => ⟨o, ho, hP⟩
    have hdecided : ¬Cell.LeavesOpen kind (o.cell k.exposed) ds := by
      rw [Cell.leavesOpen_iff h hnull, hrefers.exposes o hmem]
      simp
    rw [hone, hone, Cell.satisfies_denied h _ hne]
    simp [hdecided]

/-! ## Filters -/

variable {rules : FilterRules} {checked : Bool} {name written token' : String} {op : Operator} {x : Value}

/-- A filter with a denied operator on a mapped foreign key selects the records that the filter with the operator does
not select. The records without the key are among them, unless null is asked for, which selects exactly these. -/
theorem selects_complement (k : MappedKey s.models mappings) (hlabels : s.WellLabelled) (hrefers : k.Refers)
    (hscope : k.InScope rules.scope) (hwrites : k.Writes rules.scope written)
    (hpath : rules.scope.path (rules.policy.toInternal (.text name)) = .ok written) (hmatcher : s.matcher ≠ .none)
    (htype : k.storage.columnType ≠ .other)
    (h : rules.AcceptsBoth checked name token token' k.storage.columnType x op w) (hrange : w.InRange) :
    ∃ c d, rules.compile checked (.object [(.text name, .object [(.text token, x)])]) = .ok c ∧
      rules.compile checked (.object [(.text name, .object [(.text token', x)])]) = .ok d ∧
      (∀ e ∈ c.predicate.clauses ++ d.predicate.clauses, Store.asksForKey e = false → s.Askable k.entity e) ∧
      ∀ r ∈ s.records k.entity,
        (s.meets k.entity d.predicate r = true ↔ ¬s.meets k.entity c.predicate r = true) ∧
        (x ≠ .null → (r.cell k.column).isNull = true → s.meets k.entity d.predicate r = true) ∧
        (x = .null → (s.meets k.entity c.predicate r = true ↔ (r.cell k.column).isNull = true)) := by
  obtain ⟨op', hdenies, hget, hget', hsound, hsound', hx', -⟩ := h.exists_denial
  obtain ⟨many, href⟩ := hwrites.exists_resolve hscope (hlabels.of_find? k.model_found) hpath rules.place
    (if (Value.text name).truthy then name else "")
  have href : rules.resolve (.text name) = .ok (k.field many) := href
  obtain ⟨hask, ds, hds, hnull, -, hequality⟩ :=
    Store.exists_operands_denied hdenies hsound hsound' hmatcher (storageOf_field hlabels) htype h.prepared hrange
  refine ⟨_, _, h.compile href hget h.prepared, h.compile href hget' hx', fun e he _ => hask e he, fun r hr => ?_⟩
  simp only [Store.meets_clause]
  by_cases hw : w = .null
  · have hkind := hequality hw
    have hkind' : op'.kind = .neq := OperatorKind.Denies.eq_neq (hkind ▸ hdenies.kind)
    rw [hkind, hkind', hw, clauseTruth_null, clauseTruth_not_null]
    exact ⟨Iff.rfl, fun hx => absurd (h.prepares_null.mp hw) hx, fun _ => Iff.rfl⟩
  · obtain ⟨hcomplement, hmissing⟩ := clauseTruth_denied op'.token hlabels hrefers hdenies.kind hw hds hnull hr
    exact ⟨hcomplement, fun _ => hmissing, fun hx => absurd (h.prepares_null.mpr hx) hw⟩

end MappedKey

namespace Shop

/-- The key of the owner of a product. -/
def mappedOwner : MappedKey owning.models [(.text "User", external)] where
  entity := "Product"
  model := product
  relation := { label := "owner", target := .text "User", foreignKey := .text "owner_id" }
  column := "owner_id"
  target := "User"
  owner := user
  key := "id"
  mapping := external
  exposed := "external_id"
  keyStorage := .integer
  storage := .text
  model_found := rfl
  owner_found := rfl
  linked := List.mem_cons_self
  toOne := rfl
  foreignKey_eq := rfl
  target_eq := rfl
  mapped := rfl
  exposed_eq := rfl
  column_kept := rfl
  exposed_kept := rfl
  column_ne := by decide

theorem wellLabelled_owning : owning.WellLabelled := by
  intro m hm
  rcases List.mem_cons.mp hm with rfl | hm
  · exact ⟨by decide, by decide⟩
  · obtain rfl := List.mem_singleton.mp hm
    exact ⟨by decide, by decide⟩

theorem refers_mappedOwner : mappedOwner.Refers where
  refers := by decide +kernel
  unique := by
    have hnodup : ((owning.records "User").map fun o => (o.cell "id").rank).Nodup := by decide +kernel
    exact fun o ho o' ho' h => List.inj_on_of_nodup_map hnodup ho ho' h
  exposes := by decide +kernel

theorem follows_owners : owners.Follows (.ofModels owning.models) := by
  refine ⟨by decide, fun b hb => ?_⟩
  obtain rfl := List.mem_singleton.mp hb
  have hrelation : (Catalog.ofModels owning.models).relation? (.text "Product") "owner" =
    .ok (some mappedOwner.relation) := rfl
  exact .mk hrelation List.nodup_nil fun _ hb => absurd hb List.not_mem_nil

end Shop

namespace MappedKey

theorem selects_complement_owner :
    (∃ c d, (Shop.products (.ofModels Shop.owning.models) {}).compile true
        (.object [(.text "owner_id", .object [(.text "in", .list [.text "ext-007"])])]) = .ok c ∧
      (Shop.products (.ofModels Shop.owning.models) {}).compile true
        (.object [(.text "owner_id", .object [(.text "not_in", .list [.text "ext-007"])])]) = .ok d ∧
      Shop.owning.meets "Product" d.predicate (Shop.item 3 .null) = true ∧
      ∀ r ∈ Shop.owning.records "Product",
        Shop.owning.meets "Product" d.predicate r = true ↔ ¬Shop.owning.meets "Product" c.predicate r = true) ∧
    ∃ c, (Shop.products (.ofModels Shop.owning.models) {}).compile true
        (.object [(.text "owner.id", .object [(.text "eq", .null)])]) = .ok c ∧
      Shop.owning.meets "Product" c.predicate (Shop.item 3 .null) = true := by
  have hscope : Shop.mappedOwner.InScope (Shop.products (.ofModels Shop.owning.models) {}).scope := ⟨rfl, rfl, rfl⟩
  have hnobody : Shop.item 3 .null ∈ Shop.owning.records "Product" :=
    List.mem_cons_of_mem _ (List.mem_cons_of_mem _ List.mem_cons_self)
  constructor
  · have hwrites : Shop.mappedOwner.Writes (Shop.products (.ofModels Shop.owning.models) {}).scope "owner_id" :=
      .column ⟨by decide, rfl⟩ rfl rfl
    have haccepts : (Shop.products (.ofModels Shop.owning.models) {}).AcceptsBoth true "owner_id" "in" "not_in" .text
        (.list [.text "ext-007"]) _ _ :=
      ⟨by decide, fun _ => rfl, by decide, fun _ _ => rfl, rfl, rfl⟩
    obtain ⟨c, d, hc, hd, -, hselects⟩ := selects_complement Shop.mappedOwner Shop.wellLabelled_owning
      Shop.refers_mappedOwner hscope hwrites rfl (by decide) (by decide) haccepts fun n hn => by simp at hn
    exact ⟨c, d, hc, hd, (hselects _ hnobody).2.1 Value.noConfusion rfl, fun r hr => (hselects r hr).1⟩
  · have hnames : Scope.IsPath [Shop.mappedOwner.relation.label, "id"] := by decide
    have hwrites : Shop.mappedOwner.Writes (Shop.products (.ofModels Shop.owning.models) {}).scope "owner.id" :=
      .path hnames rfl rfl rfl Shop.follows_owners ⟨_, List.mem_cons_self, rfl⟩
    have haccepts : (Shop.products (.ofModels Shop.owning.models) {}).AcceptsBoth true "owner.id" "eq" "neq" .text
        .null _ _ :=
      ⟨by decide, fun _ => rfl, by decide, fun _ _ => rfl, rfl, rfl⟩
    obtain ⟨c, d, hc, -, -, hselects⟩ := selects_complement Shop.mappedOwner Shop.wellLabelled_owning
      Shop.refers_mappedOwner hscope hwrites rfl (by decide) (by decide) haccepts trivial
    exact ⟨c, hc, ((hselects _ hnobody).2.2 rfl).mpr rfl⟩

end MappedKey

end Sift
