import Sift.Proofs.Endpoint.Forced
import Sift.Proofs.Endpoint.Serving
import Sift.Proofs.Includes.Paths
import Sift.Proofs.Projection.Flattening

/-!
# Attributes that are lifted into rows

A flat name is looked for where it stands for a column behind a relation, and a row shows under it what projecting makes
of that column. Where the two are about one column, a filter on the flat name selects the rows that show its value.
-/

namespace Sift

namespace KeyMapping

/-- The column that filters look for under the name of a column: what is exposed stands for the key of a mapped
entity. -/
def sought (mapping : Option KeyMapping) (source : String) : Value :=
  match mapping with
  | none => .text source
  | some k => if k.key == .text source then k.exposed else .text source

/-- The column that an object of an entity shows under the name of a column, if any: `id` shows what is exposed of a
mapped entity, which is taken from where it stood. -/
def shown? (mapping : Option KeyMapping) (source : String) : Option Value :=
  match mapping with
  | none => some (.text source)
  | some k => if source = "id" then some k.exposed else if k.exposed == .text source then none else some (.text source)

end KeyMapping

/-! ## Sources in projected objects -/

namespace Projector

variable {p : Projector} {s : Store} {found : Table Value Row} {entity source column exposed : String} {m : Model}
  {r : Record} {row : Row} {bs : List Branch} {key v : Value}

namespace Renders

variable (h : p.Suits s) (hs : s.Stored) (hlabels : s.WellLabelled) (hfound : Finds s found)
  (hrow : p.Renders s found entity bs r row)

end Renders

end Projector

/-! ## Flat names in filters -/

namespace Endpoint

variable {e : Endpoint} {s : Store} {includes : IncludeTree} {rules : FilterRules} {p : Projector}
  {lookups : LookupStore}

theorem Serves.exists_resolve_source (h : e.Serves s includes rules p lookups) {name target source column : String}
    {b : Branch} {m : Model} {st : Storage} (hb : b ∈ includes.branches) (hmany : b.many.truthy = false)
    (htarget : b.target = .text target) (hm : Model.find? s.models target = some m)
    (hsource : IsPlain s.models target source)
    (hsought : KeyMapping.sought (rules.scope.mappings.get? (.text target)) source = .text column)
    (hst : m.columns.get? column = some st)
    (hname : rules.scope.path (rules.policy.toInternal (.text name)) = .ok (Text.dotted ([b.label] ++ [source])))
    (hnames : Scope.IsPath ([b.label] ++ [source])) : ∃ ref, rules.resolve (.text name) = .ok ref ∧
      ref.chain = [b.label] ∧ ref.column = column ∧ ref.type = st.columnType := by
  have hchain : Branch.Along e.entity includes.branches [b.label] target b.nested :=
    .cons hb hmany htarget (.nil target b.nested)
  by_cases hkey : ∃ k, rules.scope.mappings.get? (.text target) = some k ∧ k.key = .text source
  · obtain ⟨⟨entity, _, exposed⟩, hmapped, rfl⟩ := hkey
    rw [hmapped, KeyMapping.sought, if_pos (Value.text_beq_iff.mpr rfl)] at hsought
    cases hsought
    obtain ⟨table, hscope, -⟩ := h.exists_table
    have hfollow : Branch.AllFollow (.ofModels s.models) (.text e.entity) includes.branches := h.entity ▸ h.follows
    obtain ⟨m', st', hm', hst', -⟩ := hsource
    have hshown : ∃ shown, rules.scope.shownBy b.label = .ok shown := by
      rw [hscope]
      cases hfollow.2 b hb with
      | mk hrelation =>
        simp only [Scope.shownBy, hrelation, bind, Except.bind]
        exact ⟨_, rfl⟩
    obtain ⟨shown, hshown⟩ := hshown
    rw [Section.resolve, Scope.resolve_related (List.cons_ne_nil _ _) hname hnames]
    rw [hscope] at hmapped hshown ⊢
    obtain ⟨many, hwalk⟩ := Scope.walk_along hchain hfollow (.bool false)
    exact ⟨_, Scope.relatedField_key hwalk (Catalog.hasColumn_ofModels hm' hst') (Catalog.columnType_ofModels hm hst)
      hmapped hshown, rfl, rfl, rfl⟩
  · have hkey : ∀ k, rules.scope.mappings.get? (.text target) = some k → k.key ≠ .text source :=
      fun k hk heq => hkey ⟨k, hk, heq⟩
    obtain rfl : source = column := by
      cases hmapped : rules.scope.mappings.get? (.text target) with
      | none =>
        rw [hmapped] at hsought
        exact Value.text.inj hsought
      | some k =>
        rw [hmapped, KeyMapping.sought, if_neg fun heq => hkey k hmapped (Value.beq_text_iff.mp heq)] at hsought
        exact Value.text.inj hsought
    obtain ⟨many, href⟩ := h.exists_resolve hname (List.cons_ne_nil _ _) hnames hchain hm hst hkey
    exact ⟨_, href, rfl, rfl, rfl⟩

/-- The flattened relations are included, and lead to one row at most. -/
structure Flattens (e : Endpoint) (includes : IncludeTree) : Prop where
  named : e.flattening.WellNamed
  toOne : ∀ l ∈ e.flattening.lifts, ∃ b ∈ includes.branches, l.label = .text b.label ∧ b.many.truthy = false ∧
    b.label ≠ "id"

variable {entity : String} {catalog : Catalog} {settings : Settings} {t u : IncludeTree}

theorem Flattens.isRelated (hflattens : e.Flattens includes) (h : e.Serves s includes rules p lookups)
    {found : Table Value Row} (hfound : Projector.Finds s found) {r : Record} {row : Row}
    (hrow : p.Renders s found e.entity includes.branches r row) : e.flattening.IsRelated row := by
  intro l hl
  obtain ⟨b, hb, hlabel, hmany, hid⟩ := hflattens.toOne l hl
  obtain ⟨m, hm⟩ := h.model
  obtain ⟨name, htarget⟩ := Store.exists_target_of_follows h.labelled hm (hrow.follow.2 b hb)
  refine ⟨b.label, hlabel, ?_⟩
  rcases hrow.toOne h.suits h.stored h.labelled hfound hb hmany htarget hid with ⟨-, hget⟩ | ⟨-, o, -, hget, -⟩
  · exact .inl hget
  · exact .inr (.inl ⟨o, hget⟩)

/-- A flat name for a column behind a flattened relation, where filters look for the column that rows show there: one of
a known type. It is no foreign key to a mapped entity. -/
structure LiftedColumn (e : Endpoint) (s : Store) (includes : IncludeTree) (rules : FilterRules) (p : Projector) where
  lift : Lift
  branch : Branch
  target : String
  model : Model
  source : String
  flat : String
  column : String
  storage : Storage
  lift_mem : lift ∈ e.flattening.lifts
  named : (.text source, .text flat) ∈ lift.attributes
  branch_mem : branch ∈ includes.branches
  label_eq : lift.label = .text branch.label
  toOne : branch.many.truthy = false
  not_id : branch.label ≠ "id"
  target_eq : branch.target = .text target
  model_found : Model.find? s.models target = some model
  source_plain : IsPlain s.models target source
  not_foreign : ∀ r ∈ model.owned s.models, r.foreignKey = .text source → p.mappings.get? r.target = none
  sought : KeyMapping.sought (rules.scope.mappings.get? (.text target)) source = .text column
  shown : KeyMapping.shown? (p.mappings.get? (.text target)) source = some (.text column)
  kept : model.columns.get? column = some storage
  known : storage.columnType ≠ .other
  plain_names : Scope.IsPath [branch.label, source]
  not_connective : flat ≠ "and" ∧ flat ≠ "or"

namespace LiftedColumn

theorem exists_resolve (k : LiftedColumn e s includes rules p) (h : e.Serves s includes rules p lookups)
    (hnamed : e.flattening.WellNamed) (halias : rules.policy.toInternal (.text k.flat) = .text k.flat) :
    ∃ ref, rules.resolve (.text k.flat) = .ok ref ∧ ref.chain = [k.branch.label] ∧ ref.column = k.column ∧
      ref.type = k.storage.columnType := by
  have hpath : rules.scope.path (rules.policy.toInternal (.text k.flat)) =
      .ok (Text.dotted ([k.branch.label] ++ [k.source])) := by
    obtain ⟨table, hscope, -⟩ := h.exists_table
    have hflat := Flattening.path?_of_mem hnamed k.lift_mem k.named
    rw [halias, hscope]
    simp only [Scope.path, Value.requireKey_text, bind, Except.bind, hflat, k.label_eq]
    rfl
  exact h.exists_resolve_source k.branch_mem k.toOne k.target_eq k.model_found k.source_plain k.sought k.kept hpath
    k.plain_names

variable {checked : Bool} {op : Operator} {x w : Value}

theorem exists_compile (k : LiftedColumn e s includes rules p) (h : e.Serves s includes rules p lookups)
    (hnamed : e.flattening.WellNamed)
    (hone : ∀ r ∈ s.records e.entity, (s.related e.entity k.branch.label r).length ≤ 1)
    (halias : rules.policy.toInternal (.text k.flat) = .text k.flat)
    (hpermits : checked = true → rules.permits (.text k.flat) = true) (hop : rules.registry.get? "eq" = some op)
    (hkind : op.kind = .eq) (hx : op.prepare k.flat k.storage.columnType x = .ok w)
    (hw : k.storage.columnType.Holds w) (hrange : w.InRange) (hoffset : ∀ t, w = .moment t → t.offset = none) :
    ∃ c, rules.compile checked (.object [(.text k.flat, .object [(.text "eq", x)])]) = .ok c ∧
      (∀ d ∈ c.predicate.clauses, s.Askable e.entity d) ∧ ∀ r ∈ s.records e.entity,
        s.meets e.entity c.predicate r = true ↔
          ∃ other, s.behind e.entity r [k.branch.label] = some other ∧ ((other.content k.column).shown == w) = true := by
  obtain ⟨ref, href, hchain, hcolumn, htype⟩ := k.exists_resolve h hnamed halias
  obtain ⟨m, hm⟩ := h.model
  have hfollow : Branch.AllFollow (.ofModels s.models) (.text e.entity) includes.branches := h.entity ▸ h.follows
  obtain ⟨hlead, -⟩ := Store.target_of_follows h.labelled hm (hfollow.2 _ k.branch_mem) k.target_eq
  have htarget : Model.find? s.models (s.targetOf e.entity ref.chain) = some k.model := by
    rw [hchain, Store.targetOf_cons, hlead]
    exact k.model_found
  have hlone : s.LeadsToOne e.entity ref.chain := by
    rw [hchain]
    exact ⟨hone, trivial⟩
  have hcompile := h.exists_compile k.not_connective.1 k.not_connective.2 href hpermits hop hkind htarget
    (hcolumn ▸ k.kept) hlone (htype ▸ hx) hw hrange hoffset
  rwa [hchain, hcolumn] at hcompile

end LiftedColumn

end Endpoint

namespace Shop

end Shop

namespace Endpoint.LiftedColumn

end Endpoint.LiftedColumn

end Sift
