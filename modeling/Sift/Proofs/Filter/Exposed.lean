import Sift.Proofs.Filter.Mapped
import Sift.Projection

/-!
# Exposed keys in filters

A foreign key to a mapped entity stands for the column by which that entity is exposed, and so does the key of the entity
behind the relation. Whichever of the two a filter names, it compiles to one and the same comparison.
-/

namespace Sift

/-- A foreign key of a model by which one row of a mapped entity is found. It belongs to one relation, and is kept as the
key that it refers to. It is neither `id` nor the column by which its own entity is exposed. -/
structure ExposedKey (models : List Model) (mappings : Table Value KeyMapping) where
  entity : String
  model : Model
  relation : Relation
  column : String
  target : String
  owner : Model
  key : String
  exposed : String
  keyStorage : Storage
  storage : Storage
  model_found : Model.find? models entity = some model
  owner_found : Model.find? models target = some owner
  linked : (relation, .columns [(column, key)]) ∈ model.relations
  toOne : relation.many.truthy = false
  foreignKey_eq : relation.foreignKey = .text column
  target_eq : relation.target = .text target
  only : ∀ r ∈ model.owned models, r.foreignKey = .text column → r = relation
  mapped : mappings.get? (.text target) = some ⟨.text target, .text key, .text exposed⟩
  column_kept : model.columns.get? column = some keyStorage
  key_kept : owner.columns.get? key = some keyStorage
  exposed_kept : owner.columns.get? exposed = some storage
  not_id : column ≠ "id"
  not_own : ∀ own, mappings.get? (.text entity) = some own → own.exposed ≠ .text column
  not_connective : column ≠ "and" ∧ column ≠ "or"
  /-- None of the names is empty or holds a point. -/
  plain_names : ∀ name ∈ [column, relation.label, key], name ≠ "" ∧ '.' ∉ name.toList

namespace ExposedKey

variable {models : List Model} {mappings : Table Value KeyMapping} (k : ExposedKey models mappings)

def mappedKey : MappedKey models mappings where
  entity := k.entity
  model := k.model
  relation := k.relation
  column := k.column
  target := k.target
  owner := k.owner
  key := k.key
  mapping := ⟨.text k.target, .text k.key, .text k.exposed⟩
  exposed := k.exposed
  keyStorage := k.keyStorage
  storage := k.storage
  model_found := k.model_found
  owner_found := k.owner_found
  linked := k.linked
  toOne := k.toOne
  foreignKey_eq := k.foreignKey_eq
  target_eq := k.target_eq
  mapped := k.mapped
  exposed_eq := rfl
  column_kept := k.column_kept
  exposed_kept := k.exposed_kept
  column_ne := (k.plain_names k.column List.mem_cons_self).1

theorem owned : k.relation ∈ k.model.owned models := k.mappedKey.owned

def field (many : Value) : FieldRef where
  entity := .text k.target
  column := k.exposed
  type := k.storage.columnType
  chain := [k.relation.label]
  many := many
  foreignKey := .text k.column

def scope (includes : IncludeTree) : Scope where
  catalog := .ofModels models
  entity := k.entity
  includes := includes
  mappings := mappings

def projector (includes : IncludeTree) : Projector where
  catalog := .ofModels models
  entity := k.entity
  includes := includes
  mappings := mappings

variable {includes : IncludeTree}

/-! ## Both spellings -/

/-- The names that a filter may use for the key: the foreign key itself, and the key of the entity that it refers to
behind the relation, where that is included. -/
inductive Names (k : ExposedKey models mappings) (includes : IncludeTree) : String → Prop
  | column : Names k includes k.column
  | path : (∃ b ∈ includes.branches, b.label = k.relation.label) → Names k includes (Text.dotted [k.relation.label, k.key])

variable {k} {name : String}

theorem Names.writes (h : k.Names includes name) (hentity : includes.entity = k.entity)
    (hincludes : includes.Follows (.ofModels models))
    (hkeys : ∀ r ∈ k.model.owned models, r.foreignKey.isKey = true) : k.mappedKey.Writes (k.scope includes) name := by
  cases h with
  | column =>
    have hplain : Scope.IsPath [k.column] := fun name hname => k.plain_names name (by simp_all)
    exact .column ⟨hplain, if_neg k.not_id⟩ (Catalog.foreignKeys_ofModels k.model_found hkeys)
      (Model.get?_owned k.owned k.foreignKey_eq k.only)
  | path hb =>
    have hnames : Scope.IsPath [k.relation.label, k.key] := fun name hname => k.plain_names name (by simp_all)
    exact MappedKey.Writes.path (k := k.mappedKey) hnames rfl k.key_kept hentity hincludes hb

theorem exists_resolve (h : k.Names includes name) (hentity : includes.entity = k.entity)
    (hincludes : includes.Follows (.ofModels models)) (hlabels : k.model.WellLabelled)
    (hkeys : ∀ r ∈ k.model.owned models, r.foreignKey.isKey = true) (place written : String) :
    ∃ many, (k.scope includes).resolve (.text name) place written = .ok (k.field many) :=
  (h.writes hentity hincludes hkeys).exists_resolve (k := k.mappedKey) ⟨rfl, rfl, rfl⟩ hlabels rfl place written

/-! ## Compiling -/

theorem Names.not_connective (h : k.Names includes name) : name ≠ "and" ∧ name ≠ "or" := by
  cases h with
  | column => exact k.not_connective
  | path => exact Scope.dotted_ne_connective (List.cons_ne_nil k.relation.label []) k.key

/-- Under either name a filter compares the exposed column behind the relation, and knows the foreign key that shows
it. -/
theorem exists_compile {r : FilterRules} {checked : Bool} {op : Operator} {x w : Value} (h : k.Names includes name)
    (hscope : r.scope = k.scope includes) (haliases : r.policy.aliases = [])
    (hpermits : checked = true → r.permits (.text name) = true) (hop : r.registry.get? "eq" = some op)
    (hx : op.prepare name k.storage.columnType x = .ok w) (hentity : includes.entity = k.entity)
    (hincludes : includes.Follows (.ofModels models)) (hlabels : k.model.WellLabelled)
    (hkeys : ∀ r ∈ k.model.owned models, r.foreignKey.isKey = true) :
    ∃ many, r.compile checked (.object [(.text name, .object [(.text "eq", x)])]) =
      .ok ⟨.clause ⟨k.field many, op.kind, w, op.token⟩, [[k.relation.label]]⟩ := by
  obtain ⟨many, hresolve⟩ := exists_resolve h hentity hincludes hlabels hkeys r.place
    (if (Value.text name).truthy then name else "")
  have hresolved : r.resolve (.text name) = .ok (k.field many) := by
    rw [Section.resolve, Policy.toInternal, haliases, hscope]
    exact hresolve
  obtain ⟨hand, hor⟩ := h.not_connective
  refine ⟨many, ?_⟩
  rw [FilterRules.compile_single hand hor hresolved hpermits hop,
    show (k.field many).type = k.storage.columnType from rfl, hx]
  rfl

end ExposedKey

end Sift
