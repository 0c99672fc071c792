import Sift.Proofs.Filter.Related
import Sift.Proofs.Schema.Relations

/-!
# Names for columns of the base entity

A plain name stands for a column of the base entity, `id` for the one by which the entity is exposed. Where the column is
a foreign key to a mapped entity, it stands in turn for the column by which that one is exposed, and so does the key of
the mapped entity behind the relation.
-/

namespace Sift

namespace Scope

variable {s : Scope} {written column place as : String}

/-- The plain name is written for a column of the base entity. -/
structure Writes (s : Scope) (written column : String) : Prop where
  plain : IsPath [written]
  column : (if written = "id" then s.exposedId.either (.text written) else .text written) = .text column

/-- A plain name finds the column that it is written for, or the exposed one that this is mapped to. -/
theorem Writes.ownField (h : s.Writes written column)
    (hhas : s.catalog.hasColumn (.text s.entity) (.text column) = .ok true) {keys : Table Value Relation}
    (hkeys : s.catalog.foreignKeys (.text s.entity) = .ok keys) : s.ownField written place as =
      match keys.get? (.text column) with
      | some relation => do
        match ← s.mapping? relation.target with
        | some mapping =>
          let ref ← s.columnRef relation.target mapping.exposed
          return { ref with chain := [relation.label], foreignKey := .text column }
        | none => s.columnRef (.text s.entity) (.text column)
      | none => s.columnRef (.text s.entity) (.text column) := by
  simp only [Scope.ownField, h.column, hhas, hkeys, bind, Except.bind]
  rfl

end Scope

/-! ## Columns that are no mapped foreign keys -/

/-- A column of the base entity that stands for itself. -/
structure OwnColumn (models : List Model) (s : Scope) where
  model : Model
  column : String
  storage : Storage
  keys : Table Value Relation
  catalog_eq : s.catalog = .ofModels models
  model_found : Model.find? models s.entity = some model
  column_kept : model.columns.get? column = some storage
  keys_eq : s.catalog.foreignKeys (.text s.entity) = .ok keys
  unmapped : ∀ r, keys.get? (.text column) = some r → s.mapping? r.target = .ok none

namespace OwnColumn

variable {models : List Model} {sec : Section} {name written : String}

def field {s : Scope} (k : OwnColumn models s) : FieldRef where
  entity := .text s.entity
  column := k.column
  type := k.storage.columnType

theorem resolve (k : OwnColumn models sec.scope) (hwrites : sec.scope.Writes written k.column)
    (hpath : sec.scope.path (sec.policy.toInternal (.text name)) = .ok written) :
    sec.resolve (.text name) = .ok k.field := by
  have hhas : sec.scope.catalog.hasColumn (.text sec.scope.entity) (.text k.column) = .ok true := by
    rw [k.catalog_eq]
    exact Catalog.hasColumn_ofModels k.model_found k.column_kept
  have htype : sec.scope.catalog.columnType (.text sec.scope.entity) (.text k.column) = .ok k.storage.columnType := by
    rw [k.catalog_eq]
    exact Catalog.columnType_ofModels k.model_found k.column_kept
  rw [Section.resolve, Scope.resolve_own hpath hwrites.plain, hwrites.ownField hhas k.keys_eq, Scope.columnRef_eq htype]
  cases hr : k.keys.get? (.text k.column) with
  | none => rfl
  | some r =>
    simp only [k.unmapped r hr]
    rfl

end OwnColumn

/-! ## Mapped foreign keys -/

/-- A foreign key of an entity by which one row of a mapped entity is found, and the column by which that is exposed. -/
structure MappedKey (models : List Model) (mappings : Table Value KeyMapping) where
  entity : String
  model : Model
  relation : Relation
  column : String
  target : String
  owner : Model
  key : String
  mapping : KeyMapping
  exposed : String
  keyStorage : Storage
  storage : Storage
  model_found : Model.find? models entity = some model
  owner_found : Model.find? models target = some owner
  linked : (relation, .columns [(column, key)]) ∈ model.relations
  toOne : relation.many.truthy = false
  foreignKey_eq : relation.foreignKey = .text column
  target_eq : relation.target = .text target
  mapped : mappings.get? (.text target) = some mapping
  exposed_eq : mapping.exposed = .text exposed
  column_kept : model.columns.get? column = some keyStorage
  exposed_kept : owner.columns.get? exposed = some storage
  column_ne : column ≠ ""

namespace MappedKey

variable {models : List Model} {mappings : Table Value KeyMapping} (k : MappedKey models mappings)

theorem visible : k.relation.IsVisible models := ⟨k.target, k.owner, k.target_eq, k.owner_found⟩

theorem column_truthy : (Value.text k.column).truthy = true := by
  simpa [Value.truthy] using k.column_ne

theorem owned : k.relation ∈ k.model.owned models :=
  Model.mem_owned_iff.mpr ⟨⟨_, k.linked⟩, k.visible, by rw [k.foreignKey_eq, k.column_truthy], k.toOne⟩

def field (many : Value) : FieldRef where
  entity := .text k.target
  column := k.exposed
  type := k.storage.columnType
  chain := [k.relation.label]
  many := many
  foreignKey := .text k.column

/-- The scope is about the entity of the key, and knows what it is mapped to. -/
structure InScope (s : Scope) : Prop where
  catalog : s.catalog = .ofModels models
  entity : s.entity = k.entity
  mappings : s.mappings = mappings

variable {k} {s : Scope} {sec : Section} {place as name written : String}

namespace InScope

theorem mapping? (h : k.InScope s) : s.mapping? (.text k.target) = .ok (some k.mapping) := by
  rw [Scope.mapping?_text, h.mappings, k.mapped]

theorem columnRef (h : k.InScope s) : s.columnRef (.text k.target) k.mapping.exposed =
    .ok { entity := .text k.target, column := k.exposed, type := k.storage.columnType } := by
  rw [k.exposed_eq]
  refine Scope.columnRef_eq ?_
  rw [h.catalog]
  exact Catalog.columnType_ofModels k.owner_found k.exposed_kept

theorem relation? (h : k.InScope s) (hlabels : k.model.WellLabelled) :
    s.catalog.relation? (.text s.entity) k.relation.label = .ok (some k.relation) := by
  rw [h.catalog, h.entity]
  exact (Catalog.relation?_ofModels k.model_found hlabels).mpr ⟨_, k.linked, rfl, k.visible⟩

end InScope

/-- The paths that stand for the key: the ones that are written for its column, where no other relation counts for that,
and the key of the mapped entity behind the relation, where that is included. -/
inductive Writes (k : MappedKey models mappings) (s : Scope) : String → Prop
  | column {written : String} {keys : Table Value Relation} (writes : s.Writes written k.column)
      (keys_eq : s.catalog.foreignKeys (.text s.entity) = .ok keys)
      (counts : keys.get? (.text k.column) = some k.relation) : Writes k s written
  | path {key : String} {st : Storage} (names : Scope.IsPath [k.relation.label, key]) (key_eq : k.mapping.key = .text key)
      (key_kept : k.owner.columns.get? key = some st) (entity : s.includes.entity = s.entity)
      (follows : s.includes.Follows s.catalog) (included : ∃ b ∈ s.includes.branches, b.label = k.relation.label) :
      Writes k s (Text.dotted [k.relation.label, key])

theorem InScope.ownField (h : k.InScope s) {keys : Table Value Relation} (hwrites : s.Writes written k.column)
    (hkeys : s.catalog.foreignKeys (.text s.entity) = .ok keys) (hget : keys.get? (.text k.column) = some k.relation) :
    s.ownField written place as = .ok (k.field (.bool false)) := by
  have hhas : s.catalog.hasColumn (.text s.entity) (.text k.column) = .ok true := by
    rw [h.catalog, h.entity]
    exact Catalog.hasColumn_ofModels k.model_found k.column_kept
  simp only [hwrites.ownField hhas hkeys, hget, k.target_eq, h.mapping?, h.columnRef, bind, Except.bind]
  rfl

theorem InScope.relatedField (h : k.InScope s) {key : String} {st : Storage} (hlabels : k.model.WellLabelled)
    (hkey : k.mapping.key = .text key) (hkept : k.owner.columns.get? key = some st)
    (hentity : s.includes.entity = s.entity) (hfollows : s.includes.Follows s.catalog)
    (hincluded : ∃ b ∈ s.includes.branches, b.label = k.relation.label) :
    s.relatedField [k.relation.label] key place as = .ok (k.field k.relation.many) := by
  obtain ⟨b, hmem, hlabel⟩ := hincluded
  have hfind : Branch.find? k.relation.label s.includes.branches = some b :=
    hlabel ▸ Branch.find?_eq_some_of_mem hfollows.1 hmem
  have hfollows := hfollows.2 b hmem
  rw [hentity] at hfollows
  cases hfollows with
  | @mk _ _ r nested hrelation _ _ =>
    cases hlabel
    cases (h.relation? hlabels).symm.trans hrelation
    have hwalk : Scope.walk place as (.text s.entity) (.bool false) s.includes.branches [k.relation.label] =
        .ok (.text k.target, k.relation.many) := by
      simp only [Scope.walk, hfind, k.target_eq]
      rfl
    have hshown : s.shownBy k.relation.label = .ok (.text k.column) := by
      simp only [Scope.shownBy, h.relation? hlabels, bind, Except.bind, k.toOne, k.foreignKey_eq]
      rfl
    have hhas : s.catalog.hasColumn (.text k.target) (.text key) = .ok true := by
      rw [h.catalog]
      exact Catalog.hasColumn_ofModels k.owner_found hkept
    have htype : s.catalog.columnType (.text k.target) (.text k.exposed) = .ok k.storage.columnType := by
      rw [h.catalog]
      exact Catalog.columnType_ofModels k.owner_found k.exposed_kept
    have hmapped : s.mappings.get? (.text k.target) = some ⟨k.mapping.entity, .text key, .text k.exposed⟩ := by
      rw [h.mappings, k.mapped, ← hkey, ← k.exposed_eq]
    exact Scope.relatedField_key hwalk hhas htype hmapped hshown

theorem Writes.exists_resolve (hwrites : k.Writes s written) (h : k.InScope s) (hlabels : k.model.WellLabelled)
    {name : Value} (hpath : s.path name = .ok written) (place as : String) :
    ∃ many, s.resolve name place as = .ok (k.field many) := by
  cases hwrites with
  | column hwrites hkeys hget =>
    rw [Scope.resolve_own hpath hwrites.plain, h.ownField hwrites hkeys hget]
    exact ⟨_, rfl⟩
  | path hnames hkey hkept hentity hfollows hincluded =>
    rw [Scope.resolve_related (List.cons_ne_nil k.relation.label []) hpath hnames,
      h.relatedField hlabels hkey hkept hentity hfollows hincluded]
    exact ⟨_, rfl⟩

end MappedKey

end Sift
