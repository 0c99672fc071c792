import Sift.Proofs.Outcome
import Sift.Schema.IncludeTree
import Sift.Store.Model

/-!
# Well-formed schemas

In a well-formed schema every relation leads to an entity that can be asked for its columns and relations. So does every
branch of a tree of relations that was made from it, however deep.
-/

namespace Sift

namespace Table

variable {κ α : Type} [BEq κ]

theorem exists_mem_of_get?_eq_some {k : κ} {a : α} {t : Table κ α} (h : t.get? k = some a) :
    ∃ k', (k', a) ∈ t ∧ (k == k') = true := by
  induction t with
  | nil => cases h
  | cons p t ih =>
    obtain ⟨k₁, a₁⟩ := p
    simp only [get?] at h
    split at h
    · cases h
      exact ⟨k₁, List.mem_cons_self, ‹_›⟩
    · obtain ⟨k', hmem, hk⟩ := ih h
      exact ⟨k', List.mem_cons_of_mem _ hmem, hk⟩

theorem mem_values_of_get? {k : κ} {a : α} {t : Table κ α} (h : t.get? k = some a) : a ∈ t.values := by
  obtain ⟨k', hmem, -⟩ := exists_mem_of_get?_eq_some h
  exact List.mem_map.mpr ⟨_, hmem, rfl⟩

theorem exists_mem_of_mem_getD [LawfulBEq κ] {k : κ} {a : α} {t : Table κ (List α)} (h : a ∈ (t.get? k).getD []) :
    ∃ as, (k, as) ∈ t ∧ a ∈ as := by
  cases hget : t.get? k with
  | none =>
    rw [hget] at h
    exact absurd h List.not_mem_nil
  | some as =>
    rw [hget] at h
    exact ⟨as, mem_of_get?_eq_some hget, h⟩

/-- What holds of the entries that are put into a table holds of its entries, if it holds of all keys that are taken for
one another. -/
theorem forall_mem_insert {P : κ → α → Prop} (same : ∀ k k' a, (k == k') = true → P k a → P k' a) {k : κ} {a : α}
    {t : Table κ α} (ha : P k a) (ht : ∀ p ∈ t, P p.1 p.2) : ∀ p ∈ t.insert k a, P p.1 p.2 := by
  induction t with
  | nil => exact List.forall_mem_singleton.mpr ha
  | cons p t ih =>
    obtain ⟨hp, ht⟩ := List.forall_mem_cons.mp ht
    simp only [insert]
    split
    · exact List.forall_mem_cons.mpr ⟨same _ _ _ ‹_› ha, ht⟩
    · exact List.forall_mem_cons.mpr ⟨hp, ih ht⟩

theorem forall_mem_insertMany {P : κ → α → Prop} (same : ∀ k k' a, (k == k') = true → P k a → P k' a)
    {t u : Table κ α} (ht : ∀ p ∈ t, P p.1 p.2) (hu : ∀ p ∈ u, P p.1 p.2) : ∀ p ∈ t.insertMany u, P p.1 p.2 := by
  induction u generalizing t with
  | nil => exact ht
  | cons p u ih =>
    obtain ⟨hp, hu⟩ := List.forall_mem_cons.mp hu
    exact ih (forall_mem_insert same hp ht) hu

theorem forall_mem_ofList {P : κ → α → Prop} (same : ∀ k k' a, (k == k') = true → P k a → P k' a)
    {entries : List (κ × α)} (h : ∀ p ∈ entries, P p.1 p.2) : ∀ p ∈ ofList entries, P p.1 p.2 :=
  forall_mem_insertMany same (fun _ hp => absurd hp List.not_mem_nil) h

end Table

theorem Model.name_of_find? {models : List Model} {name : String} {m : Model} (h : Model.find? models name = some m) :
    m.name = name := by
  have hfound := List.find?_some h
  exact of_decide_eq_true hfound

namespace Catalog

variable {c : Catalog} {entity base : String}

/-- The catalog can be asked for the columns and the relations of an entity. -/
structure Knows (c : Catalog) (entity : String) : Prop where
  columns : ∃ types, c.columns (.text entity) = .ok types
  relations : ∃ relations, c.relations (.text entity) = .ok relations

/-- The catalog serves requests for an entity: it knows that entity, and all that relations lead to. -/
structure WellFormed (c : Catalog) (base : String) : Prop where
  known : c.Knows base
  options : ∃ row, c.options (.text base) = .ok (.object row)
  related : ∀ {entity : String} {relations : Table String Relation}, c.relations (.text entity) = .ok relations →
    ∀ r ∈ relations.values, (∃ target, r.target = .text target ∧ c.Knows target) ∧ r.foreignKey.isKey = true

/-- The entity has the column. -/
def Has (c : Catalog) (entity column : String) : Prop :=
  ∃ types, c.columns (.text entity) = .ok types ∧ types.contains (.text column) = true

theorem hasColumn_eq {types : Table Value ColumnType} (h : c.columns (.text entity) = .ok types) (column : String) :
    c.hasColumn (.text entity) (.text column) = .ok (types.contains (.text column)) := by
  simp only [Catalog.hasColumn, h, Value.requireKey_text, bind, Except.bind]
  rfl

theorem Has.hasColumn {column : String} (h : c.Has entity column) :
    c.hasColumn (.text entity) (.text column) = .ok true := by
  obtain ⟨types, htypes, hcolumn⟩ := h
  rw [hasColumn_eq htypes, hcolumn]

theorem Knows.hasColumn (h : c.Knows entity) (column : String) :
    ∃ b, c.hasColumn (.text entity) (.text column) = .ok b ∧ (b = true → c.Has entity column) := by
  obtain ⟨types, htypes⟩ := h.columns
  exact ⟨_, hasColumn_eq htypes column, fun hb => ⟨types, htypes, hb⟩⟩

theorem columnType_eq {types : Table Value ColumnType} {column : String} {type : ColumnType}
    (h : c.columns (.text entity) = .ok types) (hcolumn : types.get? (.text column) = some type) :
    c.columnType (.text entity) (.text column) = .ok type := by
  simp only [Catalog.columnType, h, Value.requireKey_text, bind, Except.bind, hcolumn]
  rfl

theorem Has.columnType {column : String} (h : c.Has entity column) :
    ∃ type, c.columnType (.text entity) (.text column) = .ok type := by
  obtain ⟨types, htypes, hcolumn⟩ := h
  obtain ⟨type, htype⟩ := Option.isSome_iff_exists.mp hcolumn
  exact ⟨type, columnType_eq htypes htype⟩

theorem Knows.relation? (h : c.Knows entity) (label : String) :
    ∃ found relations, c.relation? (.text entity) label = .ok found ∧ c.relations (.text entity) = .ok relations ∧
      ∀ r, found = some r → r ∈ relations.values := by
  obtain ⟨relations, hrelations⟩ := h.relations
  exact ⟨relations.get? label, relations, by rw [Catalog.relation?, hrelations]; rfl, hrelations,
    fun r hr => Table.mem_values_of_get? hr⟩

/-- A column that is a foreign key belongs to a relation of the entity. -/
theorem WellFormed.foreignKeys (h : c.WellFormed base) (hk : c.Knows entity) :
    ∃ keys, c.foreignKeys (.text entity) = .ok keys ∧
      ∀ key r, keys.get? key = some r → ∃ target, r.target = .text target ∧ c.Knows target := by
  obtain ⟨relations, hrelations⟩ := hk.relations
  have hrelated := h.related hrelations
  let owned := relations.values.filter fun r => r.foreignKey.truthy && !r.many.truthy
  have howned : ∀ r ∈ owned, (∃ target, r.target = .text target ∧ c.Knows target) ∧ r.foreignKey.isKey = true :=
    fun r hr => hrelated r (List.mem_filter.mp hr).1
  have hmap : owned.mapM (fun r => do return (← r.foreignKey.requireKey, r) : Relation → Except Fault (Value × Relation))
      = .ok (owned.map fun r => (r.foreignKey, r)) := by
    refine mapM_eq_ok fun r hr => ?_
    simp only [Value.requireKey, (howned r hr).2, if_true, bind, Except.bind]
    rfl
  refine ⟨_, by simp only [Catalog.foreignKeys, hrelations, bind, Except.bind, owned] at hmap ⊢; rw [hmap]; rfl, ?_⟩
  intro key r hr
  obtain ⟨k', hmem, -⟩ := Table.exists_mem_of_get?_eq_some hr
  refine Table.forall_mem_ofList (P := fun _ (r : Relation) => ∃ target, r.target = .text target ∧ c.Knows target)
    (fun _ _ _ _ h => h) (fun p hp => ?_) _ hmem
  obtain ⟨r, hr, rfl⟩ := List.mem_map.mp hp
  exact (howned r hr).1

/-! ## Catalogs of models -/

variable {models : List Model} {m : Model}

theorem ofModel_of_find? {α : Type} (h : Model.find? models entity = some m) (answer : Model → α) :
    ofModel models (.text entity) answer = .ok (answer m) := by
  simp only [ofModel, Value.requireKey_text, bind, Except.bind, Value.text?, Option.bind_some, h]
  rfl

theorem knows_of_find? (h : Model.find? models entity = some m) : (ofModels models).Knows entity :=
  ⟨⟨_, ofModel_of_find? h _⟩, ⟨_, ofModel_of_find? h _⟩⟩

theorem find?_of_ofModel_eq_ok {α : Type} {answer : Model → α} {a : α}
    (h : ofModel models (.text entity) answer = .ok a) : ∃ m, Model.find? models entity = some m ∧ a = answer m := by
  cases hm : Model.find? models entity with
  | some m =>
    rw [ofModel_of_find? hm] at h
    exact ⟨m, rfl, (Except.ok.inj h).symm⟩
  | none =>
    simp only [ofModel, Value.requireKey_text, bind, Except.bind, Value.text?, Option.bind_some, hm] at h
    cases h

/-- The catalog of some models serves requests for each of them. Relations to other models cannot be seen. -/
theorem wellFormed_ofModels (h : Model.find? models base = some m)
    (hkeys : ∀ m ∈ models, ∀ r ∈ m.relations, r.1.foreignKey.isKey = true) : (ofModels models).WellFormed base where
  known := knows_of_find? h
  options := ⟨m.options, ofModel_of_find? h _⟩
  related := by
    intro entity relations hrelations r hr
    obtain ⟨m, hm, rfl⟩ := find?_of_ofModel_eq_ok hrelations
    simp only [Table.values, List.map_map, List.mem_map, List.mem_filter] at hr
    obtain ⟨p, ⟨hp, htarget⟩, rfl⟩ := hr
    refine ⟨?_, hkeys m (List.mem_of_find?_eq_some hm) p hp⟩
    obtain ⟨other, hother⟩ := Option.isSome_iff_exists.mp htarget
    obtain ⟨target, ht, hother⟩ := Option.bind_eq_some_iff.mp hother
    refine ⟨target, ?_, knows_of_find? hother⟩
    show p.1.target = .text target
    cases hv : p.1.target <;> rw [hv] at ht <;> cases ht
    rfl

end Catalog

/-! ## Included relations -/

namespace Branch

/-- A branch to an entity that a catalog knows, with such branches below it. -/
inductive Within (c : Catalog) : Branch → Prop
  | mk {label target : String} {many through : Value} {nested : List Branch} (known : c.Knows target)
      (below : ∀ b ∈ nested, Within c b) : Within c ⟨label, .text target, many, through, nested⟩

variable {c : Catalog} {base : String}

end Branch

namespace IncludeTree

variable {c : Catalog} {t u : IncludeTree} {P : IncludeTree → Prop}

mutual
/-- What adding a chain keeps, adding a specification keeps. -/
theorem add_keeps (h : ∀ t chain u, P t → withChain c t chain = .ok u → P u) : (v : Value) → {chain : List String} →
    {t u : IncludeTree} → P t → t.add c chain v = .ok u → P u
  | .text s, chain, t, u, ht, hu => by
    simp only [add] at hu
    split at hu
    · cases hu
      exact ht
    · exact h _ _ _ ht hu
  | .list items, chain, t, u, ht, hu => addAll_keeps h items ht (by simpa only [add] using hu)
  | .tuple items, chain, t, u, ht, hu => addAll_keeps h items ht (by simpa only [add] using hu)
  | .mapping x y z, chain, t, u, ht, hu => by
    simp only [add, bind_eq_ok_iff] at hu
    obtain ⟨t₁, h₁, t₂, h₂, hu⟩ := hu
    exact add_keeps h z (add_keeps h y (add_keeps h x ht h₁) h₂) hu
  | .object entries, chain, t, u, ht, hu => addEntries_keeps h entries ht (by simpa only [add] using hu)
  | .null, chain, t, u, ht, hu | .bool _, chain, t, u, ht, hu | .int _, chain, t, u, ht, hu
  | .float _, chain, t, u, ht, hu | .decimal _, chain, t, u, ht, hu | .date _, chain, t, u, ht, hu
  | .moment _, chain, t, u, ht, hu | .alien _, chain, t, u, ht, hu => by
    simp only [add] at hu
    split at hu
    · cases hu
    · cases hu
      exact ht

theorem addAll_keeps (h : ∀ t chain u, P t → withChain c t chain = .ok u → P u) : (vs : List Value) →
    {chain : List String} → {t u : IncludeTree} → P t → t.addAll c chain vs = .ok u → P u
  | [], chain, t, u, ht, hu => by
    simp only [addAll, Except.ok.injEq] at hu
    exact hu ▸ ht
  | v :: vs, chain, t, u, ht, hu => by
    simp only [addAll, bind_eq_ok_iff] at hu
    obtain ⟨t', ht', hu⟩ := hu
    exact addAll_keeps h vs (add_keeps h v ht ht') hu

theorem addEntries_keeps (h : ∀ t chain u, P t → withChain c t chain = .ok u → P u) :
    (entries : List (Value × Value)) → {chain : List String} → {t u : IncludeTree} → P t →
      t.addEntries c chain entries = .ok u → P u
  | [], chain, t, u, ht, hu => by
    simp only [addEntries, Except.ok.injEq] at hu
    exact hu ▸ ht
  | (key, v) :: rest, chain, t, u, ht, hu => by
    cases key with
    | text s =>
      simp only [addEntries, bind_eq_ok_iff] at hu
      obtain ⟨t₀, ht₀, t', ht', hu⟩ := hu
      exact addEntries_keeps h rest (add_keeps h v (h _ _ _ ht ht₀) ht') hu
    | _ =>
      simp only [addEntries] at hu
      cases hu
end

/-- A tree that starts at an entity and has only branches that a catalog knows. -/
def Within (c : Catalog) (entity : String) (t : IncludeTree) : Prop :=
  t.entity = entity ∧ ∀ b ∈ t.branches, Branch.Within c b

variable {base : String}

end IncludeTree

end Sift
