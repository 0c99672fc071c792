import Sift.Proofs.Projection.Batching
import Sift.Proofs.Value.Renaming

/-!
# Objects with renamed keys

Other keys can be given to all objects, and to whatever refers to them at any depth, along with what is known of them.
Each object that is then rewritten on its own is shown as it was before.
-/

namespace Sift

/-- The relations of an entity that it holds the foreign keys of. -/
def Catalog.referring (c : Catalog) (entity : Value) : List Relation :=
  ((c.relations entity).toOption.getD []).values.filter fun r => r.foreignKey.truthy && !r.many.truthy

namespace Projector

/-! ## Renaming -/

/-- The columns of an entity that refer to mapped entities, with these entities. -/
def keyColumns (p : Projector) (entity : Value) : Table Value Value :=
  (p.catalog.referring entity).filterMap fun r => (p.mappings.get? r.target).map fun _ => (r.foreignKey, r.target)

/-- What stands under a key of an object when keys are renamed: the key of the object itself, a foreign key, or what is
left under a label. -/
def fieldRenamed (p : Projector) (ρ : KeyRenaming) (entity : Value) (labelled : Value → Value → Value) (k v : Value) :
    Value :=
  if p.mappings.contains entity && k == .text "id" then ρ.rename entity v
  else ((p.keyColumns entity).get? k).elim (labelled k v) fun target => ρ.rename target v

/-- An object with renamed keys. -/
def objectRenamed (p : Projector) (ρ : KeyRenaming) (entity : Value) (labelled : Value → Value → Value) (row : Row) :
    Row :=
  row.mapValues (p.fieldRenamed ρ entity labelled)

/-- What stands under the labels of branches: objects with renamed keys. -/
def nestedRenamed (p : Projector) (ρ : KeyRenaming) : List Branch → Value → Value → Value :=
  Branch.allChanged Value.mapObjects (p.objectRenamed ρ)

/-- A row with renamed keys. -/
def renamed (p : Projector) (ρ : KeyRenaming) (row : Row) : Row :=
  p.objectRenamed ρ (.text p.entity) (p.nestedRenamed ρ p.includes.branches) row

/-- Each foreign key of an object belongs to one relation, and what is held as a key of a mapped entity is known. -/
structure Held (p : Projector) (known : Value → Row) (entity : Value) (row : Row) : Prop where
  once : (p.catalog.referring entity).Pairwise fun r s => ¬ (s.foreignKey == r.foreignKey) = true
  own : ∀ m, p.mappings.get? entity = some m → Table.contains m.exposed row = false → row.get "id" ≠ .null →
    Table.contains (row.get "id") (known entity) = true
  foreign : ∀ e ∈ p.keyColumns entity, Row.field e.1 row ≠ .null → Table.contains (Row.field e.1 row) (known e.2) = true

/-- An object in which keys can be renamed. -/
structure Renamable (p : Projector) (known : Value → Row) (entity : Value) (bs : List Branch) (row : Row) : Prop where
  ready : p.Ready entity bs row
  held : p.Held known entity row

/-- The mappings are made of names, and what is known is known of keys. A mapped entity has its keys under `id`, and is
exposed by another column. -/
structure KeyedById (p : Projector) (known : Value → Row) : Prop where
  named : p.WellNamed
  key : ∀ e ∈ p.mappings, e.2.key = .text "id"
  exposed : ∀ e ∈ p.mappings, e.2.exposed ≠ .text "id"
  keys : ∀ entity, ∀ e ∈ known entity, e.1.isKey = true

variable {p : Projector} {ρ : KeyRenaming} {known : Value → Row} {entity : Value} {bs : List Branch} {row : Row}
  {labelled : Value → Value → Value} {k v : Value}

theorem KeyedById.mapping (h : p.KeyedById known) {m : KeyMapping} (hm : p.mappings.get? entity = some m) :
    ∃ name exposed : String, m = ⟨.text name, .text "id", .text exposed⟩ ∧ Value.text exposed ≠ .text "id" := by
  obtain ⟨name, key, exposed, -, rfl⟩ := h.named.mapping hm
  obtain ⟨k, hmem, -⟩ := Table.exists_mem_of_get?_eq_some hm
  have hkey : Value.text key = .text "id" := h.key _ hmem
  rw [hkey]
  exact ⟨name, exposed, rfl, h.exposed _ hmem⟩

/-- Where each foreign key belongs to one relation, the columns that refer to mapped entities are those whose keys are
replaced. -/
theorem keyColumns_eq (hnamed : p.WellNamed) (hcolumns : p.ColumnsApart entity)
    (honce : (p.catalog.referring entity).Pairwise fun r s => ¬ (s.foreignKey == r.foreignKey) = true) :
    p.keyColumns entity = (p.mappedKeys entity).map fun e => (e.1, e.2.entity) := by
  obtain ⟨keys, hkeys⟩ := hcolumns.known
  simp only [foreignKeys, bind_eq_ok_iff] at hkeys
  obtain ⟨owned, howned, -⟩ := hkeys
  have hreferring : owned = (p.catalog.referring entity).map fun r => (r.foreignKey, r) := by
    simp only [Catalog.foreignKeys, bind_eq_ok_iff, pure_eq_ok_iff] at howned
    obtain ⟨relations, hrelations, entries, hentries, rfl⟩ := howned
    have hlist : entries = (p.catalog.referring entity).map fun r => (r.foreignKey, r) := by
      rw [Catalog.referring, hrelations, ← List.map_id entries]
      refine map_eq_of_mapM_eq_ok (fun r e he => ?_) hentries
      obtain ⟨k, hk, he⟩ := bind_eq_ok_iff.mp he
      cases pure_eq_ok_iff.mp he
      obtain rfl := Value.eq_of_requireKey hk
      rfl
    rw [hlist]
    exact Table.ofList_of_distinct (List.pairwise_map.mpr honce)
  rw [mappedKeys, howned, hreferring, keyColumns]
  simp only [Except.toOption, Option.getD_some, List.filterMap_map, List.map_filterMap]
  refine List.filterMap_congr fun r _ => ?_
  cases hm : p.mappings.get? r.target with
  | none => simp [hm]
  | some m =>
    obtain ⟨_, _, _, htarget, rfl⟩ := hnamed.mapping hm
    rw [htarget] at hm
    simp only [Function.comp_apply, htarget, hm, Option.map_some]

/-! ## Renamed objects -/

theorem fieldRenamed_id {m : KeyMapping} (hm : p.mappings.get? entity = some m) :
    p.fieldRenamed ρ entity labelled (.text "id") v = ρ.rename entity v := by
  have hself : (Value.text "id" == .text "id") = true := Value.text_beq_iff.mpr rfl
  rw [fieldRenamed, Table.contains, hm, hself, Option.isSome_some, Bool.and_self, if_pos rfl]

theorem fieldRenamed_other (h : ∀ m, p.mappings.get? entity = some m → k ≠ .text "id") :
    p.fieldRenamed ρ entity labelled k v =
      ((p.keyColumns entity).get? k).elim (labelled k v) fun target => ρ.rename target v := by
  rw [fieldRenamed, if_neg]
  intro hid
  obtain ⟨hm, hk⟩ := Bool.and_eq_true_iff.mp hid
  obtain ⟨m, hm⟩ := Option.isSome_iff_exists.mp hm
  exact h m hm (Value.beq_text_iff.mp hk)

theorem ne_id_of_not_own (h : k ∉ p.ownNames entity) : ∀ m, p.mappings.get? entity = some m → k ≠ .text "id" :=
  fun _ hm hk => h (hk ▸ id_mem_ownNames hm)

theorem nestedRenamed_of_not_mem {name : String} (h : name ∉ bs.map Branch.label) :
    p.nestedRenamed ρ bs (.text name) v = v :=
  Branch.allChanged_of_not_mem h

theorem kept_objectRenamed : p.kept entity (p.objectRenamed ρ entity labelled row) =
    (p.kept entity row).mapValues (p.fieldRenamed ρ entity labelled) := by
  unfold kept objectRenamed
  cases p.mappings.get? entity with
  | none => rfl
  | some m => exact Row.erase_mapValues m.exposed

theorem mem_of_mem_kept {e : Value × Value} (h : e ∈ p.kept entity row) : e ∈ row := by
  unfold kept at h
  cases hm : p.mappings.get? entity with
  | none => rwa [hm] at h
  | some m =>
    rw [hm] at h
    exact Table.mem_of_mem_erase h

/-- A key that is known is shown under its new name as it was under the old one. -/
theorem keyShown?_rename (hkeys : ∀ e ∈ known entity, e.1.isKey = true) (hv : v.isKey = true)
    (hknown : v ≠ .null → Table.contains v (known entity) = true) :
    keyShown? (ρ.ofKnown known entity) (ρ.rename entity v) = keyShown? (known entity) v := by
  by_cases hnull : v = .null
  · rw [hnull, ρ.null]
    rfl
  · have hne : ρ.rename entity v ≠ .null := fun h => hnull ((KeyRenaming.rename_eq_null_iff hv).mp h)
    obtain ⟨a, ha⟩ := Option.isSome_iff_exists.mp (hknown hnull)
    rw [keyShown?_of_ne_null hne, keyShown?_of_ne_null hnull, shownAs, shownAs,
      KeyRenaming.get?_ofKnown hkeys hv, ha, Option.getD_some, Option.getD_some]

theorem fieldShown_other {own : Option Value} (h : own.isSome = true → k ≠ .text "id") :
    p.fieldShown known entity own labelled k v =
      ((p.mappedKeys entity).get? k).elim (labelled k v) fun m => foreignShown known m v := by
  unfold fieldShown
  split
  · rename_i hk
    exact absurd (Value.beq_text_iff.mp hk) (h rfl)
  · rfl

/-- An object of a mapped entity has no identifier of its own only if it has no key. -/
theorem get_id_of_ownIdentifier?_eq_none (hby : p.KeyedById known) {m : KeyMapping}
    (hm : p.mappings.get? entity = some m) (h : p.ownIdentifier? known entity row = none) : row.get "id" = .null := by
  obtain ⟨name, exposed, rfl, -⟩ := hby.mapping hm
  rw [ownIdentifier?, hm, Option.bind_some] at h
  split at h
  · cases h
  · by_contra hne
    rw [Row.field_text, keyShown?_of_ne_null hne] at h
    cases h

theorem Renamable.get?_keyColumns (hby : p.KeyedById known) (h : p.Renamable known entity bs row) (k : Value) :
    (p.keyColumns entity).get? k = ((p.mappedKeys entity).get? k).map KeyMapping.entity := by
  rw [keyColumns_eq hby.named h.ready.columns h.held.once, Table.get?_map]

theorem Renamable.fieldRenamed_exposed (hby : p.KeyedById known) (h : p.Renamable known entity bs row) {m : KeyMapping}
    (hm : p.mappings.get? entity = some m) : p.fieldRenamed ρ entity (p.nestedRenamed ρ bs) m.exposed v = v := by
  obtain ⟨name, exposed, rfl, hne⟩ := hby.mapping hm
  have hown : .text exposed ∈ p.ownNames entity := by
    rw [ownNames, hm]
    exact List.mem_cons_of_mem _ List.mem_cons_self
  rw [fieldRenamed_other fun _ _ => hne, h.get?_keyColumns hby, h.ready.columns.get?_own hown, Option.map_none,
    Option.elim_none, nestedRenamed_of_not_mem (h.ready.labels.own_not_mem hown)]

theorem Renamable.foreignShown_rename (hby : p.KeyedById known) (h : p.Renamable known entity bs row) {column : String}
    {m : KeyMapping} (hm : (.text column, m) ∈ p.mappedKeys entity) :
    foreignShown (ρ.ofKnown known) m (ρ.rename m.entity (row.get column)) = foreignShown known m (row.get column) := by
  have hcolumn : (.text column, m.entity) ∈ p.keyColumns entity := by
    rw [keyColumns_eq hby.named h.ready.columns h.held.once]
    exact List.mem_map_of_mem (f := fun e => (e.1, e.2.entity)) hm
  have hkey : (row.get column).isKey = true := h.ready.keyed.foreign _ hm
  rw [foreignShown, keyShown?_rename (hby.keys _) hkey (h.held.foreign _ hcolumn), foreignShown]

theorem Renamable.ownIdentifier?_renamed (hby : p.KeyedById known) (h : p.Renamable known entity bs row) :
    p.ownIdentifier? (ρ.ofKnown known) entity (p.objectRenamed ρ entity (p.nestedRenamed ρ bs) row) =
      p.ownIdentifier? known entity row := by
  unfold ownIdentifier?
  cases hm : p.mappings.get? entity with
  | none => rfl
  | some m =>
    have hexposed (v : Value) : p.fieldRenamed ρ entity (p.nestedRenamed ρ bs) m.exposed v = v :=
      h.fieldRenamed_exposed hby hm
    obtain ⟨name, exposed, rfl, -⟩ := hby.mapping hm
    simp only [Option.bind_some, objectRenamed, Row.contains_mapValues, Row.field_text]
    split
    · rw [Row.get_mapValues (hexposed _), hexposed]
    · rename_i hloaded
      have hloaded := Bool.eq_false_iff.mpr hloaded
      rw [Row.get_mapValues ((fieldRenamed_id hm).trans (ρ.null _)), fieldRenamed_id hm]
      exact keyShown?_rename (hby.keys _) (h.ready.keyed.own _ hm hloaded) (h.held.own _ hm hloaded)

/-- A field with a new key is shown as it was, where what is left under labels is. -/
theorem Renamable.fieldShown_fieldRenamed (hby : p.KeyedById known) (h : p.Renamable known entity bs row)
    (hmem : (k, v) ∈ row)
    (hlabelled : p.nestedShown (ρ.ofKnown known) bs k (p.nestedRenamed ρ bs k v) = p.nestedShown known bs k v) :
    p.fieldShown (ρ.ofKnown known) entity (p.ownIdentifier? known entity row) (p.nestedShown (ρ.ofKnown known) bs) k
        (p.fieldRenamed ρ entity (p.nestedRenamed ρ bs) k v) =
      p.fieldShown known entity (p.ownIdentifier? known entity row) (p.nestedShown known bs) k v := by
  by_cases hid : ∀ m, p.mappings.get? entity = some m → k ≠ .text "id"
  · -- a foreign key, or what is left under a label
    have hother : (p.ownIdentifier? known entity row).isSome = true → k ≠ .text "id" := by
      intro hown
      obtain ⟨v, hv⟩ := Option.isSome_iff_exists.mp hown
      obtain ⟨m, hm⟩ := exists_mapping hv
      exact hid m hm
    rw [fieldShown_other hother, fieldShown_other hother, fieldRenamed_other hid, h.get?_keyColumns hby]
    cases hk : (p.mappedKeys entity).get? k with
    | none => exact hlabelled
    | some m =>
      obtain ⟨column, rfl, hcolumn⟩ := h.ready.columns.exists_column hk
      obtain rfl := Row.eq_get_of_mem h.ready.keyed.distinct hmem
      exact h.foreignShown_rename hby hcolumn
  · -- the key of the object itself
    push Not at hid
    obtain ⟨m, hm, rfl⟩ := hid
    have hown := id_mem_ownNames hm
    rw [fieldRenamed_id hm]
    cases hidentifier : p.ownIdentifier? known entity row with
    | some identifier =>
      unfold fieldShown
      rw [Value.text_beq_iff.mpr rfl]
    | none =>
      obtain rfl := Row.eq_get_of_mem h.ready.keyed.distinct hmem
      have hnested (known : Value → Row) (v : Value) : p.nestedShown known bs (.text "id") v = v :=
        nestedShown_of_not_mem (h.ready.labels.own_not_mem hown) v
      have hnone : (none : Option Value).isSome = true → Value.text "id" ≠ .text "id" := fun h => nomatch h
      rw [get_id_of_ownIdentifier?_eq_none hby hm hidentifier, ρ.null, fieldShown_other hnone, fieldShown_other hnone,
        h.ready.columns.get?_own hown, Option.elim_none, Option.elim_none, hnested, hnested]

/-- An object with new keys is shown as it was, where what is left under labels is. -/
theorem Renamable.objectShown_objectRenamed (hby : p.KeyedById known) (h : p.Renamable known entity bs row)
    (hlabelled : ∀ e ∈ row, p.nestedShown (ρ.ofKnown known) bs e.1 (p.nestedRenamed ρ bs e.1 e.2) =
      p.nestedShown known bs e.1 e.2) :
    p.objectShown (ρ.ofKnown known) entity (p.nestedShown (ρ.ofKnown known) bs)
      (p.objectRenamed ρ entity (p.nestedRenamed ρ bs) row) =
        p.objectShown known entity (p.nestedShown known bs) row := by
  have hshown : ((p.kept entity row).mapValues (p.fieldRenamed ρ entity (p.nestedRenamed ρ bs))).mapValues
      (p.fieldShown (ρ.ofKnown known) entity (p.ownIdentifier? known entity row) (p.nestedShown (ρ.ofKnown known) bs)) =
        (p.kept entity row).mapValues
          (p.fieldShown known entity (p.ownIdentifier? known entity row) (p.nestedShown known bs)) := by
    rw [Row.mapValues_mapValues]
    refine Row.mapValues_congr fun e he => ?_
    have hmem := mem_of_mem_kept he
    exact h.fieldShown_fieldRenamed hby hmem (hlabelled e hmem)
  simp only [objectShown, h.ownIdentifier?_renamed hby, kept_objectRenamed, hshown]

/-! ## Rows with renamed keys -/

theorem Renamable.ready_objectRenamed (hby : p.KeyedById known) (h : p.Renamable known entity bs row) :
    p.Ready entity bs (p.objectRenamed ρ entity (p.nestedRenamed ρ bs) row) where
  columns := h.ready.columns
  labels := h.ready.labels
  keyed := {
    distinct := Row.distinct_mapValues h.ready.keyed.distinct
    own := by
      intro m hm hloaded
      rw [objectRenamed, Row.contains_mapValues] at hloaded
      have hkey := h.ready.keyed.own m hm hloaded
      obtain ⟨name, exposed, rfl, -⟩ := hby.mapping hm
      rw [objectRenamed, Row.field_text, Row.get_mapValues ((fieldRenamed_id hm).trans (ρ.null _)), fieldRenamed_id hm]
      exact ρ.isKey _ _ hkey
    foreign := by
      intro e he
      have hkey := h.ready.keyed.foreign e he
      obtain ⟨column, hcolumn⟩ := h.ready.columns.named e he
      have hown := h.ready.columns.own e he
      obtain ⟨k, m⟩ := e
      cases hcolumn
      obtain ⟨m', hm'⟩ := Table.exists_get?_of_beq (k := .text column) (List.mem_map_of_mem (f := Prod.fst) he)
        (Value.text_beq_iff.mpr rfl)
      have hrenamed (v : Value) :
          p.fieldRenamed ρ entity (p.nestedRenamed ρ bs) (.text column) v = ρ.rename m'.entity v := by
        rw [fieldRenamed_other (ne_id_of_not_own hown), h.get?_keyColumns hby, hm', Option.map_some, Option.elim_some]
      rw [objectRenamed, Row.field_text, Row.get_mapValues ((hrenamed _).trans (ρ.null _)), hrenamed]
      exact ρ.isKey _ _ hkey }

theorem Renamable.get_label (hby : p.KeyedById known) (h : p.Renamable known entity bs row) {b : Branch} (hb : b ∈ bs) :
    (p.objectRenamed ρ entity (p.nestedRenamed ρ bs) row).get b.label =
      b.changed Value.mapObjects (p.objectRenamed ρ) (row.get b.label) := by
  have hrenamed (v : Value) : p.fieldRenamed ρ entity (p.nestedRenamed ρ bs) (.text b.label) v =
      b.changed Value.mapObjects (p.objectRenamed ρ) v := by
    rw [fieldRenamed_other (ne_id_of_not_own (h.ready.labels.own b hb)), h.get?_keyColumns hby,
      h.ready.labels.get?_label hb, Option.map_none, Option.elim_none, nestedRenamed,
      Branch.allChanged_of_mem h.ready.labels.once hb]
  rw [objectRenamed, Row.get_mapValues, hrenamed]
  rw [hrenamed]
  obtain ⟨label, target, many, through, nested⟩ := b
  rw [Branch.changed]
  rfl

mutual
theorem below_ready_renamed (hby : p.KeyedById known) : (b : Branch) → {v : Value} → b.Below (p.Renamable known) v →
    b.Below p.Ready (b.changed Value.mapObjects (p.objectRenamed ρ) v)
  | ⟨_, target, _, _, nested⟩, v, h => by
    rw [Branch.Below] at h ⊢
    rw [Branch.changed, Value.nestedObjects_mapObjects]
    refine List.forall_mem_map.mpr fun o ho => ?_
    obtain ⟨hrenamable, hbelow⟩ := h o ho
    exact ⟨hrenamable.ready_objectRenamed hby,
      allBelow_ready_renamed hby nested hbelow fun b hb => hrenamable.get_label hby hb⟩

/-- Where the objects of every branch have new keys, all objects below can be rewritten. -/
theorem allBelow_ready_renamed (hby : p.KeyedById known) : (bs : List Branch) → {row row' : Row} →
    Branch.AllBelow (p.Renamable known) bs row →
    (∀ b ∈ bs, row'.get b.label = b.changed Value.mapObjects (p.objectRenamed ρ) (row.get b.label)) →
      Branch.AllBelow p.Ready bs row'
  | [], _, _, _, _ => by
    rw [Branch.AllBelow]
    trivial
  | b :: bs, row, row', h, hrow => by
    rw [Branch.AllBelow] at h ⊢
    obtain ⟨hfirst, hrest⟩ := List.forall_mem_cons.mp hrow
    rw [hfirst]
    exact ⟨below_ready_renamed hby b h.1, allBelow_ready_renamed hby bs h.2 hrest⟩
end

theorem throughout_ready_renamed (hby : p.KeyedById known)
    (h : Branch.Throughout (p.Renamable known) (.text p.entity) p.includes.branches row) :
    Branch.Throughout p.Ready (.text p.entity) p.includes.branches (p.renamed ρ row) :=
  ⟨h.1.ready_objectRenamed hby, allBelow_ready_renamed hby _ h.2 fun _ hb => h.1.get_label hby hb⟩

mutual
theorem changed_renamed (hby : p.KeyedById known) : (b : Branch) →
    {v : Value} → b.Below (p.Renamable known) v →
      b.changed Value.mapOnlyObjects (p.objectShown (ρ.ofKnown known))
          (b.changed Value.mapObjects (p.objectRenamed ρ) v) =
        b.changed Value.mapOnlyObjects (p.objectShown known) v
  | ⟨_, target, _, _, nested⟩, v, h => by
    rw [Branch.Below] at h
    rw [Branch.changed, Branch.changed, Branch.changed]
    -- both walks change the same objects, whatever else a list holds
    refine Value.mapOnlyObjects_mapObjects fun o ho => ?_
    obtain ⟨hrenamable, hbelow⟩ := h o ho
    exact hrenamable.objectShown_objectRenamed hby fun e he =>
      nestedShown_nestedRenamed hby nested hrenamable.ready.keyed.distinct hbelow he

/-- What is left under labels of an object with new keys is shown as it was. -/
theorem nestedShown_nestedRenamed (hby : p.KeyedById known) :
    (bs : List Branch) → {row : Row} → row.Distinct → Branch.AllBelow (p.Renamable known) bs row →
      {e : Value × Value} → e ∈ row →
        p.nestedShown (ρ.ofKnown known) bs e.1 (p.nestedRenamed ρ bs e.1 e.2) = p.nestedShown known bs e.1 e.2
  | [], _, _, _, e, _ => by
    simp only [nestedShown, nestedRenamed, Branch.allChanged]
  | b :: bs, row, hrow, h, e, he => by
    rw [Branch.AllBelow] at h
    simp only [nestedShown, nestedRenamed, Branch.allChanged]
    split
    · rename_i hlabel
      obtain ⟨k, v⟩ := e
      cases Value.beq_text_iff.mp hlabel
      obtain rfl := Row.eq_get_of_mem hrow he
      exact changed_renamed hby b h.1
    · exact nestedShown_nestedRenamed hby bs hrow h.2 he
end

/-- A row with renamed keys is rewritten to what the row itself is rewritten to. -/
theorem rewritten_renamed (hby : p.KeyedById known)
    (h : Branch.Throughout (p.Renamable known) (.text p.entity) p.includes.branches row) :
    p.rewritten (ρ.ofKnown known) (p.renamed ρ row) = p.rewritten known row :=
  h.1.objectShown_objectRenamed hby fun _ he =>
    nestedShown_nestedRenamed hby p.includes.branches h.1.ready.keyed.distinct h.2 he

end Projector

end Sift
