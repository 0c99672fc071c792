import Sift.Proofs.Schema.WellFormed
import Sift.Proofs.Value.Tables

/-!
# Relations of models

A catalog finds the relations of a model by their labels, as far as they lead to models that it knows. The foreign keys
that it tells of a model are the columns of those relations, each once.
-/

namespace Sift

/-! ## Labels -/

/-- The relations of a model have labels of their own, which are no columns. -/
structure Model.WellLabelled (m : Model) : Prop where
  nodup : (m.relations.map fun r => r.1.label).Nodup
  noColumn : ∀ r ∈ m.relations, m.columns.get? r.1.label = none

/-- Does the relation lead to one of some models? -/
def Relation.IsVisible (models : List Model) (r : Relation) : Prop :=
  ∃ (name : String) (t : Model), r.target = .text name ∧ Model.find? models name = some t

variable {models : List Model} {m : Model} {entity label : String} {r : Relation} {link : Link}

theorem Relation.isVisible_iff : r.IsVisible models ↔ (r.target.text?.bind (Model.find? models)).isSome = true := by
  unfold IsVisible
  cases hr : r.target with
  | text name =>
    simp only [Value.text?, Option.bind_some, Option.isSome_iff_exists, Value.text.injEq, exists_and_left, exists_eq_left']
  | _ => simp [Value.text?]

theorem Model.WellLabelled.link? (h : m.WellLabelled) (hr : (r, link) ∈ m.relations) : m.link? r.label = some (r, link) := by
  have hnodup := h.nodup
  unfold Model.link?
  generalize m.relations = relations at hr hnodup
  induction relations with
  | nil => exact absurd hr List.not_mem_nil
  | cons e relations ih =>
    obtain ⟨hnew, hnodup⟩ := List.nodup_cons.mp hnodup
    rcases List.mem_cons.mp hr with rfl | hr
    · exact List.find?_cons_of_pos (decide_eq_true rfl)
    · have hne : e.1.label ≠ r.label := fun heq => hnew (List.mem_map.mpr ⟨(r, link), hr, heq.symm⟩)
      rw [List.find?_cons_of_neg (by simpa using hne)]
      exact ih hr hnodup

theorem Catalog.relation?_ofModels (hm : Model.find? models entity = some m) (hlabels : m.WellLabelled) :
    (ofModels models).relation? (.text entity) label = .ok (some r) ↔
      ∃ link, (r, link) ∈ m.relations ∧ r.label = label ∧ r.IsVisible models := by
  have hrelation : (ofModels models).relation? (.text entity) label =
      .ok (Table.get? label ((m.relations.filter fun e =>
        (e.1.target.text?.bind (Model.find? models)).isSome).map fun e => (e.1.label, e.1))) := by
    rw [relation?, show (ofModels models).relations (.text entity) = _ from ofModel_of_find? hm _]
    rfl
  rw [hrelation, Except.ok.injEq]
  constructor
  · intro hget
    obtain ⟨e, he, heq⟩ := List.mem_map.mp (Table.mem_of_get?_eq_some hget)
    obtain ⟨hmem, hvisible⟩ := List.mem_filter.mp he
    cases heq
    exact ⟨e.2, hmem, rfl, Relation.isVisible_iff.mpr hvisible⟩
  · rintro ⟨link, hmem, rfl, hvisible⟩
    refine Table.get?_of_mem ?_ (List.mem_map.mpr ⟨(r, link), List.mem_filter.mpr ⟨hmem, ?_⟩, rfl⟩)
    · rw [Table.keys, List.map_map]
      exact hlabels.nodup.sublist (List.filter_sublist.map _)
    · exact Relation.isVisible_iff.mp hvisible

/-! ## Columns -/

theorem Catalog.columns_ofModels {column : String} {st : Storage} (hm : Model.find? models entity = some m)
    (hst : m.columns.get? column = some st) : ∃ types, (ofModels models).columns (.text entity) = .ok types ∧
      types.get? (.text column) = some st.columnType := by
  refine ⟨_, ofModel_of_find? hm _, ?_⟩
  generalize m.columns = columns at hst
  induction columns with
  | nil => cases hst
  | cons e columns ih =>
    obtain ⟨name, st'⟩ := e
    rw [Table.get?] at hst
    rw [List.map_cons, Table.get?]
    split at hst
    · rename_i hname
      cases hst
      rw [eq_of_beq hname, if_pos (Value.text_beq_iff.mpr rfl)]
    · rename_i hname
      rw [if_neg, ih hst]
      intro htext
      cases Value.text_beq_iff.mp htext
      exact hname BEq.rfl

theorem Catalog.hasColumn_ofModels {column : String} {st : Storage} (hm : Model.find? models entity = some m)
    (hst : m.columns.get? column = some st) : (ofModels models).hasColumn (.text entity) (.text column) = .ok true := by
  obtain ⟨types, htypes, hget⟩ := columns_ofModels hm hst
  exact Has.hasColumn ⟨types, htypes, by rw [Table.contains, hget]; rfl⟩

theorem Catalog.columnType_ofModels {column : String} {st : Storage} (hm : Model.find? models entity = some m)
    (hst : m.columns.get? column = some st) :
    (ofModels models).columnType (.text entity) (.text column) = .ok st.columnType := by
  obtain ⟨types, htypes, hget⟩ := columns_ofModels hm hst
  exact columnType_eq htypes hget

/-! ## Foreign keys -/

/-- The relations of a model that a column of it belongs to, as far as they lead to one of some models. -/
def Model.owned (models : List Model) (m : Model) : List Relation :=
  ((m.relations.filter fun (r, _) => (r.target.text?.bind (Model.find? models)).isSome).map Prod.fst).filter fun r =>
    r.foreignKey.truthy && !r.many.truthy

theorem Model.mem_owned_iff : r ∈ m.owned models ↔
    (∃ link, (r, link) ∈ m.relations) ∧ r.IsVisible models ∧ r.foreignKey.truthy = true ∧ r.many.truthy = false := by
  constructor
  · intro h
    obtain ⟨h, howned⟩ := List.mem_filter.mp h
    obtain ⟨⟨r', link⟩, hlink, rfl⟩ := List.mem_map.mp h
    obtain ⟨hlink, hvisible⟩ := List.mem_filter.mp hlink
    rw [Bool.and_eq_true, Bool.not_eq_true'] at howned
    exact ⟨⟨link, hlink⟩, Relation.isVisible_iff.mpr hvisible, howned⟩
  · rintro ⟨⟨link, hlink⟩, hvisible, hkey, hmany⟩
    refine List.mem_filter.mpr ⟨List.mem_map.mpr ⟨(r, link), ?_, rfl⟩, by rw [hkey, hmany]; rfl⟩
    exact List.mem_filter.mpr ⟨hlink, Relation.isVisible_iff.mp hvisible⟩

/-- A foreign key of one relation belongs to that one. -/
theorem Model.get?_owned {fk : String} (hr : r ∈ m.owned models) (hfk : r.foreignKey = .text fk)
    (honly : ∀ r' ∈ m.owned models, r'.foreignKey = .text fk → r' = r) :
    (Table.ofList ((m.owned models).map fun r => (r.foreignKey, r))).get? (.text fk) = some r := by
  refine Table.get?_text_ofList (List.mem_map.mpr ⟨r, hr, by rw [hfk]⟩) fun e he hkey => ?_
  obtain ⟨r', hr', rfl⟩ := List.mem_map.mp he
  exact honly r' hr' hkey

theorem Catalog.foreignKeys_ofModels (hm : Model.find? models entity = some m)
    (hkeys : ∀ r ∈ m.owned models, r.foreignKey.isKey = true) :
    (ofModels models).foreignKeys (.text entity) = .ok (Table.ofList ((m.owned models).map fun r => (r.foreignKey, r))) := by
  have hrelations : (ofModels models).relations (.text entity) = .ok ((m.relations.filter fun (r, _) =>
      (r.target.text?.bind (Model.find? models)).isSome).map fun (r, _) => (r.label, r)) := ofModel_of_find? hm _
  have howned : (Table.values ((m.relations.filter fun (r, _) =>
      (r.target.text?.bind (Model.find? models)).isSome).map fun (r, _) => (r.label, r))).filter (fun r =>
        r.foreignKey.truthy && !r.many.truthy) = m.owned models := by
    simp only [Table.values, Model.owned, List.map_map]
    rfl
  have hmap : (m.owned models).mapM (fun r => do return (← r.foreignKey.requireKey, r) : Relation →
      Except Fault (Value × Relation)) = .ok ((m.owned models).map fun r => (r.foreignKey, r)) := by
    refine mapM_eq_ok fun r hr => ?_
    simp only [Value.requireKey, hkeys r hr, if_true, bind, Except.bind]
    rfl
  simp only [Catalog.foreignKeys, hrelations, bind, Except.bind, howned] at hmap ⊢
  rw [hmap]
  rfl

end Sift
