import Sift.Proofs.Includes.Follows
import Sift.Proofs.Projection.Rows
import Sift.Proofs.Schema.Relations
import Sift.Proofs.Store.Joins

/-!
# Rows of a store

A record is shown with its columns and, under the labels of the included relations, with the records that these lead to.
Such rows can be projected: whatever they hold under columns is what records show, however deep.
-/

namespace Sift

namespace Record

theorem get?_toRow (r : Record) (column : String) :
    Table.get? (.text column) r.toRow = (Table.get? column r).map Content.shown := by
  have htext (name : String) : (Value.text column == .text name) = (column == name) := by
    rw [Bool.eq_iff_iff, Value.text_beq_iff, beq_iff_eq, Value.text.injEq]
    exact eq_comm
  unfold toRow
  induction r with
  | nil => rfl
  | cons e r ih =>
    obtain ⟨name, c⟩ := e
    simp only [List.map_cons, Table.get?, htext]
    split
    · rfl
    · exact ih

end Record

namespace Store

open Projector

variable {s : Store} {entity name : String} {m : Model} {r : Record} {row : Row} {bs : List Branch}

theorem fills_toRow (hr : r ∈ s.records entity) : s.Fills entity r.toRow := by
  rintro e he column hcolumn hplain
  obtain ⟨⟨name, c⟩, hc, rfl⟩ := List.mem_map.mp he
  cases hcolumn
  exact .inr ⟨entity, column, hplain, r, hr, c, hc, rfl⟩

/-! ## Included records -/

theorem includedIn_cons (s : Store) (entity : String) (r : Record) (b : Branch) (bs : List Branch) (row : Row) :
    s.includedIn entity r (b :: bs) row = s.includedIn entity r bs (row.insert b.label (s.included entity r b)) := by
  cases b
  rw [includedIn]

theorem get?_includedIn_of_not_mem (h : name ∉ bs.map Branch.label) :
    Table.get? (.text name) (s.includedIn entity r bs row) = Table.get? (.text name) row := by
  induction bs generalizing row with
  | nil => rw [includedIn]
  | cons b bs ih =>
    rw [List.map_cons, List.mem_cons, not_or] at h
    rw [includedIn_cons, ih h.2, Row.insert, Table.get?_text_insert, if_neg]
    exact fun heq => h.1 (Value.text.inj (Value.beq_text_iff.mp heq)).symm

theorem get_includedIn_label (h : (bs.map Branch.label).Nodup) {b : Branch} (hb : b ∈ bs) :
    (s.includedIn entity r bs row).get b.label = s.included entity r b := by
  induction bs generalizing row with
  | nil => exact absurd hb List.not_mem_nil
  | cons b' bs ih =>
    obtain ⟨hnew, h⟩ := List.nodup_cons.mp h
    rw [includedIn_cons]
    rcases List.mem_cons.mp hb with rfl | hb
    · rw [Row.get, get?_includedIn_of_not_mem hnew, ← Row.get, Row.get_insert, if_pos rfl]
    · exact ih h hb

theorem fills_includedIn (hrow : s.Fills entity row) (h : ∀ b ∈ bs, ¬ IsPlain s.models entity b.label) :
    s.Fills entity (s.includedIn entity r bs row) := by
  induction bs generalizing row with
  | nil => rwa [includedIn]
  | cons b bs ih =>
    obtain ⟨hb, hbs⟩ := List.forall_mem_cons.mp h
    rw [includedIn_cons]
    exact ih (hrow.insert fun hplain => absurd hplain hb) hbs

/-- The objects that are shown under a label are records that it leads to. -/
theorem exists_of_mem_included {label : String} {target many through : Value} {nested : List Branch} {o : Row}
    (ho : o ∈ nestedObjects (s.included entity r ⟨label, target, many, through, nested⟩)) :
    ∃ r' ∈ s.related entity label r, o = s.includedIn (s.target entity label) r' nested r'.toRow := by
  rw [included] at ho
  split at ho
  · simp only [nestedObjects, List.filterMap_map] at ho
    obtain ⟨r', hr', heq⟩ := List.mem_filterMap.mp ho
    exact ⟨r', hr', (Option.some.inj heq).symm⟩
  · cases hrelated : s.related entity label r with
    | nil =>
      rw [hrelated] at ho
      cases ho
    | cons r' rest =>
      rw [hrelated] at ho
      exact ⟨r', List.mem_cons_self, List.mem_singleton.mp ho⟩

/-! ## Rows that can be projected -/

/-- Every model keeps its labels apart from one another and from its columns. -/
def WellLabelled (s : Store) : Prop := ∀ m ∈ s.models, m.WellLabelled

theorem WellLabelled.of_find? (h : s.WellLabelled) (hm : Model.find? s.models entity = some m) : m.WellLabelled :=
  h m (List.mem_of_find?_eq_some hm)

theorem not_isPlain_of_noColumn (hm : Model.find? s.models entity = some m) (h : m.columns.get? name = none) :
    ¬ IsPlain s.models entity name := by
  rintro ⟨m', st, hm', hst, -⟩
  cases hm.symm.trans hm'
  cases h.symm.trans hst

variable {label : String} {relation : Relation} {link : Link} {t : Model}

theorem step?_of_mem (hm : Model.find? s.models entity = some m) (hlabels : m.WellLabelled)
    (hr : (relation, link) ∈ m.relations) (htarget : relation.target = .text name)
    (ht : Model.find? s.models name = some t) : s.step? entity relation.label = some (m, link, t) := by
  simp only [step?, hm, hlabels.link? hr, htarget, Value.text?, ht, bind, Option.bind]
  rfl

theorem target_of_mem (hm : Model.find? s.models entity = some m) (hlabels : m.WellLabelled)
    (hr : (relation, link) ∈ m.relations) (htarget : relation.target = .text name)
    (ht : Model.find? s.models name = some t) : s.target entity relation.label = name := by
  rw [target, step?_of_mem hm hlabels hr htarget ht]
  exact Model.name_of_find? ht

theorem not_isPlain_of_follows (h : s.WellLabelled) (hm : Model.find? s.models entity = some m) {b : Branch}
    (hb : b.Follows (.ofModels s.models) (.text entity)) : ¬ IsPlain s.models entity b.label := by
  cases hb with
  | mk hrelation _ _ =>
    obtain ⟨link, hr, rfl, -⟩ := (Catalog.relation?_ofModels hm (h.of_find? hm)).mp hrelation
    exact not_isPlain_of_noColumn hm ((h.of_find? hm).noColumn _ hr)

theorem exists_target_of_follows (h : s.WellLabelled) (hm : Model.find? s.models entity = some m) {b : Branch}
    (hb : b.Follows (.ofModels s.models) (.text entity)) : ∃ name, b.target = .text name := by
  cases hb with
  | mk hrelation _ _ =>
    obtain ⟨-, -, -, name, -, htarget, -⟩ := (Catalog.relation?_ofModels hm (h.of_find? hm)).mp hrelation
    exact ⟨name, htarget⟩

/-- A branch leads where its label leads. -/
theorem target_of_follows (h : s.WellLabelled) (hm : Model.find? s.models entity = some m) {b : Branch}
    (hb : b.Follows (.ofModels s.models) (.text entity)) (htarget : b.target = .text name) :
    s.target entity b.label = name ∧ ∃ t, Model.find? s.models name = some t := by
  cases hb with
  | mk hrelation _ _ =>
    obtain ⟨link, hr, rfl, name', t, htarget', ht⟩ := (Catalog.relation?_ofModels hm (h.of_find? hm)).mp hrelation
    cases htarget'.symm.trans htarget
    exact ⟨target_of_mem hm (h.of_find? hm) hr htarget ht, t, ht⟩

theorem targetOf_along (h : s.WellLabelled) {last : String} {chain : List String} {bs bs' : List Branch}
    (hchain : Branch.Along entity bs chain last bs') (hm : ∃ m, Model.find? s.models entity = some m)
    (hbs : Branch.AllFollow (.ofModels s.models) (.text entity) bs) : s.targetOf entity chain = last := by
  induction hchain with
  | nil name bs => rfl
  | cons hb _ htarget _ ih =>
    obtain ⟨m, hm⟩ := hm
    have hfollows := hbs.2 _ hb
    obtain ⟨hlead, ht⟩ := target_of_follows h hm hfollows htarget
    rw [targetOf_cons, hlead]
    exact ih ht (htarget ▸ hfollows.nested)

mutual
theorem fits_of_included (h : s.WellLabelled) : (b : Branch) → {entity : String} → {m : Model} → {r : Record} →
    {row : Row} → Model.find? s.models entity = some m → b.Follows (.ofModels s.models) (.text entity) →
      row.get b.label = s.included entity r b → b.Fits s row
  | ⟨label, target, many, through, nested⟩, entity, m, r, row, hm, hb, hrow => by
    cases hb with
    | mk hrelation hlabels hbelow =>
      obtain ⟨link, hmem, rfl, name, t, htarget, ht⟩ := (Catalog.relation?_ofModels hm (h.of_find? hm)).mp hrelation
      rw [Branch.Fits]
      refine ⟨name, t, htarget, ht, fun o ho => ?_⟩
      rw [hrow] at ho
      obtain ⟨r', hr', rfl⟩ := exists_of_mem_included ho
      have hr' := mem_records_of_related hr'
      rw [target_of_mem hm (h.of_find? hm) hmem htarget ht] at hr' ⊢
      rw [htarget] at hbelow
      refine ⟨fills_includedIn (fills_toRow hr') fun b hb => not_isPlain_of_follows h ht (hbelow b hb), ?_⟩
      exact allFit_of_included h nested ht ⟨hlabels, hbelow⟩ fun b hb => get_includedIn_label hlabels hb

theorem allFit_of_included (h : s.WellLabelled) : (bs : List Branch) → {entity : String} → {m : Model} → {r : Record} →
    {row : Row} → Model.find? s.models entity = some m → Branch.AllFollow (.ofModels s.models) (.text entity) bs →
      (∀ b ∈ bs, row.get b.label = s.included entity r b) → Branch.AllFit s entity row bs
  | [], _, _, _, _, _, _, _ => by simp only [Branch.AllFit]
  | b :: bs, entity, m, r, row, hm, ⟨hlabels, hbs⟩, hrow => by
    obtain ⟨hnew, hlabels⟩ := List.nodup_cons.mp hlabels
    obtain ⟨hb, hbs⟩ := List.forall_mem_cons.mp hbs
    obtain ⟨hfirst, hrest⟩ := List.forall_mem_cons.mp hrow
    rw [Branch.AllFit]
    exact ⟨not_isPlain_of_follows h hm hb, hnew, fits_of_included h b hm hb hfirst,
      allFit_of_included h bs hm ⟨hlabels, hbs⟩ hrest⟩
end

/-- A record as it stands in a row, with what it shows under branches. -/
def shown (s : Store) (entity : String) (bs : List Branch) (r : Record) : Row := s.includedIn entity r bs r.toRow

theorem shown_fits (h : s.WellLabelled) (hm : Model.find? s.models entity = some m)
    (hbs : Branch.AllFollow (.ofModels s.models) (.text entity) bs) (hr : r ∈ s.records entity) :
    s.Fills entity (s.shown entity bs r) ∧ Branch.AllFit s entity (s.shown entity bs r) bs :=
  ⟨fills_includedIn (fills_toRow hr) fun b hb => not_isPlain_of_follows h hm (hbs.2 b hb),
    allFit_of_included h bs hm hbs fun _ hb => get_includedIn_label hbs.1 hb⟩

theorem not_mem_labels (h : s.WellLabelled) (hm : Model.find? s.models entity = some m)
    (hbs : Branch.AllFollow (.ofModels s.models) (.text entity) bs) (hname : IsPlain s.models entity name) :
    name ∉ bs.map Branch.label := by
  intro hmem
  obtain ⟨b, hb, rfl⟩ := List.mem_map.mp hmem
  exact not_isPlain_of_follows h hm (hbs.2 b hb) hname

theorem get?_shown (h : name ∉ bs.map Branch.label) :
    Table.get? (.text name) (s.shown entity bs r) = (Table.get? name r).map Content.shown := by
  rw [shown, get?_includedIn_of_not_mem h, Record.get?_toRow]

theorem get_shown (h : name ∉ bs.map Branch.label) : (s.shown entity bs r).get name = (r.content name).shown := by
  rw [Row.get, get?_shown h, Record.content]
  cases Table.get? name r <;> rfl

/-- Under a label that leads to one record at most stands that record, or null. -/
theorem get_shown_toOne (h : (bs.map Branch.label).Nodup) {b : Branch} (hb : b ∈ bs) (hmany : b.many.truthy = false) :
    (s.shown entity bs r).get b.label = (s.related entity b.label r).head?.elim .null
      fun o => .object (s.shown (s.target entity b.label) b.nested o) := by
  rw [shown, get_includedIn_label h hb]
  obtain ⟨label, target, many, through, nested⟩ := b
  simp only at hmany
  rw [included, if_neg (by simp [hmany])]
  cases s.related entity label r <;> rfl

end Store

end Sift
