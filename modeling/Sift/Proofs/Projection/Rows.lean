import Sift.Projection
import Sift.Proofs.Schema.WellFormed
import Sift.Proofs.Store.Contents
import Sift.Store.Loading

/-!
# Rows that can be projected

What a row holds under the columns of its entity is what records show, and so is what the objects under the labels of the
included relations hold. Labels are no columns, so putting something under the one changes nothing under the other.
-/

namespace Sift

/-- The entity has a column of the name, which holds no documents. -/
def IsPlain (models : List Model) (entity column : String) : Prop :=
  ∃ m st, Model.find? models entity = some m ∧ m.columns.get? column = some st ∧ st ≠ .document

namespace Store

/-! ## What records show -/

/-- The records hold what the columns of their models store. -/
def Stored (s : Store) : Prop :=
  ∀ (entity : String) (m : Model), Model.find? s.models entity = some m → ∀ r ∈ s.records entity, ∀ e ∈ r, ∀ st,
    m.columns.get? e.1 = some st → e.2.Stored st

/-- Some record shows the value under a column without documents, or it is null. -/
def Shows (s : Store) (v : Value) : Prop :=
  v = .null ∨ ∃ entity column, IsPlain s.models entity column ∧ ∃ r ∈ s.records entity, ∃ c, (column, c) ∈ r ∧ c.shown = v

variable {s : Store} {entity column name : String} {r : Record} {v : Value} {row : Row}

theorem Stored.content (h : s.Stored) {m : Model} (hm : Model.find? s.models entity = some m) (hr : r ∈ s.records entity)
    {st : Storage} (hst : m.columns.get? column = some st) : (r.content column).Stored st := by
  unfold Record.content
  cases hc : Table.get? column r with
  | none => exact .inl rfl
  | some c => exact h entity m hm r hr _ (Table.mem_of_get?_eq_some hc) st hst

/-- What a row is stored as is what the columns of its model store. -/
theorem stored_ofRow {m : Model} (hcolumns : m.columns.keys.Nodup) (h : Record.ofRow m row = .ok r) :
    ∀ e ∈ r, ∀ st, m.columns.get? e.1 = some st → e.2.Stored st := by
  intro e he st hst
  obtain ⟨⟨column, st'⟩, hmem, heq⟩ := mem_of_mapM_eq_ok h e he
  have hcolumn := Table.get?_of_mem hcolumns hmem
  simp only at heq
  split at heq
  · obtain ⟨c, hc, heq⟩ := bind_eq_ok_iff.mp heq
    cases pure_eq_ok_iff.mp heq
    cases hcolumn.symm.trans hst
    exact .inr ⟨_, hc⟩
  · cases heq
    exact .inl rfl

theorem stored_of_rows (hcolumns : ∀ m ∈ s.models, m.columns.keys.Nodup) (h : ∀ table ∈ s.tables, ∀ m,
    Model.find? s.models table.1 = some m → ∀ r ∈ table.2, ∃ row, Record.ofRow m row = .ok r) : s.Stored := by
  intro entity m hm r hr
  obtain ⟨rs, hmem, hr⟩ := Table.exists_mem_of_mem_getD hr
  obtain ⟨row, hrow⟩ := h _ hmem m hm r hr
  exact stored_ofRow (hcolumns m (List.mem_of_find?_eq_some hm)) hrow

theorem Shows.exists_kept (h : s.Shows v) (hs : s.Stored) : ∃ st c, Content.Kept st c ∧ c.shown = v := by
  rcases h with rfl | ⟨entity, column, ⟨m, st, hm, hst, hdocument⟩, r, hr, c, hc, rfl⟩
  · exact ⟨.text, {}, .nothing _, rfl⟩
  · exact ⟨st, c, (hs entity m hm r hr _ hc st hst).kept hdocument, rfl⟩

theorem Shows.isKey (h : s.Shows v) (hs : s.Stored) : v.isKey = true := by
  obtain ⟨st, c, hkept, rfl⟩ := h.exists_kept hs
  exact hkept.isKey

theorem Shows.beq_self (h : s.Shows v) (hs : s.Stored) (hv : v ≠ .null) : (v == v) = true := by
  obtain ⟨st, c, hkept, rfl⟩ := h.exists_kept hs
  have hcell := hkept.isNull_eq_false_iff.mpr hv
  exact (hkept.equal_iff hkept hcell hcell).mp (Cell.equal_eq_yes_iff.mpr ⟨hcell, hcell, rfl⟩)

theorem shows_content (hcolumn : IsPlain s.models entity column) (hr : r ∈ s.records entity) :
    s.Shows (r.content column).shown := by
  unfold Record.content
  cases hc : Table.get? column r with
  | none => exact .inl rfl
  | some c => exact .inr ⟨entity, column, hcolumn, r, hr, c, Table.mem_of_get?_eq_some hc, rfl⟩

/-! ## Columns -/

/-- What the row holds under columns without documents is what records show. -/
def Fills (s : Store) (entity : String) (row : Row) : Prop :=
  ∀ e ∈ row, ∀ column, e.1 = .text column → IsPlain s.models entity column → s.Shows e.2

theorem Fills.get (h : s.Fills entity row) (hcolumn : IsPlain s.models entity column) : s.Shows (row.get column) := by
  unfold Row.get
  cases hv : Table.get? (.text column) row with
  | none => exact .inl rfl
  | some v => exact h _ (Table.mem_of_get?_text hv) column rfl hcolumn

theorem Fills.insert (h : s.Fills entity row) (hv : IsPlain s.models entity name → s.Shows v) :
    s.Fills entity (row.insert name v) := by
  refine Table.forall_mem_insert (P := fun (k v : Value) => ∀ column, k = .text column →
    IsPlain s.models entity column → s.Shows v) ?_ ?_ h
  · rintro k k' a hk ha column rfl
    exact ha column (Value.beq_text_iff.mp hk)
  · intro column hname
    cases hname
    exact hv

theorem Fills.erase (h : s.Fills entity row) : s.Fills entity (row.erase name) :=
  fun e he => h e (Table.mem_of_mem_erase he)

end Store

/-! ## Included objects -/

namespace Branch

open Projector

mutual
/-- The objects that a row holds under the label of a branch can be projected. -/
def Fits (s : Store) (row : Row) : Branch → Prop
  | ⟨label, target, _, _, nested⟩ => ∃ (name : String) (m : Model), target = .text name ∧
      Model.find? s.models name = some m ∧ ∀ o ∈ nestedObjects (row.get label), s.Fills name o ∧ AllFit s name o nested

/-- So can those under the labels of some branches, each of which has a label of its own that is no column. -/
def AllFit (s : Store) (entity : String) (row : Row) : List Branch → Prop
  | [] => True
  | b :: bs => ¬ IsPlain s.models entity b.label ∧ b.label ∉ bs.map Branch.label ∧ Fits s row b ∧ AllFit s entity row bs
end

variable {s : Store} {entity name : String} {row row' : Row} {bs : List Branch}

theorem Fits.mono {b : Branch} (h : Fits s row b)
    (hsub : ∀ o ∈ nestedObjects (row'.get b.label), o ∈ nestedObjects (row.get b.label)) : Fits s row' b := by
  obtain ⟨label, target, many, through, nested⟩ := b
  rw [Fits] at h ⊢
  obtain ⟨name, m, htarget, hm, hobjects⟩ := h
  exact ⟨name, m, htarget, hm, fun o ho => hobjects o (hsub o ho)⟩

theorem AllFit.mono (h : AllFit s entity row bs)
    (hsub : ∀ b ∈ bs, ∀ o ∈ nestedObjects (row'.get b.label), o ∈ nestedObjects (row.get b.label)) :
    AllFit s entity row' bs := by
  induction bs with
  | nil => simp only [AllFit]
  | cons b bs ih =>
    rw [AllFit] at h ⊢
    obtain ⟨hcolumn, hlabel, hb, hbs⟩ := h
    obtain ⟨hsub, hsubs⟩ := List.forall_mem_cons.mp hsub
    exact ⟨hcolumn, hlabel, hb.mono hsub, ih hbs hsubs⟩

theorem nestedObjects_of_isKey {v : Value} (h : v.isKey = true) : nestedObjects v = [] := by
  cases v with
  | list items => cases h
  | object entries => cases h
  | _ => rfl

end Branch

end Sift
