import Mathlib.Data.List.Nodup
import Sift.Flattening
import Sift.Projection
import Sift.Proofs.Outcome
import Sift.Proofs.Value.Rows

/-!
# What flattened rows show

Flattening takes a relation out of a row and puts its attributes in, under names of their own. Where no name is written
twice and none is the label of a flattened relation, every name shows the attribute that it stands for.
-/

namespace Sift

namespace Lift

variable {l : Lift} {row : Row} {label name : String} {v source : Value} {attributes : List (Value × Value)}

/-- An attribute of the object that stands under a label, or of the first one; null where there is none. -/
def picked (v source : Value) : Value := (Projector.nestedObjects v).head?.elim .null (Row.field source)

/-- Is it nothing, one object, or many? -/
def IsRelated (v : Value) : Prop := v = .null ∨ (∃ o, v = .object o) ∨ ∃ os : List Row, v = .list (os.map .object)

theorem lifted_object (hsource : source.isKey = true) (o : Row) : lifted source (.object o) = .ok (o.field source) := by
  cases o with
  | nil => rfl
  | cons e o =>
    rw [lifted, if_pos (by simp [Value.truthy]), Value.requireKey, if_pos hsource]
    rfl

theorem lifted_source (hv : IsRelated v) (hsource : source.isKey = true) :
    lifted source (Lift.source v) = .ok (picked v source) := by
  rcases hv with rfl | ⟨o, rfl⟩ | ⟨os, rfl⟩
  · rfl
  · exact lifted_object hsource o
  · cases os with
    | nil => rfl
    | cons o os => exact lifted_object hsource o

/-- Puts attributes into a row. -/
def put (v : Value) (attributes : List (Value × Value)) (row : Row) : Row :=
  attributes.foldl (fun row a => Table.insert a.2 (picked v a.1) row) row

theorem flatten_eq (hlabel : l.label = .text label) (hkeys : ∀ a ∈ l.attributes, a.1.isKey = true)
    (hrow : IsRelated (row.get label)) : l.flatten row = .ok (put (row.get label) l.attributes (row.erase label)) := by
  have hrequire : l.label.requireKey = .ok l.label := by
    rw [hlabel]
    rfl
  have hfold : l.attributes.foldlM (fun (shown : Row) a => do
        return Table.insert a.2 (← lifted a.1 (source (Row.field l.label row))) shown) (Table.erase l.label row) =
      .ok (put (row.get label) l.attributes (row.erase label)) := by
    rw [hlabel]
    refine foldlM_eq_ok (fun a ha row' => ?_) _
    rw [Row.field_text, lifted_source hrow (hkeys a ha)]
    rfl
  unfold flatten
  split
  · exact hfold
  · rw [hrequire]
    exact hfold

theorem get?_put_of_ne (h : ∀ a ∈ attributes, a.2 ≠ .text name) :
    Table.get? (.text name) (put v attributes row) = Table.get? (.text name) row := by
  induction attributes generalizing row with
  | nil => rfl
  | cons a attributes ih =>
    obtain ⟨ha, h⟩ := List.forall_mem_cons.mp h
    rw [put, List.foldl_cons]
    refine (ih h).trans ?_
    rw [Table.get?_text_insert, if_neg fun heq => ha (Value.beq_text_iff.mp heq)]

theorem get?_put (hnames : (attributes.map Prod.snd).Nodup) (h : (source, .text name) ∈ attributes) :
    Table.get? (.text name) (put v attributes row) = some (picked v source) := by
  induction attributes generalizing row with
  | nil => cases h
  | cons a attributes ih =>
    obtain ⟨hnew, hnames⟩ := List.nodup_cons.mp hnames
    rw [put, List.foldl_cons]
    rcases List.mem_cons.mp h with rfl | h
    · refine (get?_put_of_ne fun a ha heq => hnew (List.mem_map.mpr ⟨a, ha, heq⟩)).trans ?_
      rw [Table.get?_text_insert, if_pos (Value.beq_text_iff.mpr rfl)]
    · exact ih hnames h

theorem distinct_put (h : row.Distinct) : (put v attributes row).Distinct := by
  induction attributes generalizing row with
  | nil => exact h
  | cons a attributes ih => exact ih (h.insert _ _)

end Lift

namespace Flattening

variable {lifts : List Lift} {f : Flattening} {row : Row} {label name : String} {source : Value}

def names (f : Flattening) : List Value := f.lifts.flatMap fun l => l.attributes.map Prod.snd

/-- Each relation is flattened once, and no flat name is written twice or is the label of a flattened relation. -/
structure WellNamed (f : Flattening) : Prop where
  labels : f.labels.Nodup
  names : f.names.Nodup
  apart : ∀ name ∈ f.names, name ∉ f.labels
  keys : ∀ l ∈ f.lifts, ∀ a ∈ l.attributes, a.1.isKey = true

/-- Each flattened relation stands in the row with objects or with nothing. -/
def IsRelated (f : Flattening) (row : Row) : Prop :=
  ∀ l ∈ f.lifts, ∃ label, l.label = .text label ∧ Lift.IsRelated (row.get label)

/-- Under a flat name stands the attribute that it stands for, flattened relations are gone, and everything else is left
alone. -/
structure Lifted (f : Flattening) (row row' : Row) : Prop where
  kept : ∀ name, .text name ∉ f.names → .text name ∉ f.labels →
    Table.get? (.text name) row' = Table.get? (.text name) row
  lifted : ∀ l ∈ f.lifts, ∀ label name source, l.label = .text label → (source, .text name) ∈ l.attributes →
    Table.get? (.text name) row' = some (Lift.picked (row.get label) source)
  removed : row.Distinct → ∀ label, .text label ∈ f.labels → Table.get? (.text label) row' = none

theorem WellNamed.tail {l : Lift} (h : WellNamed ⟨l :: lifts⟩) : WellNamed ⟨lifts⟩ where
  labels := (List.nodup_cons.mp h.labels).2
  names := (List.nodup_append.mp (show (l.attributes.map Prod.snd ++ _).Nodup from h.names)).2.1
  apart name hname hlabel := h.apart name (List.mem_append_right _ hname) (List.mem_cons_of_mem _ hlabel)
  keys l hl := h.keys l (List.mem_cons_of_mem _ hl)

/-- The first relation stands alone before the others are flattened. -/
theorem WellNamed.not_mem_tail {l : Lift} (h : WellNamed ⟨l :: lifts⟩) {name : Value}
    (hname : name ∈ l.attributes.map Prod.snd ∨ name = l.label) :
    name ∉ Flattening.names ⟨lifts⟩ ∧ name ∉ Flattening.labels ⟨lifts⟩ := by
  obtain ⟨-, -, hdisjoint⟩ := List.nodup_append.mp (show (l.attributes.map Prod.snd ++ _).Nodup from h.names)
  rcases hname with hname | rfl
  · exact ⟨fun hmem => hdisjoint _ hname _ hmem rfl,
      fun hmem => h.apart _ (List.mem_append_left _ hname) (List.mem_cons_of_mem _ hmem)⟩
  · exact ⟨fun hmem => h.apart _ (List.mem_append_right _ hmem) List.mem_cons_self, (List.nodup_cons.mp h.labels).1⟩

section

variable {l : Lift} {row' : Row} (h : WellNamed ⟨l :: lifts⟩) (hlabel : l.label = .text label)

include hlabel

/-- What the first relation leaves alone. -/
theorem get?_first_of_not_mem (hname : .text name ∉ l.attributes.map Prod.snd) (hne : .text name ≠ l.label) :
    Table.get? (.text name) (Lift.put (row.get label) l.attributes (row.erase label)) = Table.get? (.text name) row := by
  rw [Lift.get?_put_of_ne fun a ha heq => hname (heq ▸ List.mem_map_of_mem ha), Row.erase, Table.get?_text_erase]
  exact hlabel ▸ Ne.symm hne

include h

/-- The other relations stand in the row as they did before the first one was flattened. -/
theorem WellNamed.get_first {l' : Lift} {label' : String} (hl' : l' ∈ lifts) (hlabel' : l'.label = .text label') :
    (Lift.put (row.get label) l.attributes (row.erase label)).get label' = row.get label' := by
  have hmem : .text label' ∈ Flattening.labels ⟨lifts⟩ := hlabel' ▸ List.mem_map_of_mem hl'
  refine Row.get_of_get? (get?_first_of_not_mem hlabel (fun hname => ?_) fun heq => ?_)
  · exact (h.not_mem_tail (.inl hname)).2 hmem
  · exact (h.not_mem_tail (.inr heq)).2 hmem

/-- What is lifted out of the row that the first relation is gone from is lifted out of the row with this relation. -/
theorem WellNamed.lifted_cons
    (hlifted : Lifted ⟨lifts⟩ (Lift.put (row.get label) l.attributes (row.erase label)) row') :
    Lifted ⟨l :: lifts⟩ row row' where
  kept name hname hlabels := by
    rw [hlifted.kept name (fun hmem => hname (List.mem_append_right _ hmem))
      (fun hmem => hlabels (List.mem_cons_of_mem _ hmem))]
    exact get?_first_of_not_mem hlabel (fun hmem => hname (List.mem_append_left _ hmem))
      fun heq => hlabels (heq ▸ List.mem_cons_self)
  lifted l' hl' label' name source hlabel' hsource := by
    rcases List.mem_cons.mp hl' with rfl | hl'
    · cases hlabel.symm.trans hlabel'
      obtain ⟨hname, hlabels⟩ := h.not_mem_tail (.inl (List.mem_map_of_mem (f := Prod.snd) hsource))
      obtain ⟨hnames, -, -⟩ := List.nodup_append.mp (show (l'.attributes.map Prod.snd ++ _).Nodup from h.names)
      rw [hlifted.kept name hname hlabels]
      exact Lift.get?_put hnames hsource
    · rw [hlifted.lifted l' hl' label' name source hlabel' hsource, h.get_first hlabel hl' hlabel']
  removed hdistinct label' hmem := by
    rcases List.mem_cons.mp hmem with heq | hmem
    · cases hlabel.symm.trans heq.symm
      obtain ⟨hname, hlabels⟩ := h.not_mem_tail (.inr heq)
      rw [hlifted.kept _ hname hlabels, Lift.get?_put_of_ne, Row.erase, Table.get?_text_erase_self hdistinct]
      intro a ha heq'
      refine h.apart a.2 (List.mem_append_left _ (List.mem_map_of_mem ha)) ?_
      rw [heq', heq]
      exact List.mem_cons_self
    · exact hlifted.removed (Lift.distinct_put (hdistinct.erase _)) label' hmem

end

theorem exists_flatten (h : f.WellNamed) (hrow : f.IsRelated row) :
    ∃ row', f.flatten row = .ok row' ∧ f.Lifted row row' := by
  obtain ⟨lifts⟩ := f
  induction lifts generalizing row with
  | nil => exact ⟨row, rfl, fun _ _ _ => rfl, fun _ hl => absurd hl List.not_mem_nil,
      fun _ _ hl => absurd hl List.not_mem_nil⟩
  | cons l lifts ih =>
    obtain ⟨⟨label, hlabel, hrelated⟩, hrest⟩ := List.forall_mem_cons.mp hrow
    have hflatten := Lift.flatten_eq hlabel (h.keys l List.mem_cons_self) hrelated
    have hrelated' : IsRelated ⟨lifts⟩ (Lift.put (row.get label) l.attributes (row.erase label)) := by
      intro l' hl'
      obtain ⟨label', hlabel', hrelated'⟩ := hrest l' hl'
      exact ⟨label', hlabel', by rwa [h.get_first hlabel hl' hlabel']⟩
    obtain ⟨row', hrow', hlifted⟩ := ih h.tail hrelated'
    refine ⟨row', ?_, h.lifted_cons hlabel hlifted⟩
    rw [flatten, List.foldlM_cons, hflatten]
    exact hrow'

theorem exists_flattenRows (h : f.WellNamed) {α : Type} {R : α → Row → Prop} {as : List α} {rows : List Row}
    (hrows : List.Forall₂ R as rows) (hrelated : ∀ a row, R a row → f.IsRelated row) :
    ∃ rows', f.flattenRows (rows.map .object) = .ok (rows'.map .object) ∧
      List.Forall₂ (fun a row' => ∃ row, R a row ∧ f.flatten row = .ok row') as rows' := by
  suffices hflat : ∃ rows', List.Forall₂ (fun row row' => f.flatten row = .ok row') rows rows' ∧
      List.Forall₂ (fun a row' => ∃ row, R a row ∧ f.flatten row = .ok row') as rows' by
    obtain ⟨rows', hall, hrows'⟩ := hflat
    refine ⟨rows', ?_, hrows'⟩
    rw [flattenRows]
    split
    · rename_i hempty
      have hlifts : f.lifts = [] := List.isEmpty_iff.mp hempty
      have hsame : List.Forall₂ (· = ·) rows rows' := hall.imp fun row row' hrow => by
        rw [flatten, hlifts] at hrow
        exact Except.ok.inj hrow
      rw [List.forall₂_eq_eq_eq] at hsame
      rw [hsame]
    · refine mapM_eq_ok_of_forall₂ (List.forall₂_map_left_iff.mpr (List.forall₂_map_right_iff.mpr (hall.imp ?_)))
      intro row row' hrow
      simp only [Row.ofValue, hrow, bind, Except.bind]
      rfl
  induction hrows with
  | nil => exact ⟨[], .nil, .nil⟩
  | cons hrow _ ih =>
    obtain ⟨row', hrow', -⟩ := exists_flatten h (hrelated _ _ hrow)
    obtain ⟨rows', hall, hrows'⟩ := ih
    exact ⟨row' :: rows', .cons hrow' hall, .cons ⟨_, hrow, hrow'⟩ hrows'⟩

/-- A flat name stands for the path of its attribute. -/
theorem path?_of_mem (h : f.WellNamed) {l : Lift} (hl : l ∈ f.lifts) (ha : (source, .text name) ∈ l.attributes) :
    f.path? (.text name) = some (l.label.plain ++ "." ++ source.plain) := by
  have hnames : ((f.lifts.flatMap fun l => l.attributes.map fun a =>
      (a.2, l.label.plain ++ "." ++ a.1.plain)).map Prod.fst).Nodup := by
    have heq := h.names
    rw [names] at heq
    rw [List.map_flatMap]
    simp only [List.map_map]
    exact heq
  have hmem : (.text name, l.label.plain ++ "." ++ source.plain) ∈ f.lifts.flatMap fun l =>
      l.attributes.map fun a => (a.2, l.label.plain ++ "." ++ a.1.plain) :=
    List.mem_flatMap.mpr ⟨l, hl, List.mem_map.mpr ⟨_, ha, rfl⟩⟩
  refine Table.get?_text_ofList hmem fun e he heq => ?_
  exact congrArg Prod.snd (List.inj_on_of_nodup_map hnames he hmem heq)

end Flattening

end Sift
