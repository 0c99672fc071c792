import Mathlib.Data.List.Perm.Basic
import Sift.Proofs.Projection.Flattening

/-!
# What flat names show

Whatever is configured, a flattened row shows under every flat name the attribute at the path that the name stands for.
As nothing else is left of the relations, the order in which they are configured makes no difference to the rows.
-/

namespace Sift

def Lift.ofParts (parts : Value × List (List Value)) : Except Fault Lift := do
  return ⟨parts.1, ← parts.2.mapM pair⟩

/-- The lift is read from the configuration of its relation. -/
def Lift.Reads (config : Value) (l : Lift) : Prop := ∃ parts, Lift.parts config = .ok parts ∧ ofParts parts = .ok l

theorem Lift.isIndirect_of_parts {config : Value} {ps : Value × List (List Value)} (h : Lift.parts config = .ok ps) :
    Lift.isIndirect ps.1 = .ok false := by
  unfold Lift.parts at h
  split at h
  · split at h
    · obtain ⟨indirect, hindirect, h⟩ := bind_eq_ok_iff.mp h
      cases indirect with
      | true => cases h
      | false =>
        obtain ⟨items, -, h⟩ := bind_eq_ok_iff.mp h
        obtain ⟨attributes, -, h⟩ := bind_eq_ok_iff.mp h
        cases pure_eq_ok_iff.mp h
        exact hindirect
    · cases h
  · cases h

namespace Flattening

/-- The relations of a configuration: one object or several. -/
def configs (v : Value) : Except Fault (List Value) :=
  match v with
  | .object _ => pure [v]
  | v => v.elementsOrNone

/-- Labels, sources and flat names are texts. -/
def IsTextual (f : Flattening) : Prop :=
  ∀ l ∈ f.lifts, (∃ label : String, l.label = .text label) ∧
    ∀ a ∈ l.attributes, ∃ source name : String, a = (.text source, .text name)

/-- What a flattened row shows: under a flat name the attribute that its path names, of the object under the label or of
the first one there; no label of a flattened relation; and everything else as it was. -/
structure Shows (f : Flattening) (row row' : Row) : Prop where
  flat : ∀ name, .text name ∈ f.names → ∃ label source : String, '.' ∉ label.toList ∧
    f.path? (.text name) = some (label ++ "." ++ source) ∧
      Table.get? (.text name) row' = some (Lift.picked (row.get label) (.text source))
  removed : ∀ label, .text label ∈ f.labels → Table.get? (.text label) row' = none
  kept : ∀ name, .text name ∉ f.names → .text name ∉ f.labels →
    Table.get? (.text name) row' = Table.get? (.text name) row

variable {config : Value} {f f' : Flattening} {row row' row'' : Row} {rows : List Row}

/-! ## Configurations -/

theorem ofValue_eq_ok_iff : ofValue config = .ok f ↔
    ∃ cs, configs config = .ok cs ∧ List.Forall₂ Lift.Reads cs f.lifts := by
  have hread : ofValue config = do
      let cs ← configs config
      let parts ← cs.mapM Lift.parts
      return ⟨← parts.mapM Lift.ofParts⟩ := by
    unfold ofValue configs
    cases config <;> rfl
  obtain ⟨lifts⟩ := f
  simp only [hread, bind_eq_ok_iff, pure_eq_ok_iff, Flattening.mk.injEq, exists_eq_right]
  exact exists_congr fun cs => and_congr_right fun _ => mapM_mapM_eq_ok_iff

/-- Only direct relations are flattened. -/
theorem not_mem_label (h : ofValue config = .ok f) {l : Lift} (hl : l ∈ f.lifts) {label : String}
    (hlabel : l.label = .text label) : '.' ∉ label.toList := by
  obtain ⟨cs, -, hreads⟩ := ofValue_eq_ok_iff.mp h
  obtain ⟨i, hi⟩ := List.mem_iff_getElem?.mp hl
  obtain ⟨c, -, parts, hparts, hofParts⟩ := exists_of_forall₂ hreads.flip hi
  obtain ⟨pairs, -, heq⟩ := bind_eq_ok_iff.mp hofParts
  cases pure_eq_ok_iff.mp heq
  have hdirect := Lift.isIndirect_of_parts hparts
  rw [show parts.1 = .text label from hlabel, Lift.isIndirect, Except.ok.injEq, Bool.or_eq_false_iff] at hdirect
  simpa using hdirect.2

/-! ## Rows -/

theorem IsTextual.exists_of_mem_names (htext : f.IsTextual) {name : Value} (hname : name ∈ f.names) :
    ∃ l ∈ f.lifts, ∃ label source flat : String, l.label = .text label ∧ name = .text flat ∧
      (.text source, .text flat) ∈ l.attributes := by
  obtain ⟨l, hl, hmem⟩ := List.mem_flatMap.mp hname
  obtain ⟨a, ha, rfl⟩ := List.mem_map.mp hmem
  obtain ⟨⟨label, hlabel⟩, hattributes⟩ := htext l hl
  obtain ⟨source, flat, rfl⟩ := hattributes a ha
  exact ⟨l, hl, label, source, flat, hlabel, rfl, ha⟩

theorem Lifted.shows (hconfig : ofValue config = .ok f) (hnamed : f.WellNamed) (htext : f.IsTextual)
    (hrow : row.Distinct) (h : f.Lifted row row') : f.Shows row row' where
  flat := by
    intro name hname
    obtain ⟨l, hl, label, source, flat, hlabel, heq, ha⟩ := htext.exists_of_mem_names hname
    cases heq
    refine ⟨label, source, not_mem_label hconfig hl hlabel, ?_, h.lifted l hl label name _ hlabel ha⟩
    rw [path?_of_mem hnamed hl ha, hlabel]
    rfl
  removed := h.removed hrow
  kept := h.kept

/-- Flattening the same relations in another order gives the same row. -/
theorem Lifted.get?_eq (htext : f.IsTextual) (hrow : row.Distinct) (h : f.Lifted row row') (h' : f'.Lifted row row'')
    (hperm : f'.lifts.Perm f.lifts) (name : String) :
    Table.get? (.text name) row'' = Table.get? (.text name) row' := by
  have hlabels : .text name ∈ f'.labels ↔ .text name ∈ f.labels := (hperm.map Lift.label).mem_iff
  have hnames : .text name ∈ f'.names ↔ .text name ∈ f.names := (hperm.flatMap_right _).mem_iff
  by_cases hname : .text name ∈ f.names
  · obtain ⟨l, hl, label, source, flat, hlabel, heq, ha⟩ := htext.exists_of_mem_names hname
    cases heq
    rw [h.lifted l hl label name _ hlabel ha, h'.lifted l (hperm.mem_iff.mpr hl) label name _ hlabel ha]
  by_cases hlabel : .text name ∈ f.labels
  · rw [h.removed hrow name hlabel, h'.removed hrow name (hlabels.mpr hlabel)]
  · rw [h.kept name hname hlabel, h'.kept name (mt hnames.mp hname) (mt hlabels.mp hlabel)]

theorem WellNamed.of_perm (h : f.WellNamed) (hperm : f'.lifts.Perm f.lifts) : f'.WellNamed where
  labels := (hperm.map Lift.label).nodup_iff.mpr h.labels
  names := (hperm.flatMap_right _).nodup_iff.mpr h.names
  apart name hname hlabel :=
    h.apart name ((hperm.flatMap_right _).mem_iff.mp hname) ((hperm.map Lift.label).mem_iff.mp hlabel)
  keys l hl := h.keys l (hperm.mem_iff.mp hl)

theorem exists_lifted (h : f.WellNamed) (hrelated : ∀ row ∈ rows, f.IsRelated row) :
    ∃ shown, f.flattenRows (rows.map .object) = .ok (shown.map .object) ∧
      List.Forall₂ (fun row row' => row ∈ rows ∧ f.Lifted row row') rows shown := by
  obtain ⟨shown, hshown, hall⟩ := exists_flattenRows h (R := fun a row => a = row ∧ row ∈ rows)
    (List.forall₂_same.mpr fun row hrow => ⟨rfl, hrow⟩) fun _ row hrow => hrelated row hrow.2
  refine ⟨shown, hshown, hall.imp ?_⟩
  rintro row row' ⟨_, ⟨rfl, hrow⟩, hflatten⟩
  obtain ⟨_, hrow', hlifted⟩ := exists_flatten h (hrelated row hrow)
  cases hflatten.symm.trans hrow'
  exact ⟨hrow, hlifted⟩

/-- Flattened rows keep their number and their order, and each shows under the flat names the attributes that their
paths name, in place of the relations. The order of the relations in the configuration makes no difference. -/
theorem flattenRows_shows (hconfig : ofValue config = .ok f) (hnamed : f.WellNamed) (htext : f.IsTextual)
    (hdistinct : ∀ row ∈ rows, row.Distinct) (hrelated : ∀ row ∈ rows, f.IsRelated row) :
    ∃ shown, f.flattenRows (rows.map .object) = .ok (shown.map .object) ∧ List.Forall₂ f.Shows rows shown ∧
      ∀ cs cs', configs config = .ok cs → cs'.Perm cs → ∃ f' shown', ofValue (.list cs') = .ok f' ∧
        f'.flattenRows (rows.map .object) = .ok (shown'.map .object) ∧
          List.Forall₂ (fun row row' => ∀ name : String, Table.get? (.text name) row' = Table.get? (.text name) row)
            shown shown' := by
  obtain ⟨shown, hshown, hlifted⟩ := exists_lifted hnamed hrelated
  refine ⟨shown, hshown, ?_, fun cs cs' hcs hperm => ?_⟩
  · exact hlifted.imp fun row row' ⟨hrow, h⟩ => h.shows hconfig hnamed htext (hdistinct row hrow)
  · obtain ⟨cs₁, hcs₁, hreads⟩ := ofValue_eq_ok_iff.mp hconfig
    cases hcs.symm.trans hcs₁
    obtain ⟨lifts, hreads', hlifts⟩ := List.perm_comp_forall₂ hperm hreads
    have hconfig' : ofValue (.list cs') = .ok ⟨lifts⟩ := by
      refine ofValue_eq_ok_iff.mpr ⟨cs', ?_, hreads'⟩
      cases cs' <;> rfl
    have hrelated' : ∀ row ∈ rows, IsRelated ⟨lifts⟩ row := fun row hrow l hl =>
      hrelated row hrow l (hlifts.mem_iff.mp hl)
    obtain ⟨shown', hshown', hlifted'⟩ := exists_lifted (hnamed.of_perm hlifts) hrelated'
    refine ⟨⟨lifts⟩, shown', hconfig', hshown', forall₂_of_common hlifted hlifted' ?_⟩
    intro row row' row'' ⟨hrow, h⟩ ⟨_, h'⟩ name
    exact h.get?_eq htext (hdistinct row hrow) h' hlifts name

end Flattening

namespace Shop

def flattening : Flattening :=
  ⟨[⟨.text "owner", [(.text "email", .text "email"), (.text "name", .text "owner_name")]⟩,
    ⟨.text "tags", [(.text "name", .text "tag")]⟩]⟩

def flatteningConfigs : List Value :=
  [.object [(.text "as", .text "owner"),
      (.text "attributes", .list [.text "email", .tuple [.text "name", .text "owner_name"]])],
    .object [(.text "as", .text "tags"), (.text "attributes", .list [.tuple [.text "name", .text "tag"]])]]

def onSale : List Row :=
  [[(.text "id", .int 1), (.text "owner", .object [(.text "name", .text "Alice")]),
      (.text "tags", .list ([[(.text "name", .text "sale")], [(.text "name", .text "new")]].map .object))],
    [(.text "id", .int 5), (.text "owner", .null)]]

theorem isTextual_flattening : flattening.IsTextual := by
  refine List.forall_mem_cons.mpr ⟨⟨⟨"owner", rfl⟩, List.forall_mem_cons.mpr ⟨⟨"email", "email", rfl⟩, ?_⟩⟩,
    List.forall_mem_singleton.mpr ⟨⟨"tags", rfl⟩, List.forall_mem_singleton.mpr ⟨"name", "tag", rfl⟩⟩⟩
  exact List.forall_mem_singleton.mpr ⟨"name", "owner_name", rfl⟩

theorem wellNamed_flattening : flattening.WellNamed where
  labels := by simp [flattening, Flattening.labels]
  names := by simp [flattening, Flattening.names]
  apart := by simp [flattening, Flattening.labels, Flattening.names]
  keys l hl a ha := by
    obtain ⟨source, name, rfl⟩ := (isTextual_flattening l hl).2 a ha
    rfl

theorem isRelated_onSale : ∀ row ∈ onSale, flattening.IsRelated row := by
  refine List.forall_mem_cons.mpr ⟨List.forall_mem_cons.mpr ⟨?_, List.forall_mem_singleton.mpr ?_⟩,
    List.forall_mem_singleton.mpr (List.forall_mem_cons.mpr ⟨?_, List.forall_mem_singleton.mpr ?_⟩)⟩
  · exact ⟨"owner", rfl, .inr (.inl ⟨_, rfl⟩)⟩
  · exact ⟨"tags", rfl, .inr (.inr ⟨_, rfl⟩)⟩
  · exact ⟨"owner", rfl, .inl rfl⟩
  · exact ⟨"tags", rfl, .inl rfl⟩

end Shop

namespace Flattening

theorem flattenRows_shows_onSale : ofValue (.list Shop.flatteningConfigs) = .ok Shop.flattening ∧
    Shop.flattening.WellNamed ∧ Shop.flattening.IsTextual ∧ (∀ row ∈ Shop.onSale, row.Distinct) ∧
      (∀ row ∈ Shop.onSale, Shop.flattening.IsRelated row) ∧
        ∃ shown, Shop.flattening.flattenRows (Shop.onSale.map .object) = .ok (shown.map .object) ∧
          List.Forall₂ Shop.flattening.Shows Shop.onSale shown := by
  have hconfig : ofValue (.list Shop.flatteningConfigs) = .ok Shop.flattening := rfl
  have hdistinct : ∀ row ∈ Shop.onSale, row.Distinct := by decide
  obtain ⟨shown, hshown, hshows, -⟩ :=
    flattenRows_shows hconfig Shop.wellNamed_flattening Shop.isTextual_flattening hdistinct Shop.isRelated_onSale
  exact ⟨hconfig, Shop.wellNamed_flattening, Shop.isTextual_flattening, hdistinct, Shop.isRelated_onSale, shown, hshown,
    hshows⟩

end Flattening

end Sift
