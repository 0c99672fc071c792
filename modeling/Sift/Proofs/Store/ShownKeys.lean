import Sift.Proofs.Filter.Exposed
import Sift.Proofs.Projection.Tables
import Sift.Proofs.Sample
import Sift.Proofs.Store.MappedKeys
import Sift.Proofs.Store.Rendered
import Sift.Proofs.Store.Valued

/-!
# What a foreign key shows is what finds it

A filter on an exposed foreign key goes through the relation to the exposed column, a projected row has the key replaced
by what was looked up for it. Where every key refers to a row, both are about the same identifier.
-/

namespace Sift

namespace ExposedKey

variable {s : Store} {mappings : Table Value KeyMapping} {k : ExposedKey s.models mappings}

/-- The store keeps its promises about the key: it refers to a row, which no other row is taken for, and which is exposed
by something. -/
structure Refers (k : ExposedKey s.models mappings) : Prop where
  refers : ∀ r ∈ s.records k.entity, (r.cell k.column).isNull = false →
    ∃ o ∈ s.records k.target, (r.cell k.column).equal (o.cell k.key) = .yes
  unique : ∀ o ∈ s.records k.target, ∀ o' ∈ s.records k.target, (o.cell k.key).rank = (o'.cell k.key).rank → o = o'
  exposes : ∀ o ∈ s.records k.target, (o.cell k.exposed).isNull = false

theorem Refers.mappedKey (h : k.Refers) : k.mappedKey.Refers := ⟨h.refers, h.unique, h.exposes⟩

/-! ## Clauses -/

variable {many : Value} {token : String} {w : Value} {r : Record}

theorem not_missing (hlabels : s.WellLabelled) {o : Record} (ho : o ∈ s.related k.entity k.relation.label r) :
    (r.cell k.column).isNull = false := MappedKey.not_missing (k := k.mappedKey) hlabels ho

theorem shownBy?_field : Store.shownBy? (k.field many) = some k.column := MappedKey.shownBy?_field (k := k.mappedKey)

theorem storageOf_field (hlabels : s.WellLabelled) : s.storageOf k.entity (k.field many) = k.storage :=
  MappedKey.storageOf_field (k := k.mappedKey) hlabels

theorem clauseTruth_null : s.clauseTruth k.entity r ⟨k.field many, .eq, .null, token⟩ = .yes ↔
    (r.cell k.column).isNull = true := MappedKey.clauseTruth_null (k := k.mappedKey)

/-- Anything else is asked of the exposed column of the record that the key refers to. -/
theorem clauseTruth_value (hlabels : s.WellLabelled) (hw : w ≠ .null) {o : Cell}
    (ho : (Comparison.ofValue .eq k.storage w).operands k.storage = .ok [o]) :
    s.clauseTruth k.entity r ⟨k.field many, .eq, w, token⟩ = .yes ↔
      ∃ other ∈ s.related k.entity k.relation.label r, (other.cell k.exposed).equal o = .yes := by
  rw [Store.clauseTruth_value (storageOf_field hlabels) hw ho]
  exact Store.reaches_cons_iff

/-! ## Rows -/

/-- What is shown for a key: null for a null key, and what is exposed of some record with the key for any other one. -/
structure IsShown (k : ExposedKey s.models mappings) (r : Record) (v : Value) : Prop where
  null : (r.content k.column).shown = .null → v = .null
  exposed : (r.content k.column).shown ≠ .null →
    (∃ o ∈ s.records k.target, ((o.content k.key).shown == (r.content k.column).shown) = true) →
      ∃ o ∈ s.records k.target, ((o.content k.key).shown == (r.content k.column).shown) = true ∧
        v = (o.content k.exposed).shown

variable {v : Value}

/-- What is shown for a key is exposed of the record that the relation leads to. -/
theorem IsShown.related (h : k.IsShown r v) (hlabels : s.WellLabelled) (hstored : s.Stored) (hrefers : k.Refers)
    (hdocument : k.keyStorage ≠ .document) (hr : r ∈ s.records k.entity) :
    ((r.cell k.column).isNull = true ∧ v = .null) ∨
      ∃ o ∈ s.related k.entity k.relation.label r, v = (o.content k.exposed).shown := by
  have hkept := (hstored.content k.model_found hr k.column_kept).kept hdocument
  have hkey {o : Record} (ho : o ∈ s.records k.target) : Content.Kept k.keyStorage (o.content k.key) :=
    (hstored.content k.owner_found ho k.key_kept).kept hdocument
  cases hmissing : (r.cell k.column).isNull with
  | true => exact .inl ⟨rfl, h.null (hkept.isNull_iff.mp hmissing)⟩
  | false =>
    have hne := hkept.isNull_eq_false_iff.mp hmissing
    obtain ⟨o, ho, hequal⟩ := hrefers.refers r hr hmissing
    obtain ⟨-, hcell, hrank⟩ := Cell.equal_eq_yes_iff.mp hequal
    have heq := ((hkey ho).equal_iff hkept hcell hmissing).mp (Cell.equal_eq_yes_iff.mpr ⟨hcell, hmissing, hrank.symm⟩)
    obtain ⟨o', ho', heq', hv⟩ := h.exposed hne ⟨o, ho, heq⟩
    have hcell' : (o'.cell k.key).isNull = false := by
      refine (hkey ho').isNull_eq_false_iff.mpr fun hnull => hne ?_
      rwa [hnull, Value.null_beq_iff] at heq'
    obtain ⟨-, -, hrank'⟩ := Cell.equal_eq_yes_iff.mp (((hkey ho').equal_iff hkept hcell' hmissing).mpr heq')
    have hequal' := Cell.equal_eq_yes_iff.mpr ⟨hmissing, hcell', hrank'.symm⟩
    exact .inr ⟨o', (MappedKey.mem_related_iff (k := k.mappedKey) hlabels).mpr ⟨ho', hequal'⟩, hv⟩

variable {p : Projector} {includes : IncludeTree} {lookups : LookupStore} {op : Operator} {name : String} {x : Value}

theorem isPlain_column (hsuits : p.Suits s) : IsPlain s.models k.entity k.column := by
  obtain ⟨column, hcolumn, hplain⟩ := hsuits.owned k.entity k.model k.model_found _ k.owned
  cases k.foreignKey_eq.symm.trans hcolumn
  exact hplain

/-- A record is rendered with what is shown for the key. -/
theorem isShown_of_renders (k : ExposedKey s.models p.mappings) (hsuits : p.Suits s) (hstored : s.Stored)
    (hlabels : s.WellLabelled) {found : Table Value Row} (hfound : Projector.Finds s found) {bs : List Branch}
    {row : Row} (hrow : p.Renders s found k.entity bs r row) : k.IsShown r (row.get k.column) := by
  obtain ⟨row₁, hkeys, hsame, -⟩ := hrow.exists_keysExposed hsuits hstored hlabels hfound k.model_found
  have hlabel := Store.not_mem_labels hlabels k.model_found hrow.follow (isPlain_column hsuits)
  have hexposed : (.text k.column, ⟨.text k.target, .text k.key, .text k.exposed⟩) ∈ p.exposedKeys s k.model :=
    Projector.mem_exposedKeys_of_owned k.owned k.foreignKey_eq k.only (by rw [k.target_eq]; exact k.mapped)
  have hreplaced := hkeys.replaced k.column _ hexposed fun own hown => ⟨k.not_id, k.not_own own hown⟩
  have hknown := ((Projector.collects_objectRequests_iff (hsuits.foreignKeys k.model_found)).mp hrow.known.1).2 _ hexposed
  rw [Row.field_text, Store.get_shown hlabel, Projector.collects_request_iff] at hknown
  rw [Store.get_shown hlabel] at hreplaced
  rw [hsame _ hlabel]
  constructor
  · intro hnull
    rw [hnull] at hreplaced
    exact (Except.ok.inj hreplaced).symm
  · intro hne hsome
    obtain ⟨key, exposed, hexposes⟩ := hsuits.mapped k.target k.owner _ k.owner_found k.mapped
    cases k.mapped.symm.trans hexposes.mapping
    obtain ⟨o, ho, hkey, hidentifier⟩ := (hknown.resolve_left hne).2 _ _ _ rfl hexposes hsome
    rw [Projector.replacement_of_ne_null _ _ hne, hidentifier] at hreplaced
    exact ⟨o, ho, hkey, (Except.ok.inj hreplaced).symm⟩

end ExposedKey

/-! ## Owners -/

namespace Shop

end Shop

namespace ExposedKey

variable {s : Store} {mappings : Table Value KeyMapping} {includes : IncludeTree} {lookups : LookupStore}
  {rules : FilterRules} {checked : Bool} {op : Operator} {name : String} {x w : Value}

/-! ## Foreign keys select what they show -/

end ExposedKey

end Sift
