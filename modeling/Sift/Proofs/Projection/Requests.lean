import Sift.Proofs.Projection.Rows
import Sift.Proofs.Projection.Walk
import Sift.Proofs.Schema.Relations

/-!
# The keys that rows ask for

Rows of a store ask only for keys that records show, each under the mapped entity that it belongs to.
-/

namespace Sift

namespace Projector

/-- The rows of an entity are exposed by a column in place of their key, neither of which holds documents. -/
structure Exposes (p : Projector) (s : Store) (name key exposed : String) : Prop where
  mapping : p.mappings.get? (.text name) = some ⟨.text name, .text key, .text exposed⟩
  key : IsPlain s.models name key
  exposed : IsPlain s.models name exposed

/-- The mappings and the foreign keys of a projector are columns of a store, none of which hold documents. -/
structure Suits (p : Projector) (s : Store) : Prop where
  catalog : p.catalog = .ofModels s.models
  mapped : ∀ (name : String) (m : Model) (k : KeyMapping), Model.find? s.models name = some m →
    p.mappings.get? (.text name) = some k → ∃ key exposed, p.Exposes s name key exposed
  owned : ∀ (entity : String) (m : Model), Model.find? s.models entity = some m → ∀ r ∈ m.owned s.models,
    ∃ column, r.foreignKey = .text column ∧ IsPlain s.models entity column

/-- The foreign keys of a model that refer to mapped entities. -/
def exposedKeys (p : Projector) (s : Store) (m : Model) : List (Value × KeyMapping) :=
  (Table.ofList ((m.owned s.models).map fun r => (r.foreignKey, r))).filterMap fun e =>
    (p.mappings.get? e.2.target).map fun k => (e.1, k)

variable {p : Projector} {s : Store} {entity name fk : String} {m : Model} {r : Relation} {k : KeyMapping}

namespace Suits

variable (h : p.Suits s) (hm : Model.find? s.models entity = some m)

include h hm in
theorem exposes (hk : p.mappings.get? (.text entity) = some k) : ∃ key exposed : String,
    k = ⟨.text entity, .text key, .text exposed⟩ ∧ p.Exposes s entity key exposed := by
  obtain ⟨key, exposed, hexposes⟩ := h.mapped entity m k hm hk
  exact ⟨key, exposed, Option.some.inj (hk.symm.trans hexposes.mapping), hexposes⟩

include h hm in
theorem mem_ofList {e : Value × Relation} (he : e ∈ Table.ofList ((m.owned s.models).map fun r => (r.foreignKey, r))) :
    e.2 ∈ m.owned s.models ∧ e.1 = e.2.foreignKey := by
  refine Table.forall_mem_ofList (P := fun (key : Value) (r : Relation) => r ∈ m.owned s.models ∧ key = r.foreignKey)
    ?_ (fun e he => ?_) e he
  · rintro key key' r heq ⟨hr, rfl⟩
    obtain ⟨column, hcolumn, -⟩ := h.owned entity m hm r hr
    rw [hcolumn] at heq ⊢
    exact ⟨hr, Value.text_beq_iff.mp heq⟩
  · obtain ⟨r, hr, rfl⟩ := List.mem_map.mp he
    exact ⟨hr, rfl⟩

include h hm in
theorem foreignKeys : p.foreignKeys (.text entity) = .ok (p.exposedKeys s m) := by
  have hkeys : ∀ r ∈ m.owned s.models, r.foreignKey.isKey = true := by
    intro r hr
    obtain ⟨column, hcolumn, -⟩ := h.owned entity m hm r hr
    rw [hcolumn]
    rfl
  have hfound : (Table.ofList ((m.owned s.models).map fun r => (r.foreignKey, r))).mapM (fun e => do
      return (p.mappings.get? (← e.2.target.requireKey)).map fun k => (e.1, k) :
      Value × Relation → Except Fault (Option (Value × KeyMapping))) =
      .ok ((Table.ofList ((m.owned s.models).map fun r => (r.foreignKey, r))).map fun e =>
        (p.mappings.get? e.2.target).map fun k => (e.1, k)) := by
    refine mapM_eq_ok ?_
    rintro ⟨column, relation⟩ he
    obtain ⟨-, ⟨name, t, htarget, -⟩, -⟩ := Model.mem_owned_iff.mp (h.mem_ofList hm he).1
    simp only at htarget
    simp only [htarget, Value.requireKey_text, bind, Except.bind]
    rfl
  simp only [Projector.foreignKeys, h.catalog, Catalog.foreignKeys_ofModels hm hkeys, bind, Except.bind] at hfound ⊢
  rw [hfound]
  simp only [pure, Except.pure, List.filterMap_map, exposedKeys]
  rfl

include h hm in
theorem mem_exposedKeys {e : Value × KeyMapping} (he : e ∈ p.exposedKeys s m) : ∃ column name key exposed : String,
    e = (.text column, ⟨.text name, .text key, .text exposed⟩) ∧ IsPlain s.models entity column ∧
      p.Exposes s name key exposed := by
  obtain ⟨o, ho, hmap⟩ := List.mem_filterMap.mp he
  obtain ⟨k, hk, rfl⟩ := Option.map_eq_some_iff.mp hmap
  obtain ⟨hr, hkey⟩ := h.mem_ofList hm ho
  obtain ⟨column, hcolumn, hplain⟩ := h.owned entity m hm _ hr
  obtain ⟨-, ⟨name, t, htarget, ht⟩, -⟩ := Model.mem_owned_iff.mp hr
  rw [htarget] at hk
  obtain ⟨key, exposed, hexposes⟩ := h.mapped name t k ht hk
  cases hk.symm.trans hexposes.mapping
  exact ⟨column, name, key, exposed, by rw [hkey, hcolumn], hplain, hexposes⟩

end Suits

/-- Foreign keys are told once each. -/
theorem distinct_exposedKeys : Table.Distinct (p.exposedKeys s m) := by
  have hdistinct := Table.distinct_ofList ((m.owned s.models).map fun r => (r.foreignKey, r))
  exact hdistinct.filterMap fun e => p.mappings.get? e.2.target

/-- A foreign key of one relation to a mapped entity is exposed. -/
theorem mem_exposedKeys_of_owned (hr : r ∈ m.owned s.models) (hfk : r.foreignKey = .text fk)
    (honly : ∀ r' ∈ m.owned s.models, r'.foreignKey = .text fk → r' = r) (hk : p.mappings.get? r.target = some k) :
    (.text fk, k) ∈ p.exposedKeys s m :=
  List.mem_filterMap.mpr ⟨_, Table.mem_of_get?_text (Model.get?_owned hr hfk honly), by rw [hk]; rfl⟩

/-! ## Requests -/

/-- A key that some record shows, of an exposed entity. -/
def Asks (p : Projector) (s : Store) (q : Request) : Prop :=
  ∃ name key exposed : String, q.1 = .text name ∧ p.Exposes s name key exposed ∧ q.2 ≠ .null ∧ s.Shows q.2

variable {row : Row}

theorem collects_request (hs : s.Stored) {key exposed : String} (hexposes : p.Exposes s name key exposed) {v : Value}
    (hv : s.Shows v) : Collects (request (.text name) v) (p.Asks s) := by
  refine collects_request_iff.mpr (or_iff_not_imp_left.mpr fun hnull => ⟨hv.isKey hs, ?_⟩)
  exact ⟨name, key, exposed, rfl, hexposes, hnull, hv⟩

theorem collects_ownRequest (h : p.Suits s) (hs : s.Stored) (hm : Model.find? s.models entity = some m)
    (hrow : s.Fills entity row) : Collects (p.ownRequest (.text entity) row) (p.Asks s) := by
  unfold ownRequest
  cases hk : p.mappings.get? (.text entity) with
  | none => exact ⟨[], rfl, fun _ hq => absurd hq List.not_mem_nil⟩
  | some k =>
    obtain ⟨key, exposed, hexposes⟩ := h.mapped entity m k hm hk
    cases hk.symm.trans hexposes.mapping
    simp only [Value.requireKey_text, bind, Except.bind]
    split
    · exact ⟨[], rfl, fun _ hq => absurd hq List.not_mem_nil⟩
    · exact collects_request hs hexposes (hrow.get hexposes.key)

theorem collects_objectRequests (h : p.Suits s) (hs : s.Stored) (hm : Model.find? s.models entity = some m)
    (hrow : s.Fills entity row) : Collects (p.objectRequests (.text entity) row) (p.Asks s) := by
  refine (collects_objectRequests_iff (h.foreignKeys hm)).mpr ⟨collects_ownRequest h hs hm hrow, fun e he => ?_⟩
  obtain ⟨column, name, key, exposed, rfl, hplain, hexposes⟩ := h.mem_exposedKeys hm he
  exact collects_request hs hexposes (hrow.get hplain)

mutual
theorem below_of_fits (h : p.Suits s) (hs : s.Stored) : (b : Branch) → {row : Row} → b.Fits s row →
    b.Below (fun entity _ o => Collects (p.objectRequests entity o) (p.Asks s)) (row.get b.label)
  | ⟨label, target, many, through, nested⟩, row, hb => by
    rw [Branch.Fits] at hb
    obtain ⟨name, m, rfl, hm, hobjects⟩ := hb
    rw [Branch.Below]
    intro o ho
    obtain ⟨hfills, hfit⟩ := hobjects o ho
    exact ⟨collects_objectRequests h hs hm hfills, allBelow_of_allFit h hs nested hfit⟩

theorem allBelow_of_allFit (h : p.Suits s) (hs : s.Stored) : (bs : List Branch) → {entity : String} → {row : Row} →
    Branch.AllFit s entity row bs →
      Branch.AllBelow (fun entity _ o => Collects (p.objectRequests entity o) (p.Asks s)) bs row
  | [], _, _, _ => by rw [Branch.AllBelow]; trivial
  | b :: bs, entity, row, hbs => by
    rw [Branch.AllFit] at hbs
    obtain ⟨-, -, hb, hbs⟩ := hbs
    rw [Branch.AllBelow]
    exact ⟨below_of_fits h hs b hb, allBelow_of_allFit h hs bs hbs⟩
end

theorem collects_rowRequests (h : p.Suits s) (hs : s.Stored) (hm : Model.find? s.models p.entity = some m)
    (hrow : s.Fills p.entity row) (hfit : Branch.AllFit s p.entity row p.includes.branches) :
    Collects (p.rowRequests (.object row)) (p.Asks s) :=
  collects_rowRequests_iff.mpr ⟨collects_objectRequests h hs hm hrow, allBelow_of_allFit h hs _ hfit⟩

end Projector

end Sift
