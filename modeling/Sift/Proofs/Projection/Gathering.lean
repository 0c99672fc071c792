import Mathlib.Data.List.Sort
import Mathlib.Data.List.TakeWhile
import Sift.Proofs.Projection.Batching
import Sift.Proofs.Projection.Flights
import Sift.Proofs.Projection.Places

/-!
# Which keys are looked up

Every key that an object of some rows holds is looked up, once, with the keys of its entity, and nothing else is. As the
keys of a call are in the order of their texts, the order of the rows makes no difference to it.
-/

namespace Sift

open Branch (At Every)

/-- Two calls ask the same of a store: equal keys of one entity, in one order. -/
structure Lookup.Agrees (l l' : Lookup) : Prop where
  entity : l'.entity = l.entity
  key : l'.key = l.key
  exposed : l'.exposed = l.exposed
  keys : ∃ keys keys', l.keys = .list keys ∧ l'.keys = .list keys' ∧
    List.Forall₂ (fun v w => (v == w) = true) keys keys'

namespace Projector

/-! ## Keys that rows hold -/

/-- A key that an object of an entity holds: its own, as long as its identifier was not loaded, or a foreign key that
refers to a mapped entity. -/
inductive Wants (p : Projector) (entity : Value) (o : Row) : Value → Value → Prop
  | own {m : KeyMapping} (hm : p.mappings.get? entity = some m) (hloaded : Table.contains m.exposed o = false)
      (hnull : o.field m.key ≠ .null) : Wants p entity o entity (o.field m.key)
  | foreign {keys : Table Value Relation} {column : Value} {r : Relation} {m : KeyMapping}
      (hkeys : p.catalog.foreignKeys entity = .ok keys) (hr : (column, r) ∈ keys)
      (hm : p.mappings.get? r.target = some m) (hnull : o.field column ≠ .null) :
      Wants p entity o r.target (o.field column)

/-- A key of an entity that some object holds, at whatever place of some row. -/
def Sought (p : Projector) (rows : List Row) (entity v : Value) : Prop :=
  ∃ row ∈ rows, ∃ place e bs o, At Every (.text p.entity) p.includes.branches row place e bs o ∧ p.Wants e o entity v

/-- The foreign keys of every object in some rows are known. -/
def Charted (p : Projector) (rows : List Row) : Prop :=
  ∀ row ∈ rows, ∀ place e bs o, At Every (.text p.entity) p.includes.branches row place e bs o →
    ∃ keys, p.foreignKeys e = .ok keys

/-- What rows hold as keys can be keys, and keys of one entity are equal just if they are written alike. -/
structure Legible (p : Projector) (rows : List Row) : Prop where
  isKey : ∀ entity v, p.Sought rows entity v → v.isKey = true
  literal : ∀ entity v w, p.Sought rows entity v → p.Sought rows entity w → ((v == w) = true ↔ v.literal = w.literal)

/-- A call looks up exactly the keys of a mapped entity that rows hold, each once, in the order of their texts. -/
structure Exact (p : Projector) (rows : List Row) (l : Lookup) : Prop where
  mapping : ∃ m, p.mappings.get? l.entity = some m ∧ l.key = m.key ∧ l.exposed = m.exposed
  keys : ∃ keys, l.keys = .list keys ∧ keys.Pairwise (fun v w => v.literal < w.literal ∧ ¬ (v == w) = true) ∧
    (∀ v ∈ keys, v ≠ .null ∧ p.Sought rows l.entity v) ∧ ∀ v, p.Sought rows l.entity v → keys.contains v = true

variable {p : Projector} {store : LookupStore} {rows rows' : List Row} {entity e v : Value} {o : Row}
  {Q : Request → Prop} {l l' : Lookup}

theorem Wants.ne_null (h : p.Wants e o entity v) : v ≠ .null := by
  cases h <;> assumption

theorem Wants.mapping (h : p.Wants e o entity v) : ∃ m, p.mappings.get? entity = some m := by
  cases h with
  | own hm => exact ⟨_, hm⟩
  | foreign _ _ hm => exact ⟨_, hm⟩

theorem Sought.ne_null (h : p.Sought rows entity v) : v ≠ .null := by
  obtain ⟨_, _, _, _, _, _, _, hwants⟩ := h
  exact hwants.ne_null

theorem Sought.mapping (h : p.Sought rows entity v) : ∃ m, p.mappings.get? entity = some m := by
  obtain ⟨_, _, _, _, _, _, _, hwants⟩ := h
  exact hwants.mapping

theorem sought_congr (h : rows'.Perm rows) : p.Sought rows' entity v ↔ p.Sought rows entity v := by
  simp only [Sought, h.mem_iff]

theorem Charted.of_perm (h : p.Charted rows) (hperm : rows'.Perm rows) : p.Charted rows' :=
  fun row hrow => h row (hperm.mem_iff.mp hrow)

theorem Legible.of_perm (h : p.Legible rows) (hperm : rows'.Perm rows) : p.Legible rows' where
  isKey entity v hv := h.isKey entity v ((sought_congr hperm).mp hv)
  literal entity v w hv hw := h.literal entity v w ((sought_congr hperm).mp hv) ((sought_congr hperm).mp hw)

/-! ## What is asked for -/

/-- An object asks for the keys that it holds. -/
theorem collects_objectRequests_iff_wants (hnamed : p.WellNamed) (hkeys : ∃ keys, p.foreignKeys e = .ok keys) :
    Collects (p.objectRequests e o) Q ↔ ∀ entity v, p.Wants e o entity v → v.isKey = true ∧ Q (entity, v) := by
  obtain ⟨keys, hkeys⟩ := hkeys
  rw [collects_objectRequests_iff (foreignKeys_eq hkeys), collects_ownRequest_iff hnamed]
  constructor
  · rintro ⟨hown, hforeign⟩ entity v hwants
    cases hwants with
    | own hm hloaded hnull => exact (hown _ hm hloaded).resolve_left hnull
    | @foreign keys column r m hcatalog hr hm hnull =>
      have hrequest := hforeign (column, m) (mem_mappedKeys_iff.mpr ⟨keys, r, hcatalog, hr, hm⟩)
      obtain ⟨name, key, exposed, htarget, rfl⟩ := hnamed.mapping hm
      rw [htarget]
      exact (collects_request_iff.mp hrequest).resolve_left hnull
  · intro h
    constructor
    · intro m hm hloaded
      exact or_iff_not_imp_left.mpr fun hnull => h _ _ (.own hm hloaded hnull)
    · rintro ⟨column, m⟩ hmem
      obtain ⟨keys, r, hcatalog, hr, hm⟩ := mem_mappedKeys_iff.mp hmem
      obtain ⟨name, key, exposed, htarget, rfl⟩ := hnamed.mapping hm
      rw [collects_request_iff, or_iff_not_imp_left]
      intro hnull
      exact htarget ▸ h _ _ (.foreign hcatalog hr hm hnull)

/-- Rows ask for the keys that the objects in them hold. -/
theorem forall_collects_iff_sought (hnamed : p.WellNamed) (hcharted : p.Charted rows) :
    (∀ row ∈ rows, Collects (p.rowRequests (.object row)) Q) ↔
      ∀ entity v, p.Sought rows entity v → v.isKey = true ∧ Q (entity, v) := by
  simp only [collects_rowRequests_iff, Branch.throughout_iff]
  constructor
  · rintro h entity v ⟨row, hrow, place, e, bs, o, hat, hwants⟩
    have hobject := h row hrow place e bs o hat
    exact (collects_objectRequests_iff_wants hnamed (hcharted row hrow place e bs o hat)).mp hobject entity v hwants
  · intro h row hrow place e bs o hat
    refine (collects_objectRequests_iff_wants hnamed (hcharted row hrow place e bs o hat)).mpr fun entity v hwants => ?_
    exact h entity v ⟨row, hrow, place, e, bs, o, hat, hwants⟩

theorem exists_requests (hnamed : p.WellNamed) (hcharted : p.Charted rows) (hlegible : p.Legible rows) :
    ∃ requests, (rows.map Value.object).mapM p.rowRequests = .ok requests ∧
      ∀ entity v, (entity, v) ∈ requests.flatten ↔ p.Sought rows entity v := by
  have hsound : ∀ row ∈ rows, Collects (p.rowRequests (.object row)) fun q => p.Sought rows q.1 q.2 :=
    (forall_collects_iff_sought hnamed hcharted).mpr fun entity v hv => ⟨hlegible.isKey entity v hv, hv⟩
  obtain ⟨requests, hrequests, hall⟩ := exists_mapM_eq_ok (List.forall_mem_map.mpr hsound)
  refine ⟨requests, hrequests, fun entity v => ⟨fun hmem => ?_, fun hv => ?_⟩⟩
  · obtain ⟨qs, hqs, hq⟩ := List.mem_flatten.mp hmem
    exact hall qs hqs _ hq
  · have hcomplete : ∀ row ∈ rows, Collects (p.rowRequests (.object row)) (· ∈ requests.flatten) := by
      intro row hrow
      obtain ⟨qs, hqs, hmap⟩ := exists_mem_of_mapM_eq_ok hrequests _ (List.mem_map_of_mem hrow)
      exact ⟨qs, hmap, fun q hq => List.mem_flatten.mpr ⟨qs, hqs, hq⟩⟩
    exact ((forall_collects_iff_sought hnamed hcharted).mp hcomplete entity v hv).2

/-! ## What is gathered -/

theorem distinct_foldl_addRequest {wanted : Table Value (List Value)} (h : wanted.Distinct) (qs : List Request) :
    (qs.foldl addRequest wanted).Distinct := by
  induction qs generalizing wanted with
  | nil => exact h
  | cons q qs ih => exact ih (h.insert _ _)

/-- Keys of an entity that rows hold, no two of which are written alike. -/
structure Gathered (p : Projector) (rows : List Row) (name : String) (keys : List Value) : Prop where
  ne_nil : keys ≠ []
  once : keys.Pairwise fun v w => v.literal ≠ w.literal
  sought : ∀ v ∈ keys, p.Sought rows (.text name) v

theorem Gathered.append {name : String} {keys : List Value} (h : p.Gathered rows name keys) (hlegible : p.Legible rows)
    (hv : p.Sought rows (.text name) v) (hnew : keys.contains v = false) : p.Gathered rows name (keys ++ [v]) := by
  constructor
  · simp
  · refine List.pairwise_append.mpr ⟨h.once, List.pairwise_singleton _ _, fun w hw v' hv' heq => ?_⟩
    obtain rfl := List.mem_singleton.mp hv'
    have hbeq := (hlegible.literal _ _ _ hv (h.sought w hw)).mpr heq.symm
    rw [List.contains_eq_any_beq] at hnew
    exact List.any_eq_false.mp hnew w hw hbeq
  · intro w hw
    rcases List.mem_append.mp hw with hw | hw
    · exact h.sought w hw
    · rwa [List.mem_singleton.mp hw]

/-- What is gathered from rows: for each entity keys that they hold, and all of those. -/
theorem gathered_requests (hnamed : p.WellNamed) (hlegible : p.Legible rows) {qs : List Request}
    (hqs : ∀ entity v, (entity, v) ∈ qs ↔ p.Sought rows entity v) :
    (qs.foldl addRequest []).keys.Nodup ∧
      (∀ e ∈ qs.foldl addRequest [], ∃ name, e.1 = .text name ∧ p.Gathered rows name e.2) ∧
      ∀ entity v, p.Sought rows entity v →
        ∃ keys, (entity, keys) ∈ qs.foldl addRequest [] ∧ keys.contains v = true := by
  have hname : ∀ entity v, p.Sought rows entity v → ∃ name, entity = .text name := by
    intro entity v hv
    obtain ⟨m, hm⟩ := hv.mapping
    obtain ⟨name, -, -, hname, -⟩ := hnamed.mapping hm
    exact ⟨name, hname⟩
  have hgathered : ∀ e ∈ qs.foldl addRequest [], ∃ name, e.1 = .text name ∧ p.Gathered rows name e.2 := by
    refine forall_gathered (fun _ he => absurd he List.not_mem_nil) fun q hq => ?_
    have hv := (hqs q.1 q.2).mp hq
    obtain ⟨name, hentity⟩ := hname _ _ hv
    rw [hentity] at hv
    refine ⟨name, hentity, ⟨by simp, List.pairwise_singleton _ _, by simpa using hv⟩, fun keys hkeys hnew => ?_⟩
    exact hkeys.append hlegible hv hnew
  refine ⟨?_, hgathered, fun entity v hv => ?_⟩
  · have hdistinct : Table.Distinct (qs.foldl addRequest []) := distinct_foldl_addRequest List.Pairwise.nil qs
    refine List.pairwise_map.mpr (hdistinct.imp_of_mem fun {e f} he _ hef heq => ?_)
    obtain ⟨name, hentity, -⟩ := hgathered e he
    exact hef (by rw [← heq, hentity]; exact Value.text_beq_iff.mpr rfl)
  · obtain ⟨name, rfl⟩ := hname entity v hv
    have hself : (v == v) = true := (hlegible.literal _ _ _ hv hv).mpr rfl
    have hholds : Holds (qs.foldl addRequest []) name v := holds_foldl (.inr ((hqs _ _).mpr hv)) hself
    obtain ⟨keys, hkeys, hcontains⟩ := hholds
    exact ⟨keys, Table.mem_of_get?_text hkeys, hcontains⟩

/-! ## Calls -/

theorem pairwise_sorted_literals (keys : List Value) :
    (sortBy (fun v w => decide (v.literal ≤ w.literal)) keys).Pairwise fun v w => v.literal ≤ w.literal := by
  have hsorted : (sortBy (fun v w => decide (v.literal ≤ w.literal)) keys).Pairwise fun v w =>
      decide (v.literal ≤ w.literal) = true := by
    refine pairwise_sortBy (fun v w h => ?_) (fun u v w huv hvw => ?_) keys
    · simpa using Std.le_of_not_ge (by simpa using h)
    · simp only [decide_eq_true_eq] at huv hvw ⊢
      exact Std.le_trans huv hvw
  simpa using hsorted

theorem Gathered.exact_call (hlegible : p.Legible rows) {name : String} {keys : List Value}
    (h : p.Gathered rows name keys) (hcomplete : ∀ v, p.Sought rows (.text name) v → keys.contains v = true)
    (hl : p.call (.text name, keys) = some l) : p.Exact rows l := by
  obtain ⟨m, hm, rfl⟩ := Option.map_eq_some_iff.mp hl
  refine ⟨⟨m, hm, rfl, rfl⟩, _, rfl, ?_, fun v hv => ?_, fun v hv => ?_⟩
  · have honce := ((sortBy_perm (fun v w => decide (v.literal ≤ w.literal)) keys).pairwise_iff Ne.symm).mpr h.once
    refine ((pairwise_sorted_literals keys).and honce).imp_of_mem fun hv hw hvw => ?_
    have hliteral := hlegible.literal _ _ _ (h.sought _ (mem_sortBy.mp hv)) (h.sought _ (mem_sortBy.mp hw))
    exact ⟨Std.lt_of_le_of_ne hvw.1 hvw.2, mt hliteral.mp hvw.2⟩
  · have hsought := h.sought v (mem_sortBy.mp hv)
    exact ⟨hsought.ne_null, hsought⟩
  · rw [contains_sortBy]
    exact hcomplete v hv

theorem entity_of_call {e : Value × List Value} (h : p.call e = some l) : l.entity = e.1 := by
  obtain ⟨m, -, rfl⟩ := Option.map_eq_some_iff.mp h
  rfl

theorem exists_calls (hnamed : p.WellNamed) (hcharted : p.Charted rows) (hlegible : p.Legible rows) :
    ∃ calls, p.lookups (rows.map .object) = .ok calls ∧ (calls.map Lookup.entity).Nodup ∧
      (∀ entity, entity ∈ calls.map Lookup.entity ↔ ∃ v, p.Sought rows entity v) ∧ ∀ l ∈ calls, p.Exact rows l := by
  obtain ⟨requests, hrequests, hqs⟩ := exists_requests hnamed hcharted hlegible
  obtain ⟨hnodup, hgathered, hcomplete⟩ := gathered_requests hnamed hlegible hqs
  have hlookups : p.lookups (rows.map .object) = .ok ((requests.flatten.foldl addRequest []).filterMap p.call) := by
    simp only [lookups, hrequests, bind, Except.bind]
    rfl
  refine ⟨_, hlookups, ?_, fun entity => ⟨fun hmem => ?_, ?_⟩, ?_⟩
  · refine List.pairwise_map.mpr (List.Pairwise.filterMap _ ?_ (List.pairwise_map.mp hnodup))
    intro e f hne l hl l' hl'
    rwa [entity_of_call hl, entity_of_call hl']
  · obtain ⟨l, hl, rfl⟩ := List.mem_map.mp hmem
    obtain ⟨e, he, hcall⟩ := List.mem_filterMap.mp hl
    obtain ⟨name, hname, h⟩ := hgathered e he
    obtain ⟨v, hv⟩ := List.exists_mem_of_ne_nil _ h.ne_nil
    rw [entity_of_call hcall, hname]
    exact ⟨v, h.sought v hv⟩
  · rintro ⟨v, hv⟩
    obtain ⟨m, hm⟩ := hv.mapping
    obtain ⟨keys, hkeys, -⟩ := hcomplete entity v hv
    obtain ⟨l, hcall⟩ : ∃ l, p.call (entity, keys) = some l := ⟨_, by rw [call, hm, Option.map_some]⟩
    exact List.mem_map.mpr ⟨l, List.mem_filterMap.mpr ⟨_, hkeys, hcall⟩, entity_of_call hcall⟩
  · intro l hl
    obtain ⟨⟨e, keys⟩, he, hcall⟩ := List.mem_filterMap.mp hl
    obtain ⟨name, rfl, h⟩ := hgathered _ he
    refine h.exact_call hlegible (fun v hv => ?_) hcall
    obtain ⟨keys', hkeys', hcontains⟩ := hcomplete _ v hv
    cases List.inj_on_of_nodup_map hnodup he hkeys' rfl
    exact hcontains

/-! ## The order of the rows -/

theorem literals_subset (hlegible : p.Legible rows) {keys keys' : List Value}
    (hkeys : ∀ v ∈ keys, p.Sought rows entity v) (hkeys' : ∀ v ∈ keys', p.Sought rows entity v)
    (hall : ∀ v, p.Sought rows entity v → keys'.contains v = true) :
    keys.map Value.literal ⊆ keys'.map Value.literal := by
  intro s hs
  obtain ⟨v, hv, rfl⟩ := List.mem_map.mp hs
  have hcontains := hall v (hkeys v hv)
  rw [List.contains_eq_any_beq, List.any_eq_true] at hcontains
  obtain ⟨w, hw, hbeq⟩ := hcontains
  exact List.mem_map.mpr ⟨w, hw, ((hlegible.literal _ _ _ (hkeys v hv) (hkeys' w hw)).mp hbeq).symm⟩

/-- Calls for the same keys of an entity agree: what is written alike stands in the same order. -/
theorem Exact.agrees (hlegible : p.Legible rows) (h : p.Exact rows l) (h' : p.Exact rows l')
    (hentity : l'.entity = l.entity) : l.Agrees l' := by
  obtain ⟨⟨m, hm, hkey, hexposed⟩, keys, hlist, hsorted, hkeys, hall⟩ := h
  obtain ⟨⟨m', hm', hkey', hexposed'⟩, keys', hlist', hsorted', hkeys', hall'⟩ := h'
  rw [hentity] at hm' hkeys' hall'
  cases hm.symm.trans hm'
  refine ⟨hentity, by rw [hkey, hkey'], by rw [hexposed, hexposed'], keys, keys', hlist, hlist', ?_⟩
  have hsought := fun v hv => (hkeys v hv).2
  have hsought' := fun v hv => (hkeys' v hv).2
  have hliterals : keys.map Value.literal = keys'.map Value.literal := by
    refine List.Pairwise.eq_of_mem_iff (List.pairwise_map.mpr (hsorted.imp And.left))
      (List.pairwise_map.mpr (hsorted'.imp And.left)) fun s => ⟨?_, ?_⟩
    · exact fun hs => literals_subset hlegible hsought hsought' hall' hs
    · exact fun hs => literals_subset hlegible hsought' hsought hall hs
  rw [← List.forall₂_eq_eq_eq, List.forall₂_map_left_iff, List.forall₂_map_right_iff, List.forall₂_iff_zip]
    at hliterals
  refine List.forall₂_iff_zip.mpr ⟨hliterals.1, fun {v w} hvw => ?_⟩
  obtain ⟨hv, hw⟩ := List.of_mem_zip hvw
  exact (hlegible.literal _ _ _ (hsought v hv) (hsought' w hw)).mpr (hliterals.2 hvw)

theorem Exact.of_perm (h : p.Exact rows' l) (hperm : rows'.Perm rows) : p.Exact rows l := by
  obtain ⟨hmapping, keys, hlist, hsorted, hkeys, hall⟩ := h
  simp only [sought_congr hperm] at hkeys hall
  exact ⟨hmapping, keys, hlist, hsorted, hkeys, hall⟩

theorem attempted_eq_self {ls : List Lookup} (hstore : ∀ l ∈ ls, ∃ found, store l = .ok found) (atOnce : Bool) :
    attempted store atOnce ls = ls := by
  have hgood : ls.takeWhile (fun l => (look store l).toOption.isSome) = ls := by
    refine List.takeWhile_eq_self_iff.mpr fun l hl => ?_
    obtain ⟨found, hfound⟩ := hstore l hl
    rw [look, hfound]
    rfl
  rw [attempted, hgood]
  simp

/-- The calls of a store that does not fail: one for every entity of which rows hold a key, and no other, each with the
mapping of its entity and with exactly those keys. The order of the rows makes no difference to them. -/
theorem lookups_exact (hnamed : p.WellNamed) (hcharted : p.Charted rows) (hlegible : p.Legible rows)
    (hstore : ∀ entity key exposed keys, ∃ found, store ⟨entity, key, exposed, .list keys⟩ = .ok found) :
    ∃ calls, p.lookups (rows.map .object) = .ok calls ∧
      p.project store (rows.map .object) =
        (lookAll store calls >>= fun found => (rows.map .object).mapM (p.expose found)) ∧
      (∀ atOnce, attempted store atOnce calls = calls) ∧
      (calls.map Lookup.entity).Nodup ∧ (∀ entity, entity ∈ calls.map Lookup.entity ↔ ∃ v, p.Sought rows entity v) ∧
      (∀ l ∈ calls, p.Exact rows l) ∧
      ∀ rows' : List Row, rows'.Perm rows → ∃ calls', p.lookups (rows'.map .object) = .ok calls' ∧
        calls'.length = calls.length ∧ ∀ l ∈ calls, ∃ l' ∈ calls', l.Agrees l' := by
  obtain ⟨calls, hcalls, hnodup, hentities, hexact⟩ := exists_calls hnamed hcharted hlegible
  refine ⟨calls, hcalls, project_of_lookups hcalls, attempted_eq_self fun l hl => ?_, hnodup, hentities, hexact,
    fun rows' hperm => ?_⟩
  · obtain ⟨-, keys, hkeys, -⟩ := hexact l hl
    obtain ⟨entity, key, exposed, _⟩ := l
    obtain rfl := hkeys
    exact hstore entity key exposed keys
  obtain ⟨calls', hcalls', hnodup', hentities', hexact'⟩ :=
    exists_calls hnamed (hcharted.of_perm hperm) (hlegible.of_perm hperm)
  have hsame : ∀ entity, entity ∈ calls'.map Lookup.entity ↔ entity ∈ calls.map Lookup.entity := by
    intro entity
    rw [hentities', hentities]
    exact exists_congr fun v => sought_congr hperm
  refine ⟨calls', hcalls', ?_, fun l hl => ?_⟩
  · simpa using ((List.perm_ext_iff_of_nodup hnodup' hnodup).mpr hsame).length_eq
  · obtain ⟨l', hl', hentity⟩ := List.mem_map.mp ((hsame l.entity).mpr (List.mem_map_of_mem hl))
    exact ⟨l', hl', (hexact l hl).agrees hlegible ((hexact' l' hl').of_perm hperm) hentity⟩

theorem lookups_exact_staff :
    Shop.directory.WellNamed ∧ Shop.directory.Charted Shop.staff ∧ Shop.directory.Legible Shop.staff ∧
      ∃ calls, Shop.directory.lookups (Shop.staff.map .object) = .ok calls ∧
        Shop.directory.project (.ofTables Shop.identifiers) (Shop.staff.map .object) =
          (lookAll (.ofTables Shop.identifiers) calls >>= fun found =>
            (Shop.staff.map .object).mapM (Shop.directory.expose found)) ∧
        (∀ atOnce, attempted (.ofTables Shop.identifiers) atOnce calls = calls) ∧ (calls.map Lookup.entity).Nodup ∧
          (∀ entity, entity ∈ calls.map Lookup.entity ↔ ∃ v, Shop.directory.Sought Shop.staff entity v) ∧
            ∀ l ∈ calls, Shop.directory.Exact Shop.staff l := by
  have hcharted : Shop.directory.Charted Shop.staff := fun row hrow place e bs o hat =>
    ((Shop.ready_staff row hrow).at hat).columns.known
  have hcollects : ∀ row ∈ Shop.staff,
      Collects (Shop.directory.rowRequests (.object row)) fun q => q.2 = .int 7 := by
    refine List.forall_mem_cons.mpr ⟨?_, List.forall_mem_singleton.mpr ?_⟩
    all_goals exact ⟨[(.text "User", .int 7), (.text "User", .int 7)], rfl, by simp⟩
  have hsought : ∀ entity v, Shop.directory.Sought Shop.staff entity v → v.isKey = true ∧ v = .int 7 :=
    (forall_collects_iff_sought Shop.wellNamed_directory hcharted).mp hcollects
  have hlegible : Shop.directory.Legible Shop.staff := by
    refine ⟨fun entity v hv => (hsought entity v hv).1, fun entity v w hv hw => ?_⟩
    rw [(hsought entity v hv).2, (hsought entity w hw).2]
    exact iff_of_true (by decide +kernel) rfl
  have hstore : ∀ entity key exposed keys, ∃ found,
      LookupStore.ofTables Shop.identifiers ⟨entity, key, exposed, .list keys⟩ = .ok found :=
    fun _ _ _ _ => ⟨_, rfl⟩
  obtain ⟨calls, hcalls, hproject, hattempted, hnodup, hentities, hexact, -⟩ :=
    lookups_exact Shop.wellNamed_directory hcharted hlegible hstore
  exact ⟨Shop.wellNamed_directory, hcharted, hlegible, calls, hcalls, hproject, hattempted, hnodup,
    hentities, hexact⟩

end Projector

end Sift
