import Sift.Proofs.Projection.Requests

/-!
# What lookups find

The keys that some rows ask for are gathered by their entities, and a lookup that agrees with a store finds for each of
them what some record with that key shows.
-/

namespace Sift

namespace Projector

/-- For keys that records of a store show the lookup finds identifiers of the store, and one for each key that some
record of the entity has. -/
def Answered (p : Projector) (s : Store) (store : LookupStore) : Prop :=
  ∀ name key exposed : String, p.Exposes s name key exposed →
    ∀ keys : List Value, (∀ v ∈ keys, v ≠ .null ∧ s.Shows v) →
      ∃ found : Row, store ⟨.text name, .text key, .text exposed, .list keys⟩ = .ok found ∧
        (∀ e ∈ found, ∃ r ∈ s.records name, (r.content exposed).shown = e.2) ∧
        ∀ v, s.Shows v → keys.contains v = true → (∃ r ∈ s.records name, ((r.content key).shown == v) = true) →
          ∃ r ∈ s.records name, ((r.content key).shown == v) = true ∧ found.get? v = some (r.content exposed).shown

variable {p : Projector} {s : Store} {store : LookupStore} {name : String} {v : Value}

/-! ## Gathering -/

/-- Keys that records show, of an exposed entity. -/
def Gathers (p : Projector) (s : Store) (e : Value × List Value) : Prop :=
  ∃ name key exposed : String, e.1 = .text name ∧ p.Exposes s name key exposed ∧ ∀ v ∈ e.2, v ≠ .null ∧ s.Shows v

/-- Is the key among those of the entity? -/
def Holds (wanted : Table Value (List Value)) (name : String) (v : Value) : Prop :=
  ∃ keys, wanted.get? (.text name) = some keys ∧ keys.contains v = true

variable {wanted : Table Value (List Value)}

/-- What holds of a key alone, and of keys with a new one put at the end, holds of all keys of an entity. -/
theorem forall_addRequest {K : String → List Value → Prop}
    (h : ∀ e ∈ wanted, ∃ name, e.1 = .text name ∧ K name e.2) {q : Request}
    (hq : ∃ name, q.1 = .text name ∧ K name [q.2] ∧
      ∀ keys, K name keys → keys.contains q.2 = false → K name (keys ++ [q.2])) :
    ∀ e ∈ addRequest wanted q, ∃ name, e.1 = .text name ∧ K name e.2 := by
  obtain ⟨name, hname, hnew, hmore⟩ := hq
  refine Table.forall_mem_insert (P := fun (e : Value) keys => ∃ name, e = .text name ∧ K name keys) ?_
    ⟨name, hname, ?_⟩ h
  · rintro e e' keys heq ⟨name, rfl, hrest⟩
    exact ⟨name, Value.text_beq_iff.mp heq, hrest⟩
  · cases hget : wanted.get? q.1 with
    | none => exact hnew
    | some keys =>
      rw [hname] at hget
      obtain ⟨name', heq, hkeys⟩ := h _ (Table.mem_of_get?_text hget)
      cases heq
      rw [Option.getD_some]
      split
      · exact hkeys
      · rename_i hcontains
        exact hmore keys hkeys (Bool.eq_false_iff.mpr hcontains)

theorem forall_gathered {K : String → List Value → Prop} {qs : List Request}
    (h : ∀ e ∈ wanted, ∃ name, e.1 = .text name ∧ K name e.2)
    (hqs : ∀ q ∈ qs, ∃ name, q.1 = .text name ∧ K name [q.2] ∧
      ∀ keys, K name keys → keys.contains q.2 = false → K name (keys ++ [q.2])) :
    ∀ e ∈ qs.foldl addRequest wanted, ∃ name, e.1 = .text name ∧ K name e.2 := by
  induction qs generalizing wanted with
  | nil => exact h
  | cons q qs ih =>
    obtain ⟨hq, hqs⟩ := List.forall_mem_cons.mp hqs
    exact ih (forall_addRequest h hq) hqs

/-- What holds of all requests holds of what is gathered from them. -/
theorem forall_foldl_addRequest {G : String → Prop} {K : Value → Prop} {qs : List Request}
    (hqs : ∀ q ∈ qs, ∃ name, q.1 = .text name ∧ G name ∧ K q.2) :
    ∀ e ∈ qs.foldl addRequest [], ∃ name, e.1 = .text name ∧ G name ∧ ∀ v ∈ e.2, K v := by
  refine forall_gathered (K := fun name keys => G name ∧ ∀ v ∈ keys, K v) (fun _ he => absurd he List.not_mem_nil) ?_
  intro q hq
  obtain ⟨name, hname, hG, hK⟩ := hqs q hq
  exact ⟨name, hname, ⟨hG, by simpa using hK⟩, fun keys hkeys _ => ⟨hG, by
    simpa [or_imp, forall_and] using And.intro hkeys.2 hK⟩⟩

theorem gathers_foldl {qs : List Request} (hqs : ∀ q ∈ qs, p.Asks s q) :
    ∀ e ∈ qs.foldl addRequest [], p.Gathers s e := by
  intro e he
  obtain ⟨name, hname, ⟨key, exposed, hexposes⟩, hkeys⟩ := forall_foldl_addRequest
    (G := fun name => ∃ key exposed, p.Exposes s name key exposed) (K := fun v => v ≠ .null ∧ s.Shows v)
    (fun q hq => by
      obtain ⟨name, key, exposed, hname, hexposes, hkey⟩ := hqs q hq
      exact ⟨name, hname, ⟨key, exposed, hexposes⟩, hkey⟩) e he
  exact ⟨name, key, exposed, hname, hexposes, hkeys⟩

theorem holds_addRequest (hv : (v == v) = true) : Holds (addRequest wanted (.text name, v)) name v := by
  refine ⟨_, by rw [addRequest, Table.get?_text_insert, if_pos (Value.text_beq_iff.mpr rfl)], ?_⟩
  split
  · assumption
  · rw [List.contains_eq_any_beq, List.any_append, Bool.or_eq_true]
    exact .inr (List.any_eq_true.mpr ⟨v, List.mem_singleton_self v, hv⟩)

theorem Holds.addRequest (h : Holds wanted name v) (q : Request) : Holds (addRequest wanted q) name v := by
  obtain ⟨keys, hkeys, hv⟩ := h
  rw [Projector.addRequest, Holds, Table.get?_text_insert]
  split
  · rename_i hq
    rw [Value.beq_text_iff.mp hq, hkeys, Option.getD_some]
    refine ⟨_, rfl, ?_⟩
    split
    · exact hv
    · rw [List.contains_eq_any_beq] at hv ⊢
      rw [List.any_append, hv, Bool.true_or]
  · exact ⟨keys, hkeys, hv⟩

theorem holds_foldl {qs : List Request} (h : Holds wanted name v ∨ (.text name, v) ∈ qs) (hv : (v == v) = true) :
    Holds (qs.foldl Projector.addRequest wanted) name v := by
  induction qs generalizing wanted with
  | nil => exact h.resolve_right List.not_mem_nil
  | cons q qs ih =>
    refine ih ?_
    rcases h with h | h
    · exact .inl (h.addRequest q)
    · rcases List.mem_cons.mp h with rfl | h
      · exact .inl (holds_addRequest hv)
      · exact .inr h

/-! ## Calling -/

/-- The call that looks up the keys of an entity, if that is mapped. -/
def call (p : Projector) (e : Value × List Value) : Option Lookup :=
  (p.mappings.get? e.1).map fun k =>
    ⟨e.1, k.key, k.exposed, .list (sortBy (fun v w => decide (v.literal ≤ w.literal)) e.2)⟩

/-- All that was found are identifiers that records show. -/
def Finds (s : Store) (found : Table Value Row) : Prop := ∀ table ∈ found, ∀ e ∈ table.2, s.Shows e.2

theorem contains_sortBy {α : Type} [BEq α] (first : α → α → Bool) (a : α) (l : List α) :
    (sortBy first l).contains a = l.contains a := by
  rw [List.contains_eq_any_beq, List.contains_eq_any_beq]
  exact (sortBy_perm first l).any_eq

/-- Where every call is answered, the answers stand under the entities of the calls. -/
theorem exists_lookAll_of (A : String → List Value → Row → Prop) (h : ∀ e ∈ wanted, ∃ name m found,
      e.1 = .text name ∧ p.mappings.get? (.text name) = some m ∧
        store ⟨.text name, m.key, m.exposed, .list (sortBy (fun v w => decide (v.literal ≤ w.literal)) e.2)⟩ = .ok found ∧
          A name e.2 found) :
    ∃ found, lookAll store (wanted.filterMap p.call) = .ok found ∧ (∀ table ∈ found, ∃ name keys, A name keys table.2) ∧
      ∀ name keys, wanted.get? (.text name) = some keys → ∃ row, found.get? (.text name) = some row ∧ A name keys row := by
  induction wanted with
  | nil => exact ⟨[], rfl, fun _ htable => absurd htable List.not_mem_nil, fun _ _ hkeys => nomatch hkeys⟩
  | cons e wanted ih =>
    obtain ⟨e, keys⟩ := e
    obtain ⟨⟨name, m, row, he, hm, hrow, hA⟩, hwanted⟩ := List.forall_mem_cons.mp h
    obtain ⟨found, hfound, hall, hget⟩ := ih hwanted
    obtain rfl : e = .text name := he
    refine ⟨(.text name, row) :: found, ?_, List.forall_mem_cons.mpr ⟨⟨name, keys, hA⟩, hall⟩, ?_⟩
    · have hcall : p.call (.text name, keys) =
          some ⟨.text name, m.key, m.exposed, .list (sortBy (fun v w => decide (v.literal ≤ w.literal)) keys)⟩ := by
        rw [call, hm]
        rfl
      have hlook : look store ⟨.text name, m.key, m.exposed,
          .list (sortBy (fun v w => decide (v.literal ≤ w.literal)) keys)⟩ = .ok row := by
        rw [look, hrow]
      rw [lookAll] at hfound
      rw [List.filterMap_cons_some hcall, lookAll, List.mapM_cons, hlook, hfound]
      rfl
    · intro name' keys' hkeys'
      rw [Table.get?] at hkeys' ⊢
      split at hkeys'
      · -- the entity of this call
        rename_i hname
        cases Value.text_beq_iff.mp hname
        cases hkeys'
        exact ⟨row, if_pos hname, hA⟩
      · rename_i hname
        rw [if_neg hname]
        exact hget name' keys' hkeys'

/-- Every call finds what the store has, and what is found stands under its entity. -/
theorem exists_lookAll (hstore : p.Answered s store) (hwanted : ∀ e ∈ wanted, p.Gathers s e) :
    ∃ found, lookAll store (wanted.filterMap p.call) = .ok found ∧ Finds s found ∧
      ∀ name key exposed v, p.Exposes s name key exposed → s.Shows v → Holds wanted name v →
        (∃ r ∈ s.records name, ((r.content key).shown == v) = true) →
          ∃ r ∈ s.records name, ((r.content key).shown == v) = true ∧
            ((found.get? (.text name)).getD []).get? v = some (r.content exposed).shown := by
  obtain ⟨found, hfound, hfinds, hanswers⟩ := p.exists_lookAll_of (fun name keys row => ∃ key exposed,
      p.Exposes s name key exposed ∧ (∀ e ∈ row, s.Shows e.2) ∧ ∀ v, s.Shows v → keys.contains v = true →
        (∃ r ∈ s.records name, ((r.content key).shown == v) = true) →
          ∃ r ∈ s.records name, ((r.content key).shown == v) = true ∧ row.get? v = some (r.content exposed).shown)
    fun e he => by
      obtain ⟨name, key, exposed, hname, hexposes, hkeys⟩ := hwanted e he
      obtain ⟨row, hrow, hshown, hrecords⟩ := hstore name key exposed hexposes
        (sortBy (fun v w => decide (v.literal ≤ w.literal)) e.2) fun v hv => hkeys v (mem_sortBy.mp hv)
      refine ⟨name, _, row, hname, hexposes.mapping, hrow, key, exposed, hexposes, fun e he => ?_, ?_⟩
      · obtain ⟨r, hr, heq⟩ := hshown e he
        rw [← heq]
        exact Store.shows_content hexposes.exposed hr
      · exact fun v hshows hv hknown => hrecords v hshows (by rw [contains_sortBy, hv]) hknown
  refine ⟨found, hfound, fun table htable => ?_, ?_⟩
  · obtain ⟨-, -, -, -, -, hshown, -⟩ := hfinds table htable
    exact hshown
  · rintro name key exposed v hexposes hshows ⟨keys, hkeys, hv⟩ hknown
    obtain ⟨row, hrow, key', exposed', hexposes', -, hrecords⟩ := hanswers name keys hkeys
    cases hexposes.mapping.symm.trans hexposes'.mapping
    rw [hrow]
    exact hrecords v hshows hv hknown

/-- Where the key is that of a record, what is found for it is exposed of such a record. -/
def IsFound (p : Projector) (s : Store) (found : Table Value Row) (q : Request) : Prop :=
  ∀ name key exposed : String, q.1 = .text name → p.Exposes s name key exposed →
    (∃ r ∈ s.records name, ((r.content key).shown == q.2) = true) →
      ∃ r ∈ s.records name, ((r.content key).shown == q.2) = true ∧
        identifier found q.1 q.2 = .ok (r.content exposed).shown

/-- The lookups find something for every key that rows ask for, where it is the key of some record. -/
theorem exists_found (h : p.Suits s) (hs : s.Stored) (hstore : p.Answered s store) {m : Model}
    (hm : Model.find? s.models p.entity = some m) {rows : List Row}
    (hrows : ∀ row ∈ rows, s.Fills p.entity row ∧ Branch.AllFit s p.entity row p.includes.branches) :
    ∃ calls found, p.lookups (rows.map .object) = .ok calls ∧ lookAll store calls = .ok found ∧ Finds s found ∧
      ∀ row ∈ rows, Collects (p.rowRequests (.object row)) (p.IsFound s found) := by
  have hrequests : ∀ v ∈ rows.map Value.object, Collects (p.rowRequests v) (p.Asks s) :=
    List.forall_mem_map.mpr fun row hrow => collects_rowRequests h hs hm (hrows row hrow).1 (hrows row hrow).2
  obtain ⟨requests, hmap, hasks⟩ := exists_mapM_eq_ok hrequests
  have hall : ∀ q ∈ requests.flatten, p.Asks s q := by
    intro q hq
    obtain ⟨qs, hqs, hq⟩ := List.mem_flatten.mp hq
    exact hasks qs hqs q hq
  obtain ⟨found, hfound, hfinds, hanswers⟩ := exists_lookAll hstore
    (gathers_foldl hall)
  refine ⟨(requests.flatten.foldl addRequest []).filterMap p.call, found, ?_, hfound, hfinds, fun row hrow => ?_⟩
  · simp only [lookups, hmap, bind, Except.bind]
    rfl
  obtain ⟨qs, hmem, hqs⟩ := exists_mem_of_mapM_eq_ok hmap _ (List.mem_map_of_mem hrow)
  refine ⟨qs, hqs, fun q hq name key exposed hname hexposes hknown => ?_⟩
  obtain ⟨-, -, -, -, -, hv, hshows⟩ := hasks qs hmem q hq
  have hasked : (.text name, q.2) ∈ requests.flatten := hname ▸ List.mem_flatten.mpr ⟨qs, hmem, hq⟩
  obtain ⟨r, hr, hkey, hget⟩ := hanswers name key exposed q.2 hexposes hshows
    (holds_foldl (.inr hasked) (hshows.beq_self hs hv)) hknown
  have hrequire : q.2.requireKey = .ok q.2 := if_pos (hshows.isKey hs)
  refine ⟨r, hr, hkey, ?_⟩
  rw [identifier, hrequire, hname]
  simp only [bind, Except.bind, hget]
  rfl

end Projector

end Sift
