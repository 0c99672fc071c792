import Sift.Proofs.Projection.Lookups
import Sift.Proofs.Value.Marks

/-!
# Lookups in tables

Tables that have what the records of the mapped entities show, each under its key, answer as the store does.
-/

namespace Sift

theorem Store.Shows.exists_mark? {s : Store} {v : Value} (h : s.Shows v) (hs : s.Stored) : ∃ a, v.mark? = some a := by
  obtain ⟨st, c, hkept, rfl⟩ := h.exists_kept hs
  exact hkept.exists_mark?

namespace Projector

variable {p : Projector} {s : Store} {tables : Table Value Row} {name key exposed : String}

/-- The tables have what records of the mapped entities show, and have something for each of their keys. -/
def Tabulates (p : Projector) (s : Store) (tables : Table Value Row) : Prop :=
  ∀ name key exposed : String, p.Exposes s name key exposed →
    (∀ e ∈ (tables.get? (.text name)).getD [], ∃ r ∈ s.records name,
      (e.1 == (r.content key).shown) = true ∧ (r.content exposed).shown = e.2) ∧
    ∀ r ∈ s.records name, (r.content key).shown ≠ .null →
      ∃ k ∈ Table.keys ((tables.get? (.text name)).getD []), (k == (r.content key).shown) = true

def entries (known : Row) (keys : List Value) : List (Value × Value) :=
  keys.filterMap fun k => (known.get? k).map fun v => (k, v)

variable {known : Row} {keys : List Value} {e : Value × Value}

theorem mem_entries_iff : e ∈ entries known keys ↔ e.1 ∈ keys ∧ known.get? e.1 = some e.2 := by
  obtain ⟨k, v⟩ := e
  simp only [entries, List.mem_filterMap, Option.map_eq_some_iff, Prod.mk.injEq]
  constructor
  · rintro ⟨k', hk', v', hv', rfl, rfl⟩
    exact ⟨hk', hv'⟩
  · exact fun ⟨hk, hv⟩ => ⟨k, hk, v, hv, rfl, rfl⟩

theorem mem_keys_of_mem_ofList (h : e ∈ Table.ofList (entries known keys)) : e.1 ∈ keys := by
  rcases Table.mem_keys_of_mem_insertMany (List.mem_map_of_mem h) with h | h
  · exact absurd h List.not_mem_nil
  · obtain ⟨e', he', heq⟩ := List.mem_map.mp h
    rw [← heq]
    exact (mem_entries_iff.mp he').1

/-- What is found is exposed of a record with the key. -/
theorem exists_record_of_mem (hs : s.Stored) (hexposes : p.Exposes s name key exposed)
    (hkeys : ∀ v ∈ keys, s.Shows v) (hknown : ∀ e ∈ known, ∃ r ∈ s.records name,
      (e.1 == (r.content key).shown) = true ∧ (r.content exposed).shown = e.2)
    (he : e ∈ Table.ofList (entries known keys)) : ∃ r ∈ s.records name,
      ((r.content key).shown == e.1) = true ∧ (r.content exposed).shown = e.2 := by
  have hrecord : ∀ a, e.1.mark? = some a → ∃ r ∈ s.records name,
      (r.content key).shown.mark? = some a ∧ (r.content exposed).shown = e.2 := by
    refine Table.forall_mem_ofList (P := fun (k v : Value) => ∀ a, k.mark? = some a → ∃ r ∈ s.records name,
      (r.content key).shown.mark? = some a ∧ (r.content exposed).shown = v) ?_ (fun e he a ha => ?_) e he
    · exact fun k k' v hk h a ha => h a ((Value.beq_iff_mark? ha).mp hk)
    · obtain ⟨k, hk, hbeq⟩ := Table.exists_mem_of_get?_eq_some (mem_entries_iff.mp he).2
      obtain ⟨r, hr, hkey, hv⟩ := hknown _ hk
      have hr' := (Store.shows_content hexposes.key hr).exists_mark? hs
      have hk' : ∃ b, k.mark? = some b := hr'.imp fun b hb => (Value.beq_iff_mark? hb).mp hkey
      exact ⟨r, hr, Value.mark?_eq_of_beq (Value.mark?_eq_of_beq ha hk' hbeq) hr' hkey, hv⟩
  obtain ⟨a, ha⟩ := (hkeys e.1 (mem_keys_of_mem_ofList he)).exists_mark? hs
  obtain ⟨r, hr, hkey, hv⟩ := hrecord a ha
  exact ⟨r, hr, (Value.beq_iff_mark? ha).mpr hkey, hv⟩

/-- Something is found for a key that a known one is taken for. -/
theorem exists_get?_ofList (hs : s.Stored) (hkeys : ∀ v ∈ keys, s.Shows v) {v k : Value} {a : Mark}
    (hv : v.mark? = some a) (hcontains : keys.contains v = true) (hk : k ∈ known.keys) (ha : k.mark? = some a) :
    ∃ x, (Table.ofList (entries known keys)).get? v = some x := by
  rw [List.contains_eq_any_beq, List.any_eq_true] at hcontains
  obtain ⟨w, hw, hbeq⟩ := hcontains
  have hwa := Value.mark?_eq_of_beq hv ((hkeys w hw).exists_mark? hs) hbeq
  obtain ⟨x, hx⟩ := Table.exists_get?_of_beq hk ((Value.beq_iff_mark? ha).mpr hwa)
  have hmem : w ∈ Table.keys (entries known keys) := List.mem_map.mpr ⟨(w, x), mem_entries_iff.mpr ⟨hw, hx⟩, rfl⟩
  obtain ⟨k', hk', hbeq'⟩ := Table.exists_beq_insertMany (t := []) ((Value.beq_iff_mark? hwa).mpr hwa) (.inl hmem)
  obtain ⟨e, he, rfl⟩ := List.mem_map.mp hk'
  have hea := Value.mark?_eq_of_beq hwa ((hkeys e.1 (mem_keys_of_mem_ofList he)).exists_mark? hs) hbeq'
  exact Table.exists_get?_of_beq hk' ((Value.beq_iff_mark? hea).mpr hv)

/-- Such tables agree with the store. -/
theorem Tabulates.answered (h : p.Tabulates s tables) (hs : s.Stored) : p.Answered s (.ofTables tables) := by
  intro name key exposed hexposes keys hkeys
  obtain ⟨hknown, hall⟩ := h name key exposed hexposes
  have hshows : ∀ v ∈ keys, s.Shows v := fun v hv => (hkeys v hv).2
  refine ⟨Table.ofList (entries ((tables.get? (.text name)).getD []) keys), rfl, fun e he => ?_, ?_⟩
  · obtain ⟨r, hr, -, hv⟩ := exists_record_of_mem hs hexposes hshows hknown he
    exact ⟨r, hr, hv⟩
  · intro v hv hcontains ⟨r₀, hr₀, hkey₀⟩
    obtain ⟨a, ha⟩ := hv.exists_mark? hs
    have hr₀a := (Value.beq_iff_mark? ha).mp hkey₀
    have hne : (r₀.content key).shown ≠ .null := by
      intro hnull
      rw [List.contains_eq_any_beq, List.any_eq_true] at hcontains
      obtain ⟨w, hw, hbeq⟩ := hcontains
      rw [hnull, Value.null_beq_iff] at hkey₀
      rw [hkey₀, Value.null_beq_iff] at hbeq
      exact (hkeys w hw).1 hbeq
    obtain ⟨k, hk, hbeq⟩ := hall r₀ hr₀ hne
    obtain ⟨x, hx⟩ := exists_get?_ofList hs hshows ha hcontains hk ((Value.beq_iff_mark? hr₀a).mp hbeq)
    obtain ⟨k', hk', hbeq'⟩ := Table.exists_mem_of_get?_eq_some hx
    obtain ⟨r, hr, hkey, hv'⟩ := exists_record_of_mem hs hexposes hshows hknown hk'
    have hk'a := Value.mark?_eq_of_beq ha ((hshows k' (mem_keys_of_mem_ofList hk')).exists_mark? hs) hbeq'
    exact ⟨r, hr, (Value.beq_iff_mark? ha).mpr ((Value.beq_iff_mark? hk'a).mp hkey), by rw [hx, hv']⟩

end Projector

end Sift
