import Sift.Proofs.Schema.WellFormed

/-!
# Tables of values

A text is taken for no other key, so a table that has values for keys answers for texts as one with texts for keys does.
-/

namespace Sift

namespace Value

variable {v : Value} {s : String}

theorem beq_text_iff : (v == .text s) = true ↔ v = .text s := by
  show same v (.text s) = true ↔ v = .text s
  cases v with
  | text t => simp only [same, beq_iff_eq, text.injEq]
  | _ => simp [same, size?]

theorem text_beq_text (s t : String) : (Value.text s == .text t) = decide (s = t) := by
  rw [Bool.eq_iff_iff, text_beq_iff, decide_eq_true_iff, text.injEq]
  exact eq_comm

theorem beq_null_iff : (v == .null) = true ↔ v = .null := by
  show same v .null = true ↔ v = .null
  cases v with
  | null => simp only [same]
  | _ => simp [same, size?]

theorem null_beq_iff : (Value.null == v) = true ↔ v = .null := by
  show same .null v = true ↔ v = .null
  cases v with
  | null => simp only [same]
  | _ => simp [same, size?]

theorem eq_of_requireKey {k : Value} (h : v.requireKey = .ok k) : k = v := by
  unfold requireKey at h
  split at h
  · exact (Except.ok.inj h).symm
  · cases h

theorem date_beq_iff {c d : Date} : (Value.date c == .date d) = true ↔ c = d := by
  show same (.date c) (.date d) = true ↔ c = d
  simp only [same, beq_iff_eq]

theorem moment_beq_iff {s t : Moment} : (Value.moment s == .moment t) = true ↔ s.same t = true := by
  show same (.moment s) (.moment t) = true ↔ s.same t = true
  simp only [same]

end Value

/-! ## Tables with texts for keys -/

namespace Table

variable {α : Type}

theorem get?_text_insert (k : Value) (a : α) (s : String) (t : Table Value α) :
    (t.insert k a).get? (.text s) = if k == .text s then some a else t.get? (.text s) := by
  induction t with
  | nil =>
    simp only [insert, get?]
    by_cases hk : k = .text s
    · rw [hk, if_pos (Value.text_beq_iff.mpr rfl)]
    · rw [if_neg (fun h => hk (Value.text_beq_iff.mp h)), if_neg (fun h => hk (Value.beq_text_iff.mp h))]
  | cons p t ih =>
    obtain ⟨k', a'⟩ := p
    simp only [insert]
    by_cases hk : k = .text s
    · subst hk
      rw [if_pos (Value.text_beq_iff.mpr rfl)]
      split
      · rename_i hk'
        rw [get?, if_pos hk']
      · rename_i hk'
        rw [get?, if_neg hk', ih, if_pos (Value.text_beq_iff.mpr rfl)]
    · have hne : ¬ (k == .text s) = true := fun h => hk (Value.beq_text_iff.mp h)
      rw [if_neg hne] at ih ⊢
      split
      · rename_i hk'
        have hks : ¬ (.text s == k') = true := by
          intro h
          rw [Value.text_beq_iff.mp h] at hk'
          exact hne hk'
        rw [get?, get?, if_neg hks, if_neg hks]
      · rw [get?, get?, ih]

theorem get?_text_erase {k : Value} {s : String} (h : k ≠ .text s) (t : Table Value α) :
    (t.erase k).get? (.text s) = t.get? (.text s) := by
  induction t with
  | nil => rfl
  | cons p t ih =>
    obtain ⟨k', a'⟩ := p
    simp only [erase]
    split
    · rename_i hk'
      have hks : ¬ (.text s == k') = true := by
        intro hs
        rw [Value.text_beq_iff.mp hs] at hk'
        exact h (Value.beq_text_iff.mp hk')
      rw [get?, if_neg hks]
    · rw [get?, get?, ih]

theorem mem_of_get?_text {s : String} {a : α} {t : Table Value α} (h : t.get? (.text s) = some a) : (.text s, a) ∈ t := by
  obtain ⟨k, hmem, hk⟩ := exists_mem_of_get?_eq_some h
  rwa [Value.text_beq_iff.mp hk] at hmem

theorem mem_of_mem_erase {κ : Type} [BEq κ] {k : κ} {p : κ × α} {t : Table κ α} (h : p ∈ t.erase k) : p ∈ t := by
  induction t with
  | nil => exact h
  | cons q t ih =>
    obtain ⟨k', a'⟩ := q
    simp only [erase] at h
    split at h
    · exact List.mem_cons_of_mem _ h
    · rcases List.mem_cons.mp h with h | h
      · exact h ▸ List.mem_cons_self
      · exact List.mem_cons_of_mem _ (ih h)

end Table

namespace Row

theorem get_erase {name other : String} (h : other ≠ name) (row : Row) : (row.erase name).get other = row.get other := by
  have hne : Value.text name ≠ .text other := fun e => h (Value.text.inj e).symm
  rw [get, get, erase, Table.get?_text_erase hne]

theorem field_text (name : String) (row : Row) : row.field (.text name) = row.get name := rfl

variable {row row' : Row} {name other : String}

theorem get_of_get? (h : Table.get? (.text name) row' = Table.get? (.text name) row) :
    row'.get name = row.get name := by
  rw [get, get, h]

theorem contains_of_get? (h : Table.get? (.text name) row' = Table.get? (.text name) row) :
    row'.contains name = row.contains name := by
  rw [contains, contains, Table.contains, Table.contains, h]

theorem get?_insert_of_ne (h : other ≠ name) (v : Value) :
    Table.get? (.text other) (row.insert name v) = Table.get? (.text other) row := by
  rw [insert, Table.get?_text_insert, if_neg]
  exact fun heq => h (Value.text.inj (Value.beq_text_iff.mp heq)).symm

theorem contains_insert_self (v : Value) : (row.insert name v).contains name = true := by
  rw [contains, Table.contains, insert, Table.get?_text_insert, if_pos (Value.beq_text_iff.mpr rfl), Option.isSome_some]

end Row

/-! ## Tables without repetitions -/

namespace Table

variable {κ α : Type} [BEq κ]

theorem mem_keys_of_mem_insert {k : κ} {a : α} {p : κ × α} {t : Table κ α} (h : p ∈ t.insert k a) :
    p.1 = k ∨ ∃ q ∈ t, q.1 = p.1 := by
  induction t with
  | nil => exact .inl (by rw [List.mem_singleton.mp h])
  | cons q t ih =>
    obtain ⟨k', a'⟩ := q
    simp only [insert] at h
    split at h
    · rcases List.mem_cons.mp h with rfl | h
      · exact .inr ⟨_, List.mem_cons_self, rfl⟩
      · exact .inr ⟨p, List.mem_cons_of_mem _ h, rfl⟩
    · rcases List.mem_cons.mp h with rfl | h
      · exact .inr ⟨_, List.mem_cons_self, rfl⟩
      · rcases ih h with heq | ⟨q, hq, heq⟩
        · exact .inl heq
        · exact .inr ⟨q, List.mem_cons_of_mem _ hq, heq⟩

/-- No key of the table is taken for one before it. -/
def Distinct (t : Table κ α) : Prop := t.Pairwise fun p q => ¬ (q.1 == p.1) = true

instance (t : Table κ α) : Decidable t.Distinct := inferInstanceAs (Decidable (t.Pairwise _))

theorem Distinct.insert {t : Table κ α} (h : t.Distinct) (k : κ) (a : α) : (t.insert k a).Distinct := by
  induction t with
  | nil => exact List.pairwise_singleton _ _
  | cons p t ih =>
    obtain ⟨k', a'⟩ := p
    obtain ⟨hp, ht⟩ := List.pairwise_cons.mp h
    simp only [Table.insert]
    split
    · exact List.pairwise_cons.mpr ⟨hp, ht⟩
    · rename_i hk
      refine List.pairwise_cons.mpr ⟨fun q hq => ?_, ih ht⟩
      rcases mem_keys_of_mem_insert hq with heq | ⟨r, hr, heq⟩
      · rwa [heq]
      · rw [← heq]
        exact hp r hr

theorem distinct_ofList (entries : List (κ × α)) : (ofList entries).Distinct := by
  suffices h : ∀ t : Table κ α, t.Distinct → (t.insertMany entries).Distinct from h [] List.Pairwise.nil
  induction entries with
  | nil => exact fun t ht => ht
  | cons p entries ih => exact fun t ht => ih _ (ht.insert p.1 p.2)

/-- Entries that are changed or left out under their keys stay distinct. -/
theorem Distinct.filterMap {β : Type} {t : Table κ α} (h : t.Distinct) (f : κ × α → Option β) :
    Distinct (t.filterMap fun e => (f e).map fun b => (e.1, b)) := by
  refine List.Pairwise.filterMap _ ?_ h
  intro p q hpq p' hp' q' hq'
  obtain ⟨a, -, rfl⟩ := Option.map_eq_some_iff.mp hp'
  obtain ⟨b, -, rfl⟩ := Option.map_eq_some_iff.mp hq'
  exact hpq

/-! ## Keys that were put -/

variable {k k' : κ} {a : α} {t u : Table κ α}

/-- A key that is there keeps its place, and a new one is put at the end. -/
theorem keys_insert (k : κ) (a : α) (t : Table κ α) :
    (t.insert k a).keys = t.keys ++ if t.keys.any (k == ·) then [] else [k] := by
  induction t with
  | nil => rfl
  | cons p t ih =>
    obtain ⟨k₁, a₁⟩ := p
    have hany : (keys ((k₁, a₁) :: t)).any (k == ·) = ((k == k₁) || (keys t).any (k == ·)) := List.any_cons
    rw [insert, hany]
    cases k == k₁ with
    | true => exact (List.append_nil _).symm
    | false => exact congrArg (k₁ :: ·) ih

theorem mem_keys_insert (h : k' ∈ t.keys) : k' ∈ (t.insert k a).keys := by
  induction t with
  | nil => exact absurd h List.not_mem_nil
  | cons p t ih =>
    simp only [insert]
    split
    · exact h
    · rcases List.mem_cons.mp h with rfl | h
      · exact List.mem_cons_self
      · exact List.mem_cons_of_mem _ (ih h)

theorem exists_beq_insert (hk : (k == k) = true) : ∃ k' ∈ (t.insert k a).keys, (k == k') = true := by
  induction t with
  | nil => exact ⟨k, List.mem_cons_self, hk⟩
  | cons p t ih =>
    simp only [insert]
    split
    · exact ⟨p.1, List.mem_cons_self, ‹_›⟩
    · obtain ⟨k', hk', hbeq⟩ := ih
      exact ⟨k', List.mem_cons_of_mem _ hk', hbeq⟩

/-- A key that equals itself, or one that it equals, stays when it was put. -/
theorem exists_beq_insertMany (hk : (k == k) = true) (h : k ∈ u.keys ∨ ∃ k' ∈ t.keys, (k == k') = true) :
    ∃ k' ∈ (t.insertMany u).keys, (k == k') = true := by
  induction u generalizing t with
  | nil => exact h.resolve_left List.not_mem_nil
  | cons p u ih =>
    refine ih ?_
    rcases h with h | ⟨k', hk', hbeq⟩
    · rcases List.mem_cons.mp h with rfl | h
      · exact .inr (exists_beq_insert hk)
      · exact .inl h
    · exact .inr ⟨k', mem_keys_insert hk', hbeq⟩

theorem mem_keys_of_mem_insertMany (h : k ∈ (t.insertMany u).keys) : k ∈ t.keys ∨ k ∈ u.keys := by
  induction u generalizing t with
  | nil => exact .inl h
  | cons p u ih =>
    rcases ih h with h | h
    · obtain ⟨e, he, rfl⟩ := List.mem_map.mp h
      rcases mem_keys_of_mem_insert he with hk | ⟨q, hq, hk⟩
      · exact .inr (hk ▸ List.mem_cons_self)
      · exact .inl (hk ▸ List.mem_map_of_mem hq)
    · exact .inr (List.mem_cons_of_mem _ h)

theorem exists_get?_of_beq (hk : k' ∈ t.keys) (h : (k == k') = true) : ∃ a, t.get? k = some a := by
  induction t with
  | nil => exact absurd hk List.not_mem_nil
  | cons p t ih =>
    simp only [get?]
    split
    · exact ⟨_, rfl⟩
    · rename_i hne
      rcases List.mem_cons.mp hk with rfl | hk
      · exact absurd h hne
      · exact ih hk

end Table

namespace Table

theorem get?_of_mem {κ α : Type} [BEq κ] [LawfulBEq κ] {k : κ} {a : α} {t : Table κ α} (h : t.keys.Nodup)
    (hmem : (k, a) ∈ t) : t.get? k = some a := by
  induction t with
  | nil => exact absurd hmem List.not_mem_nil
  | cons p t ih =>
    obtain ⟨k', a'⟩ := p
    obtain ⟨hnew, hnodup⟩ := List.nodup_cons.mp h
    rcases List.mem_cons.mp hmem with heq | hmem
    · cases heq
      rw [get?, if_pos (BEq.rfl)]
    · have hne : k ≠ k' := fun heq => hnew (heq ▸ List.mem_map.mpr ⟨_, hmem, rfl⟩)
      rw [get?, if_neg (by simpa using hne)]
      exact ih hnodup hmem

/-- An entry that all entries under its key are equal to is found. -/
theorem get?_text_ofList {α : Type} {entries : List (Value × α)} {s : String} {a : α} (hmem : (.text s, a) ∈ entries)
    (honly : ∀ p ∈ entries, p.1 = .text s → p.2 = a) : (ofList entries).get? (.text s) = some a := by
  suffices h : ∀ t : Table Value α, (.text s, a) ∈ entries ∨ t.get? (.text s) = some a →
      (t.insertMany entries).get? (.text s) = some a from h [] (.inl hmem)
  clear hmem
  induction entries with
  | nil => exact fun t ht => ht.resolve_left List.not_mem_nil
  | cons p entries ih =>
    intro t ht
    obtain ⟨hp, honly⟩ := List.forall_mem_cons.mp honly
    refine ih honly _ ?_
    rw [get?_text_insert]
    by_cases hk : p.1 = .text s
    · rw [if_pos (Value.beq_text_iff.mpr hk), hp hk]
      exact .inr rfl
    · rw [if_neg fun h => hk (Value.beq_text_iff.mp h)]
      refine ht.imp_left fun hmem => (List.mem_cons.mp hmem).resolve_left ?_
      rintro rfl
      exact hk rfl

end Table

end Sift
