import Sift.Proofs.Value.Tables

/-!
# Rows with changed values

Changing the values of a row leaves its keys and their order alone. In a row that has every key once, changing the value
under a name is putting another value there. A row may also be told by its keys, with a value for each of them.
-/

namespace Sift

namespace Row

/-- Changes the values of a row by their keys. -/
def mapValues (f : Value → Value → Value) (row : Row) : Row := row.map fun (k, v) => (k, f k v)

/-- Changes the value under a name. -/
def adjusted (name : String) (f : Value → Value) (row : Row) : Row :=
  row.mapValues fun k v => if k == .text name then f v else v

variable {f g : Value → Value → Value} {k : Value} {name : String} {row : Row}

theorem mapValues_congr (h : ∀ e ∈ row, f e.1 e.2 = g e.1 e.2) : row.mapValues f = row.mapValues g :=
  List.map_congr_left fun e he => congrArg (Prod.mk e.1) (h e he)

theorem mapValues_eq_self (h : ∀ e ∈ row, f e.1 e.2 = e.2) : row.mapValues f = row :=
  (List.map_congr_left fun e he => congrArg (Prod.mk e.1) (h e he)).trans (List.map_id' row)

theorem mapValues_mapValues : (row.mapValues f).mapValues g = row.mapValues fun k v => g k (f k v) := by
  simp only [mapValues, List.map_map]
  rfl

theorem mapValues_append (row' : Row) : mapValues f (row ++ row') = row.mapValues f ++ mapValues f row' :=
  List.map_append

theorem contains_mapValues : Table.contains k (row.mapValues f) = Table.contains k row := by
  simp only [Table.contains]
  induction row with
  | nil => rfl
  | cons p row ih =>
    obtain ⟨k', v⟩ := p
    simp only [mapValues, List.map_cons, Table.get?] at ih ⊢
    split
    · rfl
    · exact ih

theorem get?_mapValues (s : String) :
    Table.get? (.text s) (row.mapValues f) = (Table.get? (.text s) row).map (f (.text s)) := by
  induction row with
  | nil => rfl
  | cons p row ih =>
    obtain ⟨k', v⟩ := p
    simp only [mapValues, List.map_cons, Table.get?] at ih ⊢
    split
    · rename_i hk
      rw [Value.text_beq_iff.mp hk, Option.map_some]
    · exact ih

theorem get_mapValues (h : f (.text name) .null = .null) :
    (row.mapValues f).get name = f (.text name) (row.get name) := by
  rw [get, get, get?_mapValues]
  cases Table.get? (.text name) row with
  | none => exact h.symm
  | some v => rfl

theorem erase_mapValues (k : Value) : Table.erase k (row.mapValues f) = mapValues f (Table.erase k row) := by
  induction row with
  | nil => rfl
  | cons p row ih =>
    obtain ⟨k', v⟩ := p
    simp only [mapValues, List.map_cons, Table.erase] at ih ⊢
    split
    · rfl
    · rw [ih, List.map_cons]

theorem distinct_mapValues (h : row.Distinct) : (row.mapValues f).Distinct :=
  List.pairwise_map.mpr h

theorem eq_get_of_mem (h : row.Distinct) {v : Value} (hmem : (.text name, v) ∈ row) : v = row.get name := by
  induction row with
  | nil => exact absurd hmem List.not_mem_nil
  | cons p row ih =>
    obtain ⟨hp, hrow⟩ := List.pairwise_cons.mp h
    rw [get, Table.get?]
    rcases List.mem_cons.mp hmem with rfl | hmem
    · rw [if_pos (Value.text_beq_iff.mpr rfl), Option.getD_some]
    · rw [if_neg (hp _ hmem)]
      exact ih hrow hmem

theorem contains_of_mem {v : Value} (h : (.text name, v) ∈ row) : row.contains name = true := by
  obtain ⟨w, hw⟩ := Table.exists_get?_of_beq (k := .text name) (List.mem_map_of_mem (f := Prod.fst) h)
    (Value.text_beq_iff.mpr rfl)
  rw [contains, Table.contains, hw, Option.isSome_some]

theorem contains_of_get (h : row.get name ≠ .null) : row.contains name = true := by
  rw [contains, Table.contains]
  cases hv : Table.get? (.text name) row with
  | none => exact absurd (by rw [get, hv]; rfl) h
  | some v => rfl

theorem adjusted_eq_self {f : Value → Value} (hrow : row.Distinct) (h : f (row.get name) = row.get name) :
    row.adjusted name f = row := by
  refine mapValues_eq_self fun e he => ?_
  obtain ⟨k, v⟩ := e
  split
  · rename_i hk
    cases Value.beq_text_iff.mp hk
    cases eq_get_of_mem hrow he
    exact h
  · rfl

/-- Changing the value under a name that is there is putting another one. -/
theorem adjusted_eq_insert {f : Value → Value} (hrow : row.Distinct) (h : row.contains name = true) :
    row.adjusted name f = row.insert name (f (row.get name)) := by
  induction row with
  | nil => cases h
  | cons p row ih =>
    obtain ⟨k, v⟩ := p
    obtain ⟨hp, hrow⟩ := List.pairwise_cons.mp hrow
    by_cases hk : k = .text name
    · subst hk
      have hother : adjusted name f row = row := by
        refine mapValues_eq_self fun e he => if_neg fun hk => ?_
        exact hp e he (by rw [Value.beq_text_iff.mp hk]; exact Value.text_beq_iff.mpr rfl)
      have hself : (Value.text name == .text name) = true := Value.text_beq_iff.mpr rfl
      simp only [adjusted, mapValues] at hother
      simp only [adjusted, mapValues, insert, get, List.map_cons, hother, Table.insert, Table.get?, if_pos hself,
        Option.getD_some]
    · have hne : ¬ (k == .text name) = true := fun hk' => hk (Value.beq_text_iff.mp hk')
      have hne' : ¬ (.text name == k) = true := fun hk' => hk (Value.text_beq_iff.mp hk')
      simp only [contains, Table.contains, Table.get?, if_neg hne'] at h
      have hrest := ih hrow h
      simp only [adjusted, mapValues, insert, get] at hrest
      simp only [adjusted, mapValues, insert, get, List.map_cons, hrest, Table.insert, Table.get?, if_neg hne,
        if_neg hne']

theorem distinct_adjusted {f : Value → Value} (h : row.Distinct) : (row.adjusted name f).Distinct :=
  distinct_mapValues h

/-- A change under a name and then one that leaves the name alone are one change. -/
theorem mapValues_adjusted {f : Value → Value} (h : ∀ v, g (.text name) v = v) :
    (row.adjusted name f).mapValues g = row.mapValues fun k v => if k == .text name then f v else g k v := by
  rw [adjusted, mapValues_mapValues]
  refine mapValues_congr fun e _ => ?_
  split
  · rename_i hk
    rw [Value.beq_text_iff.mp hk, h]
  · rfl

theorem get_adjusted {f : Value → Value} {other : String} (h : other ≠ name) :
    (row.adjusted name f).get other = row.get other := by
  have hne : ¬ (Value.text other == .text name) = true := fun hk => h (Value.text.inj (Value.beq_text_iff.mp hk))
  rw [adjusted, get_mapValues (by rw [if_neg hne]), if_neg hne]

end Row

theorem Table.insert_of_not_contains {κ α : Type} [BEq κ] {k : κ} {t : Table κ α} (h : t.contains k = false) (a : α) :
    t.insert k a = t ++ [(k, a)] := by
  induction t with
  | nil => rfl
  | cons p t ih =>
    obtain ⟨k', a'⟩ := p
    rw [contains, get?] at h
    rw [insert]
    split
    · rename_i hk
      rw [if_pos hk] at h
      cases h
    · rename_i hk
      rw [if_neg hk] at h
      rw [ih h, List.cons_append]

theorem Table.erase_of_not_contains {κ α : Type} [BEq κ] {k : κ} {t : Table κ α} (h : t.contains k = false) :
    t.erase k = t := by
  induction t with
  | nil => rfl
  | cons p t ih =>
    obtain ⟨k', a⟩ := p
    rw [contains, get?] at h
    rw [erase]
    split
    · rename_i hk
      rw [if_pos hk] at h
      cases h
    · rename_i hk
      rw [if_neg hk] at h
      rw [ih h]

/-- Putting entries whose keys are all distinct changes none of them. -/
theorem Table.ofList_of_distinct {κ α : Type} [BEq κ] {t : Table κ α} (h : t.Distinct) : ofList t = t := by
  suffices hmany : ∀ acc : Table κ α, Table.Distinct (acc ++ t) → acc.insertMany t = acc ++ t from hmany [] h
  clear h
  induction t with
  | nil => exact fun acc _ => (List.append_nil acc).symm
  | cons p t ih =>
    obtain ⟨k, a⟩ := p
    intro acc hacc
    have hnew : Table.contains k acc = false := by
      rw [contains, ← Bool.not_eq_true, Option.isSome_iff_exists]
      rintro ⟨b, hb⟩
      obtain ⟨k', hmem, hk⟩ := Table.exists_mem_of_get?_eq_some hb
      exact (List.pairwise_append.mp hacc).2.2 (k', b) hmem (k, a) List.mem_cons_self hk
    have hstep : acc.insertMany ((k, a) :: t) = (acc.insert k a).insertMany t := rfl
    rw [List.append_cons] at hacc ⊢
    rw [hstep, insert_of_not_contains hnew, ih _ hacc]

theorem Table.get?_map {κ α β : Type} [BEq κ] (f : α → β) (k : κ) (t : Table κ α) :
    Table.get? k (t.map fun e => (e.1, f e.2)) = (t.get? k).map f := by
  induction t with
  | nil => rfl
  | cons p t ih =>
    simp only [List.map_cons, get?]
    split
    · rfl
    · exact ih

theorem Table.Distinct.erase {κ α : Type} [BEq κ] {t : Table κ α} (h : t.Distinct) (k : κ) : (t.erase k).Distinct := by
  induction t with
  | nil => exact h
  | cons p t ih =>
    obtain ⟨hp, ht⟩ := List.pairwise_cons.mp h
    rw [Table.erase]
    split
    · exact ht
    · exact List.pairwise_cons.mpr ⟨fun q hq => hp q (Table.mem_of_mem_erase hq), ih ht⟩

theorem Table.get?_text_erase_self {α : Type} {t : Table Value α} (h : t.Distinct) (s : String) :
    (t.erase (.text s)).get? (.text s) = none := by
  induction t with
  | nil => rfl
  | cons p t ih =>
    obtain ⟨k, a⟩ := p
    obtain ⟨hp, ht⟩ := List.pairwise_cons.mp h
    rw [Table.erase]
    split
    · rename_i hk
      cases hnone : Table.get? (.text s) t with
      | none => rfl
      | some b => exact absurd hk (hp _ (Table.mem_of_get?_text hnone))
    · rename_i hk
      rw [Table.get?, if_neg hk]
      exact ih ht

/-! ## Rows by their keys -/

namespace Row

variable {keys : List String} {f : String → Value} {key : String}

/-- The row that has a value for each of some keys. -/
def ofKeys (keys : List String) (f : String → Value) : Row := keys.map fun key => (.text key, f key)

theorem ofKeys_congr {g : String → Value} (h : ∀ key ∈ keys, f key = g key) : ofKeys keys f = ofKeys keys g :=
  List.map_congr_left fun key hkey => congrArg (Prod.mk (Value.text key)) (h key hkey)

theorem get?_ofKeys : Table.get? (.text key) (ofKeys keys f) = if key ∈ keys then some (f key) else none := by
  unfold ofKeys
  induction keys with
  | nil => rfl
  | cons k keys ih =>
    rw [List.map_cons, Table.get?, Value.text_beq_text, ih]
    by_cases h : key = k
    · rw [if_pos (decide_eq_true h), if_pos (h ▸ List.mem_cons_self), h]
    · rw [if_neg (by simpa using h)]
      simp only [List.mem_cons, h, false_or]

theorem contains_ofKeys : (ofKeys keys f).contains key = decide (key ∈ keys) := by
  rw [contains, Table.contains, get?_ofKeys]
  split
  · simp_all
  · simp_all

theorem get_ofKeys (h : key ∈ keys) : (ofKeys keys f).get key = f key := by
  rw [get, get?_ofKeys, if_pos h, Option.getD_some]

theorem insert_ofKeys_of_mem (v : Value) (hkeys : keys.Nodup) (h : key ∈ keys) :
    (ofKeys keys f).insert key v = ofKeys keys fun k => if k = key then v else f k := by
  unfold ofKeys
  induction keys with
  | nil => cases h
  | cons k keys ih =>
    obtain ⟨hk, hkeys⟩ := List.nodup_cons.mp hkeys
    simp only [insert, List.map_cons, Table.insert, Value.text_beq_text] at ih ⊢
    by_cases heq : key = k
    · subst heq
      rw [if_pos (decide_eq_true rfl), if_pos rfl]
      refine congrArg _ (List.map_congr_left fun k hmem => ?_)
      rw [if_neg (ne_of_mem_of_not_mem hmem hk)]
    · rw [if_neg (by simpa using heq), if_neg (Ne.symm heq), ih hkeys ((List.mem_cons.mp h).resolve_left heq)]

theorem insert_ofKeys_of_not_mem (v : Value) (h : key ∉ keys) :
    (ofKeys keys f).insert key v = ofKeys (keys ++ [key]) fun k => if k = key then v else f k := by
  have hcontains : Table.contains (.text key) (ofKeys keys f) = false :=
    contains_ofKeys.trans (decide_eq_false h)
  rw [insert, Table.insert_of_not_contains hcontains]
  simp only [ofKeys, List.map_append, List.map_cons, List.map_nil, if_pos]
  refine congrArg (· ++ _) (List.map_congr_left fun k hmem => ?_)
  rw [if_neg (ne_of_mem_of_not_mem hmem h)]

end Row

end Sift
