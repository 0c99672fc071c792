/-!
# Ordered tables

A table is a list of keys with their entries, in the order in which the keys were first put. Putting a key again
replaces its entry and keeps its place, so a table that is made by putting entries has every key once.
-/

namespace Sift

/-- Keys with their entries, in order. -/
abbrev Table (κ α : Type) := List (κ × α)

namespace Table

variable {κ α : Type} [BEq κ]

def get? (k : κ) : Table κ α → Option α
  | [] => none
  | (k', a) :: t => if k == k' then some a else get? k t

def contains (k : κ) (t : Table κ α) : Bool :=
  (t.get? k).isSome

/-- Replaces the entry of a key, or adds one at the end. -/
def insert (k : κ) (a : α) : Table κ α → Table κ α
  | [] => [(k, a)]
  | (k', a') :: t => if k == k' then (k', a) :: t else (k', a') :: insert k a t

def erase (k : κ) : Table κ α → Table κ α
  | [] => []
  | (k', a') :: t => if k == k' then t else (k', a') :: erase k t

/-- The table that putting the entries one after another gives. -/
def ofList (entries : List (κ × α)) : Table κ α :=
  entries.foldl (fun t (k, a) => t.insert k a) []

/-- Puts the entries of the second table into the first. -/
def insertMany (t u : Table κ α) : Table κ α :=
  u.foldl (fun t (k, a) => t.insert k a) t

def keys (t : Table κ α) : List κ := t.map Prod.fst

def values (t : Table κ α) : List α := t.map Prod.snd

/-! ## Lookups after changes -/

theorem get?_insert [LawfulBEq κ] (k k' : κ) (a : α) (t : Table κ α) :
    (t.insert k a).get? k' = if k' == k then some a else t.get? k' := by
  induction t with
  | nil => rfl
  | cons p t ih =>
    obtain ⟨k₁, a₁⟩ := p
    by_cases hk : k = k₁
    · subst hk
      by_cases h : k' = k <;> simp [insert, get?, h]
    · by_cases h : k' = k₁
      · subst h
        have hne : ¬ k' = k := fun e => hk e.symm
        simp [insert, get?, hk, hne]
      · simp [insert, get?, hk, h, ih]

theorem get?_eq_none_iff [LawfulBEq κ] {k : κ} {t : Table κ α} : t.get? k = none ↔ k ∉ t.keys := by
  induction t with
  | nil => simp [get?, keys]
  | cons p t ih =>
    obtain ⟨k₁, a₁⟩ := p
    simp only [keys] at ih
    by_cases hk : k = k₁ <;> simp [get?, keys, hk, ih]

theorem mem_of_get?_eq_some [LawfulBEq κ] {k : κ} {a : α} {t : Table κ α} (h : t.get? k = some a) :
    (k, a) ∈ t := by
  induction t with
  | nil => simp [get?] at h
  | cons p t ih =>
    obtain ⟨k₁, a₁⟩ := p
    by_cases hk : k = k₁
    · subst hk
      have ha : a₁ = a := by simpa [get?] using h
      subst ha
      exact List.mem_cons_self
    · exact List.mem_cons_of_mem _ (ih (by simpa [get?, hk] using h))

/-! ## The order of the keys -/

/-- A key that is there keeps its place. -/
theorem keys_insert_of_mem [LawfulBEq κ] {k : κ} {t : Table κ α} (a : α) (h : k ∈ t.keys) :
    (t.insert k a).keys = t.keys := by
  induction t with
  | nil => simp [keys] at h
  | cons p t ih =>
    obtain ⟨k₁, a₁⟩ := p
    by_cases hk : k = k₁
    · subst hk; simp [insert, keys]
    · have ht : k ∈ keys t := by simpa [keys, hk] using h
      have hi := ih ht
      simp only [keys] at hi
      simp [insert, keys, hk, hi]

/-- A new key is put at the end. -/
theorem insert_of_not_mem [LawfulBEq κ] {k : κ} {t : Table κ α} (a : α) (h : k ∉ t.keys) :
    t.insert k a = t ++ [(k, a)] := by
  induction t with
  | nil => rfl
  | cons p t ih =>
    obtain ⟨k₁, a₁⟩ := p
    have hk : k ≠ k₁ ∧ k ∉ keys t := by simpa [keys] using h
    simp [insert, hk.1, ih hk.2]

theorem nodup_keys_insert [LawfulBEq κ] {t : Table κ α} (k : κ) (a : α) (h : t.keys.Nodup) :
    (t.insert k a).keys.Nodup := by
  by_cases hk : k ∈ t.keys
  · rw [keys_insert_of_mem a hk]; exact h
  · rw [insert_of_not_mem a hk]
    simp only [keys, List.map_append, List.map_cons, List.map_nil]
    refine List.nodup_append.mpr ⟨h, by simp, ?_⟩
    intro k₁ h₁ k₂ h₂ e
    rw [List.mem_singleton.mp h₂] at e
    exact hk (e ▸ h₁)

/-- A table that is made by putting entries has every key once. -/
theorem nodup_keys_ofList [LawfulBEq κ] (entries : List (κ × α)) : (ofList entries).keys.Nodup := by
  have step : ∀ (es : List (κ × α)) (t : Table κ α), t.keys.Nodup →
      (Table.keys (es.foldl (fun t (k, a) => t.insert k a) t)).Nodup := by
    intro es
    induction es with
    | nil => intro t h; exact h
    | cons e es ih => intro t h; exact ih _ (nodup_keys_insert e.1 e.2 h)
  exact step entries [] List.nodup_nil

end Table

end Sift
