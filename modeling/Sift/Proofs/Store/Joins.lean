import Mathlib.Data.List.Induction
import Sift.Proofs.Store.Order

/-!
# Joins for an ordering

An ordering that goes through relations with one row at most joins every row exactly once, whether there is a related
row or not: the joined rows are the rows themselves, each with what its chains lead to.
-/

namespace Sift

namespace Store

variable {s : Store} {entity : String} {r : Record}

/-- The record that a chain of labels leads to, where each label leads to one record at most. -/
def behind (s : Store) (entity : String) (r : Record) : List String → Option Record
  | [] => some r
  | label :: chain => (s.related entity label r).head?.bind fun r => s.behind (s.target entity label) r chain

/-- The cell of a field, wherever its record is; nothing where there is no such record. -/
def cellBehind (s : Store) (entity : String) (r : Record) (ref : FieldRef) : Cell :=
  (s.behind entity r ref.chain).elim .null fun r => r.cell ref.column

/-- Every label of a chain leads from each record to one record at most. -/
def LeadsToOne (s : Store) (entity : String) : List String → Prop
  | [] => True
  | label :: chain => (∀ r ∈ s.records entity, (s.related entity label r).length ≤ 1) ∧
    LeadsToOne s (s.target entity label) chain

/-! ## Chains -/

theorem targetOf_cons (s : Store) (entity label : String) (chain : List String) :
    s.targetOf entity (label :: chain) = s.targetOf (s.target entity label) chain := rfl

theorem mem_records_of_related {label : String} {other : Record} (h : other ∈ s.related entity label r) :
    other ∈ s.records (s.target entity label) := by
  unfold related at h
  unfold target
  cases hstep : s.step? entity label with
  | none =>
    rw [hstep] at h
    cases h
  | some step =>
    rw [hstep] at h
    exact (List.mem_filter.mp h).1

/-- The last label of a chain starts where the labels before it lead. -/
theorem behind_append (chain : List String) (label : String) (r : Record) :
    s.behind entity r (chain ++ [label]) =
      (s.behind entity r chain).bind fun r => (s.related (s.targetOf entity chain) label r).head? := by
  induction chain generalizing entity r with
  | nil =>
    simp only [List.nil_append, behind, Option.bind_some, targetOf, List.foldl_nil]
    cases (s.related entity label r).head? <;> rfl
  | cons first chain ih =>
    simp only [List.cons_append, behind, targetOf_cons]
    cases (s.related entity first r).head? with
    | none => rfl
    | some other => exact ih other

theorem mem_records_of_behind {chain : List String} {other : Record} (hr : r ∈ s.records entity)
    (h : s.behind entity r chain = some other) : other ∈ s.records (s.targetOf entity chain) := by
  induction chain generalizing entity r with
  | nil =>
    cases h
    exact hr
  | cons label chain ih =>
    obtain ⟨next, hnext, h⟩ := Option.bind_eq_some_iff.mp h
    exact ih (mem_records_of_related (List.mem_of_mem_head? hnext)) h

theorem LeadsToOne.of_append {chain rest : List String} {label : String}
    (h : s.LeadsToOne entity (chain ++ label :: rest)) :
    ∀ r ∈ s.records (s.targetOf entity chain), (s.related (s.targetOf entity chain) label r).length ≤ 1 := by
  induction chain generalizing entity with
  | nil => exact h.1
  | cons first chain ih => exact ih h.2

/-! ## Parents first -/

/-- After the chains that are done, every chain to do is longer than one of those before it by one label, or it is a
single label. -/
def ParentsFirst (done : List (List String)) : List (List String) → Prop
  | [] => True
  | chain :: chains => (∃ parent label, chain = parent ++ [label] ∧ (parent = [] ∨ parent ∈ done)) ∧
    ParentsFirst (done ++ [chain]) chains

theorem ParentsFirst.mono {done done' chains : List (List String)} (h : ParentsFirst done chains)
    (hsub : ∀ chain ∈ done, chain ∈ done') : ParentsFirst done' chains := by
  induction chains generalizing done done' with
  | nil => trivial
  | cons chain chains ih =>
    obtain ⟨⟨parent, label, hchain, hparent⟩, h⟩ := h
    refine ⟨⟨parent, label, hchain, hparent.imp_right (hsub parent)⟩, ih h fun c hc => ?_⟩
    rcases List.mem_append.mp hc with hc | hc
    · exact List.mem_append_left _ (hsub c hc)
    · exact List.mem_append_right _ hc

theorem ParentsFirst.append {done xs ys : List (List String)} (hx : ParentsFirst done xs)
    (hy : ParentsFirst (done ++ xs) ys) : ParentsFirst done (xs ++ ys) := by
  induction xs generalizing done with
  | nil => rwa [List.append_nil] at hy
  | cons x xs ih => exact ⟨hx.1, ih hx.2 (by rwa [List.append_assoc])⟩

theorem ParentsFirst.filter {done chains : List (List String)} {c : List String} (h : ParentsFirst done chains)
    (hc : c ∈ done) : ParentsFirst done (chains.filter fun chain => !chain == c) := by
  induction chains generalizing done with
  | nil => trivial
  | cons chain chains ih =>
    rw [List.filter_cons]
    split
    · exact ⟨h.1, ih h.2 (List.mem_append_left _ hc)⟩
    · rename_i heq
      have heq : chain = c := by simpa using heq
      subst heq
      refine ih (h.2.mono fun d hd => ?_) hc
      rcases List.mem_append.mp hd with hd | hd
      · exact hd
      · exact List.mem_singleton.mp hd ▸ hc

theorem ParentsFirst.eraseDups {done chains : List (List String)} (h : ParentsFirst done chains) :
    ParentsFirst done chains.eraseDups := by
  match chains with
  | [] => trivial
  | chain :: chains =>
    rw [List.eraseDups_cons]
    exact ⟨h.1, ParentsFirst.eraseDups (h.2.filter (List.mem_append_right _ List.mem_cons_self))⟩
termination_by chains.length
decreasing_by exact Nat.lt_succ_of_le (List.length_filter_le _ _)

theorem parentsFirst_prefixes (done : List (List String)) (chain : List String) {n : Nat} (hn : n ≤ chain.length) :
    ParentsFirst done ((List.range n).map fun i => chain.take (i + 1)) := by
  induction n with
  | zero => trivial
  | succ n ih =>
    rw [List.range_succ, List.map_append]
    refine (ih (by omega)).append ⟨⟨chain.take n, chain[n], ?_, ?_⟩, trivial⟩
    · exact (List.take_append_getElem hn).symm
    · rcases Nat.eq_zero_or_pos n with rfl | hpos
      · exact .inl rfl
      · refine .inr (List.mem_append_right _ (List.mem_map.mpr ⟨n - 1, List.mem_range.mpr (by omega), ?_⟩))
        rw [Nat.sub_add_cancel hpos]

theorem parentsFirst_orderChains (terms : List OrderTerm) : ParentsFirst [] (orderChains terms) := by
  suffices h : ∀ done, ParentsFirst done
      (terms.flatMap fun t => (List.range t.ref.chain.length).map fun i => t.ref.chain.take (i + 1)) from (h []).eraseDups
  intro done
  induction terms generalizing done with
  | nil => trivial
  | cons t ts ih =>
    rw [List.flatMap_cons]
    exact (parentsFirst_prefixes done t.ref.chain le_rfl).append (ih _)

theorem mem_orderChains {terms : List OrderTerm} {chain : List String} (h : chain ∈ orderChains terms) :
    ∃ t ∈ terms, ∃ rest, t.ref.chain = chain ++ rest := by
  obtain ⟨t, ht, h⟩ := List.mem_flatMap.mp (List.mem_eraseDups.mp h)
  obtain ⟨i, -, rfl⟩ := List.mem_map.mp h
  exact ⟨t, ht, t.ref.chain.drop (i + 1), (List.take_append_drop _ _).symm⟩

theorem chain_mem_orderChains {terms : List OrderTerm} {t : OrderTerm} (ht : t ∈ terms) (h : t.ref.chain ≠ []) :
    t.ref.chain ∈ orderChains terms := by
  have hpos := List.length_pos_iff.mpr h
  refine List.mem_eraseDups.mpr (List.mem_flatMap.mpr ⟨t, ht, List.mem_map.mpr ⟨t.ref.chain.length - 1, ?_, ?_⟩⟩)
  · exact List.mem_range.mpr (by omega)
  · rw [Nat.sub_add_cancel hpos, List.take_length]

/-! ## Joined rows -/

/-- A record with what some chains lead to. -/
def joined (s : Store) (entity : String) (chains : List (List String)) (r : Record) : Joined :=
  chains.foldl (fun j chain => { j with others := j.others.insert chain (s.behind entity r chain) }) { base := r }

theorem joined_append (chains : List (List String)) (chain : List String) (r : Record) :
    s.joined entity (chains ++ [chain]) r =
      let j := s.joined entity chains r
      { j with others := j.others.insert chain (s.behind entity r chain) } := by
  simp only [joined, List.foldl_append, List.foldl_cons, List.foldl_nil]

theorem base_joined (chains : List (List String)) (r : Record) : (s.joined entity chains r).base = r := by
  induction chains using List.reverseRecOn with
  | nil => rfl
  | append_singleton chains chain ih =>
    rw [joined_append]
    exact ih

theorem record?_joined {chains : List (List String)} {chain : List String} (h : chain = [] ∨ chain ∈ chains)
    (r : Record) : (s.joined entity chains r).record? chain = s.behind entity r chain := by
  cases chain with
  | nil =>
    simp only [Joined.record?, List.isEmpty_nil, if_true, base_joined, behind]
  | cons label rest =>
    have hmem := h.resolve_left (List.cons_ne_nil _ _)
    have hget : (s.joined entity chains r).others.get? (label :: rest) = some (s.behind entity r (label :: rest)) := by
      clear h
      induction chains using List.reverseRecOn with
      | nil => exact absurd hmem List.not_mem_nil
      | append_singleton chains chain ih =>
        simp only [joined_append, Table.get?_insert, beq_iff_eq]
        split
        · rename_i heq
          rw [heq]
        · rename_i hne
          rcases List.mem_append.mp hmem with hmem | hmem
          · exact ih hmem
          · exact absurd (List.mem_singleton.mp hmem) hne
    simp only [Joined.record?, List.isEmpty_cons, Bool.false_eq_true, if_false, hget, Option.getD_some]

/-- Joining a chain whose parent is joined adds what it leads to, and no further row. -/
theorem join_joined {done : List (List String)} {parent : List String} {label : String}
    (hparent : parent = [] ∨ parent ∈ done) (hr : r ∈ s.records entity)
    (hone : ∀ r ∈ s.records (s.targetOf entity parent), (s.related (s.targetOf entity parent) label r).length ≤ 1) :
    s.join entity (parent ++ [label]) (s.joined entity done r) = [s.joined entity (done ++ [parent ++ [label]]) r] := by
  have hbehind := @behind_append s entity parent label r
  simp only [join, joined_append, List.dropLast_concat, List.getLastD_concat, record?_joined hparent]
  cases hp : s.behind entity r parent with
  | none =>
    rw [hp] at hbehind
    rw [hbehind]
    rfl
  | some other =>
    rw [hp, Option.bind_some] at hbehind
    have hlen := hone other (mem_records_of_behind hr hp)
    simp only [hbehind]
    match hrelated : s.related (s.targetOf entity parent) label other with
    | [] => rfl
    | [_] => rfl
    | _ :: _ :: _ =>
      rw [hrelated] at hlen
      simp only [List.length_cons] at hlen
      omega

theorem flatMap_map_eq {α β γ : Type} {f : α → β} {g : β → List γ} {h : α → γ} {as : List α}
    (heq : ∀ a ∈ as, g (f a) = [h a]) : (as.map f).flatMap g = as.map h := by
  induction as with
  | nil => rfl
  | cons a as ih =>
    obtain ⟨ha, has⟩ := List.forall_mem_cons.mp heq
    rw [List.map_cons, List.flatMap_cons, ha, ih has]
    rfl

theorem foldl_join {done chains : List (List String)} {records : List Record} (hfirst : ParentsFirst done chains)
    (hone : ∀ chain ∈ chains, s.LeadsToOne entity chain) (hr : ∀ r ∈ records, r ∈ s.records entity) :
    chains.foldl (fun js chain => js.flatMap (s.join entity chain)) (records.map (s.joined entity done)) =
      records.map (s.joined entity (done ++ chains)) := by
  induction chains generalizing done with
  | nil => rw [List.append_nil]; rfl
  | cons chain chains ih =>
    obtain ⟨⟨parent, label, rfl, hparent⟩, hfirst⟩ := hfirst
    obtain ⟨hlead, hone⟩ := List.forall_mem_cons.mp hone
    rw [List.foldl_cons, flatMap_map_eq fun r hmem => join_joined hparent (hr r hmem) hlead.of_append, ih hfirst hone,
      List.append_assoc, List.singleton_append]

theorem LeadsToOne.of_prefix {chain rest : List String} (h : s.LeadsToOne entity (chain ++ rest)) :
    s.LeadsToOne entity chain := by
  induction chain generalizing entity with
  | nil => trivial
  | cons label chain ih => exact ⟨h.1, ih h.2⟩

/-- Where an ordering leads to one record at most, all that it needs is joined without adding or dropping a row. -/
theorem joinAll_eq {terms : List OrderTerm} {records : List Record}
    (hone : ∀ t ∈ terms, s.LeadsToOne entity t.ref.chain) (hr : ∀ r ∈ records, r ∈ s.records entity) :
    s.joinAll entity terms records = records.map (s.joined entity (orderChains terms)) := by
  refine foldl_join (parentsFirst_orderChains terms) (fun chain hchain => ?_) hr
  obtain ⟨t, ht, rest, heq⟩ := mem_orderChains hchain
  have hlead := hone t ht
  rw [heq] at hlead
  exact hlead.of_prefix

theorem cell_joined {terms : List OrderTerm} {t : OrderTerm} (ht : t ∈ terms) (r : Record) :
    (s.joined entity (orderChains terms) r).cell t.ref = s.cellBehind entity r t.ref := by
  have hchain : t.ref.chain = [] ∨ t.ref.chain ∈ orderChains terms := by
    by_cases h : t.ref.chain = []
    · exact .inl h
    · exact .inr (chain_mem_orderChains ht h)
  rw [Joined.cell, record?_joined hchain]
  rfl

end Store

end Sift
