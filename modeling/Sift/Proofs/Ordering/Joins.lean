import Mathlib.Data.List.Induction
import Sift.Proofs.Ordering.Terms
import Sift.Proofs.Request.Fields
import Sift.Proofs.Sample

/-!
# Joins of an ordering

An ordering that names a field leads to one row at most with every field, and declares what has to be joined for it. One
that falls back on the default field does so only as far as that is a column of the base entity.
-/

namespace Sift

namespace Scope

variable {s : Scope} {v column : Value} {name place written : String} {ref : FieldRef} {chain : List String}

/-! ## Names that lead nowhere or to many rows -/

/-- Of the fields that a name can find, those of the base entity are not behind many rows. -/
theorem many_of_ownField (h : s.ownField name place written = .ok ref) : ref.many.truthy = false := by
  simp only [ownField] at h
  generalize (if name = "id" then s.exposedId.either (.text name) else .text name) = own at h
  obtain ⟨b, -, h⟩ := bind_eq_ok_iff.mp h
  obtain ⟨-, h⟩ := unless_eq_ok_iff.mp h
  obtain ⟨keys, -, h⟩ := bind_eq_ok_iff.mp h
  have hcolumn : ∀ {entity column : Value} {ref : FieldRef}, s.columnRef entity column = .ok ref →
      ref.many.truthy = false := fun href => by
    obtain ⟨_, _, -, rfl, -⟩ := columnRef_eq_ok href
    rfl
  split at h
  · obtain ⟨mapping, -, h⟩ := bind_eq_ok_iff.mp h
    cases mapping with
    | none => exact hcolumn h
    | some mapping =>
      obtain ⟨target, htarget, h⟩ := bind_eq_ok_iff.mp h
      cases pure_eq_ok_iff.mp h
      exact (hcolumn htarget : target.many.truthy = false)
  · exact hcolumn h

theorem chain_of_relatedField (h : s.relatedField chain name place written = .ok ref) : ref.chain = chain := by
  simp only [relatedField] at h
  obtain ⟨⟨entity, many⟩, -, h⟩ := bind_eq_ok_iff.mp h
  obtain ⟨b, -, h⟩ := bind_eq_ok_iff.mp h
  obtain ⟨-, h⟩ := unless_eq_ok_iff.mp h
  obtain ⟨mapping, -, h⟩ := bind_eq_ok_iff.mp h
  have hcolumn : ∀ {entity column key : Value}, (do
      return { ← s.columnRef entity column with chain, many, foreignKey := key }) = Except.ok ref →
        ref.chain = chain := fun h => by
    obtain ⟨_, -, h⟩ := bind_eq_ok_iff.mp h
    rw [← pure_eq_ok_iff.mp h]
  have hplain : (do return { ← s.columnRef entity (.text name) with chain, many }) = Except.ok ref →
      ref.chain = chain := fun h => by
    obtain ⟨_, -, h⟩ := bind_eq_ok_iff.mp h
    rw [← pure_eq_ok_iff.mp h]
  split at h
  · split at h
    · split at h
      · obtain ⟨key, -, h⟩ := bind_eq_ok_iff.mp h
        exact hcolumn h
      · exact hcolumn h
    · exact hplain h
  · exact hplain h

theorem chain_ne_nil_of_many (h : s.resolve v place written = .ok ref) (hmany : ref.many.truthy = true) :
    ref.chain ≠ [] := by
  obtain ⟨path, -, h⟩ := bind_eq_ok_iff.mp h
  simp only at h
  split at h
  · cases h
  · split at h
    · rw [many_of_ownField h] at hmany
      cases hmany
    · rename_i hchain
      rw [chain_of_relatedField h]
      exact fun hnil => hchain (List.isEmpty_iff.mpr hnil)

end Scope

namespace SortOrder

/-- An ordering that rows can be put in: there is something to order by, each row has it once at most, and what has to be
joined for it is declared. -/
structure Usable (o : SortOrder) : Prop where
  nonempty : o.terms ≠ []
  single : ∀ t ∈ o.terms, t.ref.many.truthy = false
  joined : ∀ chain, chain ∈ o.joins ↔ chain ≠ [] ∧ ∃ t ∈ o.terms, t.ref.chain = chain

end SortOrder

namespace OrderRules

variable {r : OrderRules} {v direction : Value} {t : OrderTerm} {terms : List OrderTerm} {o : SortOrder}

theorem mem_joins_iff {chain : List String} :
    chain ∈ joins terms ↔ chain ≠ [] ∧ ∃ t ∈ terms, t.ref.chain = chain := by
  induction terms using List.reverseRecOn with
  | nil => simp [joins]
  | append_singleton ts t ih =>
    have hstep : joins (ts ++ [t]) = if t.ref.isRelated then (joins ts).insert t.ref.chain else joins ts := by
      rw [joins, List.foldl_append]
      rfl
    by_cases hchain : t.ref.chain = []
    · have hrelated : t.ref.isRelated = false := by rw [FieldRef.isRelated, hchain]; rfl
      rw [hstep, hrelated, if_neg Bool.false_ne_true, ih]
      grind
    · have hrelated : t.ref.isRelated = true := by
        rw [FieldRef.isRelated, List.isEmpty_eq_false_iff.mpr hchain]
        rfl
      rw [hstep, if_pos hrelated, Joins.mem_insert, ih]
      grind

theorem usable_of_terms (hne : terms ≠ []) (h : ∀ t ∈ terms, t.ref.many.truthy = false) :
    SortOrder.Usable ⟨terms, joins terms⟩ where
  nonempty := hne
  single := h
  joined _ := mem_joins_iff

theorem exists_resolve_of_defaultTerm (h : r.defaultTerm = .ok t) : ∃ name, r.resolve (.text name) = .ok t.ref := by
  unfold defaultTerm at h
  split at h
  · rename_i name _
    obtain ⟨ref, href, h⟩ := bind_eq_ok_iff.mp h
    cases pure_eq_ok_iff.mp h
    exact ⟨name, by rw [← Section.field_false, href]⟩
  · cases h

theorem usable_default_iff (h : r.defaultTerm = .ok t) : SortOrder.Usable ⟨[t], []⟩ ↔ t.ref.chain = [] := by
  constructor
  · intro hu
    by_contra hchain
    exact absurd ((hu.joined t.ref.chain).mpr ⟨hchain, t, List.mem_singleton_self t, rfl⟩) List.not_mem_nil
  · intro hchain
    refine ⟨List.cons_ne_nil _ _, fun t' ht' => ?_, fun chain => ⟨fun hmem => absurd hmem List.not_mem_nil, ?_⟩⟩
    · cases List.mem_singleton.mp ht'
      obtain ⟨name, hname⟩ := exists_resolve_of_defaultTerm h
      exact Bool.eq_false_iff.mpr fun hmany => Scope.chain_ne_nil_of_many hname hmany hchain
    · rintro ⟨hne, t', ht', rfl⟩
      cases List.mem_singleton.mp ht'
      exact absurd hchain hne

theorem exists_resolve_of_compile (h : r.compile v direction = .ok o) :
    ∀ t ∈ o.terms, ∃ name, r.resolve name = .ok t.ref := by
  obtain ⟨default, -, fields, -, terms, hterms, ho⟩ := compile_eq_ok_iff.mp h
  rcases complete_eq_ok_iff.mp ho with ⟨-, rfl⟩ | ⟨-, t, ht, rfl⟩
  · intro t ht
    obtain ⟨f, -, hf⟩ := mem_of_mapM_eq_ok hterms t ht
    have hfield := (column_eq_ok_iff.mp (term_eq_ok_iff.mp hf).2.1).1
    exact ⟨.text f.1, by rw [← Section.field_false, Section.field_false_of_true hfield]⟩
  · intro t' ht'
    cases List.mem_singleton.mp ht'
    obtain ⟨name, hname⟩ := exists_resolve_of_defaultTerm ht
    exact ⟨.text name, hname⟩

/-- Among the relations of a schema, the fields of a usable ordering lie behind relations that lead to one row at most. -/
theorem leads_to_one (hl : r.scope.catalog.Labelled)
    (hs : IncludeTree.Built r.scope.catalog r.scope.entity r.scope.includes) (h : r.compile v direction = .ok o)
    (ho : o.Usable) : ∀ t ∈ o.terms, ∃ rs, t.ref.Located r.scope.catalog r.scope.entity rs ∧
      ∀ relation ∈ rs, relation.many.truthy = false := by
  intro t ht
  obtain ⟨hentity, hfollows⟩ := hs.follows
  rw [IncludeTree.Follows, hentity] at hfollows
  obtain ⟨name, hname⟩ := exists_resolve_of_compile h t ht
  obtain ⟨rs, hlocated⟩ := Scope.located_resolve hl hfollows hname
  refine ⟨rs, hlocated, fun relation hmem => Bool.eq_false_iff.mpr fun hmany => ?_⟩
  exact absurd (hlocated.many.mpr ⟨relation, hmem, hmany⟩) (Bool.eq_false_iff.mp (ho.single t ht))

/-- Something to order by is never missing. An ordering that names a field is usable. One that falls back on the default
field is so exactly if that field is a column of the base entity: what has to be joined for the default field is not
declared, and it is not refused where rows have it many times. -/
theorem usable_iff (h : r.compile v direction = .ok o) : o.terms ≠ [] ∧
    (o.Usable ↔ (∃ fields, SortOrder.fields v = .ok fields ∧ fields ≠ []) ∨
      ∃ t, r.defaultTerm = .ok t ∧ t.ref.chain = []) := by
  obtain ⟨default, -, fields, hfields, terms, hterms, ho⟩ := compile_eq_ok_iff.mp h
  rcases complete_eq_ok_iff.mp ho with ⟨hne, rfl⟩ | ⟨rfl, t, ht, rfl⟩
  · have hnamed : fields ≠ [] := fun hnil => hne ((eq_nil_iff_of_mapM_eq_ok hterms).mpr hnil)
    refine ⟨hne, fun _ => .inl ⟨fields, hfields, hnamed⟩, fun _ => usable_of_terms hne fun t ht => ?_⟩
    obtain ⟨f, -, hf⟩ := mem_of_mapM_eq_ok hterms t ht
    exact (column_eq_ok_iff.mp (term_eq_ok_iff.mp hf).2.1).2
  · have hnone : fields = [] := (eq_nil_iff_of_mapM_eq_ok hterms).mp rfl
    refine ⟨List.cons_ne_nil t [], (usable_default_iff ht).trans ⟨fun hchain => .inr ⟨t, ht, hchain⟩, ?_⟩⟩
    rintro (⟨fields', hfields', hne⟩ | ⟨t', ht', hchain⟩)
    · cases hfields.symm.trans hfields'
      exact absurd hnone hne
    · cases ht.symm.trans ht'
      exact hchain

theorem usable_iff_ranking : ∃ o o',
    (Shop.ranking "tags.name").compile (.text "-owner.name,title") .null = .ok o ∧
      (Shop.ranking "name").compile .null .null = .ok o' ∧ o.Usable ∧ o'.Usable := by
  obtain ⟨o, ho⟩ : ∃ o, (Shop.ranking "tags.name").compile (.text "-owner.name,title") .null = .ok o := ⟨_, rfl⟩
  obtain ⟨o', ho'⟩ : ∃ o, (Shop.ranking "name").compile .null .null = .ok o := ⟨_, rfl⟩
  exact ⟨o, o', ho, ho', (usable_iff ho).2.mpr (.inl ⟨_, rfl, List.cons_ne_nil _ _⟩),
    (usable_iff ho').2.mpr (.inr ⟨_, rfl, rfl⟩)⟩

/-- The default field may be one that rows have many times, and one behind a relation is not joined. -/
theorem not_usable_ranking :
    (¬ ∀ (r : OrderRules) (v direction : Value) (o : SortOrder), r.compile v direction = .ok o →
      ∀ t ∈ o.terms, t.ref.many.truthy = false) ∧
    ¬ ∀ (r : OrderRules) (v direction : Value) (o : SortOrder), r.compile v direction = .ok o →
      ∀ chain, chain ∈ o.joins ↔ chain ≠ [] ∧ ∃ t ∈ o.terms, t.ref.chain = chain := by
  refine ⟨fun h => ?_, fun h => ?_⟩
  · have hmany := h (Shop.ranking "tags.name") .null .null _ rfl _ (.head _)
    cases hmany
  · have hjoined := h (Shop.ranking "owner.name") .null .null _ rfl ["owner"]
    exact absurd (hjoined.mpr ⟨List.cons_ne_nil _ _, _, .head _, rfl⟩) List.not_mem_nil

end OrderRules

end Sift
