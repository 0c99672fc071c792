import Sift.Proofs.Ordering.Terms
import Sift.Proofs.Policy.Names
import Sift.Proofs.Sample
import Sift.Proofs.Value.Tables

/-!
# Orderings that are read back

A compiled ordering can be written out as objects that name every field with its direction. Where it was made of fields
that a request names, it is compiled from these objects again, whatever direction fields without one have by then.
-/

namespace Sift

namespace Section

variable {s : Section} {checked : Bool} {ref : FieldRef}

/-- Every public name and every flat name has a character at least. -/
structure Named (s : Section) : Prop where
  aliased : ∀ entry ∈ s.policy.aliases, entry.1 ≠ .text ""
  flattened : ∀ l ∈ s.scope.flattening.lifts, ∀ names ∈ l.attributes, names.2 ≠ .text ""

theorem Named.toInternal (h : s.Named) : s.policy.toInternal (.text "") = .text "" := by
  unfold Policy.toInternal
  cases hget : s.policy.aliases.get? (.text "") with
  | none => rfl
  | some v =>
    obtain ⟨key, hmem, hkey⟩ := Table.exists_mem_of_get?_eq_some hget
    exact absurd (Value.text_beq_iff.mp hkey) (h.aliased _ hmem)

theorem Named.path? (h : s.Named) : s.scope.flattening.path? (.text "") = none := by
  cases hget : s.scope.flattening.path? (.text "") with
  | none => rfl
  | some path =>
    obtain ⟨key, hmem, hkey⟩ := Table.exists_mem_of_get?_eq_some hget
    obtain rfl := Value.text_beq_iff.mp hkey
    refine absurd rfl (Table.forall_mem_ofList (P := fun key _ => key ≠ .text "") ?_ ?_ _ hmem)
    · rintro key key' path hsame hkey rfl
      exact hkey (Value.beq_text_iff.mp hsame)
    · intro entry hentry
      obtain ⟨l, hl, hentry⟩ := List.mem_flatMap.mp hentry
      obtain ⟨names, hnames, rfl⟩ := List.mem_map.mp hentry
      exact h.flattened l hl names hnames

/-- The empty name finds nothing. -/
theorem Named.field_ne_ok (h : s.Named) : s.field checked (.text "") ≠ .ok ref := by
  intro hfield
  obtain ⟨found, hfound, -⟩ := bind_eq_ok_iff.mp hfield
  rw [resolve, h.toInternal] at hfound
  have hpath : s.scope.path (.text "") = .ok "" := by
    simp only [Scope.path, Value.requireKey_text, bind, Except.bind, h.path?]
    rfl
  simp only [Scope.resolve, hpath, bind, Except.bind] at hfound
  cases hfound

end Section

namespace SortOrder

variable {t : OrderTerm} {terms : List OrderTerm}

/-- A term that is written out says what it is. -/
theorem says_toRow (t : OrderTerm) : Says t.toRow t.field (some t.direction) :=
  have hkey : "order_by" ∈ fieldKeys := by decide
  have hkey' : "direction" ∈ directionKeys := by decide
  says_pair hkey hkey' t.field t.direction

theorem fields_toValues (h : ∀ t ∈ terms, t.field ≠ "") (js : Joins) :
    fields (.list (toValues ⟨terms, js⟩)) = .ok (terms.map fun t => (t.field, .text t.direction.word)) := by
  have hitems : (toValues ⟨terms, js⟩).mapM itemFields =
      .ok (terms.map fun t => [(t.field, .text t.direction.word)]) := by
    rw [toValues, List.mapM_map]
    refine mapM_eq_ok fun t ht => ?_
    simp only [Function.comp, itemFields, (says_toRow t).objectField (h t ht)]
    rfl
  rw [fields_list, hitems]
  exact congrArg Except.ok ((List.flatMap_def ..).symm.trans List.map_eq_flatMap.symm)

end SortOrder

namespace OrderRules

variable {r : OrderRules} {default : Direction} {v direction : Value} {o : SortOrder}

/-- An ordering by fields that a request names comes to the same when it is written out and compiled again, whatever
direction the fields without one have by then. -/
theorem compile_toValues (hn : r.Named) {fields : List (String × Value)} (hfields : SortOrder.fields v = .ok fields)
    (hne : fields ≠ []) (h : r.compile v direction = .ok o) {again : Value}
    (hagain : Direction.parse again r.defaultDirection = .ok default) : r.compile (.list o.toValues) again = .ok o := by
  obtain ⟨default', -, fields', hfields', terms, hterms, ho⟩ := compile_eq_ok_iff.mp h
  cases hfields.symm.trans hfields'
  have hterms_ne : terms ≠ [] := fun hnil => hne ((eq_nil_iff_of_mapM_eq_ok hterms).mp hnil)
  obtain rfl : o = ⟨terms, joins terms⟩ := by
    rw [complete_of_ne_nil r hterms_ne] at ho
    exact (Except.ok.inj ho).symm
  have hcolumn : ∀ t ∈ terms, r.column t.field = .ok t.ref := fun t ht => by
    obtain ⟨f, -, hf⟩ := mem_of_mapM_eq_ok hterms t ht
    obtain ⟨hname, href, -⟩ := term_eq_ok_iff.mp hf
    rw [hname, href]
  have hnamed : ∀ t ∈ terms, t.field ≠ "" := fun t ht hempty => by
    have hfield := (column_eq_ok_iff.mp (hcolumn t ht)).1
    rw [hempty] at hfield
    exact hn.field_ne_ok hfield
  refine compile_eq_ok_iff.mpr ⟨default, hagain, _, SortOrder.fields_toValues hnamed _, terms, ?_,
    complete_of_ne_nil r hterms_ne⟩
  rw [List.mapM_map]
  have hsame : terms.mapM (fun t => r.term default t.field (.text t.direction.word)) = .ok (terms.map id) :=
    mapM_eq_ok fun t ht => term_eq_ok_iff.mpr ⟨rfl, hcolumn t ht, Direction.parse_word _ _⟩
  rw [List.map_id] at hsame
  exact hsame

theorem compile_toValues_ranking : ∃ o,
    (Shop.ranking "name").compile (.list [.text "-owner.name,title", .object [(.text "column", .text "score")]]) .null =
      .ok o ∧ (Shop.ranking "name").compile (.list o.toValues) (.text "desc") = .ok o := by
  obtain ⟨o, ho⟩ : ∃ o, (Shop.ranking "name").compile
      (.list [.text "-owner.name,title", .object [(.text "column", .text "score")]]) .null = .ok o := ⟨_, rfl⟩
  have hn : (Shop.ranking "name").Named := by
    refine ⟨fun entry hentry => ?_, fun l hl => absurd hl List.not_mem_nil⟩
    cases List.mem_singleton.mp hentry
    exact fun hempty => absurd (Value.text.inj hempty) (by decide)
  exact ⟨o, ho, compile_toValues hn rfl (List.cons_ne_nil _ _) ho rfl⟩

end OrderRules

end Sift
