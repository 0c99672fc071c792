import Mathlib.Logic.Basic
import Sift.Proofs.Policy.Names
import Sift.Proofs.Sample

/-!
# Spellings of a field

One column can be named in several ways. Whether a policy takes them for one field depends on the names that it knows
each of them by: two spellings stand and fall together under all lists exactly when these are the same names.
-/

namespace Sift

/-- Two fields that are one column of one entity, reached through the same relations. -/
structure FieldRef.SameColumn (a b : FieldRef) : Prop where
  entity : a.entity = b.entity
  column : a.column = b.column
  chain : a.chain = b.chain

theorem FieldRef.SameColumn.path {a b : FieldRef} (h : a.SameColumn b) : a.path = b.path := by
  rw [FieldRef.path, FieldRef.path, h.chain, h.column]

namespace Section

variable {s : Section} {n m : Value} {a b : FieldRef}

/-- The section with other lists in its policy. -/
def withLists (s : Section) (allowed : Option (List Value)) (blocked : List Value) : Section :=
  { s with policy := { s.policy with allowed, blocked } }

theorem resolve_withLists (s : Section) (allowed : Option (List Value)) (blocked : List Value) (name : Value) :
    (s.withLists allowed blocked).resolve name = s.resolve name := rfl

theorem knows_withLists (s : Section) (allowed : Option (List Value)) (blocked : List Value) (name : Value)
    (ref : FieldRef) : (s.withLists allowed blocked).policy.knows name ref = s.policy.knows name ref := rfl

theorem accepts_withLists_iff (allowed : Option (List Value)) (blocked : List Value) (h : s.resolve n = .ok a) :
    (s.withLists allowed blocked).accepts n ↔
      blocked.any (s.policy.knows n a) = false ∧ allowed.elim true (·.any (s.policy.knows n a)) = true := by
  have h' : (s.withLists allowed blocked).resolve n = .ok a := by rw [resolve_withLists, h]
  rw [accepts_iff, permits_eq h', Policy.allows_eq, knows_withLists, Bool.and_eq_true, Bool.not_eq_true']
  rfl

theorem any_eq_of_forall_mem {p q : Value → Bool} {names : List Value} (h : ∀ known ∈ names, p known = q known) :
    names.any p = names.any q := by
  rw [Bool.eq_iff_iff, List.any_eq_true, List.any_eq_true]
  exact exists_congr fun known => and_congr_right fun hk => by rw [h known hk]

/-- Lists that hold nothing but names which both spellings have, or neither, treat them alike. -/
theorem accepts_withLists_congr {allowed : Option (List Value)} {blocked : List Value}
    (hn : s.resolve n = .ok a) (hm : s.resolve m = .ok b)
    (hb : ∀ known ∈ blocked, s.policy.knows n a known = s.policy.knows m b known)
    (ha : ∀ names ∈ allowed, ∀ known ∈ names, s.policy.knows n a known = s.policy.knows m b known) :
    (s.withLists allowed blocked).accepts n ↔ (s.withLists allowed blocked).accepts m := by
  rw [accepts_withLists_iff allowed blocked hn, accepts_withLists_iff allowed blocked hm,
    any_eq_of_forall_mem hb]
  cases allowed with
  | none => rfl
  | some names => simp only [Option.elim_some, any_eq_of_forall_mem (ha names rfl)]

/-- Two spellings of one column stand and fall together, whatever a policy lists, exactly when beside its path they
have the same names. -/
theorem accepts_spellings_iff (hn : s.resolve n = .ok a) (hm : s.resolve m = .ok b) (same : a.SameColumn b) :
    (∀ allowed blocked, (s.withLists allowed blocked).accepts n ↔ (s.withLists allowed blocked).accepts m) ↔
      ∀ known, known ≠ .text a.path → s.policy.knows n a known = s.policy.knows m b known := by
  constructor
  · intro h known _
    have hk := h none [known]
    rw [accepts_withLists_iff none [known] hn, accepts_withLists_iff none [known] hm] at hk
    simp only [List.any_cons, List.any_nil, Bool.or_false, Option.elim_none, and_true] at hk
    rw [Bool.eq_iff_iff, ← not_iff_not, Bool.not_eq_true, Bool.not_eq_true]
    exact hk
  · intro h allowed blocked
    have agree : ∀ known, s.policy.knows n a known = s.policy.knows m b known := by
      intro known
      by_cases hk : known = .text a.path
      · -- the path is a name of both spellings
        rw [hk, Policy.knows_path, same.path, Policy.knows_path]
      · exact h known hk
    exact accepts_withLists_congr hn hm (fun known _ => agree known) fun _ _ known _ => agree known

theorem accepts_alias :
    let s := (Shop.products Shop.fullCatalog { aliases := [(.text "title", .text "name")] }).toSection
    (∃ ref, s.resolve (.text "title") = .ok ref ∧ s.resolve (.text "name") = .ok ref) ∧
      ∀ allowed blocked, (s.withLists allowed blocked).accepts (.text "title") ↔
        (s.withLists allowed blocked).accepts (.text "name") := by
  refine ⟨⟨_, rfl, rfl⟩, (accepts_spellings_iff rfl rfl ⟨rfl, rfl, rfl⟩).mpr fun known _ => ?_⟩
  show [Value.text "title", .text "name"].any (· == known) = [Value.text "name", .text "title"].any (· == known)
  simp only [List.any_cons, List.any_nil, Bool.or_false]
  exact Bool.or_comm _ _

/-- The owner of a product is shown by the column that refers to it, but is not known by this column under the path
that names it in full. -/
theorem accepts_other_spelling : ¬ ∀ (s : Section) (n m : Value) (a b : FieldRef), s.resolve n = .ok a →
    s.resolve m = .ok b → a.SameColumn b → (s.accepts n ↔ s.accepts m) := by
  intro h
  let s := (Shop.products Shop.fullCatalog { blocked := [.text "owner_id"] }).toSection
  have hiff := h s (.text "owner.external_id") (.text "owner_id") _ _ rfl rfl ⟨rfl, rfl, rfl⟩
  obtain ⟨_, href⟩ := hiff.mp ⟨_, rfl⟩
  cases href

end Section

end Sift
