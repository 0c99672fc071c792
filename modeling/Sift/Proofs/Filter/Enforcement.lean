import Sift.Proofs.Filter.Keys
import Sift.Proofs.Policy.Names

/-!
# Enforcement of the policy

Whether the policy is asked makes no other difference than this: a filter is refused at the first of its fields that may
not be used. What is not refused compares no blocked column, neither under its path nor under its foreign key.
-/

namespace Sift.FilterRules

variable {r : FilterRules} {v : Value} {x : Criteria}

theorem retraced_checked : r.Retraced false r true r.ask where
  registry := rfl
  field := Section.field_true_eq

theorem retraced_unchecked : r.Retraced true r false fun _ => .ok () where
  registry := rfl
  field h := Section.field_false_of_true h

theorem compile_false_of_true (h : r.compile true v = .ok x) : r.compile false v = .ok x := by
  rw [retraced_unchecked.compile h, forM_eq_ok_iff.mpr fun _ _ => rfl]
  rfl

theorem permits_of_compile (h : r.compile true v = .ok x) : ∀ key ∈ Filter.keys v, r.permits key = true := by
  intro key hk
  exact Section.accepts_iff.mp ((grounded_of_compile h).field key hk)

theorem compile_true_iff :
    r.compile true v = .ok x ↔ r.compile false v = .ok x ∧ ∀ key ∈ Filter.keys v, r.permits key = true := by
  constructor
  · intro h
    exact ⟨compile_false_of_true h, permits_of_compile h⟩
  · rintro ⟨h, hp⟩
    rw [retraced_checked.compile h, forM_eq_ok_iff.mpr fun key hk => Section.ask_eq_ok_iff.mpr (hp key hk)]
    rfl

theorem compile_true_eq_error {key : Value} (h : r.compile false v = .ok x)
    (hk : (Filter.keys v).find? (fun key => !r.permits key) = some key) :
    r.compile true v = .error (.query (.policyViolation key.plain r.place)) := by
  obtain ⟨hkey, before, after, heq, hbefore⟩ := List.find?_eq_some_iff_append.mp hk
  have hmem : key ∈ Filter.keys v := List.mem_of_find?_eq_some hk
  obtain ⟨ref, href⟩ := (grounded_of_compile h).field key hmem
  rw [Section.field_false] at href
  have hask : r.ask key = .error (.query (.policyViolation key.plain r.place)) :=
    Section.ask_eq_error href (by simpa using hkey)
  have hok : ∀ b ∈ before, r.ask b = .ok () := fun b hb => Section.ask_eq_ok_iff.mpr (by simpa using hbefore b hb)
  rw [retraced_checked.compile h, heq, forM_eq_error hok hask]
  rfl

theorem allows_of_clause (h : r.compile true v = .ok x) {c : Clause} (hc : c ∈ x.predicate.clauses) :
    ∃ key, r.policy.allows key (some c.field) = true := by
  obtain ⟨key, hk, hr⟩ := (grounded_of_compile h).clause c hc
  have hp := permits_of_compile h key hk
  rw [Section.permits_eq hr] at hp
  exact ⟨key, hp⟩

/-- The policy decides about all the fields of a filter, and only about them. -/
theorem compile_enforces (r : FilterRules) (v : Value) :
    (∀ x, r.compile true v = .ok x ↔ r.compile false v = .ok x ∧ ∀ key ∈ Filter.keys v, r.permits key = true) ∧
    (∀ x key, r.compile false v = .ok x → (Filter.keys v).find? (fun key => !r.permits key) = some key →
      r.compile true v = .error (.query (.policyViolation key.plain r.place))) ∧
    (∀ x, r.compile true v = .ok x → ∀ c ∈ x.predicate.clauses,
      .text c.field.path ∉ r.policy.blocked ∧
      ∀ key, c.field.foreignKey = .text key → key ≠ "" → .text key ∉ r.policy.blocked) := by
  refine ⟨fun x => compile_true_iff, fun x key => compile_true_eq_error, fun x h c hc => ?_⟩
  obtain ⟨name, ha⟩ := allows_of_clause h hc
  refine ⟨Policy.not_mem_blocked_of_knows ha (Policy.knows_path ..), fun key hkey ne => ?_⟩
  exact Policy.not_mem_blocked_of_knows ha (Policy.knows_foreignKey hkey ne)

example : (Shop.products Shop.fullCatalog { blocked := [.text "name"] }).compile true
    (.object [(.text "or", .list [.object [], .object [(.text "name", .object [])]])]) =
      .error (.query (.policyViolation "name" "filtering")) := rfl

/-- A foreign key without a name counts as none, so it cannot be blocked. -/
theorem not_refused_unnamed : ¬ ∀ (r : FilterRules) (v : Value) (x : Criteria), r.compile true v = .ok x →
    ∀ c ∈ x.predicate.clauses, c.field.foreignKey ∉ r.policy.blocked := by
  intro h
  refine h (Shop.products Shop.unnamed { blocked := [.text ""] }) Shop.owned _ rfl _ (List.mem_singleton_self _) ?_
  exact List.mem_singleton_self _

end Sift.FilterRules
