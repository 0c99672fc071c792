import Sift.Policy
import Sift.Proofs.Outcome
import Sift.Request.Scope

/-!
# The names of a field

A policy looks a field up under several names, and decides by which of them its lists hold. A blocked name refuses
every field that is known by it, and of the names of a field the path is always one.
-/

namespace Sift

namespace Policy

variable {p : Policy} {name : Value} {ref : FieldRef}

/-- Is a field known by a name? -/
def knows (p : Policy) (name : Value) (ref : FieldRef) (known : Value) : Bool :=
  (p.namesOf name (some ref)).any (· == known)

theorem any_contains_comm (xs ys : List Value) :
    xs.any ys.contains = ys.any fun y => xs.any (· == y) := by
  rw [Bool.eq_iff_iff]
  simp only [List.contains_eq_any_beq, List.any_eq_true]
  constructor
  · rintro ⟨x, hx, y, hy, h⟩
    exact ⟨y, hy, x, hx, h⟩
  · rintro ⟨y, hy, x, hx, h⟩
    exact ⟨x, hx, y, hy, h⟩

theorem allows_eq (p : Policy) (name : Value) (ref : FieldRef) :
    p.allows name (some ref) =
      (!p.blocked.any (p.knows name ref) && p.allowed.elim true (·.any (p.knows name ref))) := by
  simp only [allows, any_contains_comm]
  cases h : p.blocked.any (p.knows name ref) with
  | true => exact if_pos h
  | false => exact if_neg (by rw [← Bool.not_eq_true] at h; exact h)

theorem text_mem_foldl {s : String} {names known : List Value} (h : .text s ∈ known ∨ .text s ∈ names) :
    .text s ∈ names.foldl (fun known name => if known.contains name then known else known ++ [name]) known := by
  induction names generalizing known with
  | nil => exact h.resolve_right List.not_mem_nil
  | cons name names ih =>
    simp only [List.foldl_cons]
    refine ih ?_
    rcases h with h | h
    · left
      split
      · exact h
      · exact List.mem_append_left _ h
    · rcases List.mem_cons.mp h with rfl | h
      · left
        split
        · rename_i hc
          rw [List.contains_eq_any_beq, List.any_eq_true] at hc
          obtain ⟨k, hk, he⟩ := hc
          rw [Value.text_beq_iff] at he
          exact he ▸ hk
        · exact List.mem_append_right _ List.mem_cons_self
      · exact Or.inr h

/-- A text is not lost among names that are made distinct: nothing else is equal to it. -/
theorem text_mem_distinct {s : String} {names : List Value} (h : .text s ∈ names) : .text s ∈ distinct names :=
  text_mem_foldl (Or.inr h)

theorem knows_text {s : String} (h : .text s ∈ [name, p.toInternal name, p.toExternal name] ++ p.refNames ref) :
    p.knows name ref (.text s) = true :=
  List.any_eq_true.mpr ⟨.text s, text_mem_distinct h, Value.text_beq_iff.mpr rfl⟩

theorem knows_path (p : Policy) (name : Value) (ref : FieldRef) : p.knows name ref (.text ref.path) = true :=
  knows_text (List.mem_append_right _ List.mem_cons_self)

theorem knows_foreignKey {key : String} (h : ref.foreignKey = .text key) (ne : key ≠ "") :
    p.knows name ref (.text key) = true := by
  have ht : (Value.text key).truthy = true := by simpa [Value.truthy] using ne
  have hm : Value.text key ∈ p.refNames ref := by
    simp only [refNames, h, ht, if_true]
    exact List.mem_cons_of_mem _ List.mem_cons_self
  exact knows_text (List.mem_append_right _ hm)

/-- What is allowed is known by no blocked name. -/
theorem not_mem_blocked_of_knows {known : Value} (h : p.allows name (some ref) = true)
    (hk : p.knows name ref known = true) : known ∉ p.blocked := by
  intro hmem
  rw [allows_eq, List.any_eq_true.mpr ⟨known, hmem, hk⟩] at h
  cases h

end Policy

namespace Section

variable {s : Section} {name : Value} {ref : FieldRef}

/-- Does a name lead to a field that may be used under it? -/
def permits (s : Section) (name : Value) : Bool :=
  match s.resolve name with
  | .ok ref => s.policy.allows name (some ref)
  | .error _ => false

/-- Does a name pass where the policy is asked? -/
def accepts (s : Section) (name : Value) : Prop := ∃ ref, s.field true name = .ok ref

/-- Asks the policy about a name, wherever it leads. -/
def ask (s : Section) (name : Value) : Except Fault Unit := do
  let _ ← s.field true name

theorem permits_eq (h : s.resolve name = .ok ref) : s.permits name = s.policy.allows name (some ref) := by
  simp only [permits, h]

theorem field_false (s : Section) (name : Value) : s.field false name = s.resolve name := by
  simp only [field, Bool.false_eq_true, if_false]
  exact bind_pure _

theorem field_true (h : s.resolve name = .ok ref) :
    s.field true name = if s.permits name then .ok ref
      else .error (.query (.policyViolation name.plain s.place)) := by
  rw [permits_eq h, field, h]
  show (do
    s.policy.check s.place name (some ref)
    return ref) = _
  cases ha : s.policy.allows name (some ref) with
  | true =>
    rw [Policy.check, ha]
    rfl
  | false =>
    rw [Policy.check, ha]
    rfl

theorem field_false_of_true (h : s.field true name = .ok ref) : s.field false name = .ok ref := by
  simp only [field, bind_eq_ok_iff, if_true] at h
  obtain ⟨ref', href, -, -, h⟩ := h
  rw [field_false, href, pure_eq_ok_iff.mp h]

theorem accepts_iff : s.accepts name ↔ s.permits name = true := by
  constructor
  · rintro ⟨ref, h⟩
    have href := field_false_of_true h
    rw [field_false] at href
    rw [field_true href] at h
    split at h
    · assumption
    · cases h
  · intro hp
    cases h : s.resolve name with
    | error e =>
      rw [permits, h] at hp
      cases hp
    | ok ref => exact ⟨ref, by rw [field_true h, if_pos hp]⟩

theorem ask_eq_ok_iff : s.ask name = .ok () ↔ s.permits name = true := by
  rw [← accepts_iff]
  simp only [ask, accepts, bind_eq_ok_iff, pure_eq_ok_iff, and_true]

theorem ask_eq_error (h : s.resolve name = .ok ref) (hp : s.permits name = false) :
    s.ask name = .error (.query (.policyViolation name.plain s.place)) := by
  rw [ask, field_true h, hp]
  rfl

theorem field_true_eq (h : s.field false name = .ok ref) : s.field true name = (do s.ask name; return ref) := by
  rw [field_false] at h
  rw [ask, field_true h]
  split
  · rfl
  · rfl

end Section

end Sift
