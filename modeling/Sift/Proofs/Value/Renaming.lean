import Sift.Proofs.Value.Keys

/-!
# Keys under other names

The keys of an entity mean nothing by themselves: others would do, as long as they are as many. A renaming gives every
key another one, and null, which is no key, stays null.
-/

namespace Sift

/-- Other keys for the keys of each entity. What is equal stays equal, and what is not does not become so. -/
structure KeyRenaming where
  rename : Value → Value → Value
  isKey : ∀ entity v, v.isKey = true → (rename entity v).isKey = true
  beq : ∀ entity v w, v.isKey = true → w.isKey = true → (rename entity v == rename entity w) = (v == w)
  null : ∀ entity, rename entity .null = .null

namespace KeyRenaming

variable (ρ : KeyRenaming)

/-- What is known of the keys, told of their new names. -/
def ofKnown (known : Value → Row) (entity : Value) : Row :=
  (known entity).map fun (k, v) => (ρ.rename entity k, v)

variable {ρ} {known : Value → Row} {entity v : Value}

theorem rename_eq_null_iff (hv : v.isKey = true) : ρ.rename entity v = .null ↔ v = .null := by
  rw [← Value.beq_null_iff, ← Value.beq_null_iff, ← ρ.null entity, ρ.beq entity v .null hv rfl, ρ.null]

/-- A key is known under its new name as it was under the old one. -/
theorem get?_ofKnown (hknown : ∀ e ∈ known entity, e.1.isKey = true) (hv : v.isKey = true) :
    (ρ.ofKnown known entity).get? (ρ.rename entity v) = (known entity).get? v := by
  unfold ofKnown
  generalize known entity = table at hknown
  induction table with
  | nil => rfl
  | cons e table ih =>
    obtain ⟨he, htable⟩ := List.forall_mem_cons.mp hknown
    simp only [List.map_cons, Table.get?, ρ.beq entity v e.1 hv he, ih htable]

/-! ## Exchanging two keys -/

/-- Exchanges two numbers. -/
def exchanged (m n : Int) (v : Value) : Value :=
  if v == .int m then .int n else if v == .int n then .int m else v

variable {m n : Int} {w : Value}

theorem int_beq_self (n : Int) : (Value.int n == .int n) = true := (Value.beq_iff_face? rfl).mpr ⟨_, rfl, rfl⟩

theorem isKey_exchanged (hv : v.isKey = true) : (exchanged m n v).isKey = true := by
  unfold exchanged
  split
  · rfl
  · split
    · rfl
    · exact hv

/-- What takes the place of the first number equals what that number equals. -/
theorem second_beq_exchanged (hw : w.isKey = true) : (.int n == exchanged m n w) = (.int m == w) := by
  unfold exchanged
  rw [Value.beq_comm (v := .int m) rfl hw]
  split
  · rename_i hm
    rw [int_beq_self, hm]
  · rename_i hm
    split
    · rename_i hn
      rw [Value.beq_congr_left hw rfl hn]
    · rename_i hn
      rw [Value.beq_comm (v := .int n) rfl hw, Bool.eq_false_iff.mpr hm, Bool.eq_false_iff.mpr hn]

/-- What takes the place of the second number equals what that number equals. -/
theorem first_beq_exchanged (hw : w.isKey = true) : (.int m == exchanged m n w) = (.int n == w) := by
  unfold exchanged
  rw [Value.beq_comm (v := .int n) rfl hw]
  split
  · rename_i hm
    rw [Value.beq_congr_left hw rfl hm]
  · rename_i hm
    split
    · rename_i hn
      rw [int_beq_self, hn]
    · rename_i hn
      rw [Value.beq_comm (v := .int m) rfl hw, Bool.eq_false_iff.mpr hm, Bool.eq_false_iff.mpr hn]

theorem exchanged_beq_exchanged (hv : v.isKey = true) (hw : w.isKey = true) :
    (exchanged m n v == exchanged m n w) = (v == w) := by
  rw [exchanged]
  split
  · rename_i hm
    rw [second_beq_exchanged hw, Value.beq_congr_left hv rfl hm]
  · rename_i hm
    split
    · rename_i hn
      rw [first_beq_exchanged hw, Value.beq_congr_left hv rfl hn]
    · rename_i hn
      unfold exchanged
      split
      · rename_i hwm
        rw [Value.beq_congr_right hv hw hwm, Bool.eq_false_iff.mpr hm, Bool.eq_false_iff.mpr hn]
      · split
        · rename_i hwn
          rw [Value.beq_congr_right hv hw hwn, Bool.eq_false_iff.mpr hm, Bool.eq_false_iff.mpr hn]
        · rfl

/-- Exchanges two numbers that are keys of any entity. -/
def exchange (m n : Int) : KeyRenaming where
  rename _ := exchanged m n
  isKey _ _ := isKey_exchanged
  beq _ _ _ := exchanged_beq_exchanged
  null _ := by
    have hnull (k : Int) : ¬ (Value.null == .int k) = true := fun h => nomatch Value.null_beq_iff.mp h
    rw [exchanged, if_neg (hnull m), if_neg (hnull n)]

end KeyRenaming

end Sift
