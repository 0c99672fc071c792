import Sift.Proofs.Number.Quotient
import Sift.Proofs.Number.Size
import Sift.Proofs.Outcome

/-!
# Quantities that are integers

A truth value or an integer is a quantity with a whole number in it. On these, products, comparisons and the number of
pages are the exact ones.
-/

namespace Sift.Quantity

variable {q r : Quantity} {a b : Int}

theorem times_of_integer? (h : q.integer? = some a) (n : Int) : times n q = .ok (.whole (n * a)) := by
  cases q with
  | flag t =>
    cases Option.some.inj h
    cases t
    · exact congrArg (fun m => Except.ok (Quantity.whole m)) (Int.mul_zero n).symm
    · exact congrArg (fun m => Except.ok (Quantity.whole m)) (Int.mul_one n).symm
  | whole m =>
    cases Option.some.inj h
    rfl
  | binary x => cases h
  | decimal d => cases h

theorem truncated_of_integer? (h : q.integer? = some a) : q.truncated = .ok a := by
  cases q <;> cases h <;> rfl

theorem size?_of_integer? (h : q.integer? = some a) : q.size? = some (.ofInt a) := by
  cases q <;> cases h <;> rfl

theorem before_iff (hq : q.integer? = some a) (hr : r.integer? = some b) : q.before r = true ↔ a < b := by
  simp only [before, size?_of_integer? hq, size?_of_integer? hr, Size.before_ofInt_iff]

theorem requirePositive_of_integer? (h : q.integer? = some a) (hpos : 0 < a) : q.requirePositive = .ok q := by
  have hbefore : (whole 0).before q = true := (before_iff rfl h).mpr hpos
  cases q with
  | decimal d => cases h
  | _ => simp only [requirePositive, hbefore, if_true]

theorem fills_whole (h : q.integer? = some a) (n : Int) :
    (whole n).fills q = (ratio n a >>= Binary64.ceiling).mapError Fault.ofArithmetic := by
  cases q <;> cases h <;> rfl

/-- The number of times that a positive integer goes into a count, rounded up. -/
theorem fills_whole_natCast {n s : Nat} (h : q.integer? = some (s : Int)) (hn : n ≤ 2 ^ 53) (hs : 0 < s) :
    ∃ k, (whole n).fills q = .ok k ∧ ∀ c : Nat, 1 ≤ c → (k ≤ c ↔ n ≤ c * s) := by
  obtain ⟨k, hk, hle⟩ := ratio_ceiling hn hs
  exact ⟨k, by rw [fills_whole h, hk]; rfl, hle⟩

theorem truncated_of_not_truthy {n : Int} (h : q.toValue.truthy = false)
    (hn : q.truncated = .ok n) : n = 0 := by
  cases q with
  | flag b =>
    obtain rfl : b = false := h
    cases hn
    rfl
  | whole m =>
    obtain rfl : m = 0 := by simpa only [toValue, Value.truthy, bne_eq_false_iff_eq] using h
    cases hn
    rfl
  | binary x =>
    cases x with
    | finite negative m e =>
      obtain rfl : m = 0 := by simpa only [toValue, Value.truthy, bne_eq_false_iff_eq] using h
      simp only [truncated, Binary64.truncated, Except.mapError, Int.natCast_zero, Int.zero_mul, Int.zero_ediv,
        Int.neg_zero, ite_self, Except.ok.injEq] at hn
      exact hn.symm
    | _ => cases h
  | decimal d =>
    cases d with
    | finite negative c x =>
      obtain rfl : c = 0 := by simpa only [toValue, Value.truthy, bne_eq_false_iff_eq] using h
      have hwhole : (Decimal.whole 0 x).1 = 0 := by
        unfold Decimal.whole
        split
        · exact Nat.zero_mul _
        · rfl
      simp only [truncated, Decimal.truncated, Except.mapError, hwhole, Int.natCast_zero, Int.neg_zero, ite_self,
        Except.ok.injEq] at hn
      exact hn.symm
    | _ => cases h

end Sift.Quantity
