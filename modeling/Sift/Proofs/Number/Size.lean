import Mathlib.Algebra.Order.Field.Power
import Mathlib.Algebra.Order.Ring.Rat
import Mathlib.Tactic.Linarith
import Mathlib.Tactic.Positivity
import Sift.Number.Size

/-!
# Sizes as rational numbers

Sizes are compared by their digits: no power of ten is computed that the shorter of two numbers does not ask for. What
comes out is the order of the rational numbers that they stand for, and one number has one size.
-/

namespace Sift

theorem tenTo_eq (n : Nat) : tenTo n = 10 ^ n := rfl

theorem splitTens_fst_mul (n : Nat) : (splitTens n).1 * 10 ^ (splitTens n).2 = n := by
  fun_induction splitTens n with
  | case1 n h m k hs ih =>
    rw [hs] at ih
    simp only at ih ⊢
    rw [Nat.pow_succ, ← Nat.mul_assoc, ih]
    omega
  | case2 n h => simp

theorem splitTens_fst_mod {n : Nat} (hn : n ≠ 0) : (splitTens n).1 % 10 ≠ 0 := by
  fun_induction splitTens n with
  | case1 n h m k hs ih =>
    rw [hs] at ih
    exact ih (by omega)
  | case2 n h =>
    intro h0
    exact h ⟨hn, h0⟩

namespace Size

/-- The rational number that is so many times a power of ten. -/
def scaled (coefficient exponent : Int) : Rat := coefficient * 10 ^ exponent

theorem scaled_zero (x : Int) : scaled 0 x = 0 := by
  simp only [scaled, Int.cast_zero, zero_mul]

theorem scaled_int (n : Int) : scaled n 0 = n := by
  simp only [scaled, zpow_zero, mul_one]

theorem scaled_pos {c x : Int} (h : 0 < c) : 0 < scaled c x :=
  mul_pos (Int.cast_pos.mpr h) (by positivity)

theorem scaled_neg (c x : Int) : scaled (-c) x = -scaled c x := by
  simp only [scaled, Int.cast_neg, neg_mul]

/-- A number with its power of ten moved into the coefficient. -/
theorem scaled_eq {c x low : Int} (h : low ≤ x) : scaled c x = scaled (c * tenTo (x - low).toNat) low := by
  have hx : x = ((x - low).toNat : Int) + low := by omega
  simp only [scaled, tenTo_eq]
  rw [hx, zpow_add₀ (by norm_num), zpow_natCast]
  push_cast
  rw [mul_assoc]
  congr 4
  omega

/-! ## Order -/

theorem order_neg (c x : Int) : order (-c) x = order c x := by
  simp only [order, Int.natAbs_neg]

theorem pow_length_bounds {n : Nat} (hn : 0 < n) :
    10 ^ ((toString n).length - 1) ≤ n ∧ n < 10 ^ (toString n).length := by
  have hpos : 0 < (toString n).length := Nat.length_repr_pos
  refine ⟨?_, (Nat.length_repr_le_iff hpos).mp le_rfl⟩
  rcases Nat.eq_zero_or_pos ((toString n).length - 1) with h0 | h1
  · rw [h0]
    exact hn
  · by_contra hlt
    have hle : (toString n).length ≤ (toString n).length - 1 := (Nat.length_repr_le_iff h1).mpr (by omega)
    omega

/-- The size of a number lies between the powers of ten around the place of its first digit. -/
theorem order_bounds {c : Int} (x : Int) (hc : 0 < c) :
    (10 : Rat) ^ (order c x - 1) ≤ scaled c x ∧ scaled c x < 10 ^ order c x := by
  obtain ⟨n, rfl⟩ := Int.eq_ofNat_of_zero_le hc.le
  obtain ⟨hlow, hhigh⟩ := pow_length_bounds (show 0 < n by omega)
  have hpos : 0 < (toString n).length := Nat.length_repr_pos
  have hten : (0 : Rat) < 10 ^ x := by positivity
  have hlast : order n x - 1 = (((toString n).length - 1 : Nat) : Int) + x := by
    simp only [order, Int.natAbs_natCast]
    omega
  have hfirst : order n x = ((toString n).length : Int) + x := rfl
  rw [hlast, hfirst, zpow_add₀ (by norm_num), zpow_add₀ (by norm_num), zpow_natCast, zpow_natCast, scaled,
    mul_le_mul_iff_left₀ hten, mul_lt_mul_iff_left₀ hten]
  exact ⟨by exact_mod_cast hlow, by exact_mod_cast hhigh⟩

/-- A positive number whose first digit stands farther right is smaller. -/
theorem scaled_lt_of_order_lt {c d x y : Int} (hc : 0 < c) (hd : 0 < d) (h : order c x < order d y) :
    scaled c x < scaled d y :=
  calc scaled c x < 10 ^ order c x := (order_bounds x hc).2
    _ ≤ 10 ^ (order d y - 1) := zpow_le_zpow_right₀ (by norm_num) (by omega)
    _ ≤ scaled d y := (order_bounds y hd).1

theorem scaled_lt_iff_order_lt {c d x y : Int} (hc : 0 < c) (hd : 0 < d) (h : order c x ≠ order d y) :
    scaled c x < scaled d y ↔ order c x < order d y := by
  constructor
  · intro hlt
    by_contra hle
    exact lt_asymm hlt (scaled_lt_of_order_lt hd hc (by omega))
  · exact scaled_lt_of_order_lt hc hd

theorem scaled_lt_iff {c d x y low : Int} (hx : low ≤ x) (hy : low ≤ y) :
    scaled c x < scaled d y ↔ c * tenTo (x - low).toNat < d * tenTo (y - low).toNat := by
  have hten : (0 : Rat) < 10 ^ low := by positivity
  rw [scaled_eq hx, scaled_eq hy, scaled, scaled, mul_lt_mul_iff_left₀ hten, Int.cast_lt]

/-- A number of a smaller sign is smaller. -/
theorem scaled_lt_of_sign_lt {c d : Int} (x y : Int) (h : c.sign < d.sign) : scaled c x < scaled d y := by
  have hnonneg {c : Int} (x : Int) (hc : 0 ≤ c) : 0 ≤ scaled c x := by
    rcases hc.eq_or_lt with rfl | hc
    · exact (scaled_zero x).ge
    · exact (scaled_pos hc).le
  have hneg {c : Int} (x : Int) (hc : c < 0) : scaled c x < 0 := by
    have hpos := scaled_pos (x := x) (Int.neg_pos_of_neg hc)
    rw [scaled_neg] at hpos
    linarith
  rcases Int.lt_or_le c 0 with hc | hc
  · rcases Int.lt_or_le d 0 with hd | hd
    · rw [Int.sign_eq_neg_one_of_neg hc, Int.sign_eq_neg_one_of_neg hd] at h
      exact absurd h (lt_irrefl _)
    · exact (hneg x hc).trans_le (hnonneg y hd)
  · rcases hc.eq_or_lt with rfl | hc
    · rw [scaled_zero]
      exact scaled_pos (Int.sign_pos_iff.mp h)
    · rw [Int.sign_eq_one_of_pos hc] at h
      rcases d.sign_trichotomy with hd | hd | hd <;> omega

/-- Finite sizes are compared as the numbers they stand for. -/
theorem before_finite_iff {c d x y : Int} :
    (finite c x).before (finite d y) = true ↔ scaled c x < scaled d y := by
  simp only [before]
  split
  · rename_i hs
    rw [decide_eq_true_iff]
    constructor
    · exact scaled_lt_of_sign_lt x y
    · intro hlt
      by_contra hle
      exact lt_asymm hlt (scaled_lt_of_sign_lt y x (by omega))
  rename_i hs
  rw [not_not] at hs
  split
  · rename_i h0
    obtain rfl : d = 0 := Int.sign_eq_zero_iff_zero.mp (by rw [← hs, h0, Int.sign_zero])
    simp only [h0, scaled_zero, lt_irrefl, Bool.false_eq_true]
  rename_i h0
  split
  · rename_i ho
    rcases Int.lt_or_gt_of_ne h0 with hc | hc
    · -- below zero the longer number is the smaller one
      have hd : d < 0 := Int.neg_of_sign_eq_neg_one (by rw [← hs, Int.sign_eq_neg_one_of_neg hc])
      have hflip := scaled_lt_iff_order_lt (x := y) (y := x) (Int.neg_pos_of_neg hd) (Int.neg_pos_of_neg hc)
        (by rw [order_neg, order_neg]; exact ho.symm)
      rw [scaled_neg, scaled_neg, neg_lt_neg_iff, order_neg, order_neg] at hflip
      rw [hflip, decide_eq_true hc, Bool.bne_true, Bool.not_eq_true', decide_eq_false_iff_not]
      omega
    · have hd : 0 < d := Int.pos_of_sign_eq_one (by rw [← hs, Int.sign_eq_one_of_pos hc])
      rw [scaled_lt_iff_order_lt hc hd ho, decide_eq_false hc.not_gt, Bool.bne_false, decide_eq_true_iff]
  · rw [decide_eq_true_iff, scaled_lt_iff (min_le_left x y) (min_le_right x y)]

/-! ## One form -/

def signed (negative : Bool) (n : Nat) : Int := if negative then -(n : Int) else n

theorem signed_natAbs (n : Int) : signed (decide (n < 0)) n.natAbs = n := by
  simp only [signed, decide_eq_true_eq]
  omega

/-- A size whose coefficient keeps no zeros at its end. -/
def Normal (coefficient exponent : Int) : Prop :=
  coefficient % 10 ≠ 0 ∨ coefficient = 0 ∧ exponent = 0

theorem exists_ofScaled (negative : Bool) (c : Nat) (x : Int) :
    ∃ d y, ofScaled negative c x = .finite d y ∧ scaled d y = scaled (signed negative c) x ∧ Normal d y := by
  by_cases h : c = 0
  · refine ⟨0, 0, by simp only [ofScaled, if_pos h], ?_, .inr ⟨rfl, rfl⟩⟩
    simp only [h, signed, Int.natCast_zero, Int.neg_zero, ite_self, scaled_zero]
  · refine ⟨signed negative (splitTens c).1, x + (splitTens c).2, ?_, ?_, .inl ?_⟩
    · simp only [ofScaled, if_neg h, signed]
    · have hsplit := splitTens_fst_mul c
      rw [scaled_eq (show x ≤ x + _ by omega), add_sub_cancel_left, Int.toNat_natCast, tenTo_eq]
      congr 1
      cases negative
      · simp only [signed, Bool.false_eq_true, if_false]
        exact_mod_cast hsplit
      · simp only [signed, if_true, Int.neg_mul, Int.neg_inj]
        exact_mod_cast hsplit
    · have hmod := splitTens_fst_mod h
      cases negative <;> simp only [signed] <;> omega

theorem Normal.eq_of_scaled_eq {c d x y : Int} (hc : Normal c x) (hd : Normal d y) (h : scaled c x = scaled d y) :
    c = d ∧ x = y := by
  -- the one with the larger exponent would end in zero
  wlog hle : x ≤ y generalizing c d x y
  · obtain ⟨hdc, hyx⟩ := this hd hc h.symm (by omega)
    exact ⟨hdc.symm, hyx.symm⟩
  have hten : (10 : Rat) ^ x ≠ 0 := by positivity
  have hcd : c = d * tenTo (y - x).toNat := by
    rw [scaled_eq hle, scaled, scaled] at h
    exact_mod_cast mul_right_cancel₀ hten h
  rcases hle.eq_or_lt with rfl | hlt
  · rw [Int.sub_self, Int.toNat_zero] at hcd
    exact ⟨by rw [hcd]; exact Int.mul_one d, rfl⟩
  · obtain ⟨k, hk⟩ : ∃ k, (y - x).toNat = k + 1 := ⟨(y - x).toNat - 1, by omega⟩
    have hzero : c % 10 = 0 := by
      rw [hcd, hk, tenTo_eq, Nat.pow_succ]
      push_cast
      rw [← mul_assoc]
      exact Int.mul_emod_left _ _
    rcases hc with hc | ⟨rfl, rfl⟩
    · exact absurd hzero hc
    · have hd0 : d = 0 := by
        rcases Int.mul_eq_zero.mp hcd.symm with h | h
        · exact h
        · rw [tenTo_eq] at h
          exact absurd h (by positivity)
      rcases hd with hd | ⟨-, rfl⟩
      · rw [hd0] at hd
        exact absurd rfl hd
      · exact absurd hlt (lt_irrefl _)

/-- Finite numbers have one size exactly if they are equal. -/
theorem ofScaled_eq_iff {s t : Bool} {c d : Nat} {x y : Int} :
    ofScaled s c x = ofScaled t d y ↔ scaled (signed s c) x = scaled (signed t d) y := by
  obtain ⟨c', x', hc, hcv, hcn⟩ := exists_ofScaled s c x
  obtain ⟨d', y', hd, hdv, hdn⟩ := exists_ofScaled t d y
  rw [hc, hd, ← hcv, ← hdv]
  constructor
  · rintro ⟨rfl, rfl⟩
    rfl
  · intro h
    obtain ⟨rfl, rfl⟩ := hcn.eq_of_scaled_eq hdn h
    rfl

theorem before_ofInt_iff {a b : Int} : (ofInt a).before (ofInt b) = true ↔ a < b := by
  obtain ⟨c, x, ha, hav, -⟩ := exists_ofScaled (a < 0) a.natAbs 0
  obtain ⟨d, y, hb, hbv, -⟩ := exists_ofScaled (b < 0) b.natAbs 0
  rw [ofInt, ofInt, ha, hb, before_finite_iff, hav, hbv, signed_natAbs, signed_natAbs, scaled_int, scaled_int,
    Int.cast_lt]

end Size

end Sift
