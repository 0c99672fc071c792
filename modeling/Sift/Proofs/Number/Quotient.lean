import Mathlib.Tactic.Ring
import Mathlib.Tactic.Linarith
import Mathlib.Algebra.Order.Ring.Nat
import Sift.Request.Quantity

/-!
# Quotients

The number of pages is a quotient that is rounded twice: to a binary number, then up to an integer. As long as the
dividend has no more than 53 bits both roundings together are the exact one, however large the divisor is. A binary
number is never rounded past an integer, and what is left of the quotient above one is more than half of the last place
of its mantissa.
-/

namespace Sift

theorem twoTo_eq (n : Nat) : twoTo n = 2 ^ n := rfl

/-! ## To the nearest integer -/

theorem roundedQuotient_le {num den r : Nat} (hd : 0 < den) (h : num ≤ r * den) : roundedQuotient num den ≤ r := by
  have hq : num / den ≤ r := Nat.div_le_of_le_mul (by rwa [Nat.mul_comm])
  have hsplit := Nat.div_add_mod num den
  rcases Nat.lt_or_eq_of_le hq with hlt | heq
  · unfold roundedQuotient
    grind
  · -- nothing is left over
    have hr : num % den = 0 := by
      rw [heq, Nat.mul_comm] at hsplit
      omega
    simp only [roundedQuotient, hr, Nat.mul_zero, if_pos hd, heq, Nat.le_refl]

theorem lt_roundedQuotient {num den r : Nat} (hd : 0 < den) (h : (2 * r + 1) * den < 2 * num) :
    r < roundedQuotient num den := by
  have hsplit := Nat.div_add_mod num den
  have hle : r ≤ num / den := (Nat.le_div_iff_mul_le hd).mpr (by linarith)
  rcases Nat.lt_or_eq_of_le hle with hlt | heq
  · unfold roundedQuotient
    grind
  · -- more than half of the divisor is left over
    have hr : den < 2 * (num % den) := by
      rw [← heq] at hsplit
      linarith
    have hn : ¬ 2 * (num % den) < den := by omega
    simp only [roundedQuotient, if_neg hn, if_pos hr, ← heq]
    omega

/-! ## To the nearest binary number -/

namespace Binary64

/-- The quotient of two numbers is at least the power of two of its order. -/
theorem binaryOrder_le {num : Nat} (den : Nat) (hn : 0 < num) :
    den * 2 ^ (binaryOrder num den).toNat ≤ num * 2 ^ (-binaryOrder num den).toNat := by
  by_cases h : den * twoTo ((num.log2 : Int) - den.log2).toNat ≤ num * twoTo (-((num.log2 : Int) - den.log2)).toNat
  · simp only [binaryOrder, if_pos h]
    exact h
  · simp only [binaryOrder, if_neg h]
    -- one less is low enough whatever the leading digits are
    have hnum : 2 ^ num.log2 ≤ num := Nat.log2_self_le hn.ne'
    have hden : den < 2 ^ (den.log2 + 1) := Nat.lt_log2_self
    rcases Nat.lt_or_ge den.log2 num.log2 with hlt | hge
    · have h₁ : ((num.log2 : Int) - den.log2 - 1).toNat = num.log2 - den.log2 - 1 := by omega
      have h₂ : (-((num.log2 : Int) - den.log2 - 1)).toNat = 0 := by omega
      rw [h₁, h₂, Nat.pow_zero, Nat.mul_one]
      calc den * 2 ^ (num.log2 - den.log2 - 1)
          ≤ 2 ^ (den.log2 + 1) * 2 ^ (num.log2 - den.log2 - 1) := Nat.mul_le_mul_right _ hden.le
        _ = 2 ^ num.log2 := by rw [← Nat.pow_add]; congr 1; omega
        _ ≤ num := hnum
    · have h₁ : ((num.log2 : Int) - den.log2 - 1).toNat = 0 := by omega
      have h₂ : (-((num.log2 : Int) - den.log2 - 1)).toNat = den.log2 - num.log2 + 1 := by omega
      rw [h₁, h₂, Nat.pow_zero, Nat.mul_one]
      calc den ≤ 2 ^ (den.log2 + 1) := hden.le
        _ = 2 ^ num.log2 * 2 ^ (den.log2 - num.log2 + 1) := by rw [← Nat.pow_add]; congr 1; omega
        _ ≤ num * 2 ^ (den.log2 - num.log2 + 1) := Nat.mul_le_mul_right _ hnum

/-- Doubling a mantissa is the same as adding one to its exponent. -/
theorem scaled_succ_le_iff (m c : Nat) (e : Int) :
    m * 2 ^ (e + 1).toNat ≤ c * 2 ^ (-(e + 1)).toNat ↔ 2 * m * 2 ^ e.toNat ≤ c * 2 ^ (-e).toNat := by
  rcases Int.lt_or_le e 0 with he | he
  · have h₁ : (-e).toNat = (-(e + 1)).toNat + 1 := by omega
    have h₂ : (e + 1).toNat = 0 := by omega
    have h₃ : e.toNat = 0 := by omega
    rw [h₁, h₂, h₃, Nat.pow_succ]
    constructor <;> intro h <;> linarith
  · have h₁ : (e + 1).toNat = e.toNat + 1 := by omega
    have h₂ : (-(e + 1)).toNat = 0 := by omega
    have h₃ : (-e).toNat = 0 := by omega
    rw [h₁, h₂, h₃, Nat.pow_succ]
    constructor <;> intro h <;> linarith

/-- No positive integer tells the number apart from a quotient: the one is above it exactly when the other is. -/
def Tight (x : Binary64) (num den : Nat) : Prop :=
  ∃ m e, x = .finite false m e ∧ ∀ c, 1 ≤ c → (m * 2 ^ e.toNat ≤ c * 2 ^ (-e).toNat ↔ num ≤ c * den)

theorem tight_normal {m num den : Nat} {e : Int} (he : e + 1 ≤ maxExponent)
    (h : ∀ c, 1 ≤ c → (m * 2 ^ e.toNat ≤ c * 2 ^ (-e).toNat ↔ num ≤ c * den)) :
    Tight (let (m, e) := if m = twoTo 53 then (twoTo 52, e + 1) else (m, e)
      if maxExponent < e then .infinite false else .finite false m e) num den := by
  by_cases hm : m = twoTo 53
  · simp only [if_pos hm, if_neg (Int.not_lt.mpr he)]
    refine ⟨_, _, rfl, fun c hc => ?_⟩
    rw [← h c hc, hm, twoTo_eq, twoTo_eq, scaled_succ_le_iff, ← Nat.pow_succ']
  · simp only [if_neg hm, if_neg (show ¬ maxExponent < e by omega)]
    exact ⟨m, e, rfl, h⟩

/-- What is left of a quotient above an integer is not lost in rounding. -/
theorem lt_scaled {num den c k : Nat} (hc : c * den < num) (hk : den ≤ 2 ^ (k + 1))
    (heq : den = 2 ^ (k + 1) → den ∣ num) (hd : 0 < den) : c * 2 ^ k < roundedQuotient (num * 2 ^ k) den := by
  refine lt_roundedQuotient hd ?_
  obtain ⟨rest, rfl⟩ := Nat.exists_eq_add_of_lt hc
  have hrest : den < 2 ^ (k + 1) * (rest + 1) := by
    rcases Nat.lt_or_eq_of_le hk with hlt | he
    · exact Nat.lt_of_lt_of_le hlt (Nat.le_mul_of_pos_right _ (by omega))
    · have hdvd : den ∣ rest + 1 := by
        have := heq he
        rwa [Nat.add_assoc, Nat.dvd_add_right (Nat.dvd_mul_left den c)] at this
      have hle : den ≤ rest + 1 := Nat.le_of_dvd (by omega) hdvd
      have h2 : 2 ≤ 2 ^ (k + 1) := Nat.le_self_pow (by omega) 2
      nlinarith
  rw [Nat.pow_succ] at hrest
  nlinarith

/-- A divisor is no larger than the power of two that a mantissa is scaled by, and where it is as large it divides
evenly. -/
theorem den_le_twoTo {num den k : Nat} {o : Int} (hle : num ≤ 2 ^ 53)
    (horder : den * 2 ^ o.toNat ≤ num * 2 ^ (-o).toNat) (hlt : den < num) (hk : k = 1074 ∨ (k : Int) = 52 - o) :
    den ≤ 2 ^ (k + 1) ∧ (den = 2 ^ (k + 1) → den ∣ num) := by
  rcases Nat.lt_or_ge k 52 with hk52 | hk52
  · have h₁ : (-o).toNat = 0 := by omega
    have h₂ : 2 ^ 53 = 2 ^ (k + 1) * 2 ^ o.toNat := by
      rw [← Nat.pow_add]
      congr 1
      omega
    rw [h₁, Nat.pow_zero, Nat.mul_one] at horder
    rw [h₂] at hle
    refine ⟨Nat.le_of_mul_le_mul_right (Nat.le_trans horder hle) (Nat.two_pow_pos _), fun heq => ?_⟩
    rw [← heq] at hle
    exact ⟨2 ^ o.toNat, Nat.le_antisymm hle horder⟩
  · have : 2 ^ 53 ≤ 2 ^ (k + 1) := Nat.pow_le_pow_right (by decide) (by omega)
    omega

theorem tight_ofRatio {num den : Nat} (hn : 0 < num) (hle : num ≤ 2 ^ 53) (hd : 0 < den) :
    Tight (ofRatio false num den) num den := by
  have horder := binaryOrder_le den hn
  unfold ofRatio
  rw [if_neg hn.ne']
  generalize binaryOrder num den = o at horder ⊢
  rcases Int.lt_or_le 52 o with hbig | hsmall
  · -- only the largest number is that far above its divisor
    have h₁ : (-o).toNat = 0 := by omega
    have h₂ : 2 ^ 53 ≤ 2 ^ o.toNat := Nat.pow_le_pow_right (by decide) (by omega)
    rw [h₁, Nat.pow_zero, Nat.mul_one] at horder
    obtain rfl : den = 1 := by nlinarith
    have hnum : num = 2 ^ 53 := by omega
    obtain rfl : o = 53 := by
      have hlt : 2 ^ o.toNat < 2 ^ 54 := by omega
      have := (Nat.pow_lt_pow_iff_right (by decide)).mp hlt
      omega
    subst hnum
    refine ⟨2 ^ 52, 1, by decide, fun c _ => ?_⟩
    show 2 ^ 52 * 2 ^ 1 ≤ c * 2 ^ 0 ↔ 2 ^ 53 ≤ c * 1
    omega
  · have hmin : minExponent = -1074 := rfl
    obtain ⟨k, hk, hcase⟩ : ∃ k : Nat, max minExponent (o - 52) = -(k : Int) ∧ (k = 1074 ∨ (k : Int) = 52 - o) := by
      rcases Int.le_total (-1074) (o - 52) with h | h
      · exact ⟨(52 - o).toNat, by omega, by omega⟩
      · exact ⟨1074, by omega, by omega⟩
    have h₁ : (-(k : Int)).toNat = 0 := by omega
    simp only [hk, Int.neg_neg, Int.toNat_natCast, h₁]
    refine tight_normal (by rw [maxExponent]; omega) fun c hc => ?_
    simp only [Int.neg_neg, Int.toNat_natCast, h₁, Nat.pow_zero, Nat.mul_one, twoTo_eq]
    constructor
    · intro h
      by_contra hlt
      have hlt : c * den < num := by omega
      have hsmaller : den < num := Nat.lt_of_le_of_lt (Nat.le_mul_of_pos_left den hc) hlt
      obtain ⟨hpow, heq⟩ := den_le_twoTo hle horder hsmaller hcase
      exact Nat.lt_irrefl _ (Nat.lt_of_le_of_lt h (lt_scaled hlt hpow heq hd))
    · intro h
      refine roundedQuotient_le hd ?_
      calc num * 2 ^ k ≤ c * den * 2 ^ k := Nat.mul_le_mul_right _ h
        _ = c * 2 ^ k * den := by ring

/-! ## Up to the next integer -/

theorem ceil?_le_iff {x : Binary64} {num den : Nat} (h : Tight x num den) :
    ∃ n, x.ceil? = some n ∧ ∀ c : Nat, 1 ≤ c → (n ≤ c ↔ num ≤ c * den) := by
  obtain ⟨m, e, rfl, hx⟩ := h
  refine ⟨_, rfl, fun c hc => ?_⟩
  have hpos : (0 : Int) < (2 ^ (-e).toNat : Nat) := by exact_mod_cast Nat.two_pow_pos _
  rw [← hx c hc, if_neg (by decide), twoTo_eq, twoTo_eq, Int.neg_le_iff, Int.le_ediv_iff_mul_le hpos]
  constructor
  · intro hle
    have : (m * 2 ^ e.toNat : Int) ≤ c * (2 ^ (-e).toNat : Nat) := by push_cast at hle ⊢; linarith
    exact_mod_cast this
  · intro hle
    have : (m * 2 ^ e.toNat : Int) ≤ c * (2 ^ (-e).toNat : Nat) := by exact_mod_cast hle
    push_cast at this ⊢
    linarith

end Binary64

namespace Quantity

/-- The least number of pages is the least one that holds all rows, where these are no more than a binary number can
count. -/
theorem ratio_ceiling {n s : Nat} (hn : n ≤ 2 ^ 53) (hs : 0 < s) :
    ∃ q, (ratio n s >>= Binary64.ceiling) = .ok q ∧ ∀ c : Nat, 1 ≤ c → (q ≤ c ↔ n ≤ c * s) := by
  rcases Nat.eq_zero_or_pos n with rfl | hpos
  · have hzero (negative : Bool) : Binary64.ceiling (Binary64.zero negative) = .ok 0 := by
      simp only [Binary64.ceiling, Binary64.ceil?, Binary64.zero, Int.natCast_zero, Int.zero_mul, Int.neg_zero,
        Int.zero_ediv, ite_self]
    refine ⟨0, hzero _, fun c _ => ?_⟩
    omega
  · have htight := Binary64.tight_ofRatio hpos hn hs
    obtain ⟨q, hq, hle⟩ := Binary64.ceil?_le_iff htight
    obtain ⟨m, e, hx, -⟩ := htight
    have hn0 : ¬ (n : Int) < 0 := by omega
    have hs0 : ¬ (s : Int) < 0 := by omega
    have hratio : ratio n s = .ok (.finite false m e) := by
      simp only [ratio, hn0, hs0, decide_false, bne_self_eq_false, Int.natAbs_natCast, hx]
    refine ⟨q, ?_, hle⟩
    rw [hx] at hq
    simp only [hratio, bind, Except.bind, Binary64.ceiling, hq]

end Quantity

end Sift
