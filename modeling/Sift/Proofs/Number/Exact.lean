import Sift.Proofs.Number.Quotient
import Sift.Proofs.Value.Numbers

/-!
# Integers as binary numbers

The number nearest to an integer is the integer itself exactly where 53 bits hold all but the zeros at its end, and it
is not too large. Of any other integer something is lost, or all of it.
-/

namespace Sift

theorem roundedQuotient_mul (q : Nat) {den : Nat} (hd : 0 < den) : roundedQuotient (q * den) den = q := by
  simp only [roundedQuotient, Nat.mul_mod_left, Nat.mul_zero, if_pos hd, Nat.mul_div_cancel q hd]

namespace Binary64

/-- Is the integer a mantissa of 53 bits times a power of two, neither of which is too large? -/
def Representable (n : Int) : Prop := ∃ m e : Nat, m < 2 ^ 53 ∧ e ≤ 971 ∧ n.natAbs = m * 2 ^ e

variable {negative : Bool} {m m' c : Nat} {e e' : Int}

/-- The number of a rounded mantissa, which may have become a power of two that is one bit longer. -/
def carried (negative : Bool) (m : Nat) (e : Int) : Binary64 :=
  let (m, e) := if m = twoTo 53 then (twoTo 52, e + 1) else (m, e)
  if maxExponent < e then .infinite negative else .finite negative m e

theorem carried_of_lt (hm : m < 2 ^ 53) (he : e ≤ maxExponent) : carried negative m e = .finite negative m e := by
  have hshort : m ≠ twoTo 53 := Nat.ne_of_lt hm
  simp only [carried, if_neg hshort, if_neg (Int.not_lt.mpr he)]

theorem carried_cases (hm : m ≤ 2 ^ 53) : carried negative m e = .infinite negative ∨
    ∃ m' e', carried negative m e = .finite negative m' e' ∧ m' < 2 ^ 53 ∧ e' ≤ maxExponent := by
  by_cases hlong : m = twoTo 53
  · simp only [carried, if_pos hlong]
    split
    · exact .inl rfl
    · exact .inr ⟨_, _, rfl, by decide, by omega⟩
  · simp only [carried, if_neg hlong]
    rw [twoTo_eq] at hlong
    split
    · exact .inl rfl
    · exact .inr ⟨_, _, rfl, by omega, by omega⟩

theorem binaryOrder_one (hc : 0 < c) : binaryOrder c 1 = c.log2 := by
  have hlow : 1 * twoTo c.log2 ≤ c * twoTo 0 := by
    rw [Nat.one_mul]
    exact Nat.le_trans (Nat.log2_self_le hc.ne') (Nat.le_of_eq (Nat.mul_one c).symm)
  have hone : (1 : Nat).log2 = 0 := by decide
  have hzero : (-(c.log2 : Int)).toNat = 0 := by omega
  simp only [binaryOrder, hone, Int.natCast_zero, Int.sub_zero, Int.toNat_natCast, hzero, if_pos hlow]

/-- An integer of `53 + k - j` bits is scaled to a mantissa of 53 bits. -/
theorem ofRatio_one (negative : Bool) (hc : 0 < c) : ∃ j k : Nat, (j = 0 ∨ k = 0) ∧ c.log2 + j = 52 + k ∧
    ofRatio negative c 1 = carried negative (roundedQuotient (c * 2 ^ j) (2 ^ k)) ((k : Int) - j) := by
  refine ⟨52 - c.log2, c.log2 - 52, by omega, by omega, ?_⟩
  have hmin : max minExponent ((c.log2 : Int) - 52) = (c.log2 : Int) - 52 := by
    rw [minExponent]
    omega
  have hj : (-((c.log2 : Int) - 52)).toNat = 52 - c.log2 := by omega
  have hk : ((c.log2 : Int) - 52).toNat = c.log2 - 52 := by omega
  have he : ((c.log2 - 52 : Nat) : Int) - (52 - c.log2 : Nat) = (c.log2 : Int) - 52 := by omega
  simp only [ofRatio, if_neg hc.ne', binaryOrder_one hc, hmin, hj, hk, he, twoTo_eq, Nat.one_mul, carried]

/-- No digit of a mantissa of 53 bits is lost in rounding. -/
theorem ofRatio_of_bits (negative : Bool) (hc : 0 < c) (hm : m < 2 ^ 53) {k : Nat} (hk : k ≤ 971) (h : c = m * 2 ^ k) :
    ∃ m' e', ofRatio negative c 1 = .finite negative m' e' ∧ m' * 2 ^ e'.toNat = c * 2 ^ (-e').toNat := by
  obtain ⟨j, k', hjk, hlog, hcarried⟩ := ofRatio_one negative hc
  have hlow : 2 ^ c.log2 ≤ c := Nat.log2_self_le hc.ne'
  have hhigh : c < 2 ^ (c.log2 + 1) := Nat.lt_log2_self
  rw [hcarried]
  rcases hjk with rfl | rfl
  · -- what is cut off are zeros
    have hle : k' ≤ k := by
      by_contra hlt
      have hshort : c < 2 ^ c.log2 :=
        calc c < 2 ^ 53 * 2 ^ k := h ▸ Nat.mul_lt_mul_of_pos_right hm (Nat.two_pow_pos k)
          _ = 2 ^ (53 + k) := (Nat.pow_add 2 53 k).symm
          _ ≤ 2 ^ c.log2 := Nat.pow_le_pow_right (by decide) (by omega)
      omega
    obtain ⟨d, rfl⟩ := Nat.exists_eq_add_of_le' hle
    have hsplit : c = m * 2 ^ d * 2 ^ k' := by rw [h, Nat.pow_add, Nat.mul_assoc]
    have hmantissa : m * 2 ^ d < 2 ^ 53 := by
      refine Nat.lt_of_mul_lt_mul_right (a := 2 ^ k') ?_
      calc m * 2 ^ d * 2 ^ k' < 2 ^ (c.log2 + 1) := hsplit ▸ hhigh
        _ = 2 ^ 53 * 2 ^ k' := by rw [← Nat.pow_add]; congr 1; omega
    have hround : roundedQuotient (c * 2 ^ 0) (2 ^ k') = m * 2 ^ d := by
      rw [Nat.pow_zero, Nat.mul_one, hsplit, roundedQuotient_mul _ (Nat.two_pow_pos k')]
    rw [hround, carried_of_lt hmantissa (by rw [maxExponent]; omega)]
    refine ⟨_, _, rfl, ?_⟩
    rw [show ((k' : Int) - (0 : Nat)).toNat = k' by omega, show (-((k' : Int) - (0 : Nat))).toNat = 0 by omega,
      Nat.pow_zero, Nat.mul_one, ← hsplit]
  · -- nothing is cut off
    have hmantissa : c * 2 ^ j < 2 ^ 53 :=
      calc c * 2 ^ j < 2 ^ (c.log2 + 1) * 2 ^ j := Nat.mul_lt_mul_of_pos_right hhigh (Nat.two_pow_pos j)
        _ = 2 ^ 53 := by rw [← Nat.pow_add]; congr 1; omega
    have hround : roundedQuotient (c * 2 ^ j) (2 ^ 0) = c * 2 ^ j := by
      have hone : roundedQuotient (c * 2 ^ j * 1) 1 = c * 2 ^ j := roundedQuotient_mul _ Nat.one_pos
      rwa [Nat.mul_one] at hone
    rw [hround, carried_of_lt hmantissa (by rw [maxExponent]; omega)]
    refine ⟨_, _, rfl, ?_⟩
    rw [show (((0 : Nat) : Int) - j).toNat = 0 by omega, show (-(((0 : Nat) : Int) - j)).toNat = j by omega,
      Nat.pow_zero, Nat.mul_one]

/-- A number that is not too large has a mantissa of 53 bits. -/
theorem ofRatio_cases (negative : Bool) (hc : 0 < c) : ofRatio negative c 1 = .infinite negative ∨
    ∃ m e, ofRatio negative c 1 = .finite negative m e ∧ m < 2 ^ 53 ∧ e ≤ maxExponent := by
  obtain ⟨j, k, -, hlog, hcarried⟩ := ofRatio_one negative hc
  rw [hcarried]
  refine carried_cases (roundedQuotient_le (Nat.two_pow_pos k) ?_)
  calc c * 2 ^ j ≤ 2 ^ (c.log2 + 1) * 2 ^ j := Nat.mul_le_mul_right _ Nat.lt_log2_self.le
    _ = 2 ^ 53 * 2 ^ k := by rw [← Nat.pow_add, ← Nat.pow_add]; congr 1; omega

/-- An integer that a number is has no more bits than the number. -/
theorem representable_of_scaled {n : Int} (hm : m < 2 ^ 53) (he : e ≤ maxExponent)
    (h : m * 2 ^ e.toNat = n.natAbs * 2 ^ (-e).toNat) : Representable n := by
  rw [maxExponent] at he
  rcases Int.lt_or_le e 0 with hneg | hpos
  · -- the integer is even shorter than the mantissa
    rw [show e.toNat = 0 by omega, Nat.pow_zero, Nat.mul_one] at h
    refine ⟨n.natAbs, 0, ?_, by omega, by omega⟩
    exact Nat.lt_of_le_of_lt (Nat.le_mul_of_pos_right _ (Nat.two_pow_pos _)) (h ▸ hm)
  · rw [show (-e).toNat = 0 by omega, Nat.pow_zero, Nat.mul_one] at h
    exact ⟨m, e.toNat, hm, by omega, h.symm⟩

/-! ## The nearest number -/

theorem signed_eq_mul_iff {n : Int} {a b : Nat} : Size.signed (decide (n < 0)) a = n * b ↔ a = n.natAbs * b := by
  have hright : n * b = Size.signed (decide (n < 0)) (n.natAbs * b) := by
    have hn := Size.signed_natAbs n
    by_cases h : n < 0
    · simp only [Size.signed, h, decide_true, if_true] at hn ⊢
      rw [Nat.cast_mul, ← Int.neg_mul, hn]
    · simp only [Size.signed, h, decide_false, Bool.false_eq_true, if_false] at hn ⊢
      rw [Nat.cast_mul, hn]
  rw [hright]
  by_cases h : n < 0
  · simp only [Size.signed, h, decide_true, if_true, Int.neg_inj, Nat.cast_inj]
  · simp only [Size.signed, h, decide_false, Bool.false_eq_true, if_false, Nat.cast_inj]

theorem toRat?_eq_int_iff {n : Int} :
    (finite (decide (n < 0)) m e).toRat? = some (n : Rat) ↔ m * 2 ^ e.toNat = n.natAbs * 2 ^ (-e).toNat := by
  have hden : ((2 ^ (-e).toNat : Nat) : Rat) ≠ 0 := by exact_mod_cast (Nat.two_pow_pos _).ne'
  have hvalue : (finite (decide (n < 0)) m e).toRat? =
      some (mkRat (Size.signed (decide (n < 0)) (m * 2 ^ e.toNat)) (2 ^ (-e).toNat)) := by
    simp only [toRat?, twoTo_eq, Size.signed, Nat.cast_mul]
  rw [hvalue, Option.some_inj, Rat.mkRat_eq_div, div_eq_iff hden, ← signed_eq_mul_iff]
  exact_mod_cast Iff.rfl

theorem two_pow_le_ten_pow {k d : Nat} (h : k ≤ 3 * d) : 2 ^ k ≤ 10 ^ d :=
  calc 2 ^ k ≤ 2 ^ (3 * d) := Nat.pow_le_pow_right (by decide) h
    _ = (2 ^ 3) ^ d := Nat.pow_mul 2 3 d
    _ ≤ 10 ^ d := Nat.pow_le_pow_left (by decide) d

theorem not_representable_of_length {n : Int} (h : 400 < (toString n.natAbs).length) : ¬ Representable n := by
  rintro ⟨m, k, hm, hk, hn⟩
  have hpos : 0 < n.natAbs := by
    rw [Nat.pos_iff_ne_zero]
    intro h0
    rw [h0] at h
    exact absurd h (by decide)
  refine absurd ?_ (Nat.lt_irrefl n.natAbs)
  calc n.natAbs < 2 ^ 53 * 2 ^ k := hn ▸ Nat.mul_lt_mul_of_pos_right hm (Nat.two_pow_pos k)
    _ = 2 ^ (53 + k) := (Nat.pow_add 2 53 k).symm
    _ ≤ 10 ^ ((toString n.natAbs).length - 1) := two_pow_le_ten_pow (by omega)
    _ ≤ n.natAbs := (Size.pow_length_bounds hpos).1

theorem ofDecimal_int (negative : Bool) (hc : 0 < c) : ofDecimal negative c 0 =
    if 400 < (toString c).length then .infinite negative else ofRatio negative c 1 := by
  have hsmall : ¬ (decide (c = 0) || decide (((toString c).length : Int) + 0 < -400)) = true := by
    simp only [Bool.or_eq_true, decide_eq_true_eq]
    omega
  have hsize : 400 < ((toString c).length : Int) + 0 ↔ 400 < (toString c).length := by omega
  have hone : tenTo 0 = 1 := rfl
  simp only [ofDecimal, if_neg hsmall, hsize, Int.toNat_zero, Int.neg_zero, hone, Nat.mul_one]

/-- The number nearest to an integer is the integer exactly where nothing of it is lost. -/
theorem toRat?_ofDecimal_iff (n : Int) :
    (ofDecimal (decide (n < 0)) n.natAbs 0).toRat? = some (n : Rat) ↔ Representable n := by
  rcases Nat.eq_zero_or_pos n.natAbs with h0 | hpos
  · obtain rfl : n = 0 := by omega
    have hzero : ofDecimal (decide ((0 : Int) < 0)) (0 : Int).natAbs 0 = .finite (decide ((0 : Int) < 0)) 0 minExponent := rfl
    rw [hzero, toRat?_eq_int_iff]
    exact ⟨fun _ => ⟨0, 0, by decide, by decide, rfl⟩, fun _ => by simp only [Int.natAbs_zero, Nat.zero_mul]⟩
  rw [ofDecimal_int _ hpos]
  split
  · rename_i hlength
    exact ⟨fun h => (nomatch h), fun h => absurd h (not_representable_of_length hlength)⟩
  · constructor
    · intro h
      rcases ofRatio_cases (decide (n < 0)) hpos with hinf | ⟨m, e, hfinite, hm, he⟩
      · rw [hinf] at h
        cases h
      · rw [hfinite, toRat?_eq_int_iff] at h
        exact representable_of_scaled hm he h
    · rintro ⟨m, k, hm, hk, hn⟩
      obtain ⟨m', e', hfinite, hexact⟩ := ofRatio_of_bits (decide (n < 0)) hpos hm hk hn
      rw [hfinite, toRat?_eq_int_iff]
      exact hexact

end Binary64

/-- A binary number and an integer are equal values where the one is the other. -/
theorem Value.float_beq_int {x : Binary64} {n : Int} (hx : x.isFinite = true) :
    (Value.float x == .int n) = true ↔ x.toRat? = some (n : Rat) := by
  cases x with
  | nan o => cases hx
  | infinite negative => cases hx
  | finite negative m e =>
    obtain ⟨c, y, hsize, hrat⟩ := Binary64.exists_size? negative m e
    rw [beq_iff_place (v := .float (.finite negative m e)) hsize rfl (.scaled negative c y) (proper_ofInt n), Size.place_ofScaled, Size.place_ofInt, hrat,
      Option.some_inj, Rank.number.injEq]

end Sift
