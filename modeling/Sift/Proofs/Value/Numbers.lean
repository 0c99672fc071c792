import Mathlib.Tactic.FieldSimp
import Sift.Proofs.Number.Size
import Sift.Store.Storage

/-!
# Numbers and their places

Values that are numbers are compared by their sizes, cells by their places. Both come down to the rational numbers that
they stand for: two cells have one place exactly where they show equal numbers.
-/

namespace Sift

open Size

/-! ## Sizes and places -/

namespace Size

/-- The place of the numbers of a size. -/
def place : Size → Rank
  | .finite c x => .number (scaled c x)
  | .infinite negative => if negative then .lowest else .highest

/-- The sizes of numbers. -/
inductive Proper : Size → Prop
  | scaled (negative : Bool) (c : Nat) (x : Int) : Proper (ofScaled negative c x)
  | infinite (negative : Bool) : Proper (.infinite negative)

theorem place_ofScaled (negative : Bool) (c : Nat) (x : Int) :
    (ofScaled negative c x).place = .number (Size.scaled (signed negative c) x) := by
  obtain ⟨d, y, hd, hv, -⟩ := exists_ofScaled negative c x
  rw [hd, ← hv]
  rfl

theorem place_ofInt (n : Int) : (ofInt n).place = .number n := by
  rw [ofInt, place_ofScaled, signed_natAbs, scaled_int]

theorem place_inj {s t : Size} (hs : s.Proper) (ht : t.Proper) : s.place = t.place ↔ s = t := by
  constructor
  · intro h
    cases hs with
    | scaled a c x =>
      rw [place_ofScaled] at h
      cases ht with
      | scaled b d y =>
        rw [place_ofScaled, Rank.number.injEq] at h
        exact ofScaled_eq_iff.mpr h
      | infinite b => cases b <;> cases h
    | infinite a =>
      cases ht with
      | scaled b d y =>
        rw [place_ofScaled] at h
        cases a <;> cases h
      | infinite b => cases a <;> cases b <;> cases h <;> rfl
  · rintro rfl
    rfl

end Size

/-! ## Binary numbers -/

namespace Binary64

theorem exists_size? (negative : Bool) (m : Nat) (e : Int) : ∃ c x,
    (finite negative m e).size? = some (ofScaled negative c x) ∧
      (finite negative m e).toRat? = some (scaled (signed negative c) x) := by
  rcases Int.lt_or_le e 0 with he | he
  · -- a negative power of two is a power of five over one of ten
    obtain ⟨k, rfl⟩ : ∃ k : Nat, e = -k := ⟨(-e).toNat, by omega⟩
    refine ⟨m * 5 ^ k, -k, ?_, ?_⟩
    · simp only [size?, if_neg (show ¬ (0 : Int) ≤ -k by omega), Int.neg_neg, Int.toNat_natCast]
      rfl
    · have hk : (-(k : Int)).toNat = 0 := by omega
      have hten : (10 : Rat) ^ k = 2 ^ k * 5 ^ k := by rw [← mul_pow]; norm_num
      have htwo : ((twoTo k : Nat) : Rat) = 2 ^ k := by exact_mod_cast rfl
      have hone : ((twoTo 0 : Nat) : Int) = 1 := rfl
      simp only [toRat?, Int.neg_neg, Int.toNat_natCast, hk, hone, mul_one, Rat.mkRat_eq_div, htwo, scaled, signed,
        zpow_neg, zpow_natCast, hten, Option.some.injEq]
      cases negative
      · simp only [Bool.false_eq_true, if_false]
        push_cast
        field_simp
      · simp only [if_true]
        push_cast
        field_simp
  · obtain ⟨k, rfl⟩ := Int.eq_ofNat_of_zero_le he
    refine ⟨m * 2 ^ k, 0, ?_, ?_⟩
    · simp only [size?, if_pos he, Int.toNat_natCast]
      rfl
    · have hk : (-(k : Int)).toNat = 0 := by omega
      have hone : twoTo 0 = 1 := rfl
      have htwo : ((twoTo k : Nat) : Int) = (2 ^ k : Nat) := rfl
      simp only [toRat?, Int.toNat_natCast, hk, hone, htwo, scaled_int, signed, Rat.mkRat_one, Nat.cast_mul]

theorem place_of_size? {x : Binary64} {s : Size} (h : x.size? = some s) : s.Proper ∧ s.place = (Cell.real x).rank := by
  cases x with
  | nan o => cases h
  | infinite negative =>
    cases h
    exact ⟨.infinite negative, rfl⟩
  | finite negative m e =>
    obtain ⟨c, x, hsize, hrat⟩ := exists_size? negative m e
    rw [hsize] at h
    cases h
    refine ⟨.scaled negative c x, ?_⟩
    rw [place_ofScaled, Cell.rank, hrat]
    · rfl
    · exact fun _ => Binary64.noConfusion

end Binary64

/-! ## Values and cells -/

namespace Value

variable {v w : Value} {a b : Size}

theorem same_of_size? (hv : v.size? = some a) (hw : w.size? = some b) : (v == w) = (a == b) := by
  show v.same w = (a == b)
  unfold same
  split
  case h_13 => rw [hv, hw]
  all_goals cases hv

/-- Numbers are equal where they have one place. -/
theorem beq_iff_place (hv : v.size? = some a) (hw : w.size? = some b) (ha : a.Proper) (hb : b.Proper) :
    (v == w) = true ↔ a.place = b.place := by
  rw [same_of_size? hv hw, beq_iff_eq, place_inj ha hb]

theorem proper_ofInt (n : Int) : (Size.ofInt n).Proper :=
  .scaled _ _ _

theorem int_beq_int {n m : Int} : (Value.int n == .int m) = true ↔ n = m := by
  rw [beq_iff_place rfl rfl (proper_ofInt n) (proper_ofInt m), place_ofInt, place_ofInt, Rank.number.injEq,
    Int.cast_inj]

theorem bool_beq_int {b : Bool} {n : Int} : (Value.bool b == .int n) = true ↔ (if b then 1 else 0) = n := by
  rw [beq_iff_place rfl rfl (proper_ofInt _) (proper_ofInt n), place_ofInt, place_ofInt, Rank.number.injEq,
    Int.cast_inj]

end Value

end Sift
