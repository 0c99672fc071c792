import Mathlib.Data.Nat.Digits.Defs
import Sift.Text.Blank
import Sift.Text.Digit

/-!
# Digits

A digit from `0` to `9` has the value that both readers of digits give it, and is no blank. A number that is filled up
with zeros to a fixed length keeps its value.
-/

namespace Sift.Text

variable {c : Char}

/-- The value of a digit from `0` to `9`. -/
def digitOf (c : Char) : Nat := c.toNat - '0'.toNat

theorem isDigit_iff : c.isDigit = true ↔ 48 ≤ c.toNat ∧ c.toNat ≤ 57 := by
  simp only [Char.isDigit, Bool.and_eq_true, decide_eq_true_eq, ge_iff_le, UInt32.le_iff_toNat_le]
  rfl

theorem ne_of_isDigit {d : Char} (h : c.isDigit = true) (hd : d.isDigit = false) : c ≠ d := by
  rintro rfl
  rw [h] at hd
  cases hd

theorem isBlank_of_isDigit (h : c.isDigit = true) : isBlank c = false := by
  obtain ⟨hlow, hhigh⟩ := isDigit_iff.mp h
  simp only [isBlank, Bool.or_eq_false_iff, Bool.and_eq_false_iff, decide_eq_false_iff_not, beq_eq_false_iff_ne]
  omega

/-- Is the last character of a text a digit? -/
def EndsInDigit (cs : List Char) : Prop := ∃ front c, c.isDigit = true ∧ cs = front ++ [c]

theorem EndsInDigit.append {cs : List Char} (h : EndsInDigit cs) (before : List Char) : EndsInDigit (before ++ cs) := by
  obtain ⟨front, c, hc, rfl⟩ := h
  exact ⟨before ++ front, c, hc, (List.append_assoc before front [c]).symm⟩

theorem EndsInDigit.cons {cs : List Char} (h : EndsInDigit cs) (c : Char) : EndsInDigit (c :: cs) :=
  h.append [c]

/-- A text between digits has no blanks at its ends. -/
theorem EndsInDigit.trimmed {cs : List Char} (h : EndsInDigit cs) (hfront : ∀ c ∈ cs.head?, c.isDigit = true) :
    Trimmed cs where
  front c hc := isBlank_of_isDigit (hfront c hc)
  back c hc := by
    obtain ⟨front, d, hd, rfl⟩ := h
    rw [List.getLast?_concat] at hc
    cases hc
    exact isBlank_of_isDigit hd

theorem digitValue?_of_isDigit (h : c.isDigit = true) : digitValue? c = some (digitOf c) := by
  obtain ⟨hlow, hhigh⟩ := isDigit_iff.mp h
  have hzero : (digitZeros.find? fun z => z ≤ c.toNat && c.toNat ≤ z + 9) = some 48 :=
    List.find?_cons_of_pos (by simp only [Bool.and_eq_true, decide_eq_true_eq]; omega)
  rw [digitValue?, hzero]
  rfl

theorem asciiDigit?_of_isDigit (h : c.isDigit = true) : asciiDigit? c = some (digitOf c) := by
  have hrange : ('0' ≤ c && c ≤ '9') = true := by
    obtain ⟨hlow, hhigh⟩ := isDigit_iff.mp h
    simp only [Bool.and_eq_true, decide_eq_true_eq, Char.le_def, UInt32.le_iff_toNat_le]
    exact ⟨hlow, hhigh⟩
  rw [asciiDigit?, if_pos hrange]
  rfl

theorem isDigit_of_asciiDigit? {d : Nat} (h : asciiDigit? c = some d) : c.isDigit = true ∧ digitOf c = d := by
  unfold asciiDigit? at h
  split at h
  · rename_i hrange
    cases h
    simp only [Bool.and_eq_true, decide_eq_true_eq, Char.le_def, UInt32.le_iff_toNat_le] at hrange
    exact ⟨isDigit_iff.mpr hrange, rfl⟩
  · cases h

theorem ofDigits_map_digitOf (cs : List Char) : ofDigits (cs.map digitOf) = Nat.ofDigitChars 10 cs 0 := by
  rw [ofDigits, List.foldl_map]
  rfl

/-! ## Numbers of fixed length -/

theorem toList_padded (width n : Nat) :
    (padded width n).toList = List.replicate (width - (toString n).length) '0' ++ Nat.toDigits 10 n := by
  have hdigits : (toString n).toList = Nat.toDigits 10 n := by
    rw [show toString n = n.repr from rfl, Nat.repr_eq_ofList_toDigits, String.toList_ofList]
  simp only [padded, String.toList_append, String.toList_ofList, hdigits]

theorem isDigit_of_mem_padded {width n : Nat} {c : Char} (h : c ∈ (padded width n).toList) : c.isDigit = true := by
  rw [toList_padded] at h
  rcases List.mem_append.mp h with h | h
  · rw [List.eq_of_mem_replicate h]
    rfl
  · exact Nat.isDigit_of_mem_toDigits (by decide) (by decide) h

theorem padded_ne_nil (width n : Nat) : (padded width n).toList ≠ [] := by
  rw [toList_padded]
  exact List.append_ne_nil_of_right_ne_nil _ Nat.toDigits_ne_nil

/-- A number of fixed length starts with a digit. -/
theorem exists_cons_padded (width n : Nat) (rest : List Char) :
    ∃ c cs, c.isDigit = true ∧ (padded width n).toList ++ rest = c :: cs := by
  obtain ⟨c, cs, hcs⟩ := List.exists_cons_of_ne_nil (padded_ne_nil width n)
  exact ⟨c, cs ++ rest, isDigit_of_mem_padded (hcs ▸ List.mem_cons_self), by rw [hcs, List.cons_append]⟩

theorem endsInDigit_padded (width n : Nat) : EndsInDigit (padded width n).toList := by
  refine ⟨_, _, ?_, (List.dropLast_concat_getLast (padded_ne_nil width n)).symm⟩
  exact isDigit_of_mem_padded (List.getLast_mem (padded_ne_nil width n))

theorem not_mem_padded {width n : Nat} {c : Char} (h : c.isDigit = false) : c ∉ (padded width n).toList := by
  intro hmem
  rw [isDigit_of_mem_padded hmem] at h
  cases h

theorem length_padded {width n : Nat} (hwidth : 0 < width) (h : n < 10 ^ width) :
    (padded width n).toList.length = width := by
  have hlength : (toString n).length ≤ width := (Nat.length_repr_le_iff hwidth).mpr h
  have hdigits : (Nat.toDigits 10 n).length = (toString n).length := by
    rw [show toString n = n.repr from rfl, Nat.repr_eq_ofList_toDigits, String.length_ofList]
  rw [toList_padded, List.length_append, List.length_replicate, hdigits]
  omega

theorem ofDigitChars_padded (width n : Nat) : Nat.ofDigitChars 10 (padded width n).toList 0 = n := by
  rw [toList_padded, Nat.ofDigitChars_append, Nat.ofDigitChars_replicate_zero, Nat.mul_zero,
    Nat.ofDigitChars_ten_toDigits]

theorem padded_inj {width n m : Nat} (h : (padded width n).toList = (padded width m).toList) : n = m := by
  rw [← ofDigitChars_padded width n, h, ofDigitChars_padded]

end Sift.Text
