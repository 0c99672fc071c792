import Sift.Number.Numeral
import Sift.Proofs.Text.Digits

/-!
# Numerals of integers

The numeral of an integer is a sign and digits, and every reader of numerals finds the integer in it.
-/

namespace Sift

open Text

variable {cs : List Char}

/-! ## Runs of digits -/

namespace Numeral

theorem moreDigits_of_isDigit (h : ∀ c ∈ cs, c.isDigit = true) : moreDigits cs = some (cs.map digitOf, []) := by
  induction cs with
  | nil => rfl
  | cons c cs ih =>
    obtain ⟨hc, hcs⟩ := List.forall_mem_cons.mp h
    rw [moreDigits.eq_def]
    simp only [if_neg (ne_of_isDigit hc (d := '_') rfl), digitValue?_of_isDigit hc, ih hcs, Option.map_some, List.map_cons]

theorem digitRun_of_isDigit (h : ∀ c ∈ cs, c.isDigit = true) : digitRun cs = some (cs.map digitOf, []) := by
  cases cs with
  | nil => rfl
  | cons c cs =>
    obtain ⟨hc, hcs⟩ := List.forall_mem_cons.mp h
    simp only [digitRun, digitValue?_of_isDigit hc, moreDigits_of_isDigit hcs, Option.map_some, List.map_cons]

theorem unsigned_of_isDigit (h : ∀ c ∈ cs, c.isDigit = true) (hne : cs ≠ []) :
    unsigned cs = some (ofDigits (cs.map digitOf), 0) := by
  have hmap : (cs.map digitOf).isEmpty = false := by
    rw [List.isEmpty_eq_false_iff]
    exact fun hnil => hne (List.map_eq_nil_iff.mp hnil)
  simp only [unsigned, digitRun_of_isDigit h, fraction, power, bind, Option.bind, hmap, Bool.false_and,
    Bool.false_eq_true, if_false, List.append_nil, List.length_nil]
  rfl

theorem map_asciiLower_ne {word : String} (h : ∀ c ∈ cs, c.isDigit = true) (hne : cs ≠ [])
    (hword : word.toList.any Char.isDigit = false) : String.ofList (cs.map asciiLower) ≠ word := by
  rintro rfl
  obtain ⟨c, cs, rfl⟩ := List.exists_cons_of_ne_nil hne
  have hc := h c List.mem_cons_self
  have hlower : asciiLower c = c := by
    have hcapital : ¬ ('A' ≤ c && c ≤ 'Z') = true := by
      have hhigh := (isDigit_iff.mp hc).2
      simp only [Bool.and_eq_true, decide_eq_true_eq, Char.le_def, UInt32.le_iff_toNat_le, not_and]
      exact fun hlow => absurd (Nat.le_trans hlow hhigh) (by decide)
    rw [asciiLower, if_neg hcapital]
  have hmem : c ∈ (String.ofList ((c :: cs).map asciiLower)).toList := by
    rw [String.toList_ofList, List.map_cons, hlower]
    exact List.mem_cons_self
  exact List.any_eq_false.mp hword c hmem hc

end Numeral

/-! ## The numeral of an integer -/

theorem toList_toString (n : Int) :
    (toString n).toList = (if n < 0 then ['-'] else []) ++ Nat.toDigits 10 n.natAbs := by
  rw [Int.toString_eq_repr, Int.repr_eq_if]
  by_cases h : n < 0
  · have hnat : (-n).toNat = n.natAbs := by omega
    rw [if_neg (by omega), if_pos h, String.toList_append, Nat.repr_eq_ofList_toDigits, String.toList_ofList,
      String.toList_ofList, hnat]
  · have hnat : n.toNat = n.natAbs := by omega
    rw [if_pos (by omega), if_neg h, Nat.repr_eq_ofList_toDigits, String.toList_ofList, hnat, List.nil_append]

theorem isDigit_of_mem_toDigits {k : Nat} : ∀ c ∈ Nat.toDigits 10 k, c.isDigit = true :=
  fun _ => Nat.isDigit_of_mem_toDigits (by decide) (by decide)

theorem trimmed_toString (n : Int) : Trimmed (toString n).toList where
  front c hc := by
    rw [toList_toString] at hc
    split at hc
    · cases hc
      decide
    · exact isBlank_of_isDigit (isDigit_of_mem_toDigits c (List.mem_of_head? hc))
  back c hc := by
    rw [toList_toString, List.getLast?_append, List.getLast?_eq_some_getLast Nat.toDigits_ne_nil, Option.some_or,
      ← List.getLast?_eq_some_getLast] at hc
    exact isBlank_of_isDigit (isDigit_of_mem_toDigits c (List.mem_of_getLast? hc))

namespace Numeral

theorem sign_toString (n : Int) : sign (toString n).toList = (decide (n < 0), Nat.toDigits 10 n.natAbs) := by
  rw [toList_toString]
  by_cases h : n < 0
  · rw [if_pos h, decide_eq_true h]
    rfl
  · rw [if_neg h, decide_eq_false h, List.nil_append]
    obtain ⟨c, cs, hcs⟩ := List.exists_cons_of_ne_nil (Nat.toDigits_ne_nil (n := n.natAbs) (b := 10))
    have hc : c.isDigit = true := isDigit_of_mem_toDigits c (hcs ▸ List.mem_cons_self)
    rw [hcs]
    unfold sign
    split
    · rename_i heq
      cases heq
      cases hc
    · rename_i heq
      cases heq
      cases hc
    · rfl

theorem ofDigits_toDigits (k : Nat) : ofDigits ((Nat.toDigits 10 k).map digitOf) = k := by
  rw [ofDigits_map_digitOf, Nat.ofDigitChars_ten_toDigits]

theorem int_toString {n : Int} (h : n.natAbs < 10 ^ maxDigits) : int (toString n).toList = .ok n := by
  have hlength : ¬ maxDigits < ((Nat.toDigits 10 n.natAbs).map digitOf).length := by
    rw [List.length_map, Nat.not_lt, Nat.length_toDigits_le_iff (by decide) (by decide)]
    exact h
  have hsome : ((Nat.toDigits 10 n.natAbs).map digitOf).isEmpty = false := by
    rw [List.isEmpty_eq_false_iff]
    exact fun hnil => Nat.toDigits_ne_nil (List.map_eq_nil_iff.mp hnil)
  simp only [int, sign_toString, digitRun_of_isDigit isDigit_of_mem_toDigits, if_neg hlength, hsome, List.isEmpty_nil,
    Bool.not_true, Bool.or_self, Bool.false_eq_true, if_false, ofDigits_toDigits, decide_eq_true_eq]
  congr 1
  omega

theorem binary64?_toString (n : Int) :
    binary64? (toString n).toList = some (Binary64.ofDecimal (decide (n < 0)) n.natAbs 0) := by
  have hword {word : String} (h : word.toList.any Char.isDigit = false) :
      String.ofList ((Nat.toDigits 10 n.natAbs).map asciiLower) ≠ word :=
    map_asciiLower_ne isDigit_of_mem_toDigits Nat.toDigits_ne_nil h
  have hinf := hword (show "inf".toList.any Char.isDigit = false from rfl)
  have hinfinity := hword (show "infinity".toList.any Char.isDigit = false from rfl)
  have hnan := hword (show "nan".toList.any Char.isDigit = false from rfl)
  simp only [binary64?, sign_toString, hinf, hinfinity, hnan, decide_false, Bool.or_self, Bool.false_eq_true, if_false,
    unsigned_of_isDigit isDigit_of_mem_toDigits Nat.toDigits_ne_nil, Option.map_some, ofDigits_toDigits]

end Numeral

end Sift
