import Mathlib.Data.List.Basic
import Sift.Text.Percent

/-!
# Forms in which nothing is encoded

A text without percent signs is decoded to itself, except that a plus sign becomes a space. A form of such names and
values is taken apart into them again.
-/

namespace Sift.Text

variable {run cs : List Char}

theorem percentBytes_of_not_mem (h : '%' ∉ cs) : percentBytes cs = cs.map Char.toNat := by
  induction cs with
  | nil => rfl
  | cons c cs ih =>
    rw [List.mem_cons, not_or] at h
    rw [percentBytes, ih h.2, List.map_cons]
    exact fun _ _ _ hc => absurd hc.symm h.1

theorem utf8Chars_ascii (h : ∀ c ∈ cs, c.toNat < 128) : utf8Chars none (cs.map Char.toNat) = cs := by
  induction cs with
  | nil => rfl
  | cons c cs ih =>
    obtain ⟨hc, hcs⟩ := List.forall_mem_cons.mp h
    have hfirst : nextByte none c.toNat = ([c], none) := by
      rw [nextByte, firstByte, if_pos hc, Char.ofNat_toNat]
    simp only [List.map_cons, utf8Chars, hfirst, ih hcs]
    rfl

theorem decodedRun_of_not_mem (hrun : ∀ c ∈ run, c.toNat < 128) (hmark : '%' ∉ run) : decodedRun run = run := by
  rw [decodedRun, percentBytes_of_not_mem hmark, utf8Chars_ascii hrun]

theorem percentDecodedAfter_of_not_mem (hrun : ∀ c ∈ run, c.toNat < 128) (hmark : '%' ∉ run) (h : '%' ∉ cs) :
    percentDecodedAfter run cs = run ++ cs := by
  -- an ASCII character makes the run longer, any other one begins an empty run: the claim is about every run
  induction cs generalizing run with
  | nil => rw [percentDecodedAfter, decodedRun_of_not_mem hrun hmark, List.append_nil]
  | cons c cs ih =>
    rw [List.mem_cons, not_or] at h
    rw [percentDecodedAfter]
    split
    · next hc =>
      rw [ih (List.forall_mem_append.mpr ⟨hrun, by simpa using hc⟩) (by simp [hmark, h.1]) h.2, List.append_assoc]
      rfl
    · rw [decodedRun_of_not_mem hrun hmark, ih (List.forall_mem_nil _) List.not_mem_nil h.2]
      rfl

/-- What a form means by a character. -/
def formChar (c : Char) : Char := if c = '+' then ' ' else c

theorem formChar_of_ne {c : Char} (h : c ≠ '+') : formChar c = c := if_neg h

/-- Only plus signs are read as something else. -/
theorem formDecoded_of_not_mem (h : '%' ∉ cs) : formDecoded cs = String.ofList (cs.map formChar) := by
  have hmap : '%' ∉ cs.map formChar := fun hmem => by
    obtain ⟨c, hc, hmark⟩ := List.mem_map.mp hmem
    by_cases hplus : c = '+'
    · rw [hplus] at hmark
      cases hmark
    · rw [formChar_of_ne hplus] at hmark
      exact h (hmark ▸ hc)
  show String.ofList (percentDecodedAfter [] (cs.map formChar)) = _
  rw [percentDecodedAfter_of_not_mem (List.forall_mem_nil _) List.not_mem_nil hmap, List.nil_append]

theorem map_formChar (h : '+' ∉ cs) : cs.map formChar = cs := by
  refine (List.map_congr_left fun c hc => formChar_of_ne ?_).trans (List.map_id cs)
  exact fun hplus => h (hplus ▸ hc)

/-! ## Forms -/

/-- A form of names and values. -/
def formText (pairs : List (String × String)) : String :=
  "&".intercalate (pairs.map fun (name, value) => name ++ "=" ++ value)

theorem toList_formText (pairs : List (String × String)) :
    (formText pairs).toList = ['&'].intercalate (pairs.map fun p => p.1.toList ++ '=' :: p.2.toList) := by
  rw [formText, String.toList_intercalate, List.map_map]
  congr 1
  refine List.map_congr_left fun p _ => ?_
  simp only [Function.comp, String.toList_append, List.append_assoc]
  rfl

theorem exists_toList_formText (p : String × String) (ps : List (String × String)) :
    ∃ rest, (formText (p :: ps)).toList = p.1.toList ++ '=' :: rest := by
  rw [toList_formText]
  cases ps with
  | nil => exact ⟨_, List.intercalate_singleton⟩
  | cons q qs =>
    rw [List.map_cons, List.map_cons, List.intercalate_cons_cons, List.append_assoc, List.append_assoc]
    exact ⟨_, rfl⟩

/-- The pairs of a form are told apart. -/
theorem formPairs_formText {pairs : List (String × String)}
    (h : ∀ p ∈ pairs, '=' ∉ p.1.toList ∧ '&' ∉ p.1.toList ∧ '&' ∉ p.2.toList) :
    formPairs (formText pairs) = pairs.map fun p => (formDecoded p.1.toList, formDecoded p.2.toList) := by
  cases pairs with
  | nil => rfl
  | cons first rest =>
    rw [formPairs, toList_formText, splitAt_intercalate (by simp), List.filterMap_map, ← List.filterMap_eq_map]
    · refine List.filterMap_congr fun p hp => ?_
      have hne : (p.1.toList ++ '=' :: p.2.toList).isEmpty = false := by simp
      simp only [Function.comp, hne, cutFirst_append (h p hp).1]
      rfl
    · intro part hpart
      obtain ⟨p, hp, rfl⟩ := List.mem_map.mp hpart
      simpa using ⟨(h p hp).2.1, (h p hp).2.2⟩

end Sift.Text
