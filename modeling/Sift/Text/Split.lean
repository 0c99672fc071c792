/-!
# Splitting at a separator

Every separator ends a piece, so a text with `n` separators has `n + 1` pieces, some of them possibly empty.
-/

namespace Sift.Text

/-- The pieces between the separators, in order. -/
def splitAt (sep : Char) : List Char → List (List Char)
  | [] => [[]]
  | c :: cs =>
    if c = sep then [] :: splitAt sep cs
    else match splitAt sep cs with
      | [] => [[c]]
      | piece :: pieces => (c :: piece) :: pieces

variable {sep c : Char} {cs : List Char}

theorem splitAt_cons_self (sep : Char) (cs : List Char) : splitAt sep (sep :: cs) = [] :: splitAt sep cs := if_pos rfl

theorem splitAt_ne_nil (sep : Char) (cs : List Char) : splitAt sep cs ≠ [] := by
  cases cs with
  | nil => exact List.cons_ne_nil _ _
  | cons c cs =>
    by_cases h : c = sep
    · rw [h, splitAt_cons_self]
      exact List.cons_ne_nil _ _
    · rw [show splitAt sep (c :: cs) = match splitAt sep cs with
        | [] => [[c]]
        | piece :: pieces => (c :: piece) :: pieces from if_neg h]
      cases splitAt sep cs <;> exact List.cons_ne_nil _ _

/-- Any other character belongs to the first piece. -/
theorem exists_splitAt_cons (h : c ≠ sep) (cs : List Char) :
    ∃ piece pieces, splitAt sep cs = piece :: pieces ∧ splitAt sep (c :: cs) = (c :: piece) :: pieces := by
  cases hcs : splitAt sep cs with
  | nil => exact absurd hcs (splitAt_ne_nil sep cs)
  | cons piece pieces =>
    refine ⟨piece, pieces, rfl, ?_⟩
    rw [show splitAt sep (c :: cs) = match splitAt sep cs with
      | [] => [[c]]
      | piece :: pieces => (c :: piece) :: pieces from if_neg h, hcs]

theorem not_mem_of_mem_splitAt {piece : List Char} (h : piece ∈ splitAt sep cs) : sep ∉ piece := by
  induction cs generalizing piece with
  | nil =>
    rw [List.mem_singleton.mp h]
    exact List.not_mem_nil
  | cons c cs ih =>
    by_cases hc : c = sep
    · rw [hc, splitAt_cons_self] at h
      rcases List.mem_cons.mp h with rfl | h
      · exact List.not_mem_nil
      · exact ih h
    · obtain ⟨first, rest, hcs, hcons⟩ := exists_splitAt_cons hc cs
      rw [hcons] at h
      rcases List.mem_cons.mp h with rfl | h
      · rw [List.mem_cons, not_or]
        exact ⟨Ne.symm hc, ih (hcs ▸ List.mem_cons_self)⟩
      · exact ih (hcs ▸ List.mem_cons_of_mem _ h)

/-- The pieces with the separators between them are the text again. -/
theorem intercalate_splitAt (sep : Char) (cs : List Char) : [sep].intercalate (splitAt sep cs) = cs := by
  induction cs with
  | nil => rfl
  | cons c cs ih =>
    by_cases hc : c = sep
    · obtain ⟨first, rest, hcs⟩ := List.exists_cons_of_ne_nil (splitAt_ne_nil sep cs)
      rw [hc, splitAt_cons_self, hcs, List.intercalate_cons_cons, ← hcs, ih]
      rfl
    · obtain ⟨first, rest, hcs, hcons⟩ := exists_splitAt_cons hc cs
      rw [hcs] at ih
      rw [hcons, ← ih]
      cases rest with
      | nil => rw [List.intercalate_singleton, List.intercalate_singleton]
      | cons next rest =>
        rw [List.intercalate_cons_cons, List.intercalate_cons_cons]
        rfl

theorem splitAt_of_not_mem (h : sep ∉ cs) : splitAt sep cs = [cs] := by
  induction cs with
  | nil => rfl
  | cons c cs ih =>
    rw [List.mem_cons, not_or] at h
    obtain ⟨first, rest, hcs, hcons⟩ := exists_splitAt_cons (Ne.symm h.1) cs
    cases hcs.symm.trans (ih h.2)
    exact hcons

theorem splitAt_append (h : sep ∉ cs) (ds : List Char) : splitAt sep (cs ++ sep :: ds) = cs :: splitAt sep ds := by
  induction cs with
  | nil => exact splitAt_cons_self sep ds
  | cons c cs ih =>
    rw [List.mem_cons, not_or] at h
    obtain ⟨first, rest, hcs, hcons⟩ := exists_splitAt_cons (Ne.symm h.1) (cs ++ sep :: ds)
    cases hcs.symm.trans (ih h.2)
    exact hcons

/-- Pieces without the separator are found again. -/
theorem splitAt_intercalate {ps : List (List Char)} (hne : ps ≠ []) (h : ∀ p ∈ ps, sep ∉ p) :
    splitAt sep ([sep].intercalate ps) = ps := by
  induction ps with
  | nil => exact absurd rfl hne
  | cons p ps ih =>
    obtain ⟨hp, hps⟩ := List.forall_mem_cons.mp h
    cases ps with
    | nil => rw [List.intercalate_singleton, splitAt_of_not_mem hp]
    | cons q qs =>
      rw [List.intercalate_cons_cons, List.append_assoc, List.singleton_append, splitAt_append hp,
        ih (List.cons_ne_nil _ _) hps]

theorem not_mem_intercalate {ps : List (List Char)} (hc : c ≠ sep) (h : ∀ p ∈ ps, c ∉ p) :
    c ∉ [sep].intercalate ps := by
  induction ps with
  | nil => exact List.not_mem_nil
  | cons p ps ih =>
    obtain ⟨hp, hps⟩ := List.forall_mem_cons.mp h
    cases ps with
    | nil => rwa [List.intercalate_singleton]
    | cons q qs =>
      simp only [List.intercalate_cons_cons, List.mem_append, List.mem_singleton, not_or]
      exact ⟨⟨hp, hc⟩, ih hps⟩

theorem map_intercalate {f : Char → Char} (hf : f sep = sep) (ps : List (List Char)) :
    ([sep].intercalate ps).map f = [sep].intercalate (ps.map (List.map f)) := by
  induction ps with
  | nil => rfl
  | cons p ps ih =>
    cases ps with
    | nil => rw [List.map_singleton, List.intercalate_singleton, List.intercalate_singleton]
    | cons q qs =>
      rw [List.map_cons, List.map_cons, List.intercalate_cons_cons, List.intercalate_cons_cons, ← List.map_cons, ← ih,
        List.map_append, List.map_append, List.map_singleton, hf]

/-- The pieces of a string between the separators. -/
def pieces (sep : Char) (s : String) : List String :=
  (splitAt sep s.toList).map String.ofList

theorem pieces_ne_nil (sep : Char) (s : String) : pieces sep s ≠ [] :=
  fun h => splitAt_ne_nil sep s.toList (List.map_eq_nil_iff.mp h)

theorem not_mem_of_mem_pieces {sep : Char} {s piece : String} (h : piece ∈ pieces sep s) : sep ∉ piece.toList := by
  obtain ⟨cs, hcs, rfl⟩ := List.mem_map.mp h
  rw [String.toList_ofList]
  exact not_mem_of_mem_splitAt hcs

/-- What stands before and after the first separator; nothing when there is none. -/
def cutFirst (sep : Char) : List Char → Option (List Char × List Char)
  | [] => none
  | c :: cs => if c = sep then some ([], cs) else (cutFirst sep cs).map fun (a, b) => (c :: a, b)

theorem cutFirst_append {sep : Char} {cs : List Char} (h : sep ∉ cs) (ds : List Char) :
    cutFirst sep (cs ++ sep :: ds) = some (cs, ds) := by
  induction cs with
  | nil => exact if_pos rfl
  | cons c cs ih =>
    rw [List.mem_cons, not_or] at h
    simp only [List.cons_append, cutFirst, if_neg (Ne.symm h.1), ih h.2, Option.map_some]

/-- What stands before and after the last separator; nothing when there is none. -/
def cutLast (sep : Char) : List Char → Option (List Char × List Char)
  | [] => none
  | c :: cs =>
    match cutLast sep cs with
    | some (a, b) => some (c :: a, b)
    | none => if c = sep then some ([], cs) else none

theorem cutLast_of_not_mem {sep : Char} {cs : List Char} (h : sep ∉ cs) : cutLast sep cs = none := by
  induction cs with
  | nil => rfl
  | cons c cs ih =>
    rw [List.mem_cons, not_or] at h
    simp only [cutLast, ih h.2, if_neg (Ne.symm h.1)]

theorem cutLast_append {sep : Char} {ds : List Char} (h : sep ∉ ds) (cs : List Char) :
    cutLast sep (cs ++ sep :: ds) = some (cs, ds) := by
  induction cs with
  | nil => simp only [List.nil_append, cutLast, cutLast_of_not_mem h, if_pos]
  | cons c cs ih => simp only [List.cons_append, cutLast, ih]

def dotted (names : List String) : String :=
  String.intercalate "." names

theorem pieces_dotted {names : List String} (hne : names ≠ []) (h : ∀ name ∈ names, '.' ∉ name.toList) :
    pieces '.' (dotted names) = names := by
  have hchars : (dotted names).toList = ['.'].intercalate (names.map String.toList) := String.toList_intercalate
  rw [pieces, hchars, splitAt_intercalate (by simpa using hne)]
  · rw [List.map_map]
    exact List.map_id'' (fun name => String.ofList_toList) names
  · intro p hp
    obtain ⟨name, hname, rfl⟩ := List.mem_map.mp hp
    exact h name hname

theorem dotted_pieces (s : String) : dotted (pieces '.' s) = s := by
  have hchars : (pieces '.' s).map String.toList = splitAt '.' s.toList := by
    rw [pieces, List.map_map]
    exact List.map_id'' (fun cs => String.toList_ofList) _
  have hpoint : ".".toList = ['.'] := rfl
  rw [← String.toList_inj, dotted, String.toList_intercalate, hchars, hpoint, intercalate_splitAt]

end Sift.Text
