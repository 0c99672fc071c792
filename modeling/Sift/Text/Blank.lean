/-!
# Blank characters

What trimming removes from the ends of a text. The set is the one of Unicode white space together with the
four information separators, so a no-break space is blank and a zero-width space is not.
-/

namespace Sift.Text

/-- A blank character: a tab or line break, an information separator, or one of the Unicode spaces. -/
def isBlank (c : Char) : Bool :=
  let n := c.toNat
  (9 ≤ n && n ≤ 13) || (28 ≤ n && n ≤ 32) || n == 0x85 || n == 0xA0 || n == 0x1680
    || (0x2000 ≤ n && n ≤ 0x200A) || n == 0x2028 || n == 0x2029 || n == 0x202F || n == 0x205F || n == 0x3000

/-- Removes the blanks at both ends. -/
def trim (cs : List Char) : List Char :=
  ((cs.dropWhile isBlank).reverse.dropWhile isBlank).reverse

def AllBlank (cs : List Char) : Prop := ∀ c ∈ cs, isBlank c = true

/-- There is no blank at either end. -/
structure Trimmed (cs : List Char) : Prop where
  front : ∀ c ∈ cs.head?, isBlank c = false
  back : ∀ c ∈ cs.getLast?, isBlank c = false

instance (cs : List Char) : Decidable (AllBlank cs) := decidable_of_iff (cs.all isBlank = true) List.all_eq_true

instance (cs : List Char) : Decidable (Trimmed cs) :=
  decidable_of_iff (cs.head?.all (!isBlank ·) = true ∧ cs.getLast?.all (!isBlank ·) = true) <| by
    simp only [Option.all_eq_true, Bool.not_eq_true']
    exact ⟨fun h => ⟨h.1, h.2⟩, fun h => ⟨h.front, h.back⟩⟩

variable {before cs after : List Char}

theorem AllBlank.append (hb : AllBlank before) (ha : AllBlank after) : AllBlank (before ++ after) :=
  List.forall_mem_append.mpr ⟨hb, ha⟩

theorem AllBlank.not_mem {c : Char} (h : AllBlank cs) (hc : isBlank c = false) : c ∉ cs := fun hmem => by
  rw [h c hmem] at hc
  cases hc

theorem dropWhile_append_of_front (hb : AllBlank before) (h : ∀ c ∈ cs.head?, isBlank c = false) :
    (before ++ cs).dropWhile isBlank = cs := by
  rw [List.dropWhile_append_of_pos hb]
  cases cs with
  | nil => rfl
  | cons c cs => exact List.dropWhile_cons_of_neg (by rw [h c rfl]; exact Bool.false_ne_true)

theorem trim_of_allBlank (h : AllBlank cs) : trim cs = [] := by
  have hnone : (cs ++ []).dropWhile isBlank = [] := dropWhile_append_of_front h nofun
  rw [List.append_nil] at hnone
  rw [trim, hnone]
  rfl

/-- Only the padding goes. -/
theorem trim_padded (hb : AllBlank before) (ha : AllBlank after) (h : Trimmed cs) :
    trim (before ++ cs ++ after) = cs := by
  cases cs with
  | nil => exact trim_of_allBlank (by simpa using hb.append ha)
  | cons c cs =>
    have hfront : (before ++ (c :: cs ++ after)).dropWhile isBlank = c :: cs ++ after :=
      dropWhile_append_of_front hb h.front
    have hback : (after.reverse ++ (c :: cs).reverse).dropWhile isBlank = (c :: cs).reverse := by
      refine dropWhile_append_of_front (fun d hd => ha d (List.mem_reverse.mp hd)) ?_
      rw [List.head?_reverse]
      exact h.back
    rw [trim, List.append_assoc, hfront, List.reverse_append, hback, List.reverse_reverse]

def trimmed (s : String) : String :=
  String.ofList (trim s.toList)

/-- Is the first text the second one with any blanks around it? -/
def Pads (s t : String) : Prop :=
  ∃ before after, AllBlank before ∧ AllBlank after ∧ s.toList = before ++ t.toList ++ after

theorem Pads.refl (s : String) : Pads s s :=
  ⟨[], [], nofun, nofun, (List.append_nil _).symm⟩

theorem Pads.trimmed_eq {s t : String} (h : Pads s t) (ht : Trimmed t.toList) : trimmed s = t := by
  obtain ⟨before, after, hb, ha, hs⟩ := h
  rw [trimmed, hs, trim_padded hb ha ht, String.ofList_toList]

end Sift.Text
