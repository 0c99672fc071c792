import Mathlib.Data.List.Forall2
import Sift.Operator.Pattern
import Sift.Text.Casing

/-!
# What patterns match

What a pattern matches is said without going through its items or the rests of a text. An escaped text matches the texts
that are alike character by character, wherever it stands in a pattern, and small letters make no difference to it.
-/

namespace Sift.Pattern

/-! ## Marks -/

/-- The characters that a pattern does not take literally. -/
def IsMark (c : Char) : Prop := c = '\\' ∨ c = '%' ∨ c = '_'

instance (c : Char) : Decidable (IsMark c) := inferInstanceAs (Decidable (c = '\\' ∨ c = '%' ∨ c = '_'))

/-- A mark is taken for no other character than itself. -/
def OwnMarks (alike : Char → Char → Prop) : Prop := ∀ c d, IsMark c → (alike c d ↔ c = d)

/-! ## Matching -/

/-- A pattern matches a text. What stands after a backslash is compared as literal characters are, every other character
as characters that are alike. -/
inductive Like (literal alike : Char → Char → Prop) : List Char → List Char → Prop
  | nil : Like literal alike [] []
  | anyRun {p s : List Char} (a : List Char) (rest : Like literal alike p s) : Like literal alike ('%' :: p) (a ++ s)
  | anyOne {p s : List Char} (d : Char) (rest : Like literal alike p s) : Like literal alike ('_' :: p) (d :: s)
  | taken {c d : Char} {p s : List Char} (same : literal c d) (rest : Like literal alike p s) :
      Like literal alike ('\\' :: c :: p) (d :: s)
  | plain {c d : Char} {p s : List Char} (noMark : ¬IsMark c) (same : alike c d) (rest : Like literal alike p s) :
      Like literal alike (c :: p) (d :: s)

variable {literal alike : Char → Char → Prop} {c : Char} {p s v : List Char}

theorem like_nil_iff : Like literal alike [] s ↔ s = [] := by
  constructor
  · rintro ⟨⟩
    rfl
  · rintro rfl
    exact .nil

theorem like_anyRun_iff : Like literal alike ('%' :: p) s ↔ ∃ a t, s = a ++ t ∧ Like literal alike p t := by
  constructor
  · intro h
    cases h with
    | anyRun a rest => exact ⟨a, _, rfl, rest⟩
    | plain noMark => exact absurd (.inr (.inl rfl)) noMark
  · rintro ⟨a, t, rfl, h⟩
    exact .anyRun a h

theorem like_anyOne_iff : Like literal alike ('_' :: p) s ↔ ∃ d t, s = d :: t ∧ Like literal alike p t := by
  constructor
  · intro h
    cases h with
    | anyOne d rest => exact ⟨d, _, rfl, rest⟩
    | plain noMark => exact absurd (.inr (.inr rfl)) noMark
  · rintro ⟨d, t, rfl, h⟩
    exact .anyOne d h

theorem like_taken_iff :
    Like literal alike ('\\' :: c :: p) s ↔ ∃ d t, s = d :: t ∧ literal c d ∧ Like literal alike p t := by
  constructor
  · intro h
    cases h with
    | taken same rest => exact ⟨_, _, rfl, same, rest⟩
    | plain noMark => exact absurd (.inl rfl) noMark
  · rintro ⟨d, t, rfl, hsame, h⟩
    exact .taken hsame h

theorem not_like_lone : ¬Like literal alike ['\\'] s := by
  intro h
  cases h with
  | plain noMark => exact noMark (.inl rfl)

theorem like_plain_iff (hc : ¬IsMark c) :
    Like literal alike (c :: p) s ↔ ∃ d t, s = d :: t ∧ alike c d ∧ Like literal alike p t := by
  constructor
  · intro h
    cases h with
    | anyRun => exact absurd (.inr (.inl rfl)) hc
    | anyOne => exact absurd (.inr (.inr rfl)) hc
    | taken => exact absurd (.inl rfl) hc
    | plain _ same rest => exact ⟨_, _, rfl, same, rest⟩
  · rintro ⟨d, t, rfl, hsame, h⟩
    exact .plain hc hsame h

section Items

variable {alike : Char → Char → Bool} {q : List Char}

theorem matchText_iff :
    matchText alike p s = true ↔ ∃ items, items? p = some items ∧ matchItems alike items s = true := by
  cases hitems : items? p with
  | none => simp [matchText, hitems]
  | some items => simp [matchText_of_items? hitems]

theorem matchText_cons_iff {i : Item} (h : items? q = (items? p).map (i :: ·)) :
    matchText alike q s = true ↔ ∃ items, items? p = some items ∧ matchItems alike (i :: items) s = true := by
  simp only [matchText_iff, h, Option.map_eq_some_iff, exists_exists_and_eq_and]

theorem matchText_anyRun_iff (h : items? q = (items? p).map (.anyRun :: ·)) :
    matchText alike q s = true ↔ ∃ a t, s = a ++ t ∧ matchText alike p t = true := by
  simp only [matchText_cons_iff h, matchItems, anySuffix_iff, matchText_iff]
  constructor
  · rintro ⟨items, hitems, a, t, hs, hmatch⟩
    exact ⟨a, t, hs, items, hitems, hmatch⟩
  · rintro ⟨a, t, hs, items, hitems, hmatch⟩
    exact ⟨items, hitems, a, t, hs, hmatch⟩

theorem matchText_anyOne_iff (h : items? q = (items? p).map (.anyOne :: ·)) :
    matchText alike q s = true ↔ ∃ d t, s = d :: t ∧ matchText alike p t = true := by
  rw [matchText_cons_iff h]
  cases s <;> simp [matchItems, matchText_iff]

theorem matchText_exactly_iff (h : items? q = (items? p).map (.exactly c :: ·)) :
    matchText alike q s = true ↔ ∃ d t, s = d :: t ∧ alike c d = true ∧ matchText alike p t = true := by
  rw [matchText_cons_iff h]
  cases s with
  | nil => simp [matchItems]
  | cons d s =>
    simp only [matchItems, Bool.and_eq_true, List.cons.injEq, matchText_iff]
    constructor
    · rintro ⟨items, hitems, hsame, hmatch⟩
      exact ⟨d, s, ⟨rfl, rfl⟩, hsame, items, hitems, hmatch⟩
    · rintro ⟨_, _, ⟨rfl, rfl⟩, hsame, items, hitems, hmatch⟩
      exact ⟨items, hitems, hsame, hmatch⟩

/-- Going through the items of a pattern finds out what it matches. -/
theorem matchText_iff_like : matchText alike p s = true ↔ Like (alike · ·) (alike · ·) p s := by
  induction p using items?.induct generalizing s with
  | case1 =>
    simp only [like_nil_iff, matchText_iff, items?, Option.some.injEq, exists_eq_left', matchItems, List.isEmpty_iff]
  | case2 c p ih =>
    have hitems : items? ('\\' :: c :: p) = (items? p).map (.exactly c :: ·) := by rw [items?]
    simp only [like_taken_iff, matchText_exactly_iff hitems, ih]
  | case3 => simp only [not_like_lone, matchText_iff, items?, reduceCtorEq, false_and, exists_false]
  | case4 p ih =>
    have hitems : items? ('%' :: p) = (items? p).map (.anyRun :: ·) := by rw [items?]
    simp only [like_anyRun_iff, matchText_anyRun_iff hitems, ih]
  | case5 p ih =>
    have hitems : items? ('_' :: p) = (items? p).map (.anyOne :: ·) := by rw [items?]
    simp only [like_anyOne_iff, matchText_anyOne_iff hitems, ih]
  | case6 c p hpair hlone hrun hone ih =>
    have hbackslash : c ≠ '\\' := by
      rintro rfl
      cases p with
      | nil => exact hlone rfl rfl
      | cons d p => exact hpair d p rfl rfl
    have hc : ¬IsMark c := by
      rintro (h | h | h)
      · exact hbackslash h
      · exact hrun h
      · exact hone h
    -- what is no mark is taken as it is
    have hitems : items? (c :: p) = (items? p).map (.exactly c :: ·) := by
      rw [items?]
      · exact hpair
      · exact hlone
      · exact hrun
      · exact hone
    simp only [like_plain_iff hc, matchText_exactly_iff hitems, ih]

end Items

/-! ## Escaped texts -/

theorem escape_of_isMark (hc : IsMark c) (v : List Char) : escape (c :: v) = '\\' :: c :: escape v := by
  have hcheck : (c = '\\' || c = '%' || c = '_') = true := by simpa [IsMark, or_assoc] using hc
  rw [escape, if_pos hcheck]

theorem escape_of_not_isMark (hc : ¬IsMark c) (v : List Char) : escape (c :: v) = c :: escape v := by
  have hcheck : ¬(c = '\\' || c = '%' || c = '_') = true := by simpa [IsMark, not_or, and_assoc] using hc
  rw [escape, if_neg hcheck]

/-- Writes a backslash before every place where a text has a character. -/
def marked (c : Char) (cs : List Char) : List Char := cs.flatMap fun d => if d = c then ['\\', d] else [d]

/-- Escaping marks one kind of character after another, the backslash first. -/
theorem escape_eq_marked (v : List Char) : escape v = marked '_' (marked '%' (marked '\\' v)) := by
  induction v with
  | nil => rfl
  | cons c v ih =>
    have happend : ∀ (c : Char) (cs ds : List Char), marked c (cs ++ ds) = marked c cs ++ marked c ds :=
      fun c cs ds => List.flatMap_append
    have hsplit : ∀ d : Char, marked d (c :: v) = marked d [c] ++ marked d v := fun d => happend d [c] v
    rw [hsplit, happend, happend, ← ih]
    by_cases hc : IsMark c
    · rw [escape_of_isMark hc]
      rcases hc with rfl | rfl | rfl <;> rfl
    · rw [escape_of_not_isMark hc]
      simp only [IsMark, not_or] at hc
      simp [marked, hc]

theorem like_escape_append (hmarks : ∀ c d, IsMark c → (literal c d ↔ alike c d)) :
    Like literal alike (escape v ++ p) s ↔
      ∃ w t, s = w ++ t ∧ List.Forall₂ alike v w ∧ Like literal alike p t := by
  have hcons : ∀ {c : Char} {v s : List Char}, (∃ d t, s = d :: t ∧ alike c d ∧
      ∃ w u, t = w ++ u ∧ List.Forall₂ alike v w ∧ Like literal alike p u) ↔
        ∃ w t, s = w ++ t ∧ List.Forall₂ alike (c :: v) w ∧ Like literal alike p t := by
    intro c v s
    constructor
    · rintro ⟨d, t, rfl, hsame, w, u, rfl, hw, h⟩
      exact ⟨d :: w, u, rfl, .cons hsame hw, h⟩
    · rintro ⟨w, t, rfl, hw, h⟩
      cases hw with
      | cons hsame hw => exact ⟨_, _, rfl, hsame, _, t, rfl, hw, h⟩
  -- the text before the rest of the pattern is used up character by character
  induction v generalizing s with
  | nil => simp [escape]
  | cons c v ih =>
    rw [← hcons]
    by_cases hc : IsMark c
    · rw [escape_of_isMark hc, List.cons_append, List.cons_append, like_taken_iff]
      simp only [hmarks c _ hc, ih]
    · rw [escape_of_not_isMark hc, List.cons_append, like_plain_iff hc]
      simp only [ih]

/-- An escaped text with any run of characters before it, after it, or both. -/
def framed (before after : Bool) (v : List Char) : List Char :=
  (if before then ['%'] else []) ++ escape v ++ if after then ['%'] else []

theorem like_framed_iff (hmarks : ∀ c d, IsMark c → (literal c d ↔ alike c d)) (before after : Bool) :
    Like literal alike (framed before after v) s ↔ ∃ a w b, s = a ++ w ++ b ∧ List.Forall₂ alike v w ∧
      (before = false → a = []) ∧ (after = false → b = []) := by
  have hafter : ∀ b, Like literal alike (if after then ['%'] else []) b ↔ (after = false → b = []) := by
    intro b
    cases after with
    | false => simp [like_nil_iff]
    | true => simp [like_anyRun_iff, like_nil_iff]
  have hescape : ∀ t, Like literal alike (escape v ++ if after then ['%'] else []) t ↔
      ∃ w b, t = w ++ b ∧ List.Forall₂ alike v w ∧ (after = false → b = []) := by
    intro t
    simp only [like_escape_append hmarks, hafter]
  cases before with
  | false =>
    rw [framed, if_neg Bool.false_ne_true, List.nil_append, hescape]
    constructor
    · rintro ⟨w, b, hs, hw, hb⟩
      exact ⟨[], w, b, hs, hw, fun _ => rfl, hb⟩
    · rintro ⟨a, w, b, hs, hw, ha, hb⟩
      obtain rfl := ha rfl
      exact ⟨w, b, hs, hw, hb⟩
  | true =>
    rw [framed, if_pos rfl, List.append_assoc, List.singleton_append, like_anyRun_iff]
    simp only [hescape]
    constructor
    · rintro ⟨a, t, rfl, w, b, rfl, hw, hb⟩
      exact ⟨a, w, b, (List.append_assoc a w b).symm, hw, nofun, hb⟩
    · rintro ⟨a, w, b, hs, hw, -, hb⟩
      exact ⟨a, w ++ b, hs.trans (List.append_assoc a w b), w, b, rfl, hw, hb⟩

/-! ## Places -/

def Place.before (place : Place) : Bool := place ≠ .atStart

def Place.after (place : Place) : Bool := place ≠ .atEnd

/-- The pattern that looks for a text, at a place or as the whole of what it matches. -/
def looking (place : Option Place) (v : String) : String := place.elim (escaped v) (·.around (escaped v))

theorem toList_looking (place : Option Place) (v : String) :
    (looking place v).toList = framed (place.any Place.before) (place.any Place.after) v.toList := by
  rcases place with _ | _ | _ | _ <;> simp [looking, Place.around, Place.before, Place.after, escaped, framed]

/-- A text stands in another one, at a place or as the whole of it. -/
def Occurs (alike : Char → Char → Prop) (place : Option Place) (v s : List Char) : Prop :=
  match place with
  | none => List.Forall₂ alike v s
  | some .anywhere => ∃ w, w <:+: s ∧ List.Forall₂ alike v w
  | some .atStart => ∃ w, w <+: s ∧ List.Forall₂ alike v w
  | some .atEnd => ∃ w, w <:+ s ∧ List.Forall₂ alike v w

theorem occurs_iff (place : Option Place) : Occurs alike place v s ↔ ∃ a w b, s = a ++ w ++ b ∧
    List.Forall₂ alike v w ∧ (place.any Place.before = false → a = []) ∧ (place.any Place.after = false → b = []) := by
  rcases place with _ | _ | _ | _
  case none =>
    constructor
    · exact fun h => ⟨[], s, [], by simp, h, fun _ => rfl, fun _ => rfl⟩
    · rintro ⟨a, w, b, rfl, h, ha, hb⟩
      obtain rfl := ha rfl
      obtain rfl := hb rfl
      rwa [List.nil_append, List.append_nil]
  case anywhere =>
    constructor
    · rintro ⟨w, ⟨a, b, hs⟩, h⟩
      exact ⟨a, w, b, hs.symm, h, nofun, nofun⟩
    · rintro ⟨a, w, b, hs, h, -, -⟩
      exact ⟨w, ⟨a, b, hs.symm⟩, h⟩
  case atStart =>
    constructor
    · rintro ⟨w, ⟨b, hs⟩, h⟩
      exact ⟨[], w, b, hs.symm, h, fun _ => rfl, nofun⟩
    · rintro ⟨a, w, b, rfl, h, ha, -⟩
      obtain rfl := ha rfl
      exact ⟨w, ⟨b, rfl⟩, h⟩
  case atEnd =>
    constructor
    · rintro ⟨w, ⟨a, hs⟩, h⟩
      exact ⟨a, w, [], by rw [List.append_nil, hs], h, nofun, fun _ => rfl⟩
    · rintro ⟨a, w, b, rfl, h, -, hb⟩
      obtain rfl := hb rfl
      exact ⟨w, ⟨a, (List.append_nil _).symm⟩, h⟩

theorem like_looking_iff (hmarks : ∀ c d, IsMark c → (literal c d ↔ alike c d)) (place : Option Place) (v : String) :
    Like literal alike (looking place v).toList s ↔ Occurs alike place v.toList s := by
  rw [toList_looking, like_framed_iff hmarks, occurs_iff]

/-! ## Small letters -/

/-- Only capitals are changed, which are no marks and become none. -/
theorem asciiLower_cases (c : Char) :
    Text.asciiLower c = c ∨ ¬IsMark c ∧ ¬IsMark (Text.asciiLower c) := by
  unfold Text.asciiLower
  split
  · rename_i h
    have hcapital : 65 ≤ c.toNat ∧ c.toNat ≤ 90 := by
      rw [Bool.and_eq_true, decide_eq_true_eq, decide_eq_true_eq] at h
      exact h
    have hsmall : (Char.ofNat (c.toNat + 32)).toNat = c.toNat + 32 := by
      rw [Char.ofNat, dif_pos (show (c.toNat + 32).isValidChar by unfold Nat.isValidChar; omega)]
      rfl
    have hmark : ∀ d : Char, IsMark d → d.toNat = 92 ∨ d.toNat = 37 ∨ d.toNat = 95 := by
      rintro d (rfl | rfl | rfl)
      · exact .inl rfl
      · exact .inr (.inl rfl)
      · exact .inr (.inr rfl)
    refine .inr ⟨fun hc => ?_, fun hc => ?_⟩
    · have := hmark _ hc
      omega
    · have := hmark _ hc
      omega
  · exact .inl rfl

theorem ownMarks_asciiLower : OwnMarks fun c d => decide (Text.asciiLower c = Text.asciiLower d) = true := by
  intro c d hc
  simp only [decide_eq_true_eq]
  have hself : Text.asciiLower c = c := (asciiLower_cases c).resolve_right fun h => h.1 hc
  rw [hself]
  rcases asciiLower_cases d with hd | ⟨hd, hlower⟩
  · rw [hd]
  · constructor
    · exact fun h => absurd (h ▸ hc) hlower
    · exact fun h => absurd (h ▸ hc) hd

theorem map_asciiLower_escape (v : List Char) : (escape v).map Text.asciiLower = escape (v.map Text.asciiLower) := by
  have hbackslash : Text.asciiLower '\\' = '\\' := rfl
  induction v with
  | nil => rfl
  | cons c v ih =>
    rcases asciiLower_cases c with hsame | ⟨hc, hlower⟩
    · by_cases hc : IsMark c
      · rw [escape_of_isMark hc, List.map_cons, List.map_cons, List.map_cons, hsame, hbackslash, ih, escape_of_isMark hc]
      · rw [escape_of_not_isMark hc, List.map_cons, List.map_cons, hsame, ih, escape_of_not_isMark hc]
    · rw [escape_of_not_isMark hc, List.map_cons, List.map_cons, ih, escape_of_not_isMark hlower]

theorem map_asciiLower_looking (place : Option Place) (v : String) :
    (looking place v).toList.map Text.asciiLower =
      (looking place (String.ofList (v.toList.map Text.asciiLower))).toList := by
  have hrun : ∀ b : Bool, (if b then ['%'] else []).map Text.asciiLower = if b then ['%'] else [] := by
    intro b
    cases b <;> rfl
  rw [toList_looking, toList_looking, framed, framed, List.map_append, List.map_append, hrun, hrun,
    map_asciiLower_escape, String.toList_ofList]

/-- Escaping is exact, whether a backslash takes a character for itself or for those that are alike, as long as marks are
alike only to themselves. The pattern for a text at a place matches the texts that have it there, character by character;
and after both have been made small, those whose small letters have the small letters of it there. -/
theorem looking_exact {literal : Char → Char → Prop} {alike : Char → Char → Bool} (hliteral : OwnMarks literal)
    (halike : OwnMarks (alike · ·)) (place : Option Place) (v s : String) :
    (Like literal (alike · ·) (looking place v).toList s.toList ↔ Occurs (alike · ·) place v.toList s.toList) ∧
    (matchText alike (looking place v).toList s.toList = true ↔ Occurs (alike · ·) place v.toList s.toList) ∧
    (escape v.toList).map Text.asciiLower = escape (v.toList.map Text.asciiLower) ∧
    (Like literal (alike · ·) ((looking place v).toList.map Text.asciiLower) (s.toList.map Text.asciiLower) ↔
      Occurs (alike · ·) place (v.toList.map Text.asciiLower) (s.toList.map Text.asciiLower)) ∧
    (matchText alike ((looking place v).toList.map Text.asciiLower) (s.toList.map Text.asciiLower) = true ↔
      Occurs (alike · ·) place (v.toList.map Text.asciiLower) (s.toList.map Text.asciiLower)) := by
  have hmarks : ∀ c d, IsMark c → (literal c d ↔ alike c d = true) :=
    fun c d hc => (hliteral c d hc).trans (halike c d hc).symm
  have hsame : ∀ c d, IsMark c → (alike c d = true ↔ alike c d = true) := fun _ _ _ => Iff.rfl
  refine ⟨like_looking_iff hmarks place v, ?_, map_asciiLower_escape v.toList, ?_, ?_⟩
  · rw [matchText_iff_like, like_looking_iff hsame]
  · rw [map_asciiLower_looking, like_looking_iff hmarks, String.toList_ofList]
  · rw [map_asciiLower_looking, matchText_iff_like, like_looking_iff hsame, String.toList_ofList]

theorem looking_exact_discount :
    let alike := fun c d => decide (Text.asciiLower c = Text.asciiLower d)
    OwnMarks Eq ∧ OwnMarks (alike · ·) ∧
      Like Eq (alike · ·) (looking (some .atStart) "5\\_%o").toList "5\\_%OFF".toList ∧
      matchText alike (looking (some .atStart) "5\\_%o").toList "5\\_%OFF".toList = true ∧
      matchText alike (looking none "%").toList "5".toList = false := by
  intro alike
  have heq : OwnMarks Eq := fun _ _ _ => Iff.rfl
  have hstart := looking_exact heq ownMarks_asciiLower (some .atStart) "5\\_%o" "5\\_%OFF"
  have hrun := looking_exact heq ownMarks_asciiLower none "%" "5"
  have hoccurs : Occurs (alike · ·) (some .atStart) "5\\_%o".toList "5\\_%OFF".toList :=
    ⟨"5\\_%O".toList, ⟨"FF".toList, rfl⟩, by decide⟩
  refine ⟨heq, ownMarks_asciiLower, hstart.1.mpr hoccurs, hstart.2.1.mpr hoccurs, ?_⟩
  rw [Bool.eq_false_iff, Ne, hrun.2.1]
  exact (by decide : ¬List.Forall₂ (alike · ·) "%".toList "5".toList)

end Sift.Pattern
