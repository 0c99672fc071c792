/-!
# Patterns

In a pattern `%` stands for any run of characters and `_` for any one character. A backslash takes the character
after it literally; a pattern that ends in a lone backslash matches nothing.
-/

namespace Sift.Pattern

inductive Item where
  | anyRun
  | anyOne
  | exactly (c : Char)
  deriving DecidableEq, Repr

/-- The items of a pattern; nothing when it ends in a lone backslash. -/
def items? : List Char → Option (List Item)
  | [] => some []
  | '\\' :: c :: cs => (items? cs).map (.exactly c :: ·)
  | '\\' :: [] => none
  | '%' :: cs => (items? cs).map (.anyRun :: ·)
  | '_' :: cs => (items? cs).map (.anyOne :: ·)
  | c :: cs => (items? cs).map (.exactly c :: ·)

/-- Does a test hold of a text or of what is left of it after some of its first characters? -/
def anySuffix (test : List Char → Bool) : List Char → Bool
  | [] => test []
  | c :: s => test (c :: s) || anySuffix test s

theorem anySuffix_iff {test : List Char → Bool} {s : List Char} :
    anySuffix test s = true ↔ ∃ a b, s = a ++ b ∧ test b = true := by
  induction s with
  | nil =>
    constructor
    · intro h; exact ⟨[], [], rfl, h⟩
    · rintro ⟨a, b, e, h⟩
      obtain ⟨rfl, rfl⟩ := List.append_eq_nil_iff.mp e.symm
      exact h
  | cons c s ih =>
    simp only [anySuffix, Bool.or_eq_true, ih]
    constructor
    · rintro (h | ⟨a, b, rfl, h⟩)
      · exact ⟨[], c :: s, rfl, h⟩
      · exact ⟨c :: a, b, rfl, h⟩
    · rintro ⟨a, b, e, h⟩
      cases a with
      | nil => left; rw [e]; exact h
      | cons d a =>
        obtain ⟨rfl, rfl⟩ := List.cons.inj e
        exact Or.inr ⟨a, b, rfl, h⟩

/-- Do the items match the whole text? Characters match when they are alike. -/
def matchItems (alike : Char → Char → Bool) : List Item → List Char → Bool
  | [], s => s.isEmpty
  | .anyRun :: p, s => anySuffix (matchItems alike p) s
  | .anyOne :: p, s =>
    match s with
    | [] => false
    | _ :: s => matchItems alike p s
  | .exactly c :: p, s =>
    match s with
    | [] => false
    | d :: s => alike c d && matchItems alike p s

/-! ## Matching all rests of a text at once

An item that stands for any run makes `matchItems` try every rest of the text, and several of them try the same rests
again and again. Going through the items from the last one on, with a table of the rests that match what follows, every
pair of an item and a rest is looked at once.
-/

/-- What is left of a text after some of its first characters, from the whole text to the empty one. -/
def rests : List Char → List (List Char)
  | [] => [[]]
  | c :: s => (c :: s) :: rests s

/-- Only the empty rest matches. -/
def onlyEmpty : List Char → List Bool
  | [] => [true]
  | _ :: s => false :: onlyEmpty s

/-- A rest matches if it or a shorter one did. -/
def orShorter : List Bool → List Bool
  | [] => []
  | b :: bs =>
    let rest := orShorter bs
    (b || rest.headD false) :: rest

/-- A rest matches if its first character passes the test and what follows did match. -/
def afterOne (test : Char → Bool) : List Char → List Bool → List Bool
  | d :: s, _ :: bs => (test d && bs.headD false) :: afterOne test s bs
  | _, _ => [false]

/-- For every rest of a text, do the items match it? -/
def matchRests (alike : Char → Char → Bool) : List Item → List Char → List Bool
  | [], s => onlyEmpty s
  | .anyRun :: p, s => orShorter (matchRests alike p s)
  | .anyOne :: p, s => afterOne (fun _ => true) s (matchRests alike p s)
  | .exactly c :: p, s => afterOne (alike c) s (matchRests alike p s)

theorem headD_map_rests (test : List Char → Bool) (s : List Char) :
    ((rests s).map test).headD false = test s := by
  cases s <;> rfl

theorem afterOne_map_rests (here : Char → Bool) (test : List Char → Bool) (s : List Char) :
    afterOne here s ((rests s).map test) = (rests s).map fun
      | [] => false
      | d :: s => here d && test s := by
  induction s with
  | nil => rfl
  | cons d s ih => simp only [rests, List.map_cons, afterOne, headD_map_rests, ih]

theorem orShorter_map_rests (test : List Char → Bool) (s : List Char) :
    orShorter ((rests s).map test) = (rests s).map (anySuffix test) := by
  induction s with
  | nil => simp [rests, orShorter, anySuffix]
  | cons d s ih => simp only [rests, List.map_cons, orShorter, ih, headD_map_rests, anySuffix]

theorem matchRests_eq (alike : Char → Char → Bool) (p : List Item) (s : List Char) :
    matchRests alike p s = (rests s).map (matchItems alike p) := by
  induction p with
  | nil =>
    simp only [matchRests]
    induction s with
    | nil => rfl
    | cons d s ih => simp [onlyEmpty, rests, ih, matchItems]
  | cons i p ih =>
    cases i with
    | anyRun =>
      simp only [matchRests, ih, orShorter_map_rests]
      refine List.map_congr_left fun r _ => ?_
      simp only [matchItems]
    | anyOne =>
      simp only [matchRests, ih, afterOne_map_rests]
      refine List.map_congr_left fun r _ => ?_
      cases r <;> simp [matchItems]
    | exactly c =>
      simp only [matchRests, ih, afterOne_map_rests]
      refine List.map_congr_left fun r _ => ?_
      cases r <;> simp [matchItems]

/-- Does the pattern match the whole text? -/
def matchText (alike : Char → Char → Bool) (pattern s : List Char) : Bool :=
  match items? pattern with
  | some p => (matchRests alike p s).headD false
  | none => false

theorem matchText_of_items? {alike : Char → Char → Bool} {pattern s : List Char} {p : List Item}
    (h : items? pattern = some p) : matchText alike pattern s = matchItems alike p s := by
  simp only [matchText, h, matchRests_eq, headD_map_rests]

/-- Writes a backslash before every character that a pattern would not take literally. -/
def escape : List Char → List Char
  | [] => []
  | c :: cs => if c = '\\' || c = '%' || c = '_' then '\\' :: c :: escape cs else c :: escape cs

/-- An escaped text is taken literally. -/
theorem items?_escape (cs : List Char) : items? (escape cs) = some (cs.map .exactly) := by
  induction cs with
  | nil => rfl
  | cons c cs ih =>
    simp only [escape]
    split
    · simp [items?, ih]
    · rename_i h
      simp only [Bool.or_eq_true, decide_eq_true_eq, not_or] at h
      obtain ⟨⟨h₁, h₂⟩, h₃⟩ := h
      simp [items?, h₁, ih]

/-- A string that a pattern takes literally. -/
def escaped (s : String) : String :=
  String.ofList (escape s.toList)

/-- Where in a text a given text is looked for. -/
inductive Place where
  | anywhere
  | atStart
  | atEnd
  deriving DecidableEq, Repr

/-- The pattern that looks for a text, which is escaped already, at a place. -/
def Place.around (p : Place) (s : String) : String :=
  match p with
  | .anywhere => "%" ++ s ++ "%"
  | .atStart => s ++ "%"
  | .atEnd => "%" ++ s

end Sift.Pattern
