import Mathlib.Data.List.Basic
import Mathlib.Data.List.TakeWhile
import Sift.Calendar.Reader
import Sift.Proofs.Text.Digits

/-!
# Texts of days

A day is written with its month or with its week, with hyphens or without. How many characters of a text are its day is
decided before the day is read: what has been read in the end is the text of a day, and exactly that many characters.
-/

namespace Sift.Calendar

open Text

/-! ## Numbers of fixed length -/

/-- A number in exactly `width` digits. -/
structure Written (width n : Nat) (cs : List Char) : Prop where
  length : cs.length = width
  isDigit : ∀ c ∈ cs, c.isDigit = true
  value : Nat.ofDigitChars 10 cs 0 = n

/-- A mark that stands between all fields or between none. -/
def between (mark : Char) (given : Bool) : List Char := if given then [mark] else []

/-- The text of a day: a month and a day of it, or a week and perhaps a day of it. -/
inductive DayText : List Char → Prop
  | month {y m d : Nat} {ys ms ds : List Char} (hyphens : Bool) : Written 4 y ys → Written 2 m ms → Written 2 d ds →
      DayText (ys ++ (between '-' hyphens ++ (ms ++ (between '-' hyphens ++ ds))))
  | week {y w : Nat} {ys ws : List Char} (hyphens : Bool) : Written 4 y ys → Written 2 w ws →
      DayText (ys ++ (between '-' hyphens ++ 'W' :: ws))
  | weekday {y w d : Nat} {ys ws ds : List Char} (hyphens : Bool) : Written 4 y ys → Written 2 w ws → Written 1 d ds →
      DayText (ys ++ (between '-' hyphens ++ 'W' :: (ws ++ (between '-' hyphens ++ ds))))

/-- A character that a day is written with. -/
def IsDayChar (c : Char) : Prop := c.isDigit = true ∨ c = '-' ∨ c = 'W'

variable {cs rest ys ms ws ds : List Char} {width n y m w d size : Nat} {c : Char}

theorem isDigit_eq : isDigit = Char.isDigit := by
  funext c
  cases h : c.isDigit with
  | true => rw [isDigit, asciiDigit?_of_isDigit h, Option.isSome_some]
  | false =>
    rw [isDigit, Option.isSome_eq_false_iff, Option.isNone_iff_eq_none, Option.eq_none_iff_forall_ne_some]
    intro d hd
    rw [(isDigit_of_asciiDigit? hd).1] at h
    cases h

theorem digitsAfter_append (h : ∀ c ∈ cs, c.isDigit = true) (acc : Nat) (rest : List Char) :
    digitsAfter acc cs.length (cs ++ rest) = some (Nat.ofDigitChars 10 cs acc, rest) := by
  induction cs generalizing acc with
  | nil => rfl
  | cons c cs ih =>
    obtain ⟨hc, hcs⟩ := List.forall_mem_cons.mp h
    rw [List.length_cons, List.cons_append, digitsAfter, asciiDigit?_of_isDigit hc, Option.bind_some, ih hcs,
      Nat.ofDigitChars_cons]
    rfl

theorem exists_of_digitsAfter {acc : Nat} (h : digitsAfter acc width cs = some (n, rest)) :
    ∃ ds, ds.length = width ∧ (∀ c ∈ ds, c.isDigit = true) ∧ Nat.ofDigitChars 10 ds acc = n ∧ cs = ds ++ rest := by
  induction width generalizing acc cs with
  | zero =>
    cases h
    exact ⟨[], rfl, nofun, rfl, rfl⟩
  | succ width ih =>
    cases cs with
    | nil => cases h
    | cons c cs =>
      obtain ⟨k, hk, h⟩ := Option.bind_eq_some_iff.mp h
      obtain ⟨hc, rfl⟩ := isDigit_of_asciiDigit? hk
      obtain ⟨ds, rfl, hds, hvalue, rfl⟩ := ih h
      exact ⟨c :: ds, rfl, List.forall_mem_cons.mpr ⟨hc, hds⟩, hvalue, rfl⟩

theorem digits_eq_some_iff : digits width cs = some (n, rest) ↔ ∃ ds, Written width n ds ∧ cs = ds ++ rest := by
  constructor
  · intro h
    obtain ⟨ds, hlength, hdigits, hvalue, rfl⟩ := exists_of_digitsAfter h
    exact ⟨ds, ⟨hlength, hdigits, hvalue⟩, rfl⟩
  · rintro ⟨ds, ⟨rfl, hdigits, rfl⟩, rfl⟩
    exact digitsAfter_append hdigits 0 rest

theorem written_padded (hwidth : 0 < width) (h : n < 10 ^ width) : Written width n (padded width n).toList where
  length := length_padded hwidth h
  isDigit _ := isDigit_of_mem_padded
  value := ofDigitChars_padded width n

namespace Written

theorem digits_append (h : Written width n ds) (rest : List Char) : digits width (ds ++ rest) = some (n, rest) :=
  digits_eq_some_iff.mpr ⟨ds, h, rfl⟩

theorem not_mem (h : Written width n ds) (hc : c.isDigit = false) : c ∉ ds := by
  intro hmem
  rw [h.isDigit c hmem] at hc
  cases hc

theorem exists_cons (h : Written (width + 1) n ds) (rest : List Char) :
    ∃ c cs, c.isDigit = true ∧ ds ++ rest = c :: cs ∧ cs.length = width + rest.length := by
  obtain ⟨hlength, hdigits, -⟩ := h
  obtain ⟨c, ds, rfl⟩ := List.exists_cons_of_length_eq_add_one hlength
  refine ⟨c, ds ++ rest, hdigits c List.mem_cons_self, rfl, ?_⟩
  rw [List.length_append, Nat.succ.inj hlength]

end Written

theorem digits_padded (hwidth : 0 < width) (h : n < 10 ^ width) (rest : List Char) :
    digits width ((padded width n).toList ++ rest) = some (n, rest) :=
  (written_padded hwidth h).digits_append rest

/-! ## The text of a day -/

@[simp] theorem between_false (mark : Char) : between mark false = [] := rfl

@[simp] theorem between_true (mark : Char) : between mark true = [mark] := rfl

theorem eq_of_mem_between {mark : Char} {given : Bool} (h : c ∈ between mark given) : c = mark := by
  cases given with
  | false => cases h
  | true => exact List.mem_singleton.mp h

theorem Written.isDayChar (h : Written width n ds) : ∀ c ∈ ds, IsDayChar c :=
  fun c hc => .inl (h.isDigit c hc)

theorem isDayChar_between (hyphens : Bool) : ∀ c ∈ between '-' hyphens, IsDayChar c :=
  fun _ hc => .inr (.inl (eq_of_mem_between hc))

theorem DayText.isDayChar {day : List Char} (h : DayText day) : ∀ c ∈ day, IsDayChar c := by
  have hletter : IsDayChar 'W' := .inr (.inr rfl)
  cases h with
  | month hyphens hy hm hd =>
    simp only [List.forall_mem_append]
    exact ⟨hy.isDayChar, isDayChar_between hyphens, hm.isDayChar, isDayChar_between hyphens, hd.isDayChar⟩
  | week hyphens hy hw =>
    simp only [List.forall_mem_append, List.forall_mem_cons]
    exact ⟨hy.isDayChar, isDayChar_between hyphens, hletter, hw.isDayChar⟩
  | weekday hyphens hy hw hd =>
    simp only [List.forall_mem_append, List.forall_mem_cons]
    exact ⟨hy.isDayChar, isDayChar_between hyphens, hletter, hw.isDayChar, isDayChar_between hyphens, hd.isDayChar⟩

def weekSize (hyphens : Bool) : Nat := if hyphens then 8 else 7

def daySize (hyphens : Bool) : Nat := if hyphens then 10 else 8

theorem weekSize_lt_daySize (hyphens : Bool) : weekSize hyphens < daySize hyphens := by
  cases hyphens <;> decide

section

variable {hyphens : Bool}

theorem length_month (hy : ys.length = 4) (hm : ms.length = 2) (hd : ds.length = 2) :
    (ys ++ (between '-' hyphens ++ (ms ++ (between '-' hyphens ++ ds)))).length = daySize hyphens := by
  cases hyphens <;> simp [daySize, hy, hm, hd]

theorem length_week (hy : ys.length = 4) (hw : ws.length = 2) :
    (ys ++ (between '-' hyphens ++ 'W' :: ws)).length = weekSize hyphens := by
  cases hyphens <;> simp [weekSize, hy, hw]

theorem length_weekday (hy : ys.length = 4) (hw : ws.length = 2) (hd : ds.length = 1) :
    (ys ++ (between '-' hyphens ++ 'W' :: (ws ++ (between '-' hyphens ++ ds)))).length = daySize hyphens := by
  cases hyphens <;> simp [daySize, hy, hw, hd]

end

theorem DayText.length_le {day : List Char} (h : DayText day) : day.length ≤ 10 := by
  have hsize (hyphens : Bool) : daySize hyphens ≤ 10 := by cases hyphens <;> decide
  cases h with
  | month hyphens hy hm hd => exact (length_month hy.length hm.length hd.length).trans_le (hsize hyphens)
  | week hyphens hy hw =>
    rw [length_week hy.length hw.length]
    exact (weekSize_lt_daySize hyphens).le.trans (hsize hyphens)
  | weekday hyphens hy hw hd => exact (length_weekday hy.length hw.length hd.length).trans_le (hsize hyphens)

/-! ## How long a day is -/

theorem utf8Length_eq_sum (cs : List Char) : utf8Length cs = (cs.map Char.utf8Size).sum := by
  rw [utf8Length, ← List.foldl_map, List.sum_eq_foldl]

theorem length_le_utf8Length (cs : List Char) : cs.length ≤ utf8Length cs := by
  rw [utf8Length_eq_sum]
  induction cs with
  | nil => exact Nat.le_refl 0
  | cons c cs ih =>
    have hpos := c.utf8Size_pos
    rw [List.map_cons, List.sum_cons, List.length_cons]
    omega

/-- After the year, the characters at fixed places tell how long a day is. -/
theorem dateSize_append (hy : ys.length = 4) (h : 3 < cs.length) : dateSize (ys ++ cs) =
    if cs[0]? == some '-' then
      if cs[1]? == some 'W' then
        if cs[4]? == some '-' then
          if (cs[6]?.map Char.isDigit).getD false then 8 else 10
        else 8
      else 10
    else if cs[0]? == some 'W' then
      let k := ((cs.drop 3).takeWhile Char.isDigit).length
      if k < 2 then 7 + k else if k % 2 = 0 then 8 else 7
    else 8 := by
  have hsize := length_le_utf8Length (ys ++ cs)
  rw [List.length_append] at hsize
  have hplace (i : Nat) : (ys ++ cs)[4 + i]? = cs[i]? := by
    rw [List.getElem?_append_right (by omega), hy, Nat.add_sub_cancel_left]
  have hdrop : (ys ++ cs).drop 7 = cs.drop 3 := by
    rw [List.drop_append, hy, List.drop_eq_nil_of_le (by omega), List.nil_append]
  have hstop (k : Nat) : (if 7 + k < 9 then 7 + k else if (7 + k) % 2 = 0 then 7 else 8) =
      if k < 2 then 7 + k else if k % 2 = 0 then 8 else 7 := by
    grind
  rw [dateSize, if_neg (by omega), isDigit_eq]
  simp only [hplace 0, hplace 1, hplace 4, hplace 6, hdrop, hstop]

/-- With a month, only the hyphens count. -/
theorem dateSize_month (hyphens : Bool) (hy : ys.length = 4) (hm : Written 2 m ms) (hrest : 2 ≤ rest.length) :
    dateSize (ys ++ (between '-' hyphens ++ (ms ++ rest))) = daySize hyphens := by
  obtain ⟨c, cs, hc, hcs, hlength⟩ := hm.exists_cons rest
  have hhyphen : c ≠ '-' := ne_of_isDigit hc rfl
  have hweek : c ≠ 'W' := ne_of_isDigit hc rfl
  rw [hcs, dateSize_append hy (by simp only [List.length_append, List.length_cons]; omega)]
  cases hyphens <;> simp [daySize, hhyphen, hweek]

/-- With a week and hyphens, a hyphen after the week leads to a day of it, unless two digits follow. -/
theorem dateSize_week_hyphens (hy : ys.length = 4) (hw : ws.length = 2) :
    dateSize (ys ++ '-' :: 'W' :: (ws ++ rest)) =
      if rest[0]? = some '-' then if (rest[2]?.map Char.isDigit).getD false then 8 else 10 else 8 := by
  obtain ⟨a, b, rfl⟩ := List.length_eq_two.mp hw
  rw [dateSize_append hy (by simp only [List.length_append, List.length_cons]; omega)]
  simp

/-- With a week and no hyphens, the number of digits that follow decides. -/
theorem dateSize_week_plain (hy : ys.length = 4) (hw : ws.length = 2) (hrest : rest ≠ []) :
    dateSize (ys ++ 'W' :: (ws ++ rest)) =
      let k := (rest.takeWhile Char.isDigit).length
      if k < 2 then 7 + k else if k % 2 = 0 then 8 else 7 := by
  have hpos := List.length_pos_iff.mpr hrest
  obtain ⟨a, b, rfl⟩ := List.length_eq_two.mp hw
  rw [dateSize_append hy (by simp only [List.length_append, List.length_cons]; omega)]
  rfl

/-- A week alone or with a day of it: the rest of the text decides. -/
theorem dateSize_week_cases (hyphens : Bool) (hy : ys.length = 4) (hw : ws.length = 2)
    (hlong : 7 < (ys ++ (between '-' hyphens ++ 'W' :: (ws ++ rest))).length) :
    dateSize (ys ++ (between '-' hyphens ++ 'W' :: (ws ++ rest))) = weekSize hyphens ∨
      dateSize (ys ++ (between '-' hyphens ++ 'W' :: (ws ++ rest))) = daySize hyphens := by
  cases hyphens with
  | false =>
    have hrest : rest ≠ [] := by
      rintro rfl
      simp [hy, hw] at hlong
    simp only [between_false, List.nil_append, dateSize_week_plain hy hw hrest]
    split
    · show 7 + _ = 7 ∨ 7 + _ = 8
      omega
    · split
      · exact .inr rfl
      · exact .inl rfl
  | true =>
    simp only [between_true, List.singleton_append, dateSize_week_hyphens hy hw]
    split
    · split
      · exact .inl rfl
      · exact .inr rfl
    · exact .inl rfl

/-- The day at the front of a text is the whole of what stands before a character that no day goes on with. -/
theorem DayText.dateSize_eq {day : List Char} (hday : DayText day) (hc : c.isDigit = false) (hyphen : c ≠ '-')
    (rest : List Char) : dateSize (day ++ c :: rest) = day.length := by
  cases hday with
  | month hyphens hy hm hd =>
    rw [length_month hy.length hm.length hd.length]
    simp only [List.append_assoc]
    exact dateSize_month hyphens hy.length hm (by simp only [List.length_append, hd.length]; omega)
  | week hyphens hy hw =>
    rw [length_week hy.length hw.length]
    cases hyphens <;>
      simp [dateSize_week_plain hy.length hw.length, dateSize_week_hyphens hy.length hw.length, hc, hyphen, weekSize]
  | weekday hyphens hy hw hd =>
    obtain ⟨a, rfl⟩ := List.length_eq_one_iff.mp hd.length
    have ha := hd.isDigit a (List.mem_singleton_self a)
    rw [length_weekday hy.length hw.length hd.length]
    cases hyphens <;>
      simp [dateSize_week_plain hy.length hw.length, dateSize_week_hyphens hy.length hw.length, hc, ha, daySize]

/-! ## Reading a day -/

/-- What a day is read from when its first `size` characters are the day. Only these tell whether a week has a day. -/
inductive DayFront (size : Nat) : List Char → Prop
  | month {y m d : Nat} {ys ms ds : List Char} (hyphens : Bool) (rest : List Char) :
      Written 4 y ys → Written 2 m ms → Written 2 d ds →
      DayFront size (ys ++ (between '-' hyphens ++ (ms ++ (between '-' hyphens ++ (ds ++ rest)))))
  | week {y w : Nat} {ys ws : List Char} (hyphens : Bool) (rest : List Char) : Written 4 y ys → Written 2 w ws →
      size ≤ weekSize hyphens → DayFront size (ys ++ (between '-' hyphens ++ 'W' :: (ws ++ rest)))
  | weekday {y w d : Nat} {ys ws ds : List Char} (hyphens : Bool) (rest : List Char) :
      Written 4 y ys → Written 2 w ws → Written 1 d ds → weekSize hyphens < size →
      DayFront size (ys ++ (between '-' hyphens ++ 'W' :: (ws ++ (between '-' hyphens ++ (ds ++ rest)))))

theorem eq_of_skip (h : skip c cs = some rest) : cs = c :: rest := by
  cases cs with
  | nil => cases h
  | cons c' cs =>
    rw [skip] at h
    split at h
    · rename_i hc
      cases h
      rw [hc]
    · cases h

theorem eq_of_skip_between {given : Bool} (h : (if given then skip c cs else some cs) = some rest) :
    cs = between c given ++ rest := by
  cases given with
  | false => exact Option.some_inj.mp h
  | true => exact eq_of_skip h

section

variable {α : Type} {r : α} {f : Nat × List Char → Nat × List Char → Option α} {g : Nat × List Char → Option α}

theorem DayFront.of_month (hys : Written 4 y ys) (hyphens : Bool)
    (h : ((digits 2 cs).bind fun m => (if hyphens then skip '-' m.2 else some m.2).bind fun tail =>
      (digits 2 tail).bind fun d => f m d) = some r) : DayFront size (ys ++ (between '-' hyphens ++ cs)) := by
  obtain ⟨⟨m, rest⟩, hm, hrest⟩ := Option.bind_eq_some_iff.mp h
  obtain ⟨tail, htail, hd⟩ := Option.bind_eq_some_iff.mp hrest
  obtain ⟨⟨d, rest'⟩, hd, -⟩ := Option.bind_eq_some_iff.mp hd
  obtain ⟨ms, hms, rfl⟩ := digits_eq_some_iff.mp hm
  obtain ⟨ds, hds, rfl⟩ := digits_eq_some_iff.mp hd
  cases eq_of_skip_between htail
  exact .month hyphens rest' hys hms hds

theorem DayFront.of_week (hys : Written 4 y ys) (hyphens : Bool)
    (h : ((digits 2 cs).bind fun w => if weekSize hyphens < size then
        (if hyphens then skip '-' w.2 else some w.2).bind fun tail => (digits 1 tail).bind fun d => f w d
      else g w) = some r) : DayFront size (ys ++ (between '-' hyphens ++ 'W' :: cs)) := by
  obtain ⟨⟨w, rest⟩, hw, hrest⟩ := Option.bind_eq_some_iff.mp h
  obtain ⟨ws, hws, rfl⟩ := digits_eq_some_iff.mp hw
  by_cases hsize : weekSize hyphens < size
  · rw [if_pos hsize] at hrest
    obtain ⟨tail, htail, hd⟩ := Option.bind_eq_some_iff.mp hrest
    obtain ⟨⟨d, rest'⟩, hd, -⟩ := Option.bind_eq_some_iff.mp hd
    obtain ⟨ds, hds, rfl⟩ := digits_eq_some_iff.mp hd
    cases eq_of_skip_between htail
    exact .weekday hyphens rest' hys hws hds hsize
  · exact .week hyphens rest hys hws (Nat.le_of_not_lt hsize)

end

theorem dayFront_of_dateFields {r : Except CalendarFault Date} (h : dateFields size cs = some r) :
    DayFront size cs := by
  obtain ⟨⟨y, rest⟩, hy, hrest⟩ := Option.bind_eq_some_iff.mp h
  obtain ⟨ys, hys, rfl⟩ := digits_eq_some_iff.mp hy
  dsimp only at hrest
  -- the reader looks for a hyphen and then for a `W`
  split at hrest
  · rename_i heq
    split at heq
    · cases heq
      exact .of_week hys true hrest
    · split at hrest
      · cases heq
      · cases heq
        exact .of_week hys false hrest
  · split at hrest
    · exact .of_month hys true hrest
    · exact .of_month hys false hrest

/-- A day that is read is as long as it was taken to be. -/
theorem exists_day {r : Except CalendarFault Date} (h : dateFields (dateSize cs) cs = some r) (hlong : 7 < cs.length) :
    ∃ day rest, DayText day ∧ cs = day ++ rest ∧ day.length = dateSize cs := by
  generalize hsize : dateSize cs = size at h
  cases dayFront_of_dateFields h with
  | month hyphens rest hy hm hd =>
    refine ⟨_, rest, .month hyphens hy hm hd, by simp only [List.append_assoc], ?_⟩
    rw [length_month hy.length hm.length hd.length, ← hsize]
    exact (dateSize_month hyphens hy.length hm (by simp only [List.length_append, hd.length]; omega)).symm
  | week hyphens rest hy hw hshort =>
    refine ⟨_, rest, .week hyphens hy hw, by simp only [List.append_assoc, List.cons_append], ?_⟩
    -- with the size of a day in full, the day would have been read
    have hless := weekSize_lt_daySize hyphens
    rw [length_week hy.length hw.length]
    rcases dateSize_week_cases hyphens hy.length hw.length hlong with heq | heq <;> omega
  | weekday hyphens rest hy hw hd hfull =>
    refine ⟨_, rest, .weekday hyphens hy hw hd, by simp only [List.append_assoc, List.cons_append], ?_⟩
    rw [length_weekday hy.length hw.length hd.length]
    rcases dateSize_week_cases hyphens hy.length hw.length hlong with heq | heq <;> omega

end Sift.Calendar
