import Sift.Proofs.Calendar.Offsets
import Sift.Proofs.Outcome

/-!
# Moments with the offset of universal time after them

Where the text of a moment goes on with `+00:00`, this is its offset, but for two kinds of texts. After a day alone the
sign is the character between date and time, so the rest is read as the time. And an offset that ends at a NUL is the
only one that is read.
-/

namespace Sift.Calendar

open Text

/-- The offset of universal time after its sign. -/
def utcClock : List Char := ['0', '0', ':', '0', '0']

/-- The part of a text from its first mark of an offset on. -/
def fromMark (cs : List Char) : List Char := cs.dropWhile (!isMark ·)

/-- A text that holds an offset of a second or more: a day, any one character, and a time up to a sign; then the
offset, which ends before the text does. -/
inductive HoldsOffset : List Char → Prop
  | intro {day hs more offset : List Char} {c sign : Char} {h n : Nat} : DayText day → Written 2 h hs →
      (∀ c ∈ more, isMark c = false) → sign = '+' ∨ sign = '-' → EndedOffset n offset → 0 < n →
      HoldsOffset (day ++ c :: (hs ++ (more ++ sign :: offset)))

theorem HoldsOffset.nul_mem {body : List Char} (h : HoldsOffset body) : '\x00' ∈ body := by
  cases h with
  | intro _ _ _ _ hoffset _ =>
    obtain ⟨lead, ds, after, -, -, -, rfl⟩ := hoffset
    simp

variable {cs front body post tail : List Char} {c sign : Char} {n : Nat} {s : String} {t : Moment}

/-! ## The first mark of an offset -/

theorem isMark_of_sign (h : sign = '+' ∨ sign = '-') : isMark sign = true := by
  rcases h with rfl | rfl <;> rfl

theorem sign_of_isMark (h : isMark c = true) (hc : c ≠ 'Z') : c = '+' ∨ c = '-' := by
  simp only [isMark, Bool.or_eq_true, decide_eq_true_eq, hc, or_false] at h
  exact h

theorem fromMark_append (hfront : ∀ c ∈ front, isMark c = false) (hc : isMark c = true) (cs : List Char) :
    fromMark (front ++ c :: cs) = c :: cs := by
  rw [fromMark, List.dropWhile_append_of_pos fun d hd => by rw [hfront d hd]; rfl]
  exact List.dropWhile_cons_of_neg (by rw [hc]; exact Bool.false_ne_true)

theorem fromMark_cons (hc : c.isDigit = true) : fromMark (c :: cs) = fromMark cs :=
  List.dropWhile_cons_of_pos (by rw [isMark_of_isDigit hc]; rfl)

/-! ## Times -/

/-- A time that is read starts with two digits. It has the offset that its first mark tells. -/
theorem timeFields_cases {f : ClockFields} {o : Option (Except CalendarFault UtcOffset)}
    (h : timeFields cs = some (f, o)) :
    (∃ n ds more, Written 2 n ds ∧ cs = ds ++ more) ∧ (fromMark cs = [] ∧ o = none ∨
      ∃ mark tail x, fromMark cs = mark :: tail ∧ o = some x ∧
        (mark = 'Z' ∧ x = .ok .utc ∨ mark ≠ 'Z' ∧ offset (mark = '-') tail = some x)) := by
  rw [timeFields_eq, ← fromMark] at h
  obtain ⟨⟨f', rest⟩, hf, hmark⟩ := Option.bind_eq_some_iff.mp h
  constructor
  · obtain ⟨⟨n, rest'⟩, hn, -⟩ := Option.bind_eq_some_iff.mp hf
    obtain ⟨ds, hds, hcs⟩ := digits_eq_some_iff.mp hn
    refine ⟨n, ds, rest' ++ fromMark cs, hds, ?_⟩
    rw [← List.append_assoc, ← hcs, fromMark, List.takeWhile_append_dropWhile]
  · cases hfrom : fromMark cs with
    | nil =>
      rw [hfrom] at hmark
      dsimp only at hmark
      split at hmark
      · cases hmark
        exact .inl ⟨rfl, rfl⟩
      · cases hmark
    | cons mark tail =>
      rw [hfrom] at hmark
      dsimp only at hmark
      split at hmark
      · rename_i hutc
        split at hmark
        · cases hmark
          exact .inr ⟨mark, tail, _, rfl, rfl, .inl ⟨hutc, rfl⟩⟩
        · cases hmark
      · rename_i hsign
        obtain ⟨x, hx, heq⟩ := Option.map_eq_some_iff.mp hmark
        cases heq
        exact .inr ⟨mark, tail, x, rfl, rfl, .inr ⟨hsign, hx⟩⟩

/-- A time with the offset of universal time after it has this offset, unless an offset of its own comes first. -/
theorem timeFields_suffixed {time : List Char} {f : ClockFields} {o : Option (Except CalendarFault UtcOffset)}
    (h : timeFields (time ++ '+' :: utcClock) = some (f, o)) : o ≠ none ∧ (o = some (.ok .utc) ∨
      ∃ front sign post n, time = front ++ sign :: post ∧ (∀ c ∈ front, isMark c = false) ∧
        (sign = '+' ∨ sign = '-') ∧ EndedOffset n post ∧ 0 < n) := by
  obtain ⟨-, hmarked⟩ := timeFields_cases h
  cases hfind : time.find? isMark with
  | none =>
    have hnone : ∀ c ∈ time, isMark c = false := by simpa using hfind
    rw [fromMark_append hnone rfl] at hmarked
    obtain ⟨⟨⟩, -⟩ | ⟨mark, tail, x, heq, rfl, hx⟩ := hmarked
    cases heq
    refine ⟨Option.some_ne_none x, .inl ?_⟩
    rcases hx with ⟨-, rfl⟩ | ⟨-, hx⟩
    · rfl
    · have hutc : offset false utcClock = some (.ok .utc) := by decide
      exact hx.symm.trans hutc
  | some sign =>
    obtain ⟨hsign, front, post, rfl, hfront⟩ := List.find?_eq_some_iff_append.mp hfind
    replace hfront : ∀ c ∈ front, isMark c = false := fun c hc => by simpa using hfront c hc
    rw [List.append_assoc, List.cons_append, fromMark_append hfront hsign] at hmarked
    obtain ⟨⟨⟩, -⟩ | ⟨mark, tail, x, heq, rfl, hx⟩ := hmarked
    cases heq
    refine ⟨Option.some_ne_none x, ?_⟩
    rcases hx with ⟨-, rfl⟩ | ⟨hutc, hx⟩
    · exact .inl rfl
    · -- the plus sign is in the text of this offset, so it has ended before
      obtain ⟨n, hpost⟩ := exists_of_offset hx (Nat.le_refl 5)
      obtain ⟨o, ho, hiff⟩ := hpost.exists_offset (sign = '-') ('+' :: utcClock)
      rw [ho] at hx
      cases hx
      rcases Nat.eq_zero_or_pos n with hzero | hpos
      · exact .inl (congrArg some (hiff.mpr hzero))
      · exact .inr ⟨front, sign, post, n, rfl, hfront, sign_of_isMark hsign hutc, hpost, hpos⟩

theorem ne_utc_of_timeFields {f : ClockFields} {o : Option (Except CalendarFault UtcOffset)}
    (h : timeFields cs = some (f, o)) (hcs : fromMark cs = sign :: (post ++ tail)) (hsign : sign = '+' ∨ sign = '-')
    (hpost : EndedOffset n post) (hn : 0 < n) : o ≠ some (.ok .utc) := by
  obtain ⟨-, ⟨hnone, -⟩ | ⟨mark, tail', x, hmark, rfl, hx⟩⟩ := timeFields_cases h
  · rw [hnone] at hcs
    cases hcs
  · rw [hmark] at hcs
    cases hcs
    rcases hx with ⟨rfl, -⟩ | ⟨-, hx⟩
    · rcases hsign with hsign | hsign <;> cases hsign
    · obtain ⟨o, ho, hiff⟩ := hpost.exists_offset (sign = '-') tail
      rw [ho] at hx
      cases hx
      intro hutc
      have hzero := hiff.mp (Option.some_inj.mp hutc)
      omega

/-! ## Days -/

/-- After the date at its front and one more character, a text goes on from its first mark as another text does. -/
def Cuts (cs after : List Char) : Prop :=
  ∃ front c time, cs = front ++ c :: time ∧ front.length = dateSize cs ∧ fromMark time = fromMark after

section

variable {day after ys ws ds rest : List Char} {a b : Char}

theorem Cuts.of_dateSize (h : dateSize (day ++ c :: after) = day.length) : Cuts (day ++ c :: after) after :=
  ⟨day, c, after, rfl, h.symm, rfl⟩

/-- What follows a week may be taken for a day of it, and then the first digit of the time for the separator. -/
theorem cuts_week (hyphens : Bool) (hy : ys.length = 4) (hw : ws.length = 2) (ha : a.isDigit = true)
    (hb : b.isDigit = true) : Cuts (ys ++ (between '-' hyphens ++ 'W' :: ws) ++ c :: a :: b :: rest) (a :: b :: rest) := by
  have hlong : 7 < (ys ++ (between '-' hyphens ++ 'W' :: (ws ++ c :: a :: b :: rest))).length := by
    simp only [List.length_append, List.length_cons, hy, hw]
    omega
  rcases dateSize_week_cases hyphens hy hw hlong with hweek | hfull
  · refine .of_dateSize ?_
    rw [length_week hy hw, ← hweek]
    simp only [List.append_assoc, List.cons_append]
  · cases hyphens with
    | true => simp [dateSize_week_hyphens hy hw, hb, daySize] at hfull
    | false =>
      refine ⟨ys ++ 'W' :: (ws ++ [c]), a, b :: rest, by simp, ?_, (fromMark_cons ha).symm⟩
      simp only [List.append_assoc, List.cons_append, hfull]
      simp [hy, hw, daySize]

/-- The week may be taken for the whole day, which only a digit after the day leads to. -/
theorem cuts_weekday (hyphens : Bool) (hy : ys.length = 4) (hw : ws.length = 2) {d : Char} (hd : d.isDigit = true) :
    Cuts (ys ++ (between '-' hyphens ++ 'W' :: (ws ++ (between '-' hyphens ++ [d]))) ++ c :: a :: b :: rest)
      (a :: b :: rest) := by
  have hlong : 7 < (ys ++ (between '-' hyphens ++
      'W' :: (ws ++ (between '-' hyphens ++ d :: c :: a :: b :: rest)))).length := by
    simp only [List.length_append, List.length_cons, hy, hw]
    omega
  rcases dateSize_week_cases hyphens hy hw hlong with hweek | hfull
  · have hc : c.isDigit = true := by
      by_contra hc
      cases hyphens <;>
        simp [dateSize_week_plain hy hw, dateSize_week_hyphens hy hw, hc, hd, weekSize] at hweek
    cases hyphens with
    | false =>
      refine ⟨ys ++ 'W' :: ws, d, c :: a :: b :: rest, by simp, ?_, fromMark_cons hc⟩
      simp only [List.append_assoc, List.cons_append, List.nil_append, hweek]
      simp [hy, hw, weekSize]
    | true =>
      refine ⟨ys ++ '-' :: 'W' :: ws, '-', d :: c :: a :: b :: rest, by simp, ?_,
        (fromMark_cons hd).trans (fromMark_cons hc)⟩
      simp only [List.append_assoc, List.cons_append, List.nil_append, hweek]
      simp [hy, hw, weekSize]
  · refine .of_dateSize ?_
    rw [length_weekday hy hw rfl, ← hfull]
    simp only [List.append_assoc, List.cons_append, List.nil_append]

/-- Where a time follows, a day may be taken to end earlier or later than it does, but only digits change sides. -/
theorem DayText.cuts {hs : List Char} {h : Nat} (hday : DayText day) (hhs : Written 2 h hs) (c : Char)
    (rest : List Char) : Cuts (day ++ c :: (hs ++ rest)) (hs ++ rest) := by
  obtain ⟨a, b, rfl⟩ := List.length_eq_two.mp hhs.length
  have ha : a.isDigit = true := hhs.isDigit a List.mem_cons_self
  have hb : b.isDigit = true := hhs.isDigit b (List.mem_cons_of_mem a List.mem_cons_self)
  cases hday with
  | month hyphens hy hm hd =>
    refine .of_dateSize ?_
    rw [length_month hy.length hm.length hd.length]
    simp only [List.append_assoc]
    exact dateSize_month hyphens hy.length hm (by simp only [List.length_append, hd.length]; omega)
  | week hyphens hy hw => exact cuts_week hyphens hy.length hw.length ha hb
  | weekday hyphens hy hw hd =>
    obtain ⟨d, rfl⟩ := List.length_eq_one_iff.mp hd.length
    exact cuts_weekday hyphens hy.length hw.length (hd.isDigit d List.mem_cons_self)

end

/-- Where a day may end differently, an offset that a text holds is still the first one. -/
theorem HoldsOffset.exists_cut (h : HoldsOffset body) (tail : List Char) :
    ∃ front c time sign post n, body ++ '+' :: tail = front ++ c :: time ∧
      front.length = dateSize (body ++ '+' :: tail) ∧ fromMark time = sign :: (post ++ '+' :: tail) ∧
      (sign = '+' ∨ sign = '-') ∧ EndedOffset n post ∧ 0 < n := by
  cases h with
  | @intro day hs more post c sign _ n hday hhs hmore hsign hpost hpos =>
    obtain ⟨front, c', time, heq, hfront, hfrom⟩ := hday.cuts hhs c (more ++ sign :: (post ++ '+' :: tail))
    have hwhole : day ++ c :: (hs ++ (more ++ sign :: post)) ++ '+' :: tail =
        day ++ c :: (hs ++ (more ++ sign :: (post ++ '+' :: tail))) := by
      simp only [List.append_assoc, List.cons_append]
    have hmarked : fromMark (hs ++ (more ++ sign :: (post ++ '+' :: tail))) = sign :: (post ++ '+' :: tail) := by
      rw [← List.append_assoc]
      refine fromMark_append (List.forall_mem_append.mpr ⟨?_, hmore⟩) (isMark_of_sign hsign) _
      exact fun c hc => isMark_of_isDigit (hhs.isDigit c hc)
    rw [hwhole]
    exact ⟨front, c', time, sign, post, n, heq, hfront, hfrom.trans hmarked, hsign, hpost, hpos⟩

/-- The day that is read before an offset stands before the offset. -/
theorem exists_day_of_suffixed {d : Except CalendarFault Date}
    (h : dateFields (dateSize (body ++ '+' :: utcClock)) (body ++ '+' :: utcClock) = some d) :
    ∃ day back, DayText day ∧ body = day ++ back ∧ day.length = dateSize (body ++ '+' :: utcClock) := by
  have hlong : 7 < (body ++ '+' :: utcClock).length := by
    -- the year alone, which has no plus sign, is four characters long
    obtain ⟨⟨y, rest⟩, hy, -⟩ := Option.bind_eq_some_iff.mp h
    obtain ⟨ys, hys, heq⟩ := digits_eq_some_iff.mp hy
    obtain ⟨back, rfl, -⟩ := exists_of_append_eq (hys.not_mem rfl) heq
    have hclock : utcClock.length = 5 := rfl
    simp only [List.length_append, hys.length, List.length_cons, hclock]
    omega
  obtain ⟨day, rest, hday, heq, hlength⟩ := exists_day h hlong
  have hplus : '+' ∉ day := fun hmem => by
    rcases hday.isDayChar '+' hmem with hdigit | hmark | hmark
    · cases hdigit
    · cases hmark
    · cases hmark
  obtain ⟨back, hback, -⟩ := exists_of_append_eq hplus heq
  exact ⟨day, back, hday, hback, hlength⟩

/-! ## Moments -/

theorem offset_of_built {o : Except CalendarFault (Option UtcOffset)} {d : Except CalendarFault Date}
    {clock : Except CalendarFault Clock}
    (h : (o >>= fun o => d >>= fun d => clock >>= fun clock => pure ⟨d, clock, o⟩) = .ok t) : o = .ok t.offset := by
  obtain ⟨o, ho, hdate⟩ := bind_eq_ok_iff.mp h
  obtain ⟨d, -, hclock⟩ := bind_eq_ok_iff.mp hdate
  obtain ⟨clock, -, ht⟩ := bind_eq_ok_iff.mp hclock
  cases pure_eq_ok_iff.mp ht
  exact ho

theorem moment_cases (h : moment s = .ok t) : ∃ d, dateFields (dateSize s.toList) s.toList = some d ∧
    (s.toList.drop (dateSize s.toList) = [] ∧ t.offset = none ∨ ∃ c time f,
      s.toList.drop (dateSize s.toList) = c :: time ∧ timeFields time = some (f, t.offset.map .ok)) := by
  unfold moment at h
  cases hd : dateFields (dateSize s.toList) s.toList with
  | none =>
    simp only [hd, bind, Option.bind] at h
    cases h
  | some d =>
    refine ⟨d, rfl, ?_⟩
    cases htime : s.toList.drop (dateSize s.toList) with
    | nil =>
      simp only [hd, htime, bind, Option.bind] at h
      exact .inl ⟨rfl, (Except.ok.inj (offset_of_built h)).symm⟩
    | cons c time =>
      simp only [hd, htime, bind, Option.bind] at h
      cases hf : timeFields time with
      | none =>
        rw [hf] at h
        cases h
      | some fields =>
        obtain ⟨f, o⟩ := fields
        refine .inr ⟨c, time, f, rfl, ?_⟩
        rw [hf] at h
        cases o with
        | none =>
          have ho := offset_of_built h
          rw [← Except.ok.inj ho, hf]
          rfl
        | some x =>
          obtain ⟨o, rfl, ho⟩ := map_eq_ok_iff.mp (offset_of_built h)
          rw [← ho, hf]
          rfl

section

variable (hs : s.toList = body ++ '+' :: utcClock) (h : moment s = .ok t)

include hs h

/-- The offset of universal time after a day is read as its time. -/
theorem DayText.offset_eq_none (hday : DayText body) : t.offset = none := by
  obtain ⟨d, -, hend⟩ := moment_cases h
  rw [hs, hday.dateSize_eq rfl (by decide), List.drop_left] at hend
  obtain ⟨⟨⟩, -⟩ | ⟨_, _, f, heq, htime⟩ := hend
  cases heq
  have hread : timeFields utcClock = some ({}, none) := rfl
  rw [hread] at htime
  exact Option.map_eq_none_iff.mp (Prod.mk.inj (Option.some_inj.mp htime)).2.symm

theorem HoldsOffset.offset_ne_utc (hholds : HoldsOffset body) : t.offset ≠ some .utc := by
  obtain ⟨front, c, time, sign, post, n, heq, hfront, hfrom, hsign, hpost, hpos⟩ := hholds.exists_cut utcClock
  obtain ⟨d, -, hend⟩ := moment_cases h
  rw [hs, ← hfront, heq, List.drop_left] at hend
  obtain ⟨⟨⟩, -⟩ | ⟨_, _, f, heq, htime⟩ := hend
  cases heq
  have hne := ne_utc_of_timeFields htime hfrom hsign hpost hpos
  intro hutc
  rw [hutc] at hne
  exact hne rfl

theorem day_or_offset : DayText body ∨ t.offset ≠ none ∧ (t.offset = some .utc ∨ HoldsOffset body) := by
  obtain ⟨d, hd, hend⟩ := moment_cases h
  rw [hs] at hd hend
  obtain ⟨day, back, hday, rfl, hlength⟩ := exists_day_of_suffixed hd
  rw [← hlength, List.append_assoc, List.drop_left] at hend
  cases back with
  | nil =>
    rw [List.append_nil]
    exact .inl hday
  | cons c time =>
    obtain ⟨⟨⟩, -⟩ | ⟨_, _, f, heq, htime⟩ := hend
    cases heq
    obtain ⟨hsome, hutc⟩ := timeFields_suffixed htime
    refine .inr ⟨fun hnone => hsome (by rw [hnone]; rfl), ?_⟩
    rcases hutc with hutc | ⟨front, sign, post, n, rfl, hfront, hsign, hpost, hpos⟩
    · obtain ⟨o, ho, heq⟩ := Option.map_eq_some_iff.mp hutc
      cases heq
      exact .inl ho
    · -- the hour stands before the sign
      obtain ⟨⟨k, ds, more, hds, hmore⟩, -⟩ := timeFields_cases htime
      have hdigit : sign.isDigit = false := by
        rcases hsign with rfl | rfl <;> rfl
      have hsplit : front ++ sign :: (post ++ '+' :: utcClock) = ds ++ more :=
        (List.append_assoc front (sign :: post) _).symm.trans hmore
      obtain ⟨back, rfl, -⟩ := exists_of_append_eq (hds.not_mem hdigit) hsplit
      have hback : ∀ c ∈ back, isMark c = false := fun c hc => hfront c (List.mem_append_right ds hc)
      rw [List.append_assoc]
      exact .inr (.intro hday hds hback hsign hpost hpos)

/-- A moment with the offset of universal time after it has no offset exactly if it is a day. It has this offset unless
it is a day or holds another one. -/
theorem moment_suffixed : (t.offset = none ↔ DayText body) ∧
    (t.offset = some .utc ↔ ¬ DayText body ∧ ¬ HoldsOffset body) := by
  have hnone (hday : DayText body) : t.offset = none := hday.offset_eq_none hs h
  refine ⟨⟨fun hoffset => ?_, hnone⟩, fun hutc => ⟨fun hday => ?_, fun hholds => ?_⟩, fun ⟨hday, hholds⟩ => ?_⟩
  · exact (day_or_offset hs h).resolve_right fun hsome => hsome.1 hoffset
  · rw [hnone hday] at hutc
    cases hutc
  · exact hholds.offset_ne_utc hs h hutc
  · exact (((day_or_offset hs h).resolve_left hday).2).resolve_right hholds

end

-- the first offset has ended at the NUL, so the second one is not read
example : (moment "2024-01-02T12:00+05:30:10.123456\x00+00:00").toOption.bind Moment.offset =
    some ⟨19810123456, by decide⟩ := by
  decide

end Sift.Calendar
