import Sift.Proofs.Calendar.Reading

/-!
# Offsets that end inside a text

The reader of a time takes the whole text, but for one thing: after a fraction of six digits or more it stops at the
first character that is no digit, and a NUL there counts as the end of an offset. What follows the NUL is not read.
-/

namespace Sift

theorem UtcOffset.micros_of_ofMicros {m : Int} {o : UtcOffset} (h : ofMicros m = .ok o) : o.micros = m := by
  unfold ofMicros at h
  split at h
  · cases h
    rfl
  · cases h

namespace Calendar

open Text

/-- The text of a number of seconds up to their fraction: hours, hours and minutes, or seconds too. After the seconds,
what stands between the fields leads to the fraction as well. -/
inductive Lead : Nat → List Char → Prop
  | hours {h : Nat} {hs : List Char} {p : Char} : Written 2 h hs → IsPoint p → Lead ((h * 60 + 0) * 60 + 0) (hs ++ [p])
  | minutes {h m : Nat} {hs ms : List Char} {p : Char} (colons : Bool) : Written 2 h hs → Written 2 m ms → IsPoint p →
      Lead ((h * 60 + m) * 60 + 0) (hs ++ (between ':' colons ++ (ms ++ [p])))
  | seconds {h m s : Nat} {hs ms ss : List Char} {p : Char} (colons : Bool) : Written 2 h hs → Written 2 m ms →
      Written 2 s ss → IsPoint p →
      Lead ((h * 60 + m) * 60 + s) (hs ++ (between ':' colons ++ (ms ++ (between ':' colons ++ (ss ++ [p])))))
  | run {h m s : Nat} {hs ms ss : List Char} (colons : Bool) : Written 2 h hs → Written 2 m ms → Written 2 s ss →
      Lead ((h * 60 + m) * 60 + s)
        (hs ++ (between ':' colons ++ (ms ++ (between ':' colons ++ (ss ++ between ':' colons)))))

/-- The text of an offset that ends before the text does, and its whole seconds: it has a fraction of at least six
digits, and a NUL after it. -/
def EndedOffset (n : Nat) (cs : List Char) : Prop :=
  ∃ lead ds after, Lead n lead ∧ (∀ c ∈ ds, c.isDigit = true) ∧ 6 ≤ ds.length ∧ cs = lead ++ (ds ++ '\x00' :: after)

/-- A character that a time is written with. -/
def IsClockChar (c : Char) : Prop := c.isDigit = true ∨ c = ':' ∨ IsPoint c

variable {cs ds rest tail : List Char} {c : Char} {n : Nat}

/-! ## The characters of a time -/

theorem Written.isClockChar {width : Nat} (h : Written width n ds) : ∀ c ∈ ds, IsClockChar c :=
  fun c hc => .inl (h.isDigit c hc)

theorem isClockChar_between (colons : Bool) : ∀ c ∈ between ':' colons, IsClockChar c :=
  fun _ hc => .inr (.inl (eq_of_mem_between hc))

theorem IsPoint.isClockChar {p : Char} (hp : IsPoint p) : ∀ c ∈ [p], IsClockChar c :=
  fun _ hc => .inr (.inr (List.mem_singleton.mp hc ▸ hp))

theorem Lead.isClockChar {lead : List Char} (h : Lead n lead) : ∀ c ∈ lead, IsClockChar c := by
  cases h with
  | hours hhs hp => exact List.forall_mem_append.mpr ⟨hhs.isClockChar, hp.isClockChar⟩
  | minutes colons hhs hms hp =>
    simp only [List.forall_mem_append]
    exact ⟨hhs.isClockChar, isClockChar_between colons, hms.isClockChar, hp.isClockChar⟩
  | seconds colons hhs hms hss hp =>
    simp only [List.forall_mem_append]
    exact ⟨hhs.isClockChar, isClockChar_between colons, hms.isClockChar, isClockChar_between colons, hss.isClockChar,
      hp.isClockChar⟩
  | run colons hhs hms hss =>
    simp only [List.forall_mem_append]
    exact ⟨hhs.isClockChar, isClockChar_between colons, hms.isClockChar, isClockChar_between colons, hss.isClockChar,
      isClockChar_between colons⟩

/-! ## What a reader has taken -/

theorem afterField_cases {colons : Bool} {r : AfterField} (h : afterField colons cs = some r) :
    (r = .stop cs ∧ cs.length ≤ 1) ∨ (∃ tail, r = .field tail ∧ cs = between ':' colons ++ tail) ∨
      ∃ p tail, r = .fraction tail ∧ IsPoint p ∧ cs = p :: tail := by
  unfold afterField at h
  split at h
  · cases h
    exact .inl ⟨rfl, Nat.zero_le 1⟩
  · split at h
    · cases h
      exact .inl ⟨rfl, Nat.le_refl 1⟩
    · cases h
  · rename_i c cs _
    split at h
    · rename_i hcolon
      obtain ⟨rfl, hc⟩ := Bool.and_eq_true_iff.mp hcolon
      cases h
      exact .inr (.inl ⟨cs, rfl, by rw [of_decide_eq_true hc]; rfl⟩)
    · split at h
      · rename_i hpoint
        cases h
        rw [Bool.or_eq_true, decide_eq_true_eq, decide_eq_true_eq] at hpoint
        exact .inr (.inr ⟨c, cs, rfl, hpoint, rfl⟩)
      · split at h
        · cases h
        · rename_i hcolons
          cases h
          rw [Bool.not_eq_true] at hcolons
          exact .inr (.inl ⟨c :: cs, rfl, by rw [hcolons]; rfl⟩)

theorem exists_of_fraction {us : Nat} (h : fraction cs = some (us, rest)) :
    ∃ ds, cs = ds ++ rest ∧ (∀ c ∈ ds, c.isDigit = true) ∧ min 6 cs.length ≤ ds.length := by
  obtain ⟨⟨k, tail⟩, hk, htail⟩ := Option.bind_eq_some_iff.mp h
  cases htail
  obtain ⟨ds, hds, hcs⟩ := digits_eq_some_iff.mp hk
  refine ⟨ds ++ tail.takeWhile isDigit, ?_, ?_, ?_⟩
  · rw [List.append_assoc, List.takeWhile_append_dropWhile, hcs]
  · rw [isDigit_eq]
    exact List.forall_mem_append.mpr ⟨hds.isDigit, fun c hc => List.mem_takeWhile_imp hc⟩
  · rw [List.length_append, hds.length]
    exact Nat.le_add_right _ _

theorem exists_of_map_fraction {f : ClockFields} {g : Nat × List Char → ClockFields}
    (h : (fraction cs).map (fun p => (g p, p.2)) = some (f, rest)) :
    ∃ us, fraction cs = some (us, rest) ∧ f = g (us, rest) := by
  obtain ⟨⟨us, rest⟩, hus, heq⟩ := Option.map_eq_some_iff.mp h
  cases heq
  exact ⟨us, hus, rfl⟩

/-- A field of two digits, and how the text goes on after it. -/
theorem exists_of_field {β : Type} {b : β} {colons : Nat × List Char → Bool}
    {k : Nat × List Char → AfterField → Option β}
    (h : ((digits 2 cs).bind fun p => (afterField (colons p) p.2).bind fun r => k p r) = some b) :
    ∃ n ds rest, Written 2 n ds ∧ cs = ds ++ rest ∧ ((rest.length ≤ 1 ∧ k (n, rest) (.stop rest) = some b) ∨
      (∃ tail, rest = between ':' (colons (n, rest)) ++ tail ∧ k (n, rest) (.field tail) = some b) ∨
        ∃ p tail, IsPoint p ∧ rest = p :: tail ∧ k (n, rest) (.fraction tail) = some b) := by
  obtain ⟨⟨n, rest⟩, hn, hstep⟩ := Option.bind_eq_some_iff.mp h
  obtain ⟨ds, hds, rfl⟩ := digits_eq_some_iff.mp hn
  obtain ⟨r, hr, hk⟩ := Option.bind_eq_some_iff.mp hstep
  refine ⟨n, ds, rest, hds, rfl, ?_⟩
  rcases afterField_cases hr with ⟨rfl, hshort⟩ | ⟨tail, rfl, htail⟩ | ⟨p, tail, rfl, hp, hrest⟩
  · exact .inl ⟨hshort, hk⟩
  · exact .inr (.inl ⟨tail, htail, hk⟩)
  · exact .inr (.inr ⟨p, tail, hp, hrest, hk⟩)

/-- A time is read up to its last character, or up to the end of its fraction. -/
theorem clockFields_cases {f : ClockFields} (h : clockFields cs = some (f, rest)) :
    (∃ taken, cs = taken ++ rest ∧ rest.length ≤ 1 ∧ ∀ c ∈ taken, IsClockChar c) ∨
      ∃ lead tail us, cs = lead ++ tail ∧ Lead ((f.hour * 60 + f.minute) * 60 + f.second) lead ∧
        fraction tail = some (us, rest) := by
  -- after each field the text stops, goes on with the next field, or leads to the fraction
  obtain ⟨h, hs, afterHour, hhs, rfl, ⟨hshort, hf⟩ | ⟨tail, hhour, hminute⟩ | ⟨p, tail, hp, rfl, hf⟩⟩ :=
    exists_of_field h
  · cases hf
    exact .inl ⟨hs, rfl, hshort, hhs.isClockChar⟩
  · generalize (afterHour.head? == some ':') = colons at hhour hminute
    obtain ⟨m, ms, afterMinute, hms, rfl, ⟨hshort, hf⟩ | ⟨tail, rfl, hsecond⟩ | ⟨p, tail, hp, rfl, hf⟩⟩ :=
      exists_of_field hminute
    · cases hf
      refine .inl ⟨hs ++ (between ':' colons ++ ms), by simp [hhour], hshort, ?_⟩
      simp only [List.forall_mem_append]
      exact ⟨hhs.isClockChar, isClockChar_between colons, hms.isClockChar⟩
    · obtain ⟨s, ss, afterSecond, hss, rfl, ⟨hshort, hf⟩ | ⟨tail, rfl, hf⟩ | ⟨p, tail, hp, rfl, hf⟩⟩ :=
        exists_of_field hsecond
      · cases hf
        refine .inl ⟨hs ++ (between ':' colons ++ (ms ++ (between ':' colons ++ ss))), by simp [hhour], hshort, ?_⟩
        simp only [List.forall_mem_append]
        exact ⟨hhs.isClockChar, isClockChar_between colons, hms.isClockChar, isClockChar_between colons,
          hss.isClockChar⟩
      · obtain ⟨us, hus, rfl⟩ := exists_of_map_fraction hf
        exact .inr ⟨_, tail, us, by simp [hhour], .run colons hhs hms hss, hus⟩
      · obtain ⟨us, hus, rfl⟩ := exists_of_map_fraction hf
        exact .inr ⟨_, tail, us, by simp [hhour], .seconds colons hhs hms hss hp, hus⟩
    · obtain ⟨us, hus, rfl⟩ := exists_of_map_fraction hf
      exact .inr ⟨_, tail, us, by simp [hhour], .minutes colons hhs hms hp, hus⟩
  · obtain ⟨us, hus, rfl⟩ := exists_of_map_fraction hf
    exact .inr ⟨_, tail, us, by simp, .hours hhs hp, hus⟩

/-! ## Reading up to a fraction -/

theorem fraction_append (hds : ∀ c ∈ ds, c.isDigit = true) (hlength : 6 ≤ ds.length) (hc : c.isDigit = false)
    (rest : List Char) : ∃ us, fraction (ds ++ c :: rest) = some (us, c :: rest) := by
  have hfirst : Written 6 (Nat.ofDigitChars 10 (ds.take 6) 0) (ds.take 6) :=
    ⟨List.length_take_of_le hlength, fun c hc => hds c (List.mem_of_mem_take hc), rfl⟩
  have hmore : (ds.drop 6 ++ c :: rest).dropWhile Char.isDigit = c :: rest := by
    rw [List.dropWhile_append_of_pos fun c hc => hds c (List.mem_of_mem_drop hc)]
    exact List.dropWhile_cons_of_neg (by rw [hc]; exact Bool.false_ne_true)
  have hread : digits (min 6 (ds ++ c :: rest).length) (ds ++ c :: rest) =
      some (Nat.ofDigitChars 10 (ds.take 6) 0, ds.drop 6 ++ c :: rest) := by
    rw [Nat.min_eq_left (by rw [List.length_append]; omega), ← hfirst.digits_append, ← List.append_assoc,
      List.take_append_drop]
  simp only [fraction, hread, bind, Option.bind, isDigit_eq, hmore]
  exact ⟨_, rfl⟩

section

variable {colons : Bool} (hds : ∀ c ∈ ds, c.isDigit = true) (hlength : 2 ≤ ds.length) (rest : List Char)

include hds hlength

theorem exists_cons_of_digits : ∃ c d tail, c.isDigit = true ∧ ds ++ rest = c :: d :: tail := by
  match ds, hlength with
  | c :: d :: ds, _ => exact ⟨c, d, ds ++ rest, hds c List.mem_cons_self, rfl⟩

theorem afterField_between : afterField colons (between ':' colons ++ (ds ++ rest)) = some (.field (ds ++ rest)) := by
  obtain ⟨c, d, tail, hc, heq⟩ := exists_cons_of_digits hds hlength rest
  have hpoint : ¬ (c = '.' || c = ',') = true := by
    simp only [Bool.or_eq_true, decide_eq_true_eq, not_or]
    exact ⟨ne_of_isDigit hc rfl, ne_of_isDigit hc rfl⟩
  rw [heq]
  cases colons with
  | false => simp [afterField, hpoint]
  | true => rfl

theorem head?_between : ((between ':' colons ++ (ds ++ rest)).head? == some ':') = colons := by
  obtain ⟨c, d, tail, hc, heq⟩ := exists_cons_of_digits hds hlength rest
  have hcolon : c ≠ ':' := ne_of_isDigit hc rfl
  rw [heq]
  cases colons with
  | false => simp [hcolon]
  | true => rfl

end

theorem clockFields_lead {lead : List Char} {us : Nat} (hlead : Lead n lead) (hds : ∀ c ∈ ds, c.isDigit = true)
    (hlength : 2 ≤ ds.length) (hus : fraction (ds ++ tail) = some (us, rest)) :
    ∃ f, clockFields (lead ++ (ds ++ tail)) = some (f, rest) ∧ (f.hour * 60 + f.minute) * 60 + f.second = n := by
  have hne : ds ++ tail ≠ [] := List.ne_nil_of_length_pos (by rw [List.length_append]; omega)
  cases hlead with
  | @hours h hs p hhs hp =>
    refine ⟨{ hour := h, micro := us }, ?_, rfl⟩
    simp only [List.append_assoc, List.singleton_append, clockFields, hhs.digits_append, bind, Option.bind,
      afterField_point hp hne, hus, Option.map_some]
  | @minutes h m hs ms p colons hhs hms hp =>
    refine ⟨{ hour := h, minute := m, micro := us }, ?_, rfl⟩
    simp only [List.append_assoc, List.singleton_append, clockFields, hhs.digits_append, bind, Option.bind,
      head?_between hms.isDigit hms.length.ge, afterField_between hms.isDigit hms.length.ge, hms.digits_append,
      afterField_point hp hne, hus, Option.map_some]
  | @seconds h m s hs ms ss p colons hhs hms hss hp =>
    refine ⟨⟨h, m, s, us⟩, ?_, rfl⟩
    simp only [List.append_assoc, List.singleton_append, clockFields, hhs.digits_append, bind, Option.bind,
      head?_between hms.isDigit hms.length.ge, afterField_between hms.isDigit hms.length.ge, hms.digits_append,
      afterField_between hss.isDigit hss.length.ge, hss.digits_append, afterField_point hp hne, hus, Option.map_some]
  | @run h m s hs ms ss colons hhs hms hss =>
    refine ⟨⟨h, m, s, us⟩, ?_, rfl⟩
    simp only [List.append_assoc, clockFields, hhs.digits_append, bind, Option.bind,
      head?_between hms.isDigit hms.length.ge, afterField_between hms.isDigit hms.length.ge, hms.digits_append,
      afterField_between hss.isDigit hss.length.ge, hss.digits_append, afterField_between hds hlength, hus,
      Option.map_some]

/-! ## Offsets -/

/-- An offset that has ended is read whatever follows it. It is none exactly if it has no whole seconds. -/
theorem EndedOffset.exists_offset (h : EndedOffset n cs) (negative : Bool) (tail : List Char) :
    ∃ o, offset negative (cs ++ tail) = some o ∧ (o = .ok .utc ↔ n = 0) := by
  obtain ⟨lead, ds, after, hlead, hds, hlength, rfl⟩ := h
  obtain ⟨us, hus⟩ := fraction_append hds hlength (c := '\x00') rfl (after ++ tail)
  obtain ⟨f, hf, rfl⟩ := clockFields_lead hlead hds (by omega) hus
  have hcs : lead ++ (ds ++ '\x00' :: after) ++ tail = lead ++ (ds ++ '\x00' :: (after ++ tail)) := by
    simp only [List.append_assoc, List.cons_append]
  have hend : ended ('\x00' :: (after ++ tail)) = true := rfl
  simp only [hcs, offset, hf, bind, Option.bind, hend, if_true]
  split
  · rename_i hnone
    exact ⟨_, rfl, iff_of_true rfl hnone⟩
  · rename_i hsome
    refine ⟨_, rfl, iff_of_false (fun hutc => ?_) hsome⟩
    have hmicros := UtcOffset.micros_of_ofMicros hutc
    have hzero : UtcOffset.utc.micros = 0 := rfl
    split at hmicros <;> omega

/-- What is in front of a character that it does not hold is in front of all that comes before that character. -/
theorem exists_of_append_eq {front : List Char} (hfront : c ∉ front) (h : cs ++ c :: tail = front ++ rest) :
    ∃ back, cs = front ++ back ∧ rest = back ++ c :: tail := by
  rcases List.append_eq_append_iff.mp h with ⟨as, rfl, htail⟩ | ⟨back, hcs, hrest⟩
  · cases as with
    | nil => exact ⟨[], by simp, by simpa using htail.symm⟩
    | cons a as =>
      cases htail
      exact absurd (List.mem_append_right cs List.mem_cons_self) hfront
  · exact ⟨back, hcs, hrest⟩

theorem plus_not_mem (h : ∀ c ∈ cs, IsClockChar c) : '+' ∉ cs := by
  intro hmem
  rcases h '+' hmem with hdigit | hcolon | hpoint | hpoint
  · cases hdigit
  · cases hcolon
  · cases hpoint
  · cases hpoint

/-- Where a plus sign follows, an offset that is read has ended before it. -/
theorem exists_of_offset {negative : Bool} {o : Except CalendarFault UtcOffset}
    (h : offset negative (cs ++ '+' :: tail) = some o) (htail : 5 ≤ tail.length) : ∃ n, EndedOffset n cs := by
  obtain ⟨⟨f, rest⟩, hf, hend⟩ := Option.bind_eq_some_iff.mp h
  have hended : ended rest = true := by
    dsimp only at hend
    split at hend
    · assumption
    · cases hend
  clear h hend
  rcases clockFields_cases hf with ⟨taken, htaken, hshort, hchars⟩ | ⟨lead, text, us, htext, hlead, hus⟩
  · -- a time without a fraction would leave the sign and all that follows it
    obtain ⟨back, rfl, rfl⟩ := exists_of_append_eq (plus_not_mem hchars) htaken
    simp only [List.length_append, List.length_cons] at hshort
    omega
  · obtain ⟨text, rfl, rfl⟩ := exists_of_append_eq (plus_not_mem hlead.isClockChar) htext
    obtain ⟨ds, hds, hdigits, hlength⟩ := exists_of_fraction hus
    obtain ⟨back, rfl, rfl⟩ := exists_of_append_eq (plus_not_mem fun c hc => .inl (hdigits c hc)) hds
    cases back with
    | nil => exact absurd hended Bool.false_ne_true
    | cons c after =>
      have hnul : c = '\x00' := Char.toNat_inj.mp (of_decide_eq_true hended)
      subst hnul
      refine ⟨_, lead, ds, after, hlead, hdigits, ?_, rfl⟩
      simp only [List.length_append, List.length_cons] at hlength
      omega

end Calendar

end Sift
