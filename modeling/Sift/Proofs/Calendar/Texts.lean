import Sift.Proofs.Text.Digits
import Sift.Store.Storage

/-!
# Texts of dates and moments

A store keeps dates and moments as texts of fixed length. No two dates have one text, and no such text is a numeral, so
a column of dates keeps the texts as they are.
-/

namespace Sift

/-! ## Texts that are no numerals -/

namespace Numeral

open Text

theorem digitValue?_hyphen : digitValue? '-' = none := by decide

theorem ne_hyphen_of_digitValue? {c : Char} {d : Nat} (h : digitValue? c = some d) : c ≠ '-' := by
  rintro rfl
  rw [digitValue?_hyphen] at h
  cases h

/-- A run of digits ends before the first hyphen. -/
theorem moreDigits_append {cs : List Char} : ∀ {ds rest}, moreDigits cs = some (ds, rest) →
    ∃ front, cs = front ++ rest ∧ '-' ∉ front := by
  fun_induction moreDigits cs with
  | case1 =>
    intro ds rest h
    cases h
    exact ⟨[], rfl, List.not_mem_nil⟩
  | case2 => intro ds rest h; cases h
  | case3 c cs d hd ih =>
    intro ds rest h
    obtain ⟨⟨ds', rest'⟩, hmore, heq⟩ := Option.map_eq_some_iff.mp h
    cases heq
    obtain ⟨front, rfl, hfront⟩ := ih hmore
    refine ⟨'_' :: c :: front, rfl, ?_⟩
    simp only [List.mem_cons, hfront, or_false, not_or]
    exact ⟨by decide, (ne_hyphen_of_digitValue? hd).symm⟩
  | case4 => intro ds rest h; cases h
  | case5 c cs hc d hd ih =>
    intro ds rest h
    obtain ⟨⟨ds', rest'⟩, hmore, heq⟩ := Option.map_eq_some_iff.mp h
    cases heq
    obtain ⟨front, rfl, hfront⟩ := ih hmore
    refine ⟨c :: front, rfl, ?_⟩
    simp only [List.mem_cons, hfront, or_false]
    exact (ne_hyphen_of_digitValue? hd).symm
  | case6 c cs hc hd =>
    intro ds rest h
    cases h
    exact ⟨[], rfl, List.not_mem_nil⟩

theorem digitRun_append {cs rest : List Char} {ds : List Nat} (h : digitRun cs = some (ds, rest)) :
    ∃ front, cs = front ++ rest ∧ '-' ∉ front := by
  cases cs with
  | nil =>
    cases h
    exact ⟨[], rfl, List.not_mem_nil⟩
  | cons c cs =>
    simp only [digitRun] at h
    split at h
    · rename_i d hd
      obtain ⟨⟨ds', rest'⟩, hmore, heq⟩ := Option.map_eq_some_iff.mp h
      cases heq
      obtain ⟨front, rfl, hfront⟩ := moreDigits_append hmore
      refine ⟨c :: front, rfl, ?_⟩
      simp only [List.mem_cons, hfront, or_false]
      exact (ne_hyphen_of_digitValue? hd).symm
    · split at h
      · cases h
      · cases h
        exact ⟨[], rfl, List.not_mem_nil⟩

theorem fraction_append {cs rest : List Char} {ds : List Nat} (h : fraction cs = some (ds, rest)) :
    ∃ front, cs = front ++ rest ∧ '-' ∉ front := by
  unfold fraction at h
  split at h
  · obtain ⟨front, rfl, hfront⟩ := digitRun_append h
    refine ⟨'.' :: front, rfl, ?_⟩
    simp only [List.mem_cons, hfront, or_false]
    decide
  · cases h
    exact ⟨[], rfl, List.not_mem_nil⟩

theorem unsigned_eq_none {cs : List Char} (hyphen : '-' ∈ cs) (small : 'e' ∉ cs) (capital : 'E' ∉ cs) :
    unsigned cs = none := by
  rw [Option.eq_none_iff_forall_ne_some]
  intro cx hnumeral
  obtain ⟨⟨whole, rest⟩, hwhole, hnumeral⟩ := Option.bind_eq_some_iff.mp hnumeral
  obtain ⟨⟨part, rest'⟩, hpart, hnumeral⟩ := Option.bind_eq_some_iff.mp hnumeral
  have hpower : ∃ x, power rest' = some x := by
    simp only at hnumeral
    split at hnumeral
    · cases hnumeral
    · obtain ⟨x, hx, -⟩ := Option.bind_eq_some_iff.mp hnumeral
      exact ⟨x, hx⟩
  obtain ⟨x, hx⟩ := hpower
  obtain ⟨front, rfl, hfront⟩ := digitRun_append hwhole
  obtain ⟨front', rfl, hfront'⟩ := fraction_append hpart
  simp only [List.mem_append, hfront, hfront', false_or, not_or] at hyphen small capital
  cases rest' with
  | nil => cases hyphen
  | cons c cs =>
    simp only [List.mem_cons, not_or] at small capital
    rw [power, if_neg] at hx
    · cases hx
    · simp only [Bool.or_eq_true, decide_eq_true_eq, not_or]
      exact ⟨Ne.symm small.2.2.1, Ne.symm capital.2.2.1⟩

end Numeral

theorem Cell.isGap_of_isDigit {c : Char} (h : c.isDigit = true) : Cell.isGap c = false := by
  have hlow : 48 ≤ c.toNat := by
    simp only [Char.isDigit, Bool.and_eq_true, decide_eq_true_eq] at h
    exact h.1
  simp only [isGap, Bool.or_eq_false_iff, Bool.and_eq_false_iff, decide_eq_false_iff_not]
  refine ⟨?_, .inr (by omega)⟩
  rintro rfl
  exact absurd hlow (by decide)

/-- A text that starts and ends with digits, and has a hyphen but no letter for a power, is no numeral. -/
theorem Cell.numeral?_eq_none {s : String} {front middle back : List Char}
    (hs : s.toList = front ++ '-' :: (middle ++ back)) (hfront : front ≠ []) (hback : back ≠ [])
    (digits : ∀ c ∈ front ++ back, c.isDigit = true) (small : 'e' ∉ s.toList) (capital : 'E' ∉ s.toList) :
    Cell.numeral? s = none := by
  obtain ⟨first, front, rfl⟩ := List.exists_cons_of_ne_nil hfront
  obtain ⟨back, last, rfl⟩ : ∃ bs b, back = bs ++ [b] := ⟨_, _, (List.dropLast_concat_getLast hback).symm⟩
  have hfirst : first.isDigit = true := digits first List.mem_cons_self
  have hlast : last.isDigit = true :=
    digits last (List.mem_append_right _ (List.mem_append_right _ (List.mem_singleton_self last)))
  have htrimmed : s.toList.dropWhile isGap = s.toList := by
    rw [hs, List.cons_append, List.dropWhile_cons_of_neg (by rw [isGap_of_isDigit hfirst]; exact Bool.false_ne_true)]
  have hreverse : s.toList.reverse.dropWhile isGap = s.toList.reverse := by
    have hsplit : s.toList = (first :: front ++ '-' :: (middle ++ back)) ++ [last] := by
      rw [hs]
      simp only [List.append_assoc, List.cons_append]
    rw [hsplit, List.reverse_append, List.reverse_singleton, List.singleton_append,
      List.dropWhile_cons_of_neg (by rw [isGap_of_isDigit hlast]; exact Bool.false_ne_true)]
  have hsign : Numeral.sign s.toList = (false, s.toList) := by
    rw [hs]
    unfold Numeral.sign
    split
    · rename_i heq
      cases heq
      cases hfirst
    · rename_i heq
      cases heq
      cases hfirst
    · rfl
  have hunsigned : Numeral.unsigned s.toList = none := by
    refine Numeral.unsigned_eq_none ?_ small capital
    rw [hs]
    exact List.mem_append_right _ List.mem_cons_self
  simp only [numeral?, htrimmed, hreverse, List.reverse_reverse, hsign, hunsigned, Option.map_none, ite_self]

theorem Cell.numeral?_eq_none_of_padded {s : String} {width width' n n' : Nat} {middle : List Char}
    (hs : s.toList = (Text.padded width n).toList ++ '-' :: (middle ++ (Text.padded width' n').toList))
    (small : 'e' ∉ s.toList) (capital : 'E' ∉ s.toList) : Cell.numeral? s = none := by
  refine numeral?_eq_none hs (Text.padded_ne_nil width n) (Text.padded_ne_nil width' n') (fun c hc => ?_) small capital
  rcases List.mem_append.mp hc with hc | hc
  · exact Text.isDigit_of_mem_padded hc
  · exact Text.isDigit_of_mem_padded hc

/-! ## Dates -/

namespace Date

theorem toList_iso (d : Date) : d.iso.toList =
    (Text.padded 4 d.year).toList ++ '-' :: ((Text.padded 2 d.month).toList ++ '-' :: (Text.padded 2 d.day).toList) := by
  have hhyphen : "-".toList = ['-'] := rfl
  simp only [iso, String.toList_append, hhyphen, List.append_assoc, List.cons_append, List.nil_append]

theorem fields_lt (d : Date) : d.year < 10 ^ 4 ∧ d.month < 10 ^ 2 ∧ d.day < 10 ^ 2 := by
  have hdays : daysInMonth d.year d.month ≤ 31 := by
    unfold daysInMonth
    split
    · split <;> decide
    · split <;> decide
  obtain ⟨-, hyear⟩ := d.year_mem
  obtain ⟨-, hmonth⟩ := d.month_mem
  obtain ⟨-, hday⟩ := d.day_mem
  exact ⟨by omega, by omega, by omega⟩

theorem length_fields (d : Date) : (Text.padded 4 d.year).toList.length = 4 ∧
    (Text.padded 2 d.month).toList.length = 2 ∧ (Text.padded 2 d.day).toList.length = 2 := by
  obtain ⟨hyear, hmonth, hday⟩ := d.fields_lt
  exact ⟨Text.length_padded (by decide) hyear, Text.length_padded (by decide) hmonth,
    Text.length_padded (by decide) hday⟩

theorem length_iso (d : Date) : d.iso.toList.length = 10 := by
  obtain ⟨hyear, hmonth, hday⟩ := d.length_fields
  simp only [toList_iso, List.length_append, List.length_cons, hyear, hmonth, hday]

theorem iso_inj {c d : Date} (h : c.iso = d.iso) : c = d := by
  have hlist := congrArg String.toList h
  rw [toList_iso, toList_iso] at hlist
  obtain ⟨hy, hm, -⟩ := c.length_fields
  obtain ⟨hy', hm', -⟩ := d.length_fields
  obtain ⟨hyear, hrest⟩ := List.append_inj hlist (hy.trans hy'.symm)
  obtain ⟨hmonth, hday⟩ := List.append_inj (List.cons.inj hrest).2 (hm.trans hm'.symm)
  rw [Date.mk.injEq]
  exact ⟨Text.padded_inj hyear, Text.padded_inj hmonth, Text.padded_inj (List.cons.inj hday).2⟩

theorem not_mem_iso {c : Char} (h : c.isDigit = false) (hyphen : c ≠ '-') (d : Date) : c ∉ d.iso.toList := by
  simp only [toList_iso, List.mem_append, List.mem_cons, Text.not_mem_padded h, hyphen, or_self, not_false_eq_true]

theorem numeral?_iso (d : Date) : Cell.numeral? d.iso = none := by
  have hshape : d.iso.toList =
      (Text.padded 4 d.year).toList ++ '-' :: (((Text.padded 2 d.month).toList ++ ['-']) ++ (Text.padded 2 d.day).toList) := by
    rw [toList_iso, List.append_assoc, List.singleton_append]
  exact Cell.numeral?_eq_none_of_padded hshape (d.not_mem_iso rfl (by decide)) (d.not_mem_iso rfl (by decide))

end Date

/-! ## Moments -/

namespace Storage

theorem toList_momentText (t : Moment) : (momentText t).toList =
    t.date.iso.toList ++ ' ' :: ((Text.padded 2 t.clock.hour).toList ++ ':' :: ((Text.padded 2 t.clock.minute).toList ++
      ':' :: ((Text.padded 2 t.clock.second).toList ++ '.' :: (Text.padded 6 t.clock.micro).toList))) := by
  have hblank : " ".toList = [' '] := rfl
  have hcolon : ":".toList = [':'] := rfl
  have hpoint : ".".toList = ['.'] := rfl
  simp only [momentText, String.toList_append, hblank, hcolon, hpoint, List.append_assoc, List.cons_append,
    List.nil_append]

theorem length_clock (c : Clock) : (Text.padded 2 c.hour).toList.length = 2 ∧
    (Text.padded 2 c.minute).toList.length = 2 ∧ (Text.padded 2 c.second).toList.length = 2 ∧
      (Text.padded 6 c.micro).toList.length = 6 := by
  have hhour := c.hour_lt
  have hminute := c.minute_lt
  have hsecond := c.second_lt
  have hmicro := c.micro_lt
  exact ⟨Text.length_padded (by decide) (by omega), Text.length_padded (by decide) (by omega),
    Text.length_padded (by decide) (by omega), Text.length_padded (by decide) (by omega)⟩

theorem momentText_inj {s t : Moment} (h : momentText s = momentText t) : s.date = t.date ∧ s.clock = t.clock := by
  have hlist := congrArg String.toList h
  rw [toList_momentText, toList_momentText] at hlist
  obtain ⟨hh, hm, hs, -⟩ := length_clock s.clock
  obtain ⟨hh', hm', hs', -⟩ := length_clock t.clock
  obtain ⟨hdate, hrest⟩ := List.append_inj hlist (s.date.length_iso.trans t.date.length_iso.symm)
  obtain ⟨hhour, hrest⟩ := List.append_inj (List.cons.inj hrest).2 (hh.trans hh'.symm)
  obtain ⟨hminute, hrest⟩ := List.append_inj (List.cons.inj hrest).2 (hm.trans hm'.symm)
  obtain ⟨hsecond, hrest⟩ := List.append_inj (List.cons.inj hrest).2 (hs.trans hs'.symm)
  refine ⟨Date.iso_inj (String.toList_inj.mp hdate), ?_⟩
  rw [Clock.mk.injEq]
  exact ⟨Text.padded_inj hhour, Text.padded_inj hminute, Text.padded_inj hsecond,
    Text.padded_inj (List.cons.inj hrest).2⟩

theorem numeral?_momentText (t : Moment) : Cell.numeral? (momentText t) = none := by
  have hshape := toList_momentText t
  rw [Date.toList_iso, List.append_assoc, List.cons_append] at hshape
  have hletter {c : Char} (hc : c.isDigit = false) (hne : c ≠ '-' ∧ c ≠ ' ' ∧ c ≠ ':' ∧ c ≠ '.') :
      c ∉ (momentText t).toList := by
    simp only [toList_momentText, List.mem_append, List.mem_cons, Date.not_mem_iso hc hne.1, Text.not_mem_padded hc,
      hne.2.1, hne.2.2.1, hne.2.2.2, or_self, not_false_eq_true]
  obtain ⟨middle, hmiddle⟩ : ∃ middle, (momentText t).toList =
      (Text.padded 4 t.date.year).toList ++ '-' :: (middle ++ (Text.padded 6 t.clock.micro).toList) := by
    refine ⟨(Text.padded 2 t.date.month).toList ++ '-' :: ((Text.padded 2 t.date.day).toList ++ ' ' ::
      ((Text.padded 2 t.clock.hour).toList ++ ':' :: ((Text.padded 2 t.clock.minute).toList ++ ':' ::
        ((Text.padded 2 t.clock.second).toList ++ ['.'])))), hshape.trans ?_⟩
    simp only [List.append_assoc, List.cons_append, List.nil_append]
  exact Cell.numeral?_eq_none_of_padded hmiddle (hletter rfl (by decide)) (hletter rfl (by decide))

end Storage

end Sift
