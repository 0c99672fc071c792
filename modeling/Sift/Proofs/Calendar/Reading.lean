import Sift.Proofs.Calendar.Days
import Sift.Proofs.Calendar.Texts

/-!
# Reading what was written

Each reader takes back what the writer of its field wrote and leaves the rest of the text, so a date or a moment is read
from its own text. Only an offset of less than a second is heard as none.
-/

namespace Sift

open Text

variable {cs rest : List Char}

/-! ## Dates -/

namespace Date

theorem ofFields_fields (d : Date) : ofFields d.year d.month d.day = .ok d := by
  rw [ofFields, dif_pos d.year_mem, dif_pos d.month_mem, dif_pos d.day_mem]

theorem iso_append (d : Date) (rest : List Char) : d.iso.toList ++ rest = (padded 4 d.year).toList ++
    '-' :: ((padded 2 d.month).toList ++ '-' :: ((padded 2 d.day).toList ++ rest)) := by
  simp only [toList_iso, List.append_assoc, List.cons_append]

end Date

namespace Calendar

theorem dateFields_iso (d : Date) (size : Nat) (rest : List Char) :
    dateFields size (d.iso.toList ++ rest) = some (.ok d) := by
  obtain ⟨hyear, hmonth, hday⟩ := d.fields_lt
  obtain ⟨c, cs, hc, hcs⟩ := exists_cons_padded 2 d.month ('-' :: ((padded 2 d.day).toList ++ rest))
  have hweek : c ≠ 'W' := ne_of_isDigit hc rfl
  have hread := digits_padded (by decide) hmonth ('-' :: ((padded 2 d.day).toList ++ rest))
  rw [d.iso_append, dateFields, digits_padded (by decide) hyear]
  simp only [bind, Option.bind]
  rw [hcs] at hread ⊢
  split
  · rename_i heq
    cases heq
    exact absurd rfl hweek
  · simp only [hread, if_true, skip, digits_padded (by decide) hday, d.ofFields_fields]

theorem utf8Length_of_ascii (h : ∀ c ∈ cs, c.toNat < 128) : utf8Length cs = cs.length := by
  rw [utf8Length_eq_sum]
  induction cs with
  | nil => rfl
  | cons c cs ih =>
    obtain ⟨hc, hcs⟩ := List.forall_mem_cons.mp h
    have hsize : c.utf8Size = 1 := by
      rw [Char.utf8Size, if_pos]
      rw [UInt32.le_iff_toNat_le]
      exact Nat.le_of_lt_succ hc
    rw [List.map_cons, List.sum_cons, ih hcs, hsize, List.length_cons, Nat.add_comm]

theorem ascii_iso (d : Date) : ∀ c ∈ d.iso.toList, c.toNat < 128 := by
  intro c hc
  by_cases hdigit : c.isDigit = true
  · have hhigh := (isDigit_iff.mp hdigit).2
    omega
  · by_cases hyphen : c = '-'
    · subst hyphen
      decide
    · exact absurd hc (d.not_mem_iso (Bool.eq_false_iff.mpr hdigit) hyphen)

theorem date_iso (d : Date) : date d.iso = .ok d := by
  have hsize : utf8Length d.iso.toList = 10 := (utf8Length_of_ascii (ascii_iso d)).trans d.length_iso
  have hread := dateFields_iso d 10 []
  rw [List.append_nil] at hread
  simp only [date, hsize, hread]
  rfl

theorem date_of_length {s : String} (h : 10 < s.toList.length) : date s = .error .unreadable := by
  have hsize := length_le_utf8Length s.toList
  have hlong : ¬ (utf8Length s.toList = 7 || utf8Length s.toList = 8 || utf8Length s.toList = 10) = true := by
    simp only [Bool.or_eq_true, decide_eq_true_eq]
    omega
  simp only [date, if_neg hlong]

theorem dateSize_iso (d : Date) (rest : List Char) : dateSize (d.iso.toList ++ rest) = 10 := by
  obtain ⟨hyear, -, hday⟩ := d.length_fields
  obtain ⟨-, hmonth, -⟩ := d.fields_lt
  have hlength : 2 ≤ ('-' :: ((padded 2 d.day).toList ++ rest)).length := by
    rw [List.length_cons, List.length_append, hday]
    omega
  have hsize := dateSize_month true hyear (written_padded (by decide) hmonth) hlength
  rw [between_true, List.singleton_append, ← d.iso_append] at hsize
  exact hsize

end Calendar

/-! ## Times -/

namespace Calendar

/-- The fields of a time as they are written, with the seconds or without. -/
def ClockFields.text (seconds : Bool) (f : ClockFields) : List Char :=
  (padded 2 f.hour).toList ++ ':' :: ((padded 2 f.minute).toList ++
    if seconds then
      ':' :: ((padded 2 f.second).toList ++ if f.micro = 0 then [] else '.' :: (padded 6 f.micro).toList)
    else [])

/-- Can the fields be written with their number of digits? -/
structure ClockFields.Fits (f : ClockFields) : Prop where
  hour : f.hour < 10 ^ 2
  minute : f.minute < 10 ^ 2
  second : f.second < 10 ^ 2
  micro : f.micro < 10 ^ 6

theorem afterField_colon (h : cs ≠ []) : afterField true (':' :: cs) = some (.field cs) := by
  obtain ⟨c, cs, rfl⟩ := List.exists_cons_of_ne_nil h
  rfl

/-- A mark that leads to the fraction of a second. -/
def IsPoint (c : Char) : Prop := c = '.' ∨ c = ','

theorem afterField_point {colons : Bool} {c : Char} (hc : IsPoint c) (h : cs ≠ []) :
    afterField colons (c :: cs) = some (.fraction cs) := by
  obtain ⟨d, cs, rfl⟩ := List.exists_cons_of_ne_nil h
  rcases hc with rfl | rfl <;> cases colons <;> rfl

theorem fraction_padded {n : Nat} (h : n < 10 ^ 6) : fraction (padded 6 n).toList = some (n, []) := by
  have hread := digits_padded (by decide) h []
  rw [List.append_nil] at hread
  simp only [fraction, length_padded (by decide) h, Nat.min_self, hread, bind, Option.bind, Nat.sub_self,
    List.dropWhile_nil]
  exact congrArg (fun k => some (k, [])) (Nat.mul_one n)

theorem clockFields_text {f : ClockFields} (hf : f.Fits) {seconds : Bool}
    (hshort : seconds = false → f.second = 0 ∧ f.micro = 0) : clockFields (f.text seconds) = some (f, []) := by
  obtain ⟨h, m, s, us⟩ := f
  obtain ⟨hhour, hminute, hsecond, hmicro⟩ := hf
  have hne (n : Nat) (rest : List Char) : (padded 2 n).toList ++ rest ≠ [] :=
    List.append_ne_nil_of_left_ne_nil (padded_ne_nil 2 n) rest
  simp only [ClockFields.text, clockFields, digits_padded (by decide) hhour, bind, Option.bind, List.head?_cons, BEq.rfl,
    afterField_colon (hne m _), digits_padded (by decide) hminute]
  cases seconds with
  | false =>
    obtain ⟨hs, hus⟩ := hshort rfl
    cases hs
    cases hus
    rfl
  | true =>
    simp only [if_true, afterField_colon (hne s _), digits_padded (by decide) hsecond]
    by_cases hus : us = 0
    · subst hus
      rfl
    · simp only [if_neg hus, afterField_point (.inl rfl) (padded_ne_nil 6 us), fraction_padded hmicro, Option.map_some]

theorem toList_fraction (us : Nat) : (if us = 0 then "" else "." ++ padded 6 us).toList =
    if us = 0 then [] else '.' :: (padded 6 us).toList := by
  have hpoint : ".".toList = ['.'] := rfl
  split
  · rfl
  · rw [String.toList_append, hpoint, List.singleton_append]

theorem ClockFields.mem_text {f : ClockFields} {seconds : Bool} {c : Char} (h : c ∈ f.text seconds) :
    c.isDigit = true ∨ c = ':' ∨ c = '.' := by
  simp only [text, List.mem_append, List.mem_cons] at h
  rcases h with h | h | h | h
  · exact .inl (isDigit_of_mem_padded h)
  · exact .inr (.inl h)
  · exact .inl (isDigit_of_mem_padded h)
  · split at h
    · rcases List.mem_cons.mp h with h | h
      · exact .inr (.inl h)
      · rcases List.mem_append.mp h with h | h
        · exact .inl (isDigit_of_mem_padded h)
        · split at h
          · cases h
          · rcases List.mem_cons.mp h with h | h
            · exact .inr (.inr h)
            · exact .inl (isDigit_of_mem_padded h)
    · cases h

end Calendar

open Calendar

namespace Clock

def fields (c : Clock) : ClockFields := ⟨c.hour, c.minute, c.second, c.micro⟩

theorem fits_fields (c : Clock) : c.fields.Fits where
  hour := Nat.lt_trans c.hour_lt (by decide)
  minute := Nat.lt_trans c.minute_lt (by decide)
  second := Nat.lt_trans c.second_lt (by decide)
  micro := c.micro_lt

theorem ofFields_fields (c : Clock) : ofFields c.fields.hour c.fields.minute c.fields.second c.fields.micro = .ok c := by
  rw [fields, ofFields, dif_pos c.hour_lt, dif_pos c.minute_lt, dif_pos c.second_lt, dif_pos c.micro_lt]

theorem toList_iso (c : Clock) : c.iso.toList = c.fields.text true := by
  have hcolon : ":".toList = [':'] := rfl
  simp only [iso, ClockFields.text, if_true, String.toList_append, hcolon, toList_fraction, List.append_assoc,
    List.cons_append, List.nil_append]
  rfl

end Clock

namespace UtcOffset

def fields (o : UtcOffset) : ClockFields where
  hour := o.micros.natAbs / 1000000 / 3600
  minute := o.micros.natAbs / 1000000 / 60 % 60
  second := o.micros.natAbs / 1000000 % 60
  micro := o.micros.natAbs % 1000000

def sign (o : UtcOffset) : Char := if o.micros < 0 then '-' else '+'

def seconds (o : UtcOffset) : Bool := !(o.fields.second = 0 && o.fields.micro = 0)

/-- An offset as it is heard: one of less than a second is none. -/
def heard (o : UtcOffset) : UtcOffset := if o.micros.natAbs < 1000000 then utc else o

theorem heard_eq_self_iff (o : UtcOffset) : o.heard = o ↔ o.micros = 0 ∨ 1000000 ≤ o.micros.natAbs := by
  unfold heard
  split
  · rw [UtcOffset.mk.injEq]
    show 0 = o.micros ↔ _
    omega
  · rename_i hlong
    exact iff_of_true rfl (.inr (by omega))

theorem short_of_seconds {o : UtcOffset} (h : o.seconds = false) : o.fields.second = 0 ∧ o.fields.micro = 0 := by
  simpa only [seconds, Bool.not_eq_false', Bool.and_eq_true, decide_eq_true_eq] using h

theorem fits_fields (o : UtcOffset) : o.fields.Fits := by
  have hshort := o.short
  rw [microsPerDay] at hshort
  constructor <;> simp only [fields] <;> omega

theorem toList_iso (o : UtcOffset) : o.iso.toList = o.sign :: o.fields.text o.seconds := by
  have hcolon : ":".toList = [':'] := rfl
  have hsign : (if o.micros < 0 then "-" else "+").toList = [o.sign] := by
    unfold sign
    split <;> rfl
  have hseconds : (if o.micros.natAbs / 1000000 % 60 = 0 && o.micros.natAbs % 1000000 = 0 then ""
        else ":" ++ padded 2 (o.micros.natAbs / 1000000 % 60)).toList =
      if o.seconds then ':' :: (padded 2 o.fields.second).toList else [] := by
    have hwritten : o.seconds = !(o.micros.natAbs / 1000000 % 60 = 0 && o.micros.natAbs % 1000000 = 0) := rfl
    rw [hwritten]
    split
    · rename_i hnone
      rw [hnone]
      rfl
    · rename_i hsome
      rw [Bool.not_eq_true] at hsome
      rw [hsome, String.toList_append, hcolon]
      rfl
  simp only [iso, ClockFields.text, String.toList_append, hcolon, hsign, hseconds, toList_fraction, List.append_assoc,
    List.cons_append, List.nil_append]
  cases h : o.seconds with
  | true => rfl
  | false =>
    have hmicro : o.micros.natAbs % 1000000 = 0 := (short_of_seconds h).2
    rw [hmicro]
    rfl

theorem offset_fields (o : UtcOffset) :
    offset (decide (o.sign = '-')) (o.fields.text o.seconds) = some (.ok o.heard) := by
  have hseconds : (o.fields.hour * 60 + o.fields.minute) * 60 + o.fields.second = o.micros.natAbs / 1000000 := by
    simp only [fields]
    omega
  have hmicros : o.micros.natAbs / 1000000 * 1000000 + o.fields.micro = o.micros.natAbs := by
    simp only [fields]
    omega
  simp only [offset, clockFields_text o.fits_fields short_of_seconds, bind, Option.bind, ended, if_true, hseconds, hmicros]
  by_cases hnone : o.micros.natAbs < 1000000
  · rw [if_pos (Nat.div_eq_of_lt hnone), heard, if_pos hnone]
  · have hsigned : (if decide (o.sign = '-') = true then -(o.micros.natAbs : Int) else o.micros.natAbs) = o.micros := by
      by_cases hneg : o.micros < 0
      · have hminus : o.sign = '-' := if_pos hneg
        rw [if_pos (decide_eq_true hminus)]
        omega
      · have hplus : o.sign = '+' := if_neg hneg
        rw [hplus, if_neg (by decide)]
        omega
    rw [if_neg (by omega), heard, if_neg hnone, hsigned, ofMicros, dif_pos o.short]

end UtcOffset

/-! ## Moments -/

namespace Calendar

def isMark (c : Char) : Bool := c = '+' || c = '-' || c = 'Z'

theorem timeFields_eq (cs : List Char) : timeFields cs = (do
    let (f, rest) ← clockFields (cs.takeWhile (!isMark ·))
    match cs.dropWhile (!isMark ·) with
    | [] => if ended rest then some (f, none) else none
    | c :: tail =>
      if c = 'Z' then
        if ended tail then some (f, some (.ok .utc)) else none
      else (offset (c = '-') tail).map fun o => (f, some o)) := rfl

theorem isMark_of_isDigit {c : Char} (h : c.isDigit = true) : isMark c = false := by
  simp only [isMark, Bool.or_eq_false_iff, decide_eq_false_iff_not]
  exact ⟨⟨ne_of_isDigit h rfl, ne_of_isDigit h rfl⟩, ne_of_isDigit h rfl⟩

theorem ClockFields.not_isMark {f : ClockFields} {seconds : Bool} {c : Char} (h : c ∈ f.text seconds) :
    (!isMark c) = true := by
  rcases mem_text h with h | rfl | rfl
  · rw [isMark_of_isDigit h]
    rfl
  · rfl
  · rfl

end Calendar

namespace Moment

/-- A moment as it is heard. -/
def heard (t : Moment) : Moment := { t with offset := t.offset.map UtcOffset.heard }

theorem heard_eq_self_iff (t : Moment) : t.heard = t ↔ ∀ o ∈ t.offset, o.micros = 0 ∨ 1000000 ≤ o.micros.natAbs := by
  obtain ⟨date, clock, offset⟩ := t
  simp only [heard, mk.injEq, true_and]
  cases offset with
  | none => exact iff_of_true rfl nofun
  | some o =>
    simp only [Option.map_some, Option.some_inj, o.heard_eq_self_iff, Option.mem_some_iff, forall_eq']

def timeText (t : Moment) : List Char := t.clock.iso.toList ++ t.offset.elim [] fun o => o.iso.toList

theorem toList_iso (t : Moment) : t.iso.toList = t.date.iso.toList ++ 'T' :: t.timeText := by
  have hmark : "T".toList = ['T'] := rfl
  have hoffset : (t.offset.elim "" UtcOffset.iso).toList = t.offset.elim [] fun o => o.iso.toList := by
    cases t.offset <;> rfl
  simp only [iso, timeText, String.toList_append, hmark, hoffset, List.append_assoc, List.cons_append, List.nil_append]

theorem timeFields_timeText (t : Moment) :
    timeFields t.timeText = some (t.clock.fields, t.offset.map fun o => .ok o.heard) := by
  have hclock : ∀ c ∈ t.clock.iso.toList, (!isMark c) = true := fun c hc =>
    ClockFields.not_isMark (t.clock.toList_iso ▸ hc)
  have hread : clockFields t.clock.iso.toList = some (t.clock.fields, []) := by
    rw [t.clock.toList_iso]
    exact clockFields_text t.clock.fits_fields nofun
  rw [timeFields_eq, timeText, List.takeWhile_append_of_pos hclock, List.dropWhile_append_of_pos hclock]
  cases t.offset with
  | none =>
    rw [Option.elim_none, List.takeWhile_nil, List.append_nil, hread]
    rfl
  | some o =>
    have hsign : o.sign = '+' ∨ o.sign = '-' := by
      unfold UtcOffset.sign
      split
      · exact .inr rfl
      · exact .inl rfl
    have hmark : ¬ (!isMark o.sign) = true := by
      rcases hsign with h | h <;> rw [h] <;> decide
    have hutc : o.sign ≠ 'Z' := by
      rcases hsign with h | h <;> rw [h] <;> decide
    rw [Option.elim_some, o.toList_iso, List.takeWhile_cons_of_neg (p := fun c => !isMark c) hmark,
      List.dropWhile_cons_of_neg (p := fun c => !isMark c) hmark,
      List.append_nil, hread]
    simp only [bind, Option.bind, if_neg hutc, o.offset_fields, Option.map_some]

end Moment

namespace Calendar

/-- A moment is read from its own text as it is heard. -/
theorem moment_iso (t : Moment) : moment t.iso = .ok t.heard := by
  have hdrop : (t.date.iso.toList ++ 'T' :: t.timeText).drop 10 = 'T' :: t.timeText := List.drop_left' t.date.length_iso
  simp only [moment, t.toList_iso, dateSize_iso, dateFields_iso, hdrop, bind, Option.bind, t.timeFields_timeText,
    Option.map_some]
  cases h : t.offset with
  | none => simp only [Option.map_none, t.clock.ofFields_fields, Moment.heard, h, pure, Except.pure, Except.bind]
  | some o =>
    simp only [Option.map_some, t.clock.ofFields_fields, Moment.heard, h, pure, Except.pure, Except.bind, Functor.map,
      Except.map]

theorem moment_date_iso (d : Date) : moment d.iso = .ok (.midnight d) := by
  have hsize := dateSize_iso d []
  have hfields := dateFields_iso d 10 []
  rw [List.append_nil] at hsize hfields
  have hdrop : d.iso.toList.drop 10 = [] := List.drop_eq_nil_of_le (Nat.le_of_eq d.length_iso)
  simp only [moment, hsize, hfields, hdrop, bind, Option.bind]
  rfl

end Calendar

/-! ## The ends of the texts -/

theorem Calendar.ClockFields.endsInDigit_text (f : ClockFields) (seconds : Bool) : EndsInDigit (f.text seconds) := by
  refine EndsInDigit.append (.cons ?_ ':') _
  cases seconds with
  | false =>
    rw [if_neg Bool.false_ne_true, List.append_nil]
    exact endsInDigit_padded 2 f.minute
  | true =>
    refine EndsInDigit.append (.cons ?_ ':') _
    split
    · rw [List.append_nil]
      exact endsInDigit_padded 2 f.second
    · exact ((endsInDigit_padded 6 f.micro).cons '.').append _

theorem Date.isDigit_head_iso (d : Date) (rest : List Char) : ∀ c ∈ (d.iso.toList ++ rest).head?, c.isDigit = true := by
  intro c hc
  obtain ⟨first, cs, hfirst, hcs⟩ := exists_cons_padded 4 d.year
    ('-' :: ((padded 2 d.month).toList ++ '-' :: ((padded 2 d.day).toList ++ rest)))
  rw [d.iso_append, hcs] at hc
  cases hc
  exact hfirst

theorem Date.endsInDigit_iso (d : Date) : EndsInDigit d.iso.toList := by
  rw [toList_iso]
  exact ((((endsInDigit_padded 2 d.day).cons '-').append _).cons '-').append _

theorem Date.trimmed_iso (d : Date) : Trimmed d.iso.toList :=
  d.endsInDigit_iso.trimmed (List.append_nil d.iso.toList ▸ d.isDigit_head_iso [])

theorem Moment.endsInDigit_iso (t : Moment) : EndsInDigit t.iso.toList := by
  rw [t.toList_iso]
  refine EndsInDigit.append (.cons ?_ 'T') _
  rw [timeText]
  cases t.offset with
  | none =>
    rw [Option.elim_none, List.append_nil, t.clock.toList_iso]
    exact t.clock.fields.endsInDigit_text true
  | some o =>
    rw [Option.elim_some, o.toList_iso]
    exact ((o.fields.endsInDigit_text o.seconds).cons o.sign).append _

theorem Moment.trimmed_iso (t : Moment) : Trimmed t.iso.toList :=
  t.endsInDigit_iso.trimmed (t.toList_iso ▸ t.date.isDigit_head_iso _)

end Sift
