import Mathlib.Tactic.Linarith
import Sift.Calendar.Moment

/-!
# Days in a row

The days of the calendar are numbered in a row, so a number of days names one date, and a number of microseconds one
date and time of day.
-/

namespace Sift

namespace Date

/-- The number of days before the year after `n` years. -/
def yearStart (n : Nat) : Nat := n * 365 + n / 4 - n / 100 + n / 400

/-- The number of days of a year before one of its months. -/
def monthStart (y m : Nat) : Nat := (List.range' 1 (m - 1)).foldl (fun n m => n + daysInMonth y m) 0

theorem dayNumber_eq (d : Date) : d.dayNumber = yearStart (d.year - 1) + monthStart d.year d.month + (d.day - 1) := rfl

theorem yearStart_succ (n : Nat) : yearStart (n + 1) = yearStart n + daysInYear (n + 1) := by
  have hcenturies : n / 100 ≤ n / 4 := Nat.div_le_div_left (by decide) (by decide)
  have h100 : (n + 1) % 100 = 0 → (n + 1) % 4 = 0 := by omega
  have h400 : (n + 1) % 400 = 0 → (n + 1) % 100 = 0 := by omega
  simp only [yearStart, daysInYear, isLeapYear, Nat.succ_div, Nat.dvd_iff_mod_eq_zero, Bool.and_eq_true, Bool.or_eq_true, beq_iff_eq, bne_iff_ne, ne_eq]
  generalize n / 4 = q4 at hcenturies ⊢
  generalize n / 100 = q100 at hcenturies ⊢
  generalize n / 400 = q400
  by_cases h4' : (n + 1) % 4 = 0
  · by_cases h100' : (n + 1) % 100 = 0
    · by_cases h400' : (n + 1) % 400 = 0
      · simp only [h4', h100', h400', if_true, not_true_eq_false, false_or, and_true]
        omega
      · simp only [h4', h100', h400', if_true, if_false, not_true_eq_false, or_self, and_false]
        omega
    · have h400' : ¬ (n + 1) % 400 = 0 := fun h => h100' (h400 h)
      simp only [h4', h100', h400', if_true, if_false, not_false_eq_true, true_or, and_true]
      omega
  · have h100' : ¬ (n + 1) % 100 = 0 := fun h => h4' (h100 h)
    have h400' : ¬ (n + 1) % 400 = 0 := fun h => h100' (h400 h)
    simp only [h4', h100', h400', if_false, false_and]
    omega

theorem yearStart_le {n k : Nat} (h : n < k) : yearStart n + daysInYear (n + 1) ≤ yearStart k := by
  induction k with
  | zero => omega
  | succ k ih =>
    rw [yearStart_succ]
    rcases Nat.lt_or_ge n k with hlt | hge
    · have := ih hlt
      omega
    · rw [show n = k by omega]

theorem monthStart_succ {y m : Nat} (h : 1 ≤ m) : monthStart y (m + 1) = monthStart y m + daysInMonth y m := by
  have hrange : List.range' 1 (m + 1 - 1) = List.range' 1 (m - 1) ++ [m] := by
    rw [show m + 1 - 1 = m - 1 + 1 by omega, List.range'_concat, show 1 + 1 * (m - 1) = m by omega]
  simp only [monthStart, hrange, List.foldl_append, List.foldl_cons, List.foldl_nil]

theorem monthStart_le {y m k : Nat} (hm : 1 ≤ m) (h : m < k) : monthStart y m + daysInMonth y m ≤ monthStart y k := by
  induction k with
  | zero => omega
  | succ k ih =>
    rw [monthStart_succ (by omega)]
    rcases Nat.lt_or_ge m k with hlt | hge
    · have := ih hlt
      omega
    · rw [show m = k by omega]

/-- The twelve months fill the year. -/
theorem monthStart_thirteen (y : Nat) : monthStart y 13 = daysInYear y := by
  cases h : isLeapYear y <;> simp [monthStart, daysInYear, daysInMonth, h, List.range']

theorem day_lt (d : Date) : monthStart d.year d.month + (d.day - 1) < daysInYear d.year := by
  obtain ⟨hday, hdays⟩ := d.day_mem
  obtain ⟨hmonth, hmonths⟩ := d.month_mem
  have hle : monthStart d.year d.month + daysInMonth d.year d.month ≤ monthStart d.year 13 :=
    monthStart_le hmonth (by omega)
  rw [monthStart_thirteen] at hle
  omega

theorem dayNumber_lt_of_year_lt {c d : Date} (h : c.year < d.year) : c.dayNumber < d.dayNumber := by
  obtain ⟨hyear, -⟩ := c.year_mem
  have hstart : yearStart (c.year - 1) + daysInYear (c.year - 1 + 1) ≤ yearStart (d.year - 1) :=
    yearStart_le (by omega)
  rw [Nat.sub_add_cancel hyear] at hstart
  have hday := c.day_lt
  rw [dayNumber_eq, dayNumber_eq]
  omega

theorem dayNumber_lt_of_month_lt {c d : Date} (hyear : c.year = d.year) (h : c.month < d.month) :
    c.dayNumber < d.dayNumber := by
  obtain ⟨hmonth, -⟩ := c.month_mem
  obtain ⟨hday, hdays⟩ := c.day_mem
  have hstart : monthStart c.year c.month + daysInMonth c.year c.month ≤ monthStart c.year d.month :=
    monthStart_le hmonth h
  rw [dayNumber_eq, dayNumber_eq, ← hyear]
  omega

theorem dayNumber_inj {c d : Date} (h : c.dayNumber = d.dayNumber) : c = d := by
  have hyear : c.year = d.year := by
    rcases Nat.lt_trichotomy c.year d.year with hlt | heq | hlt
    · have := dayNumber_lt_of_year_lt hlt
      omega
    · exact heq
    · have := dayNumber_lt_of_year_lt hlt
      omega
  have hmonth : c.month = d.month := by
    rcases Nat.lt_trichotomy c.month d.month with hlt | heq | hlt
    · have := dayNumber_lt_of_month_lt hyear hlt
      omega
    · exact heq
    · have := dayNumber_lt_of_month_lt hyear.symm hlt
      omega
  rw [dayNumber_eq, dayNumber_eq, hyear, hmonth] at h
  obtain ⟨hc, -⟩ := c.day_mem
  obtain ⟨hd, -⟩ := d.day_mem
  rw [Date.mk.injEq]
  exact ⟨hyear, hmonth, by omega⟩

end Date

theorem Clock.micros_lt (c : Clock) : c.micros < microsPerDay := by
  have hhour := c.hour_lt
  have hminute := c.minute_lt
  have hsecond := c.second_lt
  have hmicro := c.micro_lt
  unfold micros microsPerDay
  omega

theorem Clock.micros_inj {c d : Clock} (h : c.micros = d.micros) : c = d := by
  have hminute := c.minute_lt
  have hsecond := c.second_lt
  have hmicro := c.micro_lt
  have hminute' := d.minute_lt
  have hsecond' := d.second_lt
  have hmicro' := d.micro_lt
  unfold micros at h
  rw [Clock.mk.injEq]
  omega

namespace Moment

theorem wall_inj {s t : Moment} (h : s.wall = t.wall) : s.date = t.date ∧ s.clock = t.clock := by
  have hs := s.clock.micros_lt
  have ht := t.clock.micros_lt
  unfold wall at h
  have hdate : s.date.dayNumber = t.date.dayNumber := by
    simp only [microsPerDay] at hs ht h
    omega
  rw [hdate] at h
  exact ⟨Date.dayNumber_inj hdate, Clock.micros_inj (Nat.add_left_cancel h)⟩

theorem same_iff {s t : Moment} (hs : s.offset = none) (ht : t.offset = none) :
    s.same t = true ↔ s.date = t.date ∧ s.clock = t.clock := by
  have hsame : s.same t = (s.wall == t.wall) := by
    simp only [same, instant?, hs, ht, Option.map_none]
  rw [hsame, beq_iff_eq]
  constructor
  · exact wall_inj
  · rintro ⟨hdate, hclock⟩
    rw [wall, wall, hdate, hclock]

end Moment

end Sift
