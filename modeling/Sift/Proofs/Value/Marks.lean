import Sift.Proofs.Calendar.DayNumber
import Sift.Proofs.Store.Contents

/-!
# Marks of values

What tells the values that columns show from one another. Two of them are equal where they have one mark, so they can be
taken for one another wherever a table is asked for them.
-/

namespace Sift

/-- What a value is taken for. -/
inductive Mark where
  | nothing
  | size (s : Size)
  | day (d : Date)
  | moment (d : Date) (c : Clock)
  | text (s : String)

namespace Value

/-- The mark of a value that is neither put together from others nor a moment with an offset. -/
def mark? : Value → Option Mark
  | .null => some .nothing
  | .date d => some (.day d)
  | .moment t => if t.offset = none then some (.moment t.date t.clock) else none
  | .text s => some (.text s)
  | v => v.size?.map .size

variable {v w : Value} {a : Mark}

/-! ## Values with a given mark -/

theorem mark?_eq_some_iff : w.mark? = some a ↔ (w = .null ∧ a = .nothing) ∨ (∃ s, w.size? = some s ∧ a = .size s) ∨
    (∃ d, w = .date d ∧ a = .day d) ∨
      (∃ t, w = .moment t ∧ t.offset = none ∧ a = .moment t.date t.clock) ∨ ∃ s, w = .text s ∧ a = .text s := by
  cases w <;> simp [mark?, size?, eq_comm]

theorem mark?_eq_nothing_iff : w.mark? = some .nothing ↔ w = .null := by
  simp [mark?_eq_some_iff]

theorem mark?_eq_text_iff {s : String} : w.mark? = some (.text s) ↔ w = .text s := by
  simp [mark?_eq_some_iff]

theorem mark?_eq_day_iff {d : Date} : w.mark? = some (.day d) ↔ w = .date d := by
  simp [mark?_eq_some_iff]

theorem mark?_eq_moment_iff {d : Date} {c : Clock} :
    w.mark? = some (.moment d c) ↔ ∃ t, w = .moment t ∧ t.offset = none ∧ t.date = d ∧ t.clock = c := by
  simp [mark?_eq_some_iff, @eq_comm _ d, @eq_comm _ c]

theorem mark?_eq_size_iff {s : Size} : w.mark? = some (.size s) ↔ w.size? = some s := by
  simp [mark?_eq_some_iff]

/-! ## Equality -/

theorem beq_date_iff {d : Date} : (w == .date d) = true ↔ w = .date d := by
  show same w (.date d) = true ↔ w = .date d
  cases w with
  | date c => simp only [same, beq_iff_eq, date.injEq]
  | _ => simp [same, size?]

theorem beq_moment_iff {t : Moment} (ht : t.offset = none) :
    (w == .moment t) = true ↔ ∃ s, w = .moment s ∧ s.offset = none ∧ s.date = t.date ∧ s.clock = t.clock := by
  show same w (.moment t) = true ↔ _
  cases w with
  | moment s =>
    simp only [same, moment.injEq, exists_eq_left']
    cases hs : s.offset with
    | none => simp only [Moment.same_iff hs ht, true_and]
    | some o => simp [Moment.same, Moment.instant?, hs, ht]
  | _ => simp [same, size?]

theorem beq_iff_size? {s : Size} (hv : v.size? = some s) : (w == v) = true ↔ w.size? = some s := by
  cases hw : w.size? with
  | some b => rw [same_of_size? hw hv, beq_iff_eq, Option.some.injEq]
  | none =>
    show w.same v = true ↔ none = some s
    unfold same
    split
    case h_13 => simp [hw]
    all_goals cases hv

/-- A value equals one with a mark if it has the same mark. -/
theorem beq_iff_mark? (hv : v.mark? = some a) : (w == v) = true ↔ w.mark? = some a := by
  cases a with
  | nothing => rw [mark?_eq_nothing_iff.mp hv, beq_null_iff, mark?_eq_nothing_iff]
  | size s => rw [beq_iff_size? (mark?_eq_size_iff.mp hv), mark?_eq_size_iff]
  | day d => rw [mark?_eq_day_iff.mp hv, beq_date_iff, mark?_eq_day_iff]
  | text s => rw [mark?_eq_text_iff.mp hv, beq_text_iff, mark?_eq_text_iff]
  | moment d c =>
    obtain ⟨t, rfl, ht, rfl, rfl⟩ := mark?_eq_moment_iff.mp hv
    rw [beq_moment_iff ht, mark?_eq_moment_iff]

theorem mark?_eq_of_beq (hv : v.mark? = some a) (hw : ∃ b, w.mark? = some b) (h : (v == w) = true) :
    w.mark? = some a := by
  obtain ⟨b, hb⟩ := hw
  rw [hb, ← (beq_iff_mark? hb).mp h, hv]

end Value

/-! ## Shown values -/

/-- A cell that is no "not a number" has a mark. -/
theorem Cell.Proper.exists_mark? {c : Cell} (h : c.Proper) : ∃ a, (Content.ofCell c).shown.mark? = some a := by
  rcases h.kinds with rfl | ⟨s, hs, -⟩ | ⟨t, rfl⟩
  · exact ⟨_, rfl⟩
  · exact ⟨_, Value.mark?_eq_size_iff.mpr hs⟩
  · exact ⟨_, rfl⟩

theorem Content.Kept.exists_mark? {st : Storage} {c : Content} (h : Content.Kept st c) : ∃ a, c.shown.mark? = some a := by
  cases h with
  | nothing => exact ⟨_, rfl⟩
  | cell _ hproper => exact hproper.exists_mark?
  | truth b => exact ⟨_, rfl⟩
  | day d => exact ⟨_, rfl⟩
  | moment t ht => exact ⟨_, if_pos ht⟩

end Sift
