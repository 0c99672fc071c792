import Sift.Schema.Coercion

/-!
# Values of a type

What a scalar becomes for a column of some type is a value of that type.
-/

namespace Sift.ColumnType

/-- The values of a type. A number is an integer or a finite binary number. -/
inductive Holds : ColumnType → Value → Prop
  | integer (n : Int) : Holds .integer (.int n)
  | whole (n : Int) : Holds .decimal (.int n)
  | number (x : Binary64) : x.isFinite = true → Holds .decimal (.float x)
  | truth (b : Bool) : Holds .boolean (.bool b)
  | day (d : Date) : Holds .date (.date d)
  | moment (t : Moment) : Holds .datetime (.moment t)
  | text (s : String) : Holds .text (.text s)

variable {type : ColumnType} {v w : Value}

theorem Holds.ne_null (h : type.Holds v) : v ≠ .null := by
  cases h <;> exact Value.noConfusion

theorem Holds.exists_text (h : type.Holds v) (htype : type = .text) : ∃ s, v = .text s := by
  subst htype
  cases h with
  | text s => exact ⟨s, rfl⟩

theorem toInteger_holds (h : toInteger v = .ok w) : Holds .integer w := by
  cases v with
  | int n =>
    cases h
    exact .integer n
  | float x =>
    simp only [toInteger] at h
    cases hn : x.toInt? with
    | none => rw [hn] at h; cases h
    | some n =>
      rw [hn] at h
      cases h
      exact .integer n
  | decimal d =>
    cases d with
    | infinite negative => cases h
    | nan a signalling b c =>
      cases signalling <;> cases h
    | finite negative c x =>
      simp only [toInteger] at h
      cases hn : (Decimal.finite negative c x).size?.bind Size.toInt? with
      | none => rw [hn] at h; cases h
      | some n =>
        rw [hn] at h
        cases h
        exact .integer n
  | text s =>
    simp only [toInteger, readInteger] at h
    split at h
    · cases h
      exact .integer _
    all_goals cases h
  | _ => cases h

theorem finite_holds {x : Binary64} (h : finite x = .ok w) : Holds .decimal w := by
  unfold finite at h
  split at h
  · rename_i hx
    cases h
    exact .number x hx
  · cases h

theorem toNumber_holds (h : toNumber v = .ok w) : Holds .decimal w := by
  cases v with
  | int n =>
    cases h
    exact .whole n
  | float x => exact finite_holds h
  | decimal d =>
    cases d with
    | finite negative c x => exact finite_holds h
    | infinite negative => cases h
    | nan a signalling b c => cases signalling <;> cases h
  | text s =>
    simp only [toNumber, readNumber] at h
    split at h
    · exact finite_holds h
    · cases h
  | _ => cases h

theorem toBoolean_holds (h : toBoolean v = .ok w) : Holds .boolean w := by
  cases v with
  | bool b =>
    cases h
    exact .truth b
  | int n =>
    simp only [toBoolean] at h
    split at h
    · cases h
      exact .truth _
    · split at h
      · cases h
        exact .truth _
      · cases h
  | text s =>
    simp only [toBoolean] at h
    cases hb : truthWord? (Text.trimmed s) with
    | none => rw [hb] at h; cases h
    | some b =>
      rw [hb] at h
      cases h
      exact .truth b
  | _ => cases h

theorem toDate_holds (h : toDate v = .ok w) : Holds .date w := by
  cases v with
  | date d =>
    cases h
    exact .day d
  | moment t =>
    cases h
    exact .day t.date
  | text s =>
    simp only [toDate] at h
    split at h
    · cases h
      exact .day _
    · cases ht : readMoment s with
      | error e => rw [ht] at h; cases h
      | ok t =>
        rw [ht] at h
        cases h
        exact .day t.date
  | _ => cases h

theorem toMoment_holds (h : toMoment v = .ok w) : Holds .datetime w := by
  cases v with
  | date d =>
    cases h
    exact .moment _
  | moment t =>
    cases h
    exact .moment t
  | text s =>
    simp only [toMoment] at h
    cases ht : readMoment s with
    | error e => rw [ht] at h; cases h
    | ok t =>
      rw [ht] at h
      cases h
      exact .moment t
  | _ => cases h

theorem toText_holds (h : toText v = .ok w) : Holds .text w := by
  cases v <;> cases h <;> exact .text _

/-- A scalar becomes a value of the column's type. -/
theorem coerce_holds (htype : type ≠ .other) (h : type.coerce v = .ok w) : type.Holds w := by
  cases type with
  | integer => exact toInteger_holds h
  | decimal => exact toNumber_holds h
  | boolean => exact toBoolean_holds h
  | date => exact toDate_holds h
  | datetime => exact toMoment_holds h
  | text => exact toText_holds h
  | other => exact absurd rfl htype

/-! ## What a column takes -/

/-- The values that a column takes: those of its type, and any scalar where the type is not known. -/
def Fits (type : ColumnType) (v : Value) : Prop :=
  if type = .other then toScalar v = .ok v else type.Holds v

theorem fits_iff_holds (htype : type ≠ .other) : type.Fits v ↔ type.Holds v := by
  rw [Fits, if_neg htype]

theorem Fits.exists_text (h : type.Fits v) (htype : type = .text) : ∃ s, v = .text s :=
  ((fits_iff_holds (by rw [htype]; decide)).mp h).exists_text htype

theorem eq_of_toScalar (h : toScalar v = .ok w) : w = v := by
  cases v <;> cases h <;> rfl

theorem coerce_fits (h : type.coerce v = .ok w) : type.Fits w := by
  by_cases htype : type = .other
  · subst htype
    cases eq_of_toScalar h
    exact h
  · exact (fits_iff_holds htype).mpr (coerce_holds htype h)

/-- Only null becomes null, and only where the type is not known. -/
theorem coerce_ne_null (hv : v ≠ .null) (h : type.coerce v = .ok w) : w ≠ .null := by
  by_cases htype : type = .other
  · subst htype
    exact eq_of_toScalar h ▸ hv
  · exact (coerce_holds htype h).ne_null

theorem coerce_of_fits (h : type.Fits v) : type.coerce v = .ok v := by
  by_cases htype : type = .other
  · subst htype
    exact h
  · cases (fits_iff_holds htype).mp h with
    | number x hx =>
      simp only [coerce, toNumber, finite, hx, if_true]
    | _ => rfl

/-- What was coerced once stays as it is. -/
theorem coerce_coerced (h : type.coerce v = .ok w) : type.coerce w = .ok w :=
  coerce_of_fits (coerce_fits h)

end Sift.ColumnType
