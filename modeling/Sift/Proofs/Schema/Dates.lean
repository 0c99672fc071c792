import Sift.Proofs.Calendar.Reading
import Sift.Schema.Coercion

/-!
# Dates and moments in texts

A query string gives a date or a moment as its text. It stands for the same value as the date or the moment itself on
columns of either kind, but for an offset of less than a second.
-/

namespace Sift

open Text

variable {s w : String} {d : Date} {t : Moment}

namespace ColumnType

theorem spellUtc_of_endsInDigit (h : EndsInDigit s.toList) : spellUtc s = s := by
  obtain ⟨front, c, hc, hs⟩ := h
  have hutc : ¬ (c = 'Z' || c = 'z') = true := by
    simp only [Bool.or_eq_true, decide_eq_true_eq, not_or]
    exact ⟨ne_of_isDigit hc rfl, ne_of_isDigit hc rfl⟩
  rw [spellUtc, hs, List.reverse_concat]
  exact if_neg hutc

theorem readMoment_eq_ok_iff : readMoment s = .ok t ↔ Calendar.moment (spellUtc (trimmed s)) = .ok t := by
  unfold readMoment
  dsimp only
  split
  · rename_i heq
    rw [heq, Except.ok.injEq, Except.ok.injEq]
  · rename_i heq
    rw [heq]
    exact iff_of_false nofun nofun

/-- A text between digits is read as it stands. -/
theorem readMoment_of_pads (hs : Pads s w) (htrimmed : Trimmed w.toList) (hends : EndsInDigit w.toList)
    (h : Calendar.moment w = .ok t) : readMoment s = .ok t := by
  rw [readMoment_eq_ok_iff, hs.trimmed_eq htrimmed, spellUtc_of_endsInDigit hends]
  exact h

theorem readMoment_date (hs : Pads s d.iso) : readMoment s = .ok (.midnight d) :=
  readMoment_of_pads hs d.trimmed_iso d.endsInDigit_iso (Calendar.moment_date_iso d)

theorem readMoment_moment (hs : Pads s t.iso) : readMoment s = .ok t.heard :=
  readMoment_of_pads hs t.trimmed_iso t.endsInDigit_iso (Calendar.moment_iso t)

theorem date_coerce_date (hs : Pads s d.iso) : date.coerce (.text s) = .ok (.date d) := by
  simp only [coerce, toDate, hs.trimmed_eq d.trimmed_iso, Calendar.date_iso]

theorem date_coerce_moment (hs : Pads s t.iso) : date.coerce (.text s) = .ok (.date t.date) := by
  have hlong : 10 < t.iso.toList.length := by
    rw [t.toList_iso, List.length_append, t.date.length_iso, List.length_cons]
    omega
  simp only [coerce, toDate, hs.trimmed_eq t.trimmed_iso, Calendar.date_of_length hlong, readMoment_moment hs]
  rfl

theorem datetime_coerce_date (hs : Pads s d.iso) : datetime.coerce (.text s) = .ok (.moment (.midnight d)) := by
  simp only [coerce, toMoment, readMoment_date hs]
  rfl

theorem datetime_coerce_moment (hs : Pads s t.iso) : datetime.coerce (.text s) = .ok (.moment t.heard) := by
  simp only [coerce, toMoment, readMoment_moment hs]
  rfl

/-- The text of a date or a moment, with any blanks around it, stands for what the date or the moment itself stands for:
on a column of dates for its date, on one of moments for the beginning of the day or the moment itself. The moment keeps
its offset exactly if this is none or at least a second. -/
theorem coerce_iso (d : Date) (t : Moment) {s s' : String} (hs : Pads s d.iso) (hs' : Pads s' t.iso) :
    date.coerce (.text s) = .ok (.date d) ∧
      datetime.coerce (.text s') = .ok (.moment t.heard) ∧
      (datetime.coerce (.text s') = .ok (.moment t) ↔
        ∀ o ∈ t.offset, o.micros = 0 ∨ 1000000 ≤ o.micros.natAbs) ∧
      (date.coerce (.text s') = .ok (.date t.date) ∧ date.coerce (.moment t) = .ok (.date t.date)) ∧
      datetime.coerce (.text s) = .ok (.moment (.midnight d)) ∧
      datetime.coerce (.date d) = .ok (.moment (.midnight d)) := by
  refine ⟨date_coerce_date hs, datetime_coerce_moment hs', ?_, ⟨date_coerce_moment hs', rfl⟩, datetime_coerce_date hs,
    rfl⟩
  rw [datetime_coerce_moment hs', ← Moment.heard_eq_self_iff]
  simp only [Except.ok.injEq, Value.moment.injEq]

theorem coerce_iso_leapDay : ∃ (d : Date) (t : Moment), Pads "\t2024-02-29 " d.iso ∧
    Pads "  2024-01-02T03:04:05.000006-00:00:01.500000\n" t.iso ∧
    date.coerce (.text "\t2024-02-29 ") = .ok (.date d) ∧
    datetime.coerce (.text "  2024-01-02T03:04:05.000006-00:00:01.500000\n") = .ok (.moment t) := by
  let d : Date := ⟨2024, 2, 29, by decide, by decide, by decide⟩
  let t : Moment := ⟨⟨2024, 1, 2, by decide, by decide, by decide⟩,
    ⟨3, 4, 5, 6, by decide, by decide, by decide, by decide⟩, some ⟨-1500000, by decide⟩⟩
  have hd : Pads "\t2024-02-29 " d.iso := ⟨['\t'], [' '], by decide, by decide, by decide⟩
  have ht : Pads "  2024-01-02T03:04:05.000006-00:00:01.500000\n" t.iso :=
    ⟨[' ', ' '], ['\n'], by decide, by decide, by decide⟩
  obtain ⟨hdate, -, hmoment, -⟩ := coerce_iso d t hd ht
  refine ⟨d, t, hd, ht, hdate, hmoment.mpr fun o ho => .inr ?_⟩
  cases ho
  decide

/-- An offset of a microsecond is lost in a text, and kept by the moment itself. -/
theorem datetime_coerce_offset_lost : ∃ t : Moment, t.iso = "2024-01-02T03:04:05+00:00:00.000001" ∧
    datetime.coerce (.text "2024-01-02T03:04:05+00:00:00.000001") = .ok (.moment { t with offset := some .utc }) ∧
    t.offset ≠ some .utc ∧ datetime.coerce (.moment t) = .ok (.moment t) := by
  let t : Moment := ⟨⟨2024, 1, 2, by decide, by decide, by decide⟩,
    ⟨3, 4, 5, 0, by decide, by decide, by decide, by decide⟩, some ⟨1, by decide⟩⟩
  have ht : t.iso = "2024-01-02T03:04:05+00:00:00.000001" := by decide
  refine ⟨t, ht, ?_, by decide, rfl⟩
  rw [datetime_coerce_moment (t := t) (ht ▸ .refl _)]
  rfl

end ColumnType

end Sift
