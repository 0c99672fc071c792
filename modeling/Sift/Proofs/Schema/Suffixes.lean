import Sift.Proofs.Calendar.Suffixes
import Sift.Proofs.Schema.Dates

/-!
# Texts in universal time

A `Z` at the end of a text is written out as an offset before the text is read as a moment. A moment without an offset
gets this one in that way, and a day alone does not: its moment has none.
-/

namespace Sift.ColumnType

open Text Calendar

variable {s : String} {body : List Char} {z : Char} {d : Date} {t : Moment} {v : Value}

theorem datetime_coerce_eq_ok_iff :
    datetime.coerce (.text s) = .ok v ↔ ∃ t, moment (spellUtc (trimmed s)) = .ok t ∧ .moment t = v := by
  simp only [coerce, toMoment, ← readMoment_eq_ok_iff]
  exact map_eq_ok_iff

theorem toList_spellUtc (hs : s.toList = body ++ [z]) (hz : z = 'Z' ∨ z = 'z') :
    (spellUtc s).toList = body ++ '+' :: utcClock := by
  have hutc : (z = 'Z' || z = 'z') = true := by
    rw [Bool.or_eq_true, decide_eq_true_eq, decide_eq_true_eq]
    exact hz
  have hspelled : spellUtc s = String.ofList body ++ "+00:00" := by
    rw [spellUtc, hs, List.reverse_concat]
    dsimp only
    rw [if_pos hutc, List.reverse_reverse]
  rw [hspelled, String.toList_append, String.toList_ofList]
  rfl

/-- A moment without an offset gets the one of universal time. -/
theorem datetime_coerce_moment_suffixed (ht : t.offset = none) (hs : (trimmed s).toList = t.iso.toList ++ [z])
    (hz : z = 'Z' ∨ z = 'z') : datetime.coerce (.text s) = .ok (.moment { t with offset := some .utc }) := by
  let u : Moment := { t with offset := some .utc }
  have htime : u.timeText = t.timeText ++ '+' :: utcClock := by
    have hutc : UtcOffset.utc.iso.toList = '+' :: utcClock := by decide
    simp only [u, Moment.timeText, ht, Option.elim_none, Option.elim_some, List.append_nil, hutc]
  have hspelled : spellUtc (trimmed s) = u.iso := by
    rw [← String.toList_inj, toList_spellUtc hs hz, t.toList_iso, u.toList_iso, htime, List.append_assoc,
      List.cons_append]
  have hheard : u.heard = u := by
    rw [u.heard_eq_self_iff]
    intro o ho
    cases ho
    exact .inl rfl
  refine datetime_coerce_eq_ok_iff.mpr ⟨u, ?_, rfl⟩
  rw [hspelled, moment_iso, hheard]

/-- A day remains without an offset. -/
theorem datetime_coerce_date_suffixed (hs : (trimmed s).toList = d.iso.toList ++ [z]) (hz : z = 'Z' ∨ z = 'z') :
    datetime.coerce (.text s) = .ok (.moment (.midnight d)) := by
  have hdrop : (d.iso.toList ++ '+' :: utcClock).drop 10 = '+' :: utcClock := List.drop_left' d.length_iso
  have hread : timeFields utcClock = some ({}, none) := rfl
  refine datetime_coerce_eq_ok_iff.mpr ⟨.midnight d, ?_, rfl⟩
  simp only [moment, toList_spellUtc hs hz, dateSize_iso, dateFields_iso, hdrop, hread, bind, Option.bind,
    Option.map_some]
  rfl

/-- The moment that a text with a `Z` at its end stands for has no offset exactly if there is a day alone before the `Z`.
It has the offset of universal time unless there is a day alone, or a text that holds an offset of its own. -/
theorem datetime_coerce_suffixed (hs : (trimmed s).toList = body ++ [z]) (hz : z = 'Z' ∨ z = 'z')
    (h : datetime.coerce (.text s) = .ok v) : ∃ t, v = .moment t ∧ (t.offset = none ↔ DayText body) ∧
    (t.offset = some .utc ↔ ¬ DayText body ∧ ¬ HoldsOffset body) := by
  obtain ⟨t, ht, rfl⟩ := datetime_coerce_eq_ok_iff.mp h
  exact ⟨t, rfl, moment_suffixed (toList_spellUtc hs hz) ht⟩

theorem datetime_coerce_suffixed_clock : ∃ t : Moment,
    (trimmed "\t2024-01-02T03:04:05z\n").toList = "2024-01-02T03:04:05".toList ++ ['z'] ∧
      datetime.coerce (.text "\t2024-01-02T03:04:05z\n") = .ok (.moment t) ∧ t.offset = some .utc := by
  let t : Moment := ⟨⟨2024, 1, 2, by decide, by decide, by decide⟩,
    ⟨3, 4, 5, 0, by decide, by decide, by decide, by decide⟩, none⟩
  have hs : (trimmed "\t2024-01-02T03:04:05z\n").toList = "2024-01-02T03:04:05".toList ++ ['z'] := by decide
  have ht : t.iso.toList = "2024-01-02T03:04:05".toList := by decide
  have hread := datetime_coerce_moment_suffixed rfl (by rw [hs, ht]) (.inr rfl)
  obtain ⟨u, hu, -, hutc⟩ := datetime_coerce_suffixed hs (.inr rfl) hread
  refine ⟨u, hs, hu ▸ hread, hutc.mpr ⟨fun hday => ?_, fun hholds => ?_⟩⟩
  · exact absurd hday.length_le (by decide)
  · exact absurd hholds.nul_mem (by decide)

/-- The second of January in universal time is read as its midnight anywhere. -/
theorem datetime_coerce_offset_unread : ∃ t : Moment, (trimmed "2024-01-02Z").toList = "2024-01-02".toList ++ ['Z'] ∧
    datetime.coerce (.text "2024-01-02Z") = .ok (.moment t) ∧ t.offset = none := by
  let d : Date := ⟨2024, 1, 2, by decide, by decide, by decide⟩
  have hs : (trimmed "2024-01-02Z").toList = "2024-01-02".toList ++ ['Z'] := by decide
  have hd : d.iso.toList = "2024-01-02".toList := by decide
  exact ⟨.midnight d, hs, datetime_coerce_date_suffixed (by rw [hs, hd]) (.inl rfl), rfl⟩

end Sift.ColumnType
