import Sift.Proofs.Calendar.DayNumber
import Sift.Proofs.Calendar.Texts
import Sift.Proofs.Store.Asking
import Sift.Proofs.Value.Tables

/-!
# What columns hold and show

A column holds a cell, which is compared, and a value, which is shown. But for documents the one tells the other: two
contents of one column are equal as cells exactly where equal values are shown.
-/

namespace Sift

/-! ## Cells that show themselves -/

namespace Cell

/-- A cell that is not kept as "not a number", which is kept as nothing. -/
def Proper : Cell → Prop
  | .real (.nan _) => False
  | _ => True

/-- A cell is nothing, a number with a size, or a text. -/
theorem Proper.kinds {c : Cell} (h : c.Proper) : c = .null ∨
    (∃ s, (Content.ofCell c).shown.size? = some s ∧ s.Proper ∧ s.place = c.rank) ∨ ∃ t, c = .text t := by
  cases c with
  | null => exact .inl rfl
  | integer n => exact .inr (.inl ⟨.ofInt n, rfl, Value.proper_ofInt n, Size.place_ofInt n⟩)
  | real x =>
    cases hx : x.size? with
    | none =>
      cases x with
      | nan o => exact h.elim
      | infinite negative => cases hx
      | finite negative m e =>
        simp only [Binary64.size?] at hx
        split at hx <;> cases hx
    | some s => exact .inr (.inl ⟨s, hx, Binary64.place_of_size? hx⟩)
  | text t => exact .inr (.inr ⟨t, rfl⟩)

theorem place_ne_text {s : Size} {t : String} : s.place ≠ .text t := by
  cases s with
  | finite c x => exact Rank.noConfusion
  | infinite negative => cases negative <;> exact Rank.noConfusion

theorem place_ne_nothing {s : Size} : s.place ≠ .nothing := by
  cases s with
  | finite c x => exact Rank.noConfusion
  | infinite negative => cases negative <;> exact Rank.noConfusion

/-- Cells have one place exactly where they show equal values. -/
theorem shown_beq_iff {c d : Cell} (hc : c.Proper) (hd : d.Proper) :
    ((Content.ofCell c).shown == (Content.ofCell d).shown) = true ↔ c.rank = d.rank := by
  rcases hc.kinds with rfl | ⟨a, ha, hap, hac⟩ | ⟨s, rfl⟩
  · rcases hd.kinds with rfl | ⟨b, hb, hbp, hbd⟩ | ⟨t, rfl⟩
    · exact ⟨fun _ => rfl, fun _ => by rw [show (Content.ofCell .null).shown = .null from rfl, Value.beq_null_iff]⟩
    · rw [show (Content.ofCell .null).shown = .null from rfl, Value.null_beq_iff, ← hbd]
      refine ⟨fun h => ?_, fun h => (place_ne_nothing h.symm).elim⟩
      rw [h] at hb
      cases hb
    · rw [show (Content.ofCell .null).shown = .null from rfl, Value.null_beq_iff]
      exact ⟨fun h => Value.noConfusion h, fun h => Rank.noConfusion h⟩
  · rcases hd.kinds with rfl | ⟨b, hb, hbp, hbd⟩ | ⟨t, rfl⟩
    · rw [show (Content.ofCell .null).shown = .null from rfl, Value.beq_null_iff, ← hac]
      refine ⟨fun h => ?_, fun h => (place_ne_nothing h).elim⟩
      rw [h] at ha
      cases ha
    · rw [Value.beq_iff_place ha hb hap hbp, hac, hbd]
    · rw [show (Content.ofCell (.text t)).shown = .text t from rfl, Value.beq_text_iff, ← hac]
      refine ⟨fun h => ?_, fun h => (place_ne_text h).elim⟩
      rw [h] at ha
      cases ha
  · rw [show (Content.ofCell (.text s)).shown = .text s from rfl, Value.text_beq_iff]
    rcases hd.kinds with rfl | ⟨b, hb, hbp, hbd⟩ | ⟨t, rfl⟩
    · exact ⟨fun h => Value.noConfusion h, fun h => Rank.noConfusion h⟩
    · rw [← hbd]
      refine ⟨fun h => ?_, fun h => (place_ne_text h.symm).elim⟩
      rw [h] at hb
      cases hb
    · exact ⟨fun h => by cases h; rfl, fun h => by cases h; rfl⟩

end Cell

/-! ## What is stored -/

namespace Binary64

theorem ofRatio_ne_nan (negative : Bool) (num den o : Nat) : ofRatio negative num den ≠ .nan o := by
  have hresult (m : Nat × Int) : (if maxExponent < m.2 then infinite negative else finite negative m.1 m.2) ≠ .nan o := by
    split <;> exact Binary64.noConfusion
  unfold ofRatio
  split
  · exact Binary64.noConfusion
  · exact hresult _

theorem ofDecimal_ne_nan (negative : Bool) (c : Nat) (x : Int) (o : Nat) : ofDecimal negative c x ≠ .nan o := by
  unfold ofDecimal
  simp only
  split
  · exact Binary64.noConfusion
  · split
    · exact Binary64.noConfusion
    · exact ofRatio_ne_nan _ _ _ _

end Binary64

namespace Cell

theorem proper_real {x : Binary64} (h : ∀ o, x ≠ .nan o) : (Cell.real x).Proper := by
  cases x with
  | nan o => exact (h o rfl).elim
  | _ => trivial

theorem proper_ite {p : Prop} [Decidable p] {c d : Cell} (hc : c.Proper) (hd : d.Proper) :
    (if p then c else d).Proper := by
  split
  · exact hc
  · exact hd

theorem proper_ofBinary (x : Binary64) : (ofBinary x).Proper := by
  cases x <;> trivial

theorem proper_numeral? {s : String} {c : Cell} (h : numeral? s = some c) : c.Proper := by
  simp only [numeral?] at h
  split at h
  · obtain ⟨⟨n, x⟩, -, rfl⟩ := Option.map_eq_some_iff.mp h
    exact proper_ite trivial (proper_real (Binary64.ofDecimal_ne_nan _ _ _))
  · cases h

end Cell

namespace Storage

variable {st : Storage} {v : Value} {c : Cell}

theorem proper_takeIn (h : takeIn v = .ok c) : c.Proper := by
  cases v with
  | float x =>
    cases h
    exact Cell.proper_ofBinary x
  | int n =>
    simp only [takeIn] at h
    split at h <;> cases h
    trivial
  | _ => cases h <;> trivial

theorem proper_beside (h : c.Proper) : (st.beside c).Proper := by
  unfold beside
  split
  · trivial
  · trivial
  · rename_i t _
    cases hn : Cell.numeral? t with
    | none => trivial
    | some d => exact Cell.proper_numeral? hn
  · rename_i t _
    cases hn : Cell.numeral? t with
    | none => trivial
    | some d => exact Cell.proper_numeral? hn
  · exact h

theorem proper_kept (h : c.Proper) : (st.kept c).Proper := by
  have hbeside := @proper_beside st c h
  unfold kept
  split
  · rename_i x _ hx
    rw [hx] at hbeside
    split
    · exact Cell.proper_ite trivial hbeside
    · exact hbeside
  · exact Cell.proper_real (Binary64.ofRatio_ne_nan _ _ _)
  · rename_i x _ hx
    rw [hx] at hbeside
    exact Cell.proper_ite (Cell.proper_real fun _ => Binary64.noConfusion) hbeside
  · exact hbeside

/-- Is what the column shows the cell itself? -/
def isPlain : Storage → Bool
  | .boolean | .date | .moment | .document => false
  | _ => true

/-- The text of a day and that of a moment are no numerals, so columns of days and moments compare them as texts. -/
theorem beside_iso (d : Date) : Storage.date.beside (.text d.iso) = .text d.iso := by
  simp only [beside, affinity, d.numeral?_iso, Option.getD_none]

theorem beside_momentText (t : Moment) : Storage.moment.beside (.text (momentText t)) = .text (momentText t) := by
  simp only [beside, affinity, numeral?_momentText, Option.getD_none]

end Storage

namespace Content

/-- What a column holds for some value, or without one. -/
def Stored (st : Storage) (c : Content) : Prop := c = {} ∨ ∃ v, ofValue st v = .ok c

/-- The contents of columns that hold no documents. -/
inductive Kept : Storage → Content → Prop
  | nothing (st : Storage) : Kept st {}
  | cell {st : Storage} {c : Cell} : st.isPlain = true → c.Proper → Kept st (ofCell c)
  | truth (b : Bool) : Kept .boolean ⟨.integer (if b then 1 else 0), .bool b⟩
  | day (d : Date) : Kept .date ⟨.text d.iso, .date d⟩
  | moment (t : Moment) : t.offset = none → Kept .moment ⟨.text (Storage.momentText t), .moment t⟩

variable {st : Storage} {c d : Content} {v : Value}

theorem ofValue_eq_ok (h : ofValue st v = .ok c) : ∃ handed taken, st.handOver v = .ok handed ∧
    Storage.takeIn handed = .ok taken ∧ c.cell = st.kept taken ∧
    (st.isPlain = true → c.shown = (ofCell (st.kept taken)).shown) := by
  simp only [ofValue, bind_eq_ok_iff, pure_eq_ok_iff] at h
  obtain ⟨handed, hhanded, taken, htaken, rfl⟩ := h
  refine ⟨handed, taken, hhanded, htaken, rfl, fun hplain => ?_⟩
  cases st with
  | boolean => cases hplain
  | date => cases hplain
  | moment => cases hplain
  | document => cases hplain
  | _ => rfl

theorem kept_of_plain (hplain : st.isPlain = true) (h : ofValue st v = .ok c) : Kept st c := by
  obtain ⟨handed, taken, -, htaken, hcell, hshown⟩ := ofValue_eq_ok h
  have hc : c = ofCell (st.kept taken) := by
    obtain ⟨cell, shown⟩ := c
    simp only at hcell hshown
    rw [hcell, hshown hplain]
    rfl
  rw [hc]
  exact .cell hplain (Storage.proper_kept (Storage.proper_takeIn htaken))

theorem kept_boolean (h : ofValue .boolean v = .ok c) : Kept .boolean c := by
  by_cases hnull : v = .null
  · subst hnull
    cases h
    exact .nothing _
  have hhanded : Storage.boolean.handOver v =
      if v == .int 0 then .ok (.int 0) else if v == .int 1 then .ok (.int 1) else .error .unfitting := by
    cases v with
    | null => exact absurd rfl hnull
    | _ => rfl
  simp only [ofValue, hhanded] at h
  split at h
  · cases h
    exact .truth false
  · split at h
    · cases h
      exact .truth true
    · cases h

theorem kept_date (h : ofValue .date v = .ok c) : Kept .date c := by
  have hkept (d : Date) : Storage.date.kept (.text d.iso) = .text d.iso := by
    simp only [Storage.kept, Storage.affinity, Storage.beside_iso]
  cases v with
  | null =>
    cases h
    exact .nothing _
  | date d =>
    simp only [ofValue, Storage.handOver, Storage.takeIn, bind, Except.bind, hkept] at h
    cases h
    exact .day d
  | moment t =>
    simp only [ofValue, Storage.handOver, Storage.takeIn, bind, Except.bind, hkept] at h
    cases h
    exact .day t.date
  | _ => cases h

theorem kept_moment (h : ofValue .moment v = .ok c) : Kept .moment c := by
  have hkept (t : Moment) : Storage.moment.kept (.text (Storage.momentText t)) = .text (Storage.momentText t) := by
    simp only [Storage.kept, Storage.affinity, Storage.beside_momentText]
  cases v with
  | null =>
    cases h
    exact .nothing _
  | date d =>
    simp only [ofValue, Storage.handOver, Storage.takeIn, bind, Except.bind, hkept] at h
    cases h
    exact .moment (.midnight d) rfl
  | moment t =>
    simp only [ofValue, Storage.handOver, Storage.takeIn, bind, Except.bind, hkept] at h
    cases h
    exact .moment { t with offset := none } rfl
  | _ => cases h

theorem Stored.kept (hdocument : st ≠ .document) (h : c.Stored st) : Kept st c := by
  rcases h with rfl | ⟨v, h⟩
  · exact .nothing st
  cases st with
  | boolean => exact kept_boolean h
  | date => exact kept_date h
  | moment => exact kept_moment h
  | document => exact absurd rfl hdocument
  | _ => exact kept_of_plain rfl h

theorem Kept.isNull_iff (h : Kept st c) : c.cell.isNull = true ↔ c.shown = .null := by
  rw [Cell.isNull, decide_eq_true_iff]
  cases h with
  | nothing => exact ⟨fun _ => rfl, fun _ => rfl⟩
  | cell hplain hproper =>
    rw [← Value.beq_null_iff]
    exact (Cell.shown_beq_iff (d := .null) hproper trivial).symm
  | truth b => exact ⟨fun h => Rank.noConfusion h, fun h => Value.noConfusion h⟩
  | day d => exact ⟨fun h => Rank.noConfusion h, fun h => Value.noConfusion h⟩
  | moment t ht => exact ⟨fun h => Rank.noConfusion h, fun h => Value.noConfusion h⟩

theorem Kept.isNull_eq_false_iff (h : Kept st c) : c.cell.isNull = false ↔ c.shown ≠ .null := by
  rw [← Bool.not_eq_true, h.isNull_iff]

theorem Kept.isKey (h : Kept st c) : c.shown.isKey = true := by
  cases h with
  | cell hplain hproper =>
    rename_i cell
    cases cell <;> rfl
  | _ => rfl

end Content

theorem Cell.equal_eq_yes_iff {c d : Cell} :
    c.equal d = .yes ↔ c.isNull = false ∧ d.isNull = false ∧ c.rank = d.rank := by
  unfold equal compareWith same
  cases hc : c.isNull <;> cases hd : d.isNull
  · simp [Truth.ofBool]
  all_goals simp

namespace Content

variable {st : Storage} {c d : Content}

/-- Two contents of a column are equal as cells exactly where they show equal values. -/
theorem Kept.equal_iff (hc : Kept st c) (hd : Kept st d) (hcn : c.cell.isNull = false) (hdn : d.cell.isNull = false) :
    c.cell.equal d.cell = .yes ↔ (c.shown == d.shown) = true := by
  rw [Cell.equal_eq_yes_iff]
  simp only [hcn, hdn, true_and]
  cases hc with
  | nothing => cases hcn
  | cell hplain hproper =>
    cases hd with
    | nothing => cases hdn
    | cell _ hproper' => exact (Cell.shown_beq_iff hproper hproper').symm
    | truth b => cases hplain
    | day d => cases hplain
    | moment t ht => cases hplain
  | truth a =>
    cases hd with
    | nothing => cases hdn
    | cell hplain => cases hplain
    | truth b =>
      rw [Value.beq_iff_place rfl rfl (Value.proper_ofInt _) (Value.proper_ofInt _), Size.place_ofInt, Size.place_ofInt]
      rfl
  | day a =>
    cases hd with
    | nothing => cases hdn
    | cell hplain => cases hplain
    | day b =>
      rw [Value.date_beq_iff]
      simp only [Cell.rank, Rank.text.injEq]
      exact ⟨Date.iso_inj, congrArg Date.iso⟩
  | moment s hs =>
    cases hd with
    | nothing => cases hdn
    | cell hplain => cases hplain
    | moment t ht =>
      rw [Value.moment_beq_iff, Moment.same_iff hs ht]
      simp only [Cell.rank, Rank.text.injEq]
      refine ⟨Storage.momentText_inj, ?_⟩
      rintro ⟨hdate, hclock⟩
      rw [Storage.momentText, Storage.momentText, hdate, hclock]

end Content

/-! ## What is asked for -/

namespace Comparison

variable {st : Storage} {w given : Value} {kind : OperatorKind} {o : Cell}

theorem operands_ofValue (hkind : kind = .eq) (hgiven : (st.comparing w).handOver w = .ok given)
    (ho : Storage.takeIn given = .ok o) : (ofValue kind st w).operands st = .ok [st.beside o] := by
  subst hkind
  simp only [operands, ofValue, handedOver, isDrawn, List.mapM_cons, List.mapM_nil, hgiven, ho, bind, Except.bind, pure,
    Except.pure, if_true, List.map_cons, List.map_nil]

/-- A value of the column's type is looked for as the content that shows it. A moment is looked for without its
offset. -/
theorem exists_operand (hw : st.columnType.Holds w) (hrange : w.InRange) (hoffset : ∀ t, w = .moment t → t.offset = none) :
    ∃ o, (ofValue .eq st w).operands st = .ok [o] ∧ Content.Kept st ⟨o, w⟩ ∧ o.isNull = false := by
  suffices hkept : ∃ o, (ofValue .eq st w).operands st = .ok [o] ∧ Content.Kept st ⟨o, w⟩ by
    obtain ⟨o, hoperands, hkept⟩ := hkept
    exact ⟨o, hoperands, hkept, Bool.eq_false_iff.mpr fun hnull => hw.ne_null (hkept.isNull_iff.mp hnull)⟩
  cases st with
  | integer =>
    cases hw with
    | integer n =>
      exact ⟨_, operands_ofValue rfl rfl (Storage.takeIn_int hrange), .cell (c := .integer n) rfl trivial⟩
  | real =>
    cases hw with
    | whole n => exact ⟨_, operands_ofValue rfl rfl (Storage.takeIn_int hrange), .cell (c := .integer n) rfl trivial⟩
    | number x hx =>
      have htaken : Storage.takeIn (.float x) = .ok (.real x) := by
        rw [Storage.takeIn, Binary64.ofBinary_of_isFinite hx]
      refine ⟨_, operands_ofValue rfl rfl htaken, .cell (c := .real x) rfl (Cell.proper_real ?_)⟩
      rintro o rfl
      cases hx
  | boolean =>
    cases hw with
    | truth b =>
      have htaken : Storage.takeIn (.int (if b then 1 else 0)) = .ok (.integer (if b then 1 else 0)) := by
        cases b <;> rfl
      exact ⟨_, operands_ofValue rfl (Storage.handOver_bool b) htaken, .truth b⟩
  | date =>
    cases hw with
    | day d =>
      have hgiven : (Storage.date.comparing (.date d)).handOver (.date d) = .ok (.text d.iso) := rfl
      have htaken (s : String) : Storage.takeIn (.text s) = .ok (.text s) := rfl
      refine ⟨.text d.iso, ?_, .day d⟩
      rw [operands_ofValue rfl hgiven (htaken _), Storage.beside_iso]
  | moment =>
    cases hw with
    | moment t =>
      have hgiven : (Storage.moment.comparing (.moment t)).handOver (.moment t) = .ok (.text (Storage.momentText t)) := rfl
      have htaken (s : String) : Storage.takeIn (.text s) = .ok (.text s) := rfl
      refine ⟨.text (Storage.momentText t), ?_, .moment t (hoffset t rfl)⟩
      rw [operands_ofValue rfl hgiven (htaken _), Storage.beside_momentText]
  | text =>
    cases hw with
    | text s => exact ⟨_, operands_ofValue rfl rfl rfl, .cell (c := .text s) rfl trivial⟩
  | wrapped =>
    cases hw with
    | text s => exact ⟨_, operands_ofValue rfl rfl rfl, .cell (c := .text s) rfl trivial⟩
  | choice words =>
    cases hw with
    | text s => exact ⟨_, operands_ofValue rfl rfl rfl, .cell (c := .text s) rfl trivial⟩
  | document => cases hw
  | bytes => cases hw
  | computed => cases hw

end Comparison

end Sift
