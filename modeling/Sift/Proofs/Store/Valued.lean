import Sift.Proofs.Projection.Rows
import Sift.Proofs.Store.Joins

/-!
# Clauses that ask for a value

A clause that asks for a value is true of a record where some record that its labels lead to holds that value. Where
they lead to one record at most, this is the record that shows it.
-/

namespace Sift

namespace Store

variable {s : Store} {entity label token : String} {r : Record} {chain : List String} {ref : FieldRef} {st : Storage}
  {w : Value}

theorem reaches_cons_iff {test : Record → Truth} : s.reaches test entity r (label :: chain) = .yes ↔
    ∃ o ∈ s.related entity label r, s.reaches test (s.target entity label) o chain = .yes := by
  simp only [reaches, Truth.ofBool, ite_eq_left_iff, List.any_eq_true, decide_eq_true_eq, reduceCtorEq, imp_false,
    not_not]

theorem reaches_iff_behind {test : Record → Truth} (hone : s.LeadsToOne entity chain) (hr : r ∈ s.records entity) :
    s.reaches test entity r chain = .yes ↔ ∃ o, s.behind entity r chain = some o ∧ test o = .yes := by
  induction chain generalizing entity r with
  | nil => simp only [reaches, behind, Option.some.injEq, exists_eq_left']
  | cons label chain ih =>
    obtain ⟨hone, hrest⟩ := hone
    have hlength := hone r hr
    rw [reaches_cons_iff, behind]
    rcases hrelated : s.related entity label r with _ | ⟨o, _ | ⟨other, rest⟩⟩
    · simp
    · have ho : o ∈ s.related entity label r := by
        rw [hrelated]
        exact List.mem_singleton_self o
      simp only [List.mem_singleton, exists_eq_left, List.head?_cons, Option.bind_some]
      exact ih hrest (mem_records_of_related ho)
    · rw [hrelated, List.length_cons, List.length_cons] at hlength
      omega

theorem isNull_eq_false (hw : w ≠ .null) : isNull w = false := by
  cases w with
  | null => exact absurd rfl hw
  | _ => rfl

theorem comparison_value (hst : s.storageOf entity ref = st) (hw : w ≠ .null) :
    s.comparison entity ⟨ref, .eq, w, token⟩ = .ok (.ofValue .eq st w) := by
  rw [comparison, hst]
  exact Matcher.comparison_of_ne_null hw (.inl rfl)

theorem clauseTruth_value (hst : s.storageOf entity ref = st) (hw : w ≠ .null) {o : Cell}
    (ho : (Comparison.ofValue .eq st w).operands st = .ok [o]) : s.clauseTruth entity r ⟨ref, .eq, w, token⟩ =
      s.reaches (fun other => (other.cell ref.column).equal o) entity r ref.chain := by
  have hcolumn : s.columnTruth entity ⟨ref, .eq, w, token⟩ r =
      s.reaches (fun other => (other.cell ref.column).equal o) entity r ref.chain := by
    simp only [columnTruth, comparison_value hst hw, comparisonTruth, hst, ho]
    rfl
  simp only [clauseTruth, isNull_eq_false hw, OperatorKind.isNegated, Bool.false_eq_true, if_false, hcolumn]
  -- the foreign key that shows a field is asked for null only
  split <;> rfl

/-- A content is found by a value exactly where it shows the value. -/
theorem equal_operand_iff {c : Content} {o : Cell} (hc : c.Kept st) (ho : Content.Kept st ⟨o, w⟩)
    (hcell : o.isNull = false) (hw : w ≠ .null) : c.cell.equal o = .yes ↔ (c.shown == w) = true := by
  cases hnull : c.cell.isNull with
  | false => exact hc.equal_iff ho hnull hcell
  | true =>
    rw [hc.isNull_iff.mp hnull, Value.null_beq_iff, Cell.equal_eq_yes_iff, hnull]
    exact ⟨fun h => absurd h.1 Bool.noConfusion, fun h => absurd h hw⟩

theorem clauseTruth_iff_behind (hstored : s.Stored) {m : Model}
    (hm : Model.find? s.models (s.targetOf entity ref.chain) = some m) (hst : m.columns.get? ref.column = some st)
    (hone : s.LeadsToOne entity ref.chain) (hr : r ∈ s.records entity) (hw : st.columnType.Holds w) (hrange : w.InRange)
    (hoffset : ∀ t, w = .moment t → t.offset = none) : s.clauseTruth entity r ⟨ref, .eq, w, token⟩ = .yes ↔
      ∃ o, s.behind entity r ref.chain = some o ∧ ((o.content ref.column).shown == w) = true := by
  obtain ⟨operand, hoperand, hkept, hcell⟩ := Comparison.exists_operand hw hrange hoffset
  have hstorage : s.storageOf entity ref = st := by
    rw [storageOf, hm, Option.bind_some, hst, Option.getD_some]
  have hdocument : st ≠ .document := by
    rintro rfl
    cases hw
  rw [clauseTruth_value hstorage hw.ne_null hoperand, reaches_iff_behind hone hr]
  refine exists_congr fun o => and_congr_right fun ho => ?_
  have hcontent := (hstored.content hm (mem_records_of_behind hr ho) hst).kept hdocument
  exact equal_operand_iff hcontent hkept hcell hw.ne_null

end Store

end Sift
