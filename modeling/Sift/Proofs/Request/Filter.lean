import Sift.Proofs.Filter.Fold
import Sift.Proofs.Request.Document
import Sift.Proofs.Request.Names

/-!
# Filters are compiled or rejected

Under operators that make patterns of texts only, a filter that came as a document is compiled or rejected, however its
objects and arrays are nested. Whatever an operand is, the operator either prepares it for the column or refuses it.
-/

namespace Sift

/-! ## Operators -/

namespace Operator

/-- An operator that looks for texts asks for columns of texts. -/
def Sound (op : Operator) : Prop := op.place.isSome = true → op.textOnly.truthy = true

variable {op : Operator} {field : String} {type : ColumnType} {most : Nat}

theorem coerce_text {v w : Value} (h : ColumnType.text.coerce v = .ok w) : ∃ s, w = .text s := by
  cases v with
  | text s => exact ⟨s, (Except.ok.inj h).symm⟩
  | int n => exact ⟨_, (Except.ok.inj h).symm⟩
  | float x => exact ⟨_, (Except.ok.inj h).symm⟩
  | decimal d => exact ⟨_, (Except.ok.inj h).symm⟩
  | _ => cases h

theorem judges_pattern {v : Value} (h : op.place.isSome = true → ∃ s, v = .text s) :
    Judges most (op.pattern field v) fun _ => True := by
  unfold pattern
  split
  · trivial
  · trivial
  · exact .refuse rfl rfl
  · exact .refuse rfl rfl
  · rename_i hplace hne _ _
    obtain ⟨s, rfl⟩ := h (by rw [hplace]; rfl)
    exact absurd rfl (hne s)

theorem Sound.judges_prepare (h : op.Sound) {v : Value} (hv : v.depth ≤ most) :
    Judges most (op.prepare field type v) fun _ => True := by
  have hrefused (reason : Mismatch) : Fault.isRejection (.query (.typeMismatch field op.token v reason)) = true ∧
      Fault.shownDepth (.query (.typeMismatch field op.token v reason)) ≤ most := ⟨rfl, hv⟩
  unfold prepare
  simp only
  split
  · exact hrefused _
  rename_i htext
  split
  · exact hrefused _
  split
  · split
    · trivial
    · exact hrefused _
  · split
    · exact Judges.map (P := fun _ => True) (.mapError (fun _ _ => trivial) hrefused) fun _ _ => trivial
    · split
      any_goals exact hrefused _
      refine Judges.bind (P := fun w => ∃ v, type.coerce v = .ok w) (.mapError (fun _ h => ⟨_, h⟩) hrefused) ?_
      rintro w ⟨v, hw⟩
      refine judges_pattern fun hplace => ?_
      have htype : type = .text := by
        by_contra hne
        exact htext (by simp only [h hplace, hne, ne_eq, not_false_eq_true, decide_true, Bool.and_self])
      subst htype
      exact coerce_text hw
  · trivial

end Operator

namespace Registry

/-- Operators that are sound, with those that bare values need. -/
structure Sound (r : Registry) : Prop where
  operators : ∀ op ∈ r.values, op.Sound
  needed : ∀ token ∈ ["in", "eq", "ieq"], r.contains token = true

variable {r : Registry}

theorem Sound.get (h : r.Sound) {token : String} (ht : r.contains token = true) :
    ∃ op, r.get token = .ok op ∧ op.Sound := by
  obtain ⟨op, hop⟩ := Option.isSome_iff_exists.mp ht
  exact ⟨op, by rw [Registry.get, hop]; rfl, h.operators op (Table.mem_values_of_get? hop)⟩

theorem Sound.defaultFor (h : r.Sound) (type : ColumnType) (v : Value) :
    ∃ op, r.defaultFor type v = .ok op ∧ op.Sound := by
  have hneeded {token : String} (ht : token ∈ ["in", "eq", "ieq"]) := h.get (h.needed token ht)
  unfold Registry.defaultFor
  split
  · exact hneeded (by decide)
  · exact hneeded (by decide)
  · exact hneeded (by decide)
  · exact hneeded (by decide)
  · split
    · exact hneeded (by decide)
    · exact hneeded (by decide)

theorem contains_extended {ops : List Operator} {token : String} (h : r.contains token = true) :
    (r.extended ops).contains token = true := by
  induction ops generalizing r with
  | nil => exact h
  | cons op ops ih =>
    refine ih (r := Table.insert op.token op r) ?_
    unfold Table.contains at h ⊢
    rw [Table.get?_insert]
    split
    · rfl
    · exact h

/-- The usual operators are sound, and stay so with others that are. -/
theorem sound_extended_default {ops : List Operator} (h : ∀ op ∈ ops, op.Sound) : (default.extended ops).Sound where
  operators := by
    have hdefault : ∀ p ∈ (default : Registry), p.2.Sound := by
      unfold Operator.Sound
      decide
    intro op hop
    obtain ⟨p, hp, rfl⟩ := List.mem_map.mp hop
    refine Table.forall_mem_insertMany (P := fun _ op => op.Sound) (fun _ _ _ _ h => h) hdefault (fun p hp => ?_) p hp
    obtain ⟨op, hop, rfl⟩ := List.mem_map.mp hp
    exact h op hop
  needed := fun token ht => contains_extended (by revert token; decide)

end Registry

/-! ## Filters -/

namespace FilterRules

/-- What filters rely on: the names in them, and the operators. -/
structure Sound (r : FilterRules) : Prop where
  names : r.toSection.Sound
  registry : r.registry.Sound

variable {r : FilterRules} {checked : Bool} {most : Nat}

theorem judges_clause {op : Operator} (h : op.Sound) (name : String) (ref : FieldRef) {operand : Value}
    (hoperand : operand.depth ≤ most) : Judges most (clause name ref op operand) fun _ => True :=
  (h.judges_prepare hoperand).bind fun _ _ => trivial

theorem Sound.judges_operatorClauses (h : r.Sound) (name : String) (ref : FieldRef) {entries : List (Value × Value)}
    (hentries : ∀ p ∈ entries, p.2.depth ≤ most) : Judges most (r.operatorClauses name ref entries) fun _ => True := by
  unfold operatorClauses
  split
  · split
    · exact .refuse rfl rfl
    · rename_i hknown
      refine Judges.map (P := fun _ => True) (.mono (.mapM (Q := fun _ => True) fun entry hentry => ?_) fun _ _ => trivial)
        fun _ _ => trivial
      have hoperand := hentries entry hentry
      have hentry := List.find?_eq_none.mp hknown entry hentry
      simp only [known, Bool.not_eq_true', Bool.not_eq_false] at hentry
      cases htoken : entry.1.text? with
      | none => simp only [htoken, Option.map_none, Option.getD_none, Bool.false_eq_true] at hentry
      | some token =>
        simp only [htoken, Option.map_some, Option.getD_some] at hentry
        obtain ⟨op, hop, hsound⟩ := h.registry.get hentry
        simp only [htoken, Option.getD_some]
        exact Judges.bind_of_eq hop (judges_clause hsound name ref hoperand)
  · trivial

theorem Sound.judges_fieldClauses (h : r.Sound) (name : String) (ref : FieldRef) {v : Value} (hv : v.depth ≤ most) :
    Judges most (r.fieldClauses name ref v) fun _ => True := by
  unfold fieldClauses
  split
  · exact h.judges_operatorClauses name ref fun p hp => (Value.entryDepth_le_iff.mp (Nat.le_of_succ_le hv) p hp).2
  · obtain ⟨op, hop, hsound⟩ := h.registry.defaultFor ref.type _
    exact Judges.bind_of_eq hop ((judges_clause hsound name ref hv).bind fun _ _ => trivial)

theorem Sound.judges_compileField (h : r.Sound) (name : String) {v : Value} (hv : v.depth ≤ most) :
    Judges most (r.compileField checked (.text name) v) fun _ => True :=
  (h.names.judges_field checked name).bind fun ref _ =>
    (h.judges_fieldClauses _ ref hv).bind fun _ _ => trivial

theorem Sound.judges_compileEntry (h : r.Sound) {name : String} {v : Value} (hv : v.depth ≤ most)
    (operand : ∀ connective, Judges most (r.compileOperand checked connective v) fun _ => True) :
    Judges most (r.compileEntry checked (.text name) v) fun _ => True := by
  unfold compileEntry
  split
  · exact (operand "and").map fun _ _ => trivial
  · exact (operand "or").map fun _ _ => trivial
  · exact h.judges_compileField name hv

mutual
theorem Sound.judges_compile (h : r.Sound) : (v : Value) → v.IsNested most →
    Judges most (r.compile checked v) fun _ => True
  | .null => fun _ => by simp only [compile]; trivial
  | .object entries => fun hv => by
    simp only [compile]
    exact (Sound.judges_compileEntries h entries hv.members).map fun _ _ => trivial
  | .bool _ | .int _ | .float _ | .decimal _ | .date _ | .moment _ | .text _ | .list _ | .tuple _ | .mapping ..
  | .alien _ => fun _ => by
    simp only [compile]
    exact .refuse rfl rfl

theorem Sound.judges_compileEntries (h : r.Sound) : (entries : List (Value × Value)) →
    (∀ p ∈ entries, p.1.text?.isSome = true ∧ p.2.IsNested most) →
      Judges most (r.compileEntries checked entries) fun _ => True
  | [] => fun _ => by simp only [compileEntries]; trivial
  | (key, v) :: rest => fun hentries => by
    obtain ⟨⟨hkey, hv⟩, hrest⟩ := List.forall_mem_cons.mp hentries
    obtain ⟨name, rfl⟩ : ∃ name, key = .text name := by
      cases key with
      | text name => exact ⟨name, rfl⟩
      | _ => cases hkey
    rw [compileEntries_cons]
    exact (h.judges_compileEntry hv.depth_le fun connective => Sound.judges_compileOperand h connective v hv).bind
      fun _ _ => (Sound.judges_compileEntries h rest hrest).bind fun _ _ => trivial

theorem Sound.judges_compileOperand (h : r.Sound) (connective : String) : (v : Value) → v.IsNested most →
    Judges most (r.compileOperand checked connective v) fun _ => True
  | .list items => fun hv => by
    simp only [compileOperand]
    exact Sound.judges_compileItems h items hv.items
  | .tuple _ | .mapping .. => fun hv => by
    cases hv.isDocument
  | .null | .bool _ | .int _ | .float _ | .text _ | .object _ | .decimal _ | .date _ | .moment _ | .alien _ => fun _ => by
    simp only [compileOperand]
    exact .refuse rfl rfl

theorem Sound.judges_compileItems (h : r.Sound) : (items : List Value) → (∀ v ∈ items, v.IsNested most) →
    Judges most (r.compileItems checked items) fun _ => True
  | [] => fun _ => by simp only [compileItems]; trivial
  | v :: vs => fun hitems => by
    obtain ⟨hv, hvs⟩ := List.forall_mem_cons.mp hitems
    rw [compileItems_cons]
    exact (Sound.judges_compile h v hv).bind fun _ _ =>
      (Sound.judges_compileItems h vs hvs).bind fun _ _ => trivial
end

end FilterRules

end Sift
