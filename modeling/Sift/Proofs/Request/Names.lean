import Sift.Proofs.Rejection
import Sift.Proofs.Schema.WellFormed
import Sift.Request.Scope

/-!
# Names are found or rejected

Among the relations of a well-formed schema, with exposed columns that exist, a name in a request either finds a field
or is rejected: no step of the search asks the schema for something that it does not have.
-/

namespace Sift

namespace Scope

/-- The name of a column, or none. -/
def IsName (v : Value) : Prop := v = .null ∨ ∃ column, v = .text column

/-- What names in requests rely on. -/
structure Sound (s : Scope) : Prop where
  catalog : s.catalog.WellFormed s.entity
  included : s.includes.Within s.catalog s.entity
  mapped : ∀ entity m, s.mappings.get? (.text entity) = some m →
    ∃ column, m.exposed = .text column ∧ s.catalog.Has entity column
  idColumn : IsName s.idColumn

variable {s : Scope} {entity column place written : String} {most : Nat}

theorem IsName.either {v w : Value} (hv : IsName v) (hw : IsName w) : IsName (v.either w) := by
  unfold Value.either
  split
  · exact hv
  · exact hw

theorem IsName.either_text {v : Value} (hv : IsName v) (column : String) : ∃ c, v.either (.text column) = .text c := by
  rcases hv with rfl | ⟨c, rfl⟩
  · exact ⟨column, rfl⟩
  · rcases IsName.either (.inr ⟨c, rfl⟩) (.inr ⟨column, rfl⟩) with hnull | h
    · unfold Value.either at hnull
      split at hnull <;> cases hnull
    · exact h

theorem Sound.isName_exposedId (h : s.Sound) : IsName s.exposedId := by
  refine h.idColumn.either ?_
  cases hm : s.mappings.get? (.text s.entity) with
  | none => exact .inl rfl
  | some m =>
    obtain ⟨c, hc, -⟩ := h.mapped _ _ hm
    exact .inr ⟨c, hc⟩

/-! ## Columns -/

theorem columnRef_of_has (h : s.catalog.Has entity column) :
    ∃ ref, s.columnRef (.text entity) (.text column) = .ok ref := by
  obtain ⟨type, htype⟩ := h.columnType
  exact ⟨_, by simp only [columnRef, htype, bind, Except.bind]; rfl⟩

theorem judges_columnRef (h : s.catalog.Has entity column) :
    Judges most (s.columnRef (.text entity) (.text column)) fun _ => True := by
  obtain ⟨ref, href⟩ := columnRef_of_has h
  exact .of_eq href trivial

theorem judges_unless {α : Type} {b : Bool} {e : Value} {x : Except Fault α} {P : α → Prop}
    (h : b = true → Judges most x P) : Judges most (do
      unless b do unknown e written place
      x) P := by
  cases b with
  | true => exact h rfl
  | false => exact .refuse rfl rfl

theorem Sound.judges_ownField (h : s.Sound) : Judges most (s.ownField column place written) fun _ => True := by
  obtain ⟨c, hc⟩ : ∃ c, (if column = "id" then s.exposedId.either (.text column) else .text column) = .text c := by
    split
    · exact h.isName_exposedId.either_text column
    · exact ⟨column, rfl⟩
  obtain ⟨b, hb, hhas⟩ := h.catalog.known.hasColumn c
  obtain ⟨keys, hkeys, htargets⟩ := h.catalog.foreignKeys h.catalog.known
  simp only [ownField, hc]
  refine Judges.bind_of_eq hb (judges_unless fun hb => Judges.bind_of_eq hkeys ?_)
  split
  · rename_i r hr
    obtain ⟨target, htarget, -⟩ := htargets _ r hr
    rw [htarget]
    refine Judges.bind_of_eq (mapping?_text s target) ?_
    split
    · rename_i m hm
      obtain ⟨exposed, hexposed, hshown⟩ := h.mapped _ m hm
      rw [hexposed]
      exact (judges_columnRef hshown).bind fun _ _ => trivial
    · exact judges_columnRef (hhas hb)
  · exact judges_columnRef (hhas hb)

/-! ## Columns behind relations -/

theorem judges_walk : (chain : List String) → {bs : List Branch} → {entity : String} → {many : Value} →
    (∀ b ∈ bs, Branch.Within s.catalog b) → s.catalog.Knows entity →
      Judges most (walk place written (.text entity) many bs chain) fun out =>
        ∃ target, out.1 = .text target ∧ s.catalog.Knows target
  | [], bs, entity, many, hbs, hk => ⟨entity, rfl, hk⟩
  | label :: chain, bs, entity, many, hbs, hk => by
    simp only [walk]
    split
    · rename_i b hb
      obtain ⟨hknown, hbelow⟩ := hbs b (List.mem_of_find?_eq_some hb)
      exact judges_walk chain hbelow hknown
    · exact .refuse rfl rfl

theorem Sound.judges_shownBy (h : s.Sound) (label : String) : Judges most (s.shownBy label) fun _ => True := by
  obtain ⟨found, _, hfound, -⟩ := h.catalog.known.relation? label
  refine Judges.bind_of_eq hfound ?_
  cases found <;> trivial

theorem Sound.judges_relatedField (h : s.Sound) {chain : List String} :
    Judges most (s.relatedField chain column place written) fun _ => True := by
  obtain ⟨hentity, hbranches⟩ := h.included
  refine (judges_walk chain hbranches h.catalog.known).bind ?_
  rintro ⟨entity, many⟩ ⟨target, rfl, hknown⟩
  obtain ⟨b, hb, hhas⟩ := hknown.hasColumn column
  refine Judges.bind_of_eq hb (judges_unless fun hb => Judges.bind_of_eq (mapping?_text s target) ?_)
  have hplain : Judges most (s.columnRef (.text target) (.text column)) fun _ => True := judges_columnRef (hhas hb)
  split
  · rename_i m hm
    obtain ⟨exposed, hexposed, hshown⟩ := h.mapped _ m hm
    split
    · have hmapped : Judges most (s.columnRef (.text target) (.text exposed)) fun _ => True := judges_columnRef hshown
      rw [hexposed]
      simp only
      split
      · exact (h.judges_shownBy _).bind fun _ _ => hmapped.bind fun _ _ => trivial
      · exact Judges.bind_of_eq rfl (hmapped.bind fun _ _ => trivial)
    · exact hplain.bind fun _ _ => trivial
  · exact hplain.bind fun _ _ => trivial

/-! ## Names -/

theorem Sound.judges_resolve (h : s.Sound) (name : String) :
    Judges most (s.resolve (.text name) place written) fun _ => True := by
  have hpath : ∃ path, s.path (.text name) = .ok path := by
    simp only [path, Value.requireKey_text, bind, Except.bind]
    split
    · exact ⟨_, rfl⟩
    · exact ⟨_, rfl⟩
    · rename_i hne
      exact absurd rfl (hne name)
  obtain ⟨path, hpath⟩ := hpath
  refine Judges.bind_of_eq hpath ?_
  simp only
  split
  · exact .refuse rfl rfl
  · split
    · exact h.judges_ownField
    · exact h.judges_relatedField

end Scope

namespace Section

/-- What the names in a section rely on: beside the scope, public names stand for texts. -/
structure Sound (s : Section) : Prop where
  scope : s.scope.Sound
  aliases : ∀ v ∈ s.policy.aliases.values, ∃ name, v = .text name

variable {s : Section} {most : Nat}

theorem Sound.toInternal (h : s.Sound) (name : String) : ∃ internal, s.policy.toInternal (.text name) = .text internal := by
  unfold Policy.toInternal
  cases hv : s.policy.aliases.get? (.text name) with
  | none => exact ⟨name, rfl⟩
  | some v => exact h.aliases v (Table.mem_values_of_get? hv)

theorem Sound.judges_field (h : s.Sound) (checked : Bool) (name : String) :
    Judges most (s.field checked (.text name)) fun _ => True := by
  obtain ⟨internal, hinternal⟩ := h.toInternal name
  have hresolve : Judges most (s.resolve (.text name)) fun _ => True := by
    rw [resolve, hinternal]
    exact h.scope.judges_resolve internal
  refine hresolve.bind fun ref _ => ?_
  cases checked with
  | false => trivial
  | true =>
    refine Judges.bind (P := fun _ => True) ?_ fun _ _ => trivial
    unfold Policy.check
    split
    · trivial
    · exact .refuse rfl rfl

end Section

end Sift
