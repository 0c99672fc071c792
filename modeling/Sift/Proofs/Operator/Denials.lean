import Sift.Operator.Preparation
import Sift.Proofs.Outcome

/-!
# Operators and their denials

Eight of the usual operators deny another one. An operator and its denial accept the same values and make the same of
them: they differ in their kind, and in the token that messages tell.
-/

namespace Sift

/-- One kind denies another one. -/
inductive OperatorKind.Denies : OperatorKind → OperatorKind → Prop
  | equality : Denies .neq .eq
  | membership : Denies .notOneOf .oneOf
  | pattern : Denies .notLike .like
  | loosePattern : Denies .notIlike .ilike

variable {kind kind' : OperatorKind}

theorem OperatorKind.Denies.isNegated (h : kind'.Denies kind) : kind'.isNegated = true ∧ kind.isNegated = false := by
  cases h <;> exact ⟨rfl, rfl⟩

theorem OperatorKind.Denies.eq_neq (h : kind'.Denies .eq) : kind' = .neq := by
  cases h
  rfl

namespace Operator

/-- One operator denies another one, and differs from it in nothing but its kind and its token. -/
structure Denies (op' op : Operator) : Prop where
  kind : op'.kind.Denies op.kind
  alike : op' = { op with token := op'.token, kind := op'.kind }

variable {op op' : Operator} {type : ColumnType} {name : String} {v w : Value}

theorem pattern_renamed (token : String) (kind : OperatorKind) (h : op.pattern name v = .ok w) :
    { op with token, kind }.pattern name v = .ok w := by
  obtain ⟨_, _, place, _, _, _, _, _⟩ := op
  cases place with
  | none => exact h
  | some place =>
    cases v with
    | text s => exact h
    | _ => cases h

/-- Neither the kind nor the token of an operator changes what it makes of a value. -/
theorem prepare_renamed (token : String) (kind : OperatorKind) (h : op.prepare name type v = .ok w) :
    { op with token, kind }.prepare name type v = .ok w := by
  unfold prepare at h ⊢
  simp only at h ⊢
  -- the two checks of the column's type read neither the kind nor the token
  split at h
  · cases h
  rw [if_neg ‹_›]
  split at h
  · cases h
  rw [if_neg ‹_›]
  cases hliteral : op.literal with
  | null =>
    simp only [hliteral] at h ⊢
    split at h
    · split at h
      · rw [if_pos ‹_›]
        exact h
      · cases h
    · split at h
      · rw [if_pos ‹_›]
        obtain ⟨ws, hws, rfl⟩ := map_eq_ok_iff.mp h
        -- the token stands in the messages of failures only
        exact map_eq_ok_iff.mpr ⟨ws, mapError_eq_ok_iff.mpr (mapError_eq_ok_iff.mp hws), rfl⟩
      · rw [if_neg ‹_›]
        split at h
        case h_5 =>
          obtain ⟨u, hu, h⟩ := bind_eq_ok_iff.mp h
          simp only [mapError_eq_ok_iff.mpr (mapError_eq_ok_iff.mp hu)]
          exact pattern_renamed token kind h
        all_goals cases h
    · rename_i hnull _
      exact absurd rfl hnull
  | _ =>
    simp only [hliteral] at h ⊢
    exact h

theorem Denies.prepare (h : op'.Denies op) (hw : op.prepare name type v = .ok w) : op'.prepare name type v = .ok w := by
  rw [h.alike]
  exact prepare_renamed op'.token op'.kind hw

theorem prepare_null (hliteral : op.literal = .null) (h : op.prepare name type .null = .ok w) : w = .null := by
  unfold Operator.prepare at h
  simp only [hliteral] at h
  split at h
  · cases h
  split at h
  · cases h
  split at h
  · exact (Except.ok.inj h).symm
  · cases h

end Operator

/-- The tokens of operators that are denied, each with the one of its denial. -/
def Registry.opposites : List (String × String) :=
  [("eq", "neq"), ("in", "not_in"), ("contains", "not_contains"), ("icontains", "not_icontains"),
    ("starts_with", "not_starts_with"), ("istarts_with", "not_istarts_with"), ("ends_with", "not_ends_with"),
    ("iends_with", "not_iends_with")]

theorem Registry.exists_denial {token token' : String} (h : (token, token') ∈ opposites) :
    ∃ op op', default.get? token = some op ∧ default.get? token' = some op' ∧ op'.Denies op ∧ op.literal = .null := by
  simp only [opposites, List.mem_cons, List.not_mem_nil, or_false, Prod.mk.injEq] at h
  rcases h with ⟨rfl, rfl⟩ | ⟨rfl, rfl⟩ | ⟨rfl, rfl⟩ | ⟨rfl, rfl⟩ | ⟨rfl, rfl⟩ | ⟨rfl, rfl⟩ | ⟨rfl, rfl⟩ | ⟨rfl, rfl⟩
  · exact ⟨_, _, rfl, rfl, ⟨.equality, rfl⟩, rfl⟩
  · exact ⟨_, _, rfl, rfl, ⟨.membership, rfl⟩, rfl⟩
  · exact ⟨_, _, rfl, rfl, ⟨.pattern, rfl⟩, rfl⟩
  · exact ⟨_, _, rfl, rfl, ⟨.loosePattern, rfl⟩, rfl⟩
  · exact ⟨_, _, rfl, rfl, ⟨.pattern, rfl⟩, rfl⟩
  · exact ⟨_, _, rfl, rfl, ⟨.loosePattern, rfl⟩, rfl⟩
  · exact ⟨_, _, rfl, rfl, ⟨.pattern, rfl⟩, rfl⟩
  · exact ⟨_, _, rfl, rfl, ⟨.loosePattern, rfl⟩, rfl⟩

end Sift
