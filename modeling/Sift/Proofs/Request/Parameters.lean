import Sift.Proofs.Filter.Conjunction
import Sift.Request.Ordering
import Sift.Request.Parameters

/-!
# What parameters say

A request says some things one after another: conditions, and values of control parameters. Each of them is a parameter,
and is read back from it where the key of the condition is not taken for something else.
-/

namespace Sift

/-- The control parameters that a body has a place for. -/
inductive Control where
  | ordering
  | page
  | size
  deriving DecidableEq

def Control.name : Control → String
  | .ordering => "order_by"
  | .page => "page"
  | .size => "page_size"

theorem Control.name_mem (c : Control) : c.name ∈ Parameters.controls := by
  cases c <;> decide

/-- One thing that a request says. -/
inductive Statement where
  /-- What a field has to be like; without an operator, what it has to be. -/
  | condition (field : String) (operator : Option String) (v : Value)
  | control (c : Control) (v : Value)

namespace Statement

def key (marker : String) : Statement → String
  | .condition field operator _ => operator.elim field fun op => field ++ ":" ++ op
  | .control c _ => marker ++ c.name

def parameter (marker : String) (s : Statement) : Value × Value :=
  (.text (s.key marker),
    match s with
    | .condition _ _ v | .control _ v => v)

def filter? : Statement → Option Value
  | .condition field none v => some (.object [(.text field, v)])
  | .condition field (some op) v => some (.object [(.text field, .object [(.text op, v)])])
  | .control _ _ => none

/-- What a request says about a control parameter; the last statement counts. -/
def given (c : Control) (ss : List Statement) : Value :=
  (ss.reverse.findSome? fun
    | .control c' v => if c' = c then some v else none
    | _ => none).getD .null

/-- Is the last colon of the key the one before the operator, and is the key none that parameters keep for something
else? -/
def Plain (marker : String) : Statement → Prop
  | .condition field operator v =>
    ((operator = none → ':' ∉ field.toList) ∧ ∀ op ∈ operator, op ≠ "" ∧ ':' ∉ op.toList) ∧
      (∀ name ∈ Parameters.controls, marker ++ name ≠ (condition field operator v).key marker) ∧
      (marker ≠ "" → ¬ marker.toList <+: ((condition field operator v).key marker).toList)
  | .control _ _ => True

instance (marker : String) : DecidablePred (Plain marker)
  | .condition .. => inferInstanceAs (Decidable ((_ ∧ _) ∧ _ ∧ _))
  | .control .. => .isTrue trivial

def role (marker : String) (s : Statement) : Parameters.Role :=
  match s with
  | .condition field operator v => .condition ⟨s.key marker, field, operator, v⟩
  | .control c v => .control c.name v

end Statement

namespace Parameters

variable {marker : String}

/-! ## Reading keys -/

theorem Condition.ofKey_field {field : String} (h : ':' ∉ field.toList) (v : Value) :
    Condition.ofKey field v = ⟨field, field, none, v⟩ := by
  unfold Condition.ofKey
  rw [Text.cutLast_of_not_mem h]

theorem Condition.ofKey_operator {op : String} (hne : op ≠ "") (h : ':' ∉ op.toList) (field : String) (v : Value) :
    Condition.ofKey (field ++ ":" ++ op) v = ⟨field ++ ":" ++ op, field, some op, v⟩ := by
  have hchars : (field ++ ":" ++ op).toList = field.toList ++ ':' :: op.toList := by
    simp only [String.toList_append, List.append_assoc]
    rfl
  have hop : op.toList.isEmpty = false := by
    rw [List.isEmpty_eq_false_iff]
    exact fun hnil => hne (String.toList_eq_nil_iff.mp hnil)
  unfold Condition.ofKey
  rw [hchars, Text.cutLast_append h]
  simp only [hop, Bool.false_eq_true, if_false, String.ofList_toList]

/-- A colon at the end of a key stands before no operator. -/
theorem Condition.ofKey_bare (field : String) (v : Value) :
    Condition.ofKey (field ++ ":") v = ⟨field ++ ":", field, none, v⟩ := by
  have hchars : (field ++ ":").toList = field.toList ++ ':' :: [] := String.toList_append
  unfold Condition.ofKey
  rw [hchars, Text.cutLast_append List.not_mem_nil]
  simp only [List.isEmpty_nil, if_true, String.ofList_toList]

theorem role_control {name : String} (h : name ∈ controls) (v : Value) :
    role marker (.text (marker ++ name)) v = .ok (.control name v) := by
  have hfind : (controls.find? fun name' => marker ++ name' = marker ++ name) = some name := by
    simp only [String.append_right_inj]
    revert name
    decide
  simp only [role, hfind]

theorem find?_controls_eq_none {key : String} (h : ∀ name ∈ controls, marker ++ name ≠ key) :
    (controls.find? fun name => marker ++ name = key) = none := by
  simpa using h

theorem role_condition {key : String} (hcontrol : ∀ name ∈ controls, marker ++ name ≠ key)
    (hmarker : marker ≠ "" → ¬ marker.toList <+: key.toList) (v : Value) :
    role marker (.text key) v = .ok (.condition (.ofKey key v)) := by
  have hkept : (!marker.isEmpty && marker.toList.isPrefixOf key.toList) = false := by
    rw [Bool.and_eq_false_iff]
    by_cases hne : marker = ""
    · subst hne
      exact .inl rfl
    · exact .inr (Bool.eq_false_iff.mpr fun h => hmarker hne (List.isPrefixOf_iff_prefix.mp h))
  simp only [role, find?_controls_eq_none hcontrol, hkept, Bool.false_eq_true, if_false]

/-- All other parameters with the marker of the control parameters are ignored. -/
theorem role_ignored {key : String} (hcontrol : ∀ name ∈ controls, marker ++ name ≠ key) (hmarker : marker ≠ "")
    (h : marker.toList <+: key.toList) (v : Value) : role marker (.text key) v = .ok .ignored := by
  have hignored : (!marker.isEmpty && marker.toList.isPrefixOf key.toList) = true := by
    rw [Bool.and_eq_true, Bool.not_eq_true', ← Bool.not_eq_true, String.isEmpty_iff]
    exact ⟨hmarker, List.isPrefixOf_iff_prefix.mpr h⟩
  simp only [role, find?_controls_eq_none hcontrol, hignored, if_true]

theorem role_statement {s : Statement} (h : s.Plain marker) :
    role marker (s.parameter marker).1 (s.parameter marker).2 = .ok (s.role marker) := by
  match s, h with
  | .control c v, _ => exact role_control c.name_mem v
  | .condition field none v, ⟨⟨hfield, _⟩, hcontrol, hmarker⟩ =>
    rw [Statement.parameter, role_condition hcontrol hmarker]
    exact congrArg (fun c => Except.ok (Role.condition c)) (Condition.ofKey_field (hfield rfl) v)
  | .condition field (some op) v, ⟨⟨_, hoperator⟩, hcontrol, hmarker⟩ =>
    obtain ⟨hne, hop⟩ := hoperator op rfl
    rw [Statement.parameter, role_condition hcontrol hmarker]
    exact congrArg (fun c => Except.ok (Role.condition c)) (Condition.ofKey_operator hne hop field v)

def stating (marker : String) (ss : List Statement) : Parameters :=
  .pairs (.list (ss.map fun s => .tuple [(s.parameter marker).1, (s.parameter marker).2]))

theorem roles_stating {ss : List Statement} (h : ∀ s ∈ ss, s.Plain marker) :
    (stating marker ss).roles marker = .ok (ss.map (Statement.role marker)) := by
  have hentries : (stating marker ss).entries = .ok (ss.map fun s => .ok (s.parameter marker)) := by
    simp only [stating, entries, Value.elements, bind, Except.bind, pure, Except.pure, List.map_map]
    rfl
  simp only [roles, hentries, bind, Except.bind]
  rw [List.mapM_map]
  exact mapM_eq_ok fun s hs => role_statement (h s hs)

/-! ## The request -/

/-- A condition as the only entry of a filter. -/
def Condition.entry (c : Condition) : Value × Value :=
  (.text c.field, c.operator.elim c.value fun op => .object [(.text op, c.value)])

theorem Condition.filter_eq (c : Condition) : c.filter = [c.entry] := by
  obtain ⟨key, field, operator, v⟩ := c
  cases operator with
  | none => rfl
  | some op => rfl

theorem filters_conditions (ss : List Statement) :
    ((conditions (ss.map (Statement.role marker))).map fun c => .object [c.entry]) =
      ss.filterMap Statement.filter? := by
  rw [conditions, List.filterMap_map, List.map_filterMap]
  refine List.filterMap_congr fun s _ => ?_
  match s with
  | .condition _ none _ => rfl
  | .condition _ (some _) _ => rfl
  | .control _ _ => rfl

theorem control_given (c : Control) (ss : List Statement) :
    control (ss.map (Statement.role marker)) c.name = Statement.given c ss := by
  have hname (c' : Control) : c'.name = c.name ↔ c' = c := by
    cases c <;> cases c' <;> decide
  rw [control, Statement.given, ← List.map_reverse, List.findSome?_map]
  congr 2
  funext s
  match s with
  | .condition _ _ _ => rfl
  | .control c' v => simp only [Function.comp, Statement.role, hname]

/-- No statement gives a direction of its own to the fields without one. -/
theorem control_direction (ss : List Statement) :
    control (ss.map (Statement.role marker)) "order_dir" = .null := by
  rw [control, List.findSome?_eq_none_iff.mpr, Option.getD_none]
  intro role hrole
  obtain ⟨s, -, rfl⟩ := List.mem_map.mp (List.mem_reverse.mp hrole)
  cases s with
  | condition => rfl
  | control c v => cases c <;> rfl

/-! ## Filters and orderings -/

/-- However the filter of some conditions is written, it asks for all of them in their order. -/
theorem compile_filtering (r : FilterRules) (checked : Bool) (cs : List Condition) :
    r.compile checked (filtering cs) =
      r.compile checked (.object [(.text "and", .list (cs.map fun c => .object [c.entry]))]) := by
  have hgroups : (cs.map fun c => Value.object [c.entry]) = (cs.map fun c => [c.entry]).map .object := by
    rw [List.map_map]
    rfl
  have hentries : (cs.map fun c => [c.entry]).flatten = cs.flatMap Condition.filter := by
    rw [← List.flatMap_def]
    exact List.flatMap_congr fun c _ => c.filter_eq.symm
  rw [hgroups, FilterRules.compile_groups, hentries]
  unfold filtering
  split
  · rename_i hempty
    rw [List.isEmpty_iff.mp hempty]
    exact FilterRules.compile_null
  · split
    · rfl
    · have hfilters : cs.map (fun c => Value.object c.filter) = (cs.map Condition.filter).map .object := by
        rw [List.map_map]
        rfl
      rw [hfilters, FilterRules.compile_groups, ← List.flatMap_def]

theorem fields_orNull (v : Value) : SortOrder.fields (orNull v) = SortOrder.fields v := by
  unfold orNull
  split
  · rfl
  · rename_i h
    have hnull : SortOrder.fields .null = .ok [] := rfl
    unfold SortOrder.fields at hnull ⊢
    rw [hnull, if_neg h]

end Parameters

end Sift
