import Sift.Proofs.Filter.Fold
import Sift.Proofs.Includes.Follows
import Sift.Proofs.Includes.Merge
import Sift.Proofs.Policy.Names

/-!
# Filters on related columns

A dotted name leads along a chain of included relations to a column. The key of a mapped entity stands for the column
by which that is exposed, any other column for itself. A filter of one name and one operator is the comparison of that
column with what the operator makes of its operand.
-/

namespace Sift

namespace Scope

variable {s : Scope} {name : Value} {place written column exposed label start last : String} {chain : List String}
  {type : ColumnType} {many : Value} {bs bs' : List Branch}

/-! ## Names -/

/-- No name of a path is empty or holds a point. -/
def IsPath (names : List String) : Prop := ∀ name ∈ names, name ≠ "" ∧ '.' ∉ name.toList

instance (names : List String) : Decidable (IsPath names) :=
  inferInstanceAs (Decidable (∀ name ∈ names, name ≠ "" ∧ '.' ∉ name.toList))

theorem resolve_own (hpath : s.path name = .ok column) (hcolumn : IsPath [column]) :
    s.resolve name place written = s.ownField column place (if written.isEmpty then name.plain else written) := by
  obtain ⟨hne, hpoint⟩ := hcolumn column (List.mem_singleton_self _)
  have hpieces : Text.pieces '.' column = [column] :=
    Text.pieces_dotted (List.cons_ne_nil column []) (by simpa using hpoint)
  simp only [resolve, hpath, hpieces, bind, Except.bind]
  simp [hne]

theorem resolve_related (hne : chain ≠ []) (hpath : s.path name = .ok (Text.dotted (chain ++ [column])))
    (hnames : IsPath (chain ++ [column])) : s.resolve name place written =
      s.relatedField chain column place (if written.isEmpty then name.plain else written) := by
  have hpieces : Text.pieces '.' (Text.dotted (chain ++ [column])) = chain ++ [column] :=
    Text.pieces_dotted (by simp) fun name hname => (hnames name hname).2
  obtain ⟨hchain, hcolumn⟩ := List.forall_mem_append.mp hnames
  have hcolumn : column ≠ "" := (hcolumn column (List.mem_singleton_self _)).1
  have hempty : chain.any (·.isEmpty) = false := by
    rw [List.any_eq_false]
    intro label hlabel
    simpa using (hchain label hlabel).1
  simp only [resolve, hpath, hpieces, bind, Except.bind, List.dropLast_concat, List.getLastD_concat, hempty]
  simp [hcolumn, hne]

theorem dotted_ne_connective (hne : chain ≠ []) (column : String) :
    Text.dotted (chain ++ [column]) ≠ "and" ∧ Text.dotted (chain ++ [column]) ≠ "or" := by
  -- a path of several names holds a point
  have hpoint : '.' ∈ (Text.dotted (chain ++ [column])).toList := by
    obtain ⟨label, chain, rfl⟩ := List.exists_cons_of_ne_nil hne
    cases chain <;> simp [Text.dotted]
  refine ⟨fun h => ?_, fun h => ?_⟩
  · rw [h] at hpoint
    exact absurd hpoint (by decide)
  · rw [h] at hpoint
    exact absurd hpoint (by decide)

/-! ## Columns behind a chain -/

theorem walk_along {c : Catalog} (hchain : Branch.Along start bs chain last bs')
    (hfollow : Branch.AllFollow c (.text start) bs) (many : Value) :
    ∃ many', walk place written (.text start) many bs chain = .ok (.text last, many') := by
  induction hchain generalizing many with
  | nil name bs => exact ⟨many, rfl⟩
  | cons hb hmany htarget hrest ih =>
    have hnested := (hfollow.2 _ hb).nested
    rw [htarget] at hnested
    simp only [walk, Branch.find?_eq_some_of_mem hfollow.1 hb, htarget]
    exact ih hnested _

theorem columnRef_eq (htype : s.catalog.columnType (.text last) (.text column) = .ok type) :
    s.columnRef (.text last) (.text column) = .ok { entity := .text last, column, type } := by
  simp only [columnRef, htype, bind, Except.bind]
  rfl

theorem relatedField_column (hwalk : walk place written (.text s.entity) (.bool false) s.includes.branches chain =
      .ok (.text last, many)) (hhas : s.catalog.hasColumn (.text last) (.text column) = .ok true)
    (htype : s.catalog.columnType (.text last) (.text column) = .ok type)
    (hkey : ∀ k, s.mappings.get? (.text last) = some k → k.key ≠ .text column) :
    s.relatedField chain column place written = .ok { entity := .text last, column, type, chain, many } := by
  simp only [relatedField, hwalk, hhas, mapping?_text, columnRef_eq htype, bind, Except.bind]
  cases hk : s.mappings.get? (.text last) with
  | none => rfl
  | some k =>
    have hne : ¬ (Value.text column == k.key) = true := fun heq => hkey k hk (Value.text_beq_iff.mp heq)
    simp only [if_neg hne]
    rfl

/-- The key of a mapped entity stands for the column by which that is exposed. -/
theorem relatedField_key {entity key : Value}
    (hwalk : walk place written (.text s.entity) (.bool false) s.includes.branches [label] = .ok (.text last, many))
    (hhas : s.catalog.hasColumn (.text last) (.text column) = .ok true)
    (htype : s.catalog.columnType (.text last) (.text exposed) = .ok type)
    (hkey : s.mappings.get? (.text last) = some ⟨entity, .text column, .text exposed⟩)
    (hshown : s.shownBy label = .ok key) : s.relatedField [label] column place written =
      .ok { entity := .text last, column := exposed, type, chain := [label], many, foreignKey := key } := by
  have hself : (Value.text column == .text column) = true := Value.text_beq_iff.mpr rfl
  simp only [relatedField, hwalk, hhas, mapping?_text, hkey, hself, hshown, columnRef_eq htype, bind, Except.bind,
    if_true]
  rfl

end Scope

namespace FilterRules

variable {r : FilterRules} {checked : Bool} {name token : String} {ref : FieldRef} {op : Operator} {x : Value}

/-- A filter of one name and one operator is one comparison. -/
theorem compile_single (hand : name ≠ "and") (hor : name ≠ "or") (href : r.resolve (.text name) = .ok ref)
    (hpermits : checked = true → r.permits (.text name) = true) (hop : r.registry.get? token = some op) :
    r.compile checked (.object [(.text name, .object [(.text token, x)])]) = (op.prepare name ref.type x).map fun w =>
      ⟨.clause ⟨ref, op.kind, w, op.token⟩, if ref.isRelated then [ref.chain] else []⟩ := by
  have hfield : r.field checked (.text name) = .ok ref := by
    cases checked with
    | false => rw [Section.field_false, href]
    | true => rw [Section.field_true href, if_pos (hpermits rfl)]
  have hknown : r.known (.text token, x) = true := by
    simp only [known, Value.text?, Option.map_some, Option.getD_some, Table.contains, hop, Option.isSome_some]
  have hget : r.registry.get token = .ok op := by rw [Registry.get, hop, Option.elim_some]
  have hentry : r.compileEntry checked (.text name) (.object [(.text token, x)]) =
      (op.prepare name ref.type x).map fun w => criteria ref [⟨ref, op.kind, w, op.token⟩] := by
    rw [compileEntry_field _ (fun h => hand (Value.text.inj h)) fun h => hor (Value.text.inj h)]
    simp only [compileField, hfield, Value.plain, fieldClauses, operatorClauses, List.any_cons, List.any_nil, hknown,
      Bool.or_false, if_true, List.find?_cons, Bool.not_true, List.find?_nil, List.mapM_cons, List.mapM_nil,
      Value.text?, Option.getD_some, hget, FilterRules.clause, bind, Except.bind]
    cases op.prepare name ref.type x <;> rfl
  rw [compile, compileEntries_cons, hentry]
  cases op.prepare name ref.type x with
  | error e => rfl
  | ok w =>
    cases h : ref.isRelated with
    | false => simp [Except.map, criteria, h, compileEntries]; rfl
    | true => simp [Except.map, criteria, h, compileEntries]; rfl

end FilterRules

end Sift
