import Sift.Proofs.Filter.Mapped
import Sift.Proofs.Filter.WellTyped
import Sift.Proofs.Operator.Denials
import Sift.Proofs.Store.Contents
import Sift.Proofs.Store.Searching
import Sift.Proofs.Store.Valued

/-!
# What is denied

An operator and its denial ask the same cells of a column. Of a cell that holds something exactly one of the two holds,
as long as the cells that are asked for hold something too. Of a cell that holds nothing the denial of equality holds,
and no other denial does: patterns and lists leave open whether they would find it.
-/

namespace Sift

variable {kind kind' : OperatorKind} {c d : Cell} {ds : List Cell}

/-! ## Cells -/

theorem Truth.not_eq_yes_iff {t : Truth} : t.not = .yes ↔ ¬t = .yes ∧ ¬t = .unknown := by
  cases t <;> decide

theorem Truth.or_eq_yes_iff {s t : Truth} : s.or t = .yes ↔ s = .yes ∨ t = .yes := by
  cases s <;> cases t <;> decide

theorem Truth.ofBool_eq_yes_iff {b : Bool} : Truth.ofBool b = .yes ↔ b = true := by
  cases b <;> decide

theorem Truth.or_ne_unknown {s t : Truth} (hs : s ≠ .unknown) (ht : t ≠ .unknown) : s.or t ≠ .unknown := by
  cases s <;> cases t <;> first
    | contradiction
    | decide

namespace Cell

theorem satisfies_eq_nil (c : Cell) : c.satisfies .eq [] = .ofBool c.isNull := rfl

theorem satisfies_neq_nil (c : Cell) : c.satisfies .neq [] = .ofBool !c.isNull := rfl

theorem satisfies_neq_cons (c d : Cell) (ds : List Cell) : c.satisfies .neq (d :: ds) = .ofBool !c.same d := rfl

theorem satisfies_pattern (h : kind.Matches) (c : Cell) (ds : List Cell) :
    c.satisfies kind ds = ds.head?.elim (.ofBool c.isNull) c.like := by
  rcases h with rfl | rfl
  · cases ds <;> rfl
  · cases ds <;> rfl

/-! ## Denials of comparisons -/

/-- Is it left open for a cell both whether a comparison holds and whether its denial does? -/
def LeavesOpen (kind : OperatorKind) (c : Cell) (ds : List Cell) : Prop :=
  match kind, ds with
  | .eq, [] => False
  | .eq, d :: _ => c.isNull = true ∧ d.isNull = true
  | kind, ds => c.satisfies kind ds = .unknown

theorem rank_of_isNull (h : c.isNull = true) : c.rank = .nothing := of_decide_eq_true h

theorem same_iff_equal : c.same d = true ↔ c.equal d = .yes ∨ c.isNull = true ∧ d.isNull = true := by
  rw [equal_eq_yes_iff, same, decide_eq_true_iff]
  constructor
  · intro h
    have hnull : c.isNull = d.isNull := by rw [isNull, isNull, h]
    cases hc : c.isNull with
    | false => exact .inl ⟨rfl, hnull ▸ hc, h⟩
    | true => exact .inr ⟨rfl, hnull ▸ hc⟩
  · rintro (⟨-, -, h⟩ | ⟨hc, hd⟩)
    · exact h
    · rw [rank_of_isNull hc, rank_of_isNull hd]

/-- A denial holds of a cell where what it denies neither holds nor is left open. -/
theorem satisfies_denied (h : kind'.Denies kind) (c : Cell) (hds : kind.Matches → ds ≠ []) :
    c.satisfies kind' ds = .yes ↔ ¬c.satisfies kind ds = .yes ∧ ¬LeavesOpen kind c ds := by
  cases h with
  | equality =>
    cases ds with
    | nil =>
      rw [satisfies_eq_nil, satisfies_neq_nil, LeavesOpen]
      cases c.isNull <;> decide
    | cons d ds =>
      have hneq : c.satisfies .neq (d :: ds) = .yes ↔ ¬c.same d = true := by
        rw [satisfies_neq_cons]
        cases c.same d <;> decide
      rw [hneq, same_iff_equal, not_or]
      exact Iff.rfl
  | membership => exact Truth.not_eq_yes_iff
  | pattern =>
    obtain ⟨d, ds, rfl⟩ := List.exists_cons_of_ne_nil (hds (.inl rfl))
    exact Truth.not_eq_yes_iff
  | loosePattern =>
    obtain ⟨d, ds, rfl⟩ := List.exists_cons_of_ne_nil (hds (.inr rfl))
    exact Truth.not_eq_yes_iff

theorem compareWith_eq_unknown_iff {test : Cell → Cell → Bool} :
    compareWith test c d = .unknown ↔ c.isNull = true ∨ d.isNull = true := by
  rw [compareWith, ← Bool.or_eq_true]
  split
  · simp [*]
  · cases test c d <;> simp [*, Truth.ofBool]

theorem oneOf_of_isNull (hc : c.isNull = true) (ds : List Cell) : c.oneOf ds = if ds = [] then .no else .unknown := by
  induction ds with
  | nil => rfl
  | cons d ds ih =>
    have hequal : c.equal d = .unknown := compareWith_eq_unknown_iff.mpr (.inl hc)
    rw [oneOf, hequal, ih, if_neg (List.cons_ne_nil d ds)]
    split <;> rfl

theorem oneOf_ne_unknown (hc : c.isNull = false) (hds : ∀ d ∈ ds, d.isNull = false) : c.oneOf ds ≠ .unknown := by
  induction ds with
  | nil => exact Truth.noConfusion
  | cons d ds ih =>
    obtain ⟨hd, hds⟩ := List.forall_mem_cons.mp hds
    have hequal : c.equal d ≠ .unknown := by
      rw [equal, Ne, compareWith_eq_unknown_iff, hc, hd]
      decide
    exact Truth.or_ne_unknown hequal (ih hds)

theorem oneOf_eq_unknown_iff (hds : ∀ d ∈ ds, d.isNull = false) : c.oneOf ds = .unknown ↔ c.isNull = true ∧ ds ≠ [] := by
  cases hc : c.isNull with
  | false => simp [oneOf_ne_unknown hc hds]
  | true => simp [oneOf_of_isNull hc]

/-- Where the cells that are asked for hold something, only a cell that holds nothing is left open, and only by patterns
and by lists that are not empty. -/
theorem leavesOpen_iff (h : kind'.Denies kind) (hds : ∀ d ∈ ds, d.isNull = false) :
    LeavesOpen kind c ds ↔ kind ≠ .eq ∧ c.isNull = true ∧ ds ≠ [] := by
  have hpattern (hkind : kind.Matches) : c.satisfies kind ds = .unknown ↔ c.isNull = true ∧ ds ≠ [] := by
    rw [satisfies_pattern hkind]
    cases ds with
    | nil => cases c.isNull <;> simp [Truth.ofBool]
    | cons d ds =>
      rw [List.head?_cons, Option.elim_some, like, compareWith_eq_unknown_iff, hds d List.mem_cons_self]
      simp
  cases h with
  | equality =>
    cases ds with
    | nil => simp [LeavesOpen]
    | cons d ds => simp [LeavesOpen, hds d List.mem_cons_self]
  | membership => exact (oneOf_eq_unknown_iff hds).trans (by simp)
  | pattern => exact (hpattern (.inl rfl)).trans (by simp)
  | loosePattern => exact (hpattern (.inr rfl)).trans (by simp)

end Cell

/-! ## What is asked for -/

namespace Comparison

variable {column st : Storage} {v : Value} {vs : List Value} {x : Comparison}

theorem ofItems_denied (hx : ofItems kind column v = .ok x) :
    x.kind = kind ∧ ofItems kind' column v = .ok { x with kind := kind' } := by
  unfold ofItems at hx ⊢
  split at hx
  · cases hx
  · split at hx
    · cases hx
      exact ⟨rfl, by simp only [*]⟩
    · cases hx

theorem ofOrdered_denied (hx : ofOrdered kind column v = .ok x) :
    x.kind = kind ∧ ofOrdered kind' column v = .ok { x with kind := kind' } := by
  unfold ofOrdered at hx ⊢
  split at hx
  · cases hx
    exact ⟨rfl, if_pos ‹_›⟩
  · cases hx

theorem length_operands (h : x.operands column = .ok ds) : ds.length = x.values.length := by
  obtain ⟨handed, hhanded, h⟩ := bind_eq_ok_iff.mp h
  obtain ⟨cells, hcells, h⟩ := bind_eq_ok_iff.mp h
  have hlength : cells.length = x.values.length := by
    rw [← (forall₂_of_mapM_eq_ok hcells).length_eq, ← (forall₂_of_mapM_eq_ok hhanded).length_eq]
  cases pure_eq_ok_iff.mp h
  split
  · rw [List.length_map, hlength]
  · exact hlength

theorem operands_denied (h : kind'.Denies kind) (column st : Storage) (vs : List Value) :
    (Comparison.mk kind' st vs).operands column = (Comparison.mk kind st vs).operands column := by
  cases h <;> rfl

end Comparison

/-- A denial asks for what the kind that it denies asks for. -/
theorem Matcher.comparison_denied {m : Matcher} {column : Storage} {v : Value} {x : Comparison} (h : kind'.Denies kind)
    (hx : m.comparison column kind v = .ok x) :
    x.kind = kind ∧ m.comparison column kind' v = .ok { x with kind := kind' } := by
  cases h with
  | equality => cases v <;> cases hx <;> exact ⟨rfl, rfl⟩
  | membership => exact Comparison.ofItems_denied hx
  | pattern => exact Comparison.ofOrdered_denied hx
  | loosePattern =>
    cases m with
    | patterns => exact Comparison.ofOrdered_denied hx
    | lowering =>
      cases hx
      exact ⟨rfl, rfl⟩
    | none => cases hx

theorem Matcher.length_values {m : Matcher} {column : Storage} {v : Value} {x : Comparison} (hkind : kind.Matches)
    (hx : m.comparison column kind v = .ok x) : x.values.length = 1 := by
  have hordered (h : Comparison.ofOrdered kind column v = .ok x) : x.values.length = 1 := by
    unfold Comparison.ofOrdered at h
    split at h <;> cases h
    rfl
  rcases hkind with rfl | rfl
  · exact hordered hx
  · cases m with
    | patterns => exact hordered hx
    | lowering =>
      cases hx
      rfl
    | none => cases hx

/-! ## What a column of a known type is asked for -/

theorem Cell.Proper.isNull_iff (h : c.Proper) : c.isNull = true ↔ c = .null := by
  rcases h.kinds with rfl | ⟨s, hs, -, hplace⟩ | ⟨t, rfl⟩
  · simp [Cell.isNull, Cell.rank]
  · have hrank : c.rank ≠ .nothing := hplace ▸ Cell.place_ne_nothing
    have hc : c ≠ .null := by
      rintro rfl
      cases hs
    simp [Cell.isNull, hrank, hc]
  · simp [Cell.isNull, Cell.rank]

theorem Cell.isNull_of_numeral? {t : String} (h : Cell.numeral? t = some c) : c.isNull = false := by
  rw [← Bool.not_eq_true, (Cell.proper_numeral? h).isNull_iff]
  rintro rfl
  have hne (p : Prop) [Decidable p] (n : Int) (x : Binary64) : (if p then Cell.integer n else .real x) ≠ .null := by
    split <;> exact Cell.noConfusion
  simp only [Cell.numeral?] at h
  split at h
  · obtain ⟨_, -, h⟩ := Option.map_eq_some_iff.mp h
    exact hne _ _ _ h
  · cases h

namespace Storage

variable {st : Storage}

/-- A column draws nothing to its side but what holds something. -/
theorem isNull_beside (h : c.isNull = false) : (st.beside c).isNull = false := by
  have hnumeral (t : String) : ((Cell.numeral? t).getD (.text t)).isNull = false := by
    cases hn : Cell.numeral? t with
    | none => rfl
    | some d => exact Cell.isNull_of_numeral? hn
  unfold beside
  split
  · rfl
  · rfl
  · exact hnumeral _
  · exact hnumeral _
  · exact h

end Storage

namespace Comparison

variable {column : Storage} {x : Comparison} {op : Operator} {name : String} {v w : Value}

/-- Where all values are taken in as cells that hold something, these are drawn to the side of the column. -/
theorem exists_operands (column : Storage) (hdrawn : x.isDrawn = true) (hvalues : ∀ v ∈ x.values, ∃ handed cell,
    x.storage.handOver v = .ok handed ∧ Storage.takeIn handed = .ok cell ∧ cell.isNull = false) :
    ∃ ds, x.operands column = .ok ds ∧ ∀ d ∈ ds, d.isNull = false := by
  have hhand : ∀ v ∈ x.values, ∃ handed, x.storage.handOver v = .ok handed ∧
      ∃ cell, Storage.takeIn handed = .ok cell ∧ cell.isNull = false := by
    intro v hv
    obtain ⟨handed, cell, hhanded, hcell⟩ := hvalues v hv
    exact ⟨handed, hhanded, cell, hcell⟩
  obtain ⟨handed, hhanded, hall⟩ := exists_mapM_eq_ok hhand
  obtain ⟨cells, hcells, hnull⟩ := exists_mapM_eq_ok hall
  refine ⟨cells.map column.beside, ?_, ?_⟩
  · simp only [operands, handedOver, hhanded, hcells, hdrawn, bind, Except.bind, if_true]
    rfl
  · intro d hd
    obtain ⟨cell, hcell, rfl⟩ := List.mem_map.mp hd
    exact Storage.isNull_beside (hnull cell hcell)

theorem exists_operands_ofValue (hw : column.columnType.Holds w) (hrange : w.InRange) :
    ∃ ds, (ofValue .eq column w).operands column = .ok ds ∧ (∀ d ∈ ds, d.isNull = false) ∧ ds ≠ [] := by
  have hvalues : ∀ v ∈ (ofValue .eq column w).values, ∃ handed cell,
      (ofValue .eq column w).storage.handOver v = .ok handed ∧ Storage.takeIn handed = .ok cell ∧ cell.isNull = false := by
    intro v hv
    obtain rfl := List.mem_singleton.mp hv
    exact Storage.exists_cell hw hw hrange
  obtain ⟨ds, hds, hnull⟩ := exists_operands column rfl hvalues
  refine ⟨ds, hds, hnull, fun hnil => ?_⟩
  have hlength := length_operands hds
  rw [hnil] at hlength
  cases hlength

theorem exists_operands_items {vs : List Value} (hvs : ∀ v ∈ vs, column.columnType.Holds v)
    (hrange : (Value.tuple vs).InRange) : ∃ ds,
      (Comparison.mk .oneOf (column.comparing (vs.headD .null)) vs).operands column = .ok ds ∧
        (∀ d ∈ ds, d.isNull = false) ∧ (ds = [] ↔ vs = []) := by
  have hvalues : ∀ v ∈ vs, ∃ handed cell, (column.comparing (vs.headD .null)).handOver v = .ok handed ∧
      Storage.takeIn handed = .ok cell ∧ cell.isNull = false := by
    intro v hv
    cases vs with
    | nil => cases hv
    | cons first rest =>
      exact Storage.exists_cell (hvs v hv) (hvs first List.mem_cons_self)
        (Value.inRange_of_holds (hvs v hv) fun n hn => hrange n (hn ▸ hv))
  obtain ⟨ds, hds, hnull⟩ := exists_operands column (x := ⟨.oneOf, column.comparing (vs.headD .null), vs⟩) rfl hvalues
  refine ⟨ds, hds, hnull, ?_⟩
  rw [← List.length_eq_zero_iff, length_operands hds, List.length_eq_zero_iff]

end Comparison

theorem OperatorKind.Denies.eq_of_isEquality (h : kind'.Denies kind) (hkind : kind.isEquality = true) : kind = .eq := by
  cases h with
  | equality => rfl
  | _ => cases hkind

theorem OperatorKind.Denies.eq_of_isMembership (h : kind'.Denies kind) (hkind : kind.isMembership = true) :
    kind = .oneOf := by
  cases h with
  | membership => rfl
  | _ => cases hkind

/-- A column of a known type is asked for cells that hold something, and for none only where null or an empty list is
asked for. Only equality asks for null. -/
theorem Matcher.exists_operands_of_prepare {m : Matcher} {column : Storage} {op : Operator} {name : String} {v w : Value}
    (hkind : kind'.Denies op.kind) (hsound : op.isSound = true) (hm : m ≠ .none) (htype : column.columnType ≠ .other)
    (h : op.prepare name column.columnType v = .ok w) (hrange : w.InRange) :
    ∃ x ds, m.comparison column op.kind w = .ok x ∧ x.operands column = .ok ds ∧ (∀ d ∈ ds, d.isNull = false) ∧
      (ds = [] ↔ w = .null ∨ w = .tuple []) ∧ (w = .null → op.kind = .eq) := by
  cases Operator.prepare_makes hsound htype h with
  | null hequality =>
    rw [hkind.eq_of_isEquality hequality]
    exact ⟨_, [], rfl, rfl, fun d hd => absurd hd List.not_mem_nil, by simp, fun _ => rfl⟩
  | items vs hmember hvs =>
    rw [hkind.eq_of_isMembership hmember]
    obtain ⟨ds, hds, hnull, hnil⟩ := Comparison.exists_operands_items hvs hrange
    exact ⟨_, ds, rfl, hds, hnull, hnil.trans (by simp), fun h => Value.noConfusion h⟩
  | one w hmember htext hw =>
    -- neither null nor a list is of the column's type, so what is asked for is one cell
    have hne : ¬(w = .null ∨ w = .tuple []) := by
      generalize column.columnType = type at hw
      rintro (rfl | rfl) <;> cases hw
    have hpattern (hkind : op.kind.Matches) : ∃ x ds, m.comparison column op.kind w = .ok x ∧
        x.operands column = .ok ds ∧ (∀ d ∈ ds, d.isNull = false) ∧ (ds = [] ↔ w = .null ∨ w = .tuple []) ∧
          (w = .null → op.kind = .eq) := by
      have htype := htext hkind.isTextual
      obtain ⟨t, rfl⟩ := hw.exists_text htype
      obtain ⟨x, hx, -, -, hds⟩ := Matcher.exists_operands hm htype hkind t
      exact ⟨x, _, hx, hds, List.forall_mem_singleton.mpr rfl, by simp, fun h => Value.noConfusion h⟩
    cases hkind' : op.kind with
    | eq =>
      obtain ⟨ds, hds, hnull, hnil⟩ := Comparison.exists_operands_ofValue hw hrange
      exact ⟨_, ds, Matcher.comparison_of_ne_null hw.ne_null (.inl rfl), hds, hnull, iff_of_false hnil hne, fun _ => rfl⟩
    | like => exact hkind' ▸ hpattern (.inl hkind')
    | ilike => exact hkind' ▸ hpattern (.inr hkind')
    | oneOf =>
      rw [hkind'] at hmember
      cases hmember
    | _ =>
      rw [hkind'] at hkind
      cases hkind

/-! ## Clauses -/

theorem OperatorKind.Denies.not_order (h : kind'.Denies kind) : kind.isOrder = false ∧ kind'.isOrder = false := by
  cases h <;> exact ⟨rfl, rfl⟩

namespace Store

variable {s : Store} {entity token token' : String} {ref : FieldRef} {w : Value}

theorem meets_clause {c : Clause} {r : Record} : s.meets entity (.clause c) r = true ↔ s.clauseTruth entity r c = .yes := by
  rw [meets, decide_eq_true_iff, Predicate.truth]

/-- The cells that a clause asks its column for. -/
def operands (s : Store) (entity : String) (c : Clause) : Except Fault (List Cell) := do
  (← s.comparison entity c).operands (s.storageOf entity c.field)

/-- A clause and its denial ask for the same cells. Where a pattern is asked for, there is one. -/
theorem columnTruth_denied (h : kind'.Denies kind) (hds : s.operands entity ⟨ref, kind, w, token⟩ = .ok ds)
    (token' : String) :
    (kind.Matches → ds ≠ []) ∧ ∀ r : Record,
      s.columnTruth entity ⟨ref, kind, w, token⟩ r =
        s.reaches (fun o => (o.cell ref.column).satisfies kind ds) entity r ref.chain ∧
      s.columnTruth entity ⟨ref, kind', w, token'⟩ r =
        s.reaches (fun o => (o.cell ref.column).satisfies kind' ds) entity r ref.chain := by
  obtain ⟨x, hx, hds⟩ := bind_eq_ok_iff.mp hds
  obtain ⟨rfl, hx'⟩ := Matcher.comparison_denied h hx
  refine ⟨fun hkind hnil => ?_, fun r => ⟨?_, ?_⟩⟩
  · have hlength := Comparison.length_operands hds
    rw [hnil, Matcher.length_values hkind hx] at hlength
    cases hlength
  · simp only [columnTruth, hx, comparisonTruth, hds]
  · have hask : s.comparison entity ⟨ref, kind', w, token'⟩ = .ok { x with kind := kind' } := hx'
    simp only [columnTruth, hask, comparisonTruth, Comparison.operands_denied h, hds]

/-- A store can be asked for a comparison with a prepared value and for its denial. The cells that it is asked for hold
something each, and only null and empty lists ask for none. -/
theorem exists_operands_denied {op op' : Operator} {column : Storage} {name : String} {v : Value} (hdenies : op'.Denies op)
    (hsound : op.isSound = true) (hsound' : op'.isSound = true) (hmatcher : s.matcher ≠ .none)
    (hcolumn : s.storageOf entity ref = column) (htype : column.columnType ≠ .other)
    (h : op.prepare name column.columnType v = .ok w) (hrange : w.InRange) :
    (∀ e ∈ [Clause.mk ref op.kind w op.token, ⟨ref, op'.kind, w, op'.token⟩], s.Askable entity e) ∧
      ∃ ds, s.operands entity ⟨ref, op.kind, w, op.token⟩ = .ok ds ∧ (∀ d ∈ ds, d.isNull = false) ∧
        (ds = [] ↔ w = .null ∨ w = .tuple []) ∧ (w = .null → op.kind = .eq) := by
  obtain ⟨horder, horder'⟩ := hdenies.kind.not_order
  obtain ⟨x, ds, hx, hds, hnull⟩ :=
    Matcher.exists_operands_of_prepare hdenies.kind hsound hmatcher htype h hrange
  have hask := askable_of_prepare hsound hmatcher hcolumn htype h hrange (by simp [horder]) op.token
  have hask' := askable_of_prepare hsound' hmatcher hcolumn htype (hdenies.prepare h) hrange (by simp [horder']) op'.token
  refine ⟨List.forall_mem_cons.mpr ⟨hask, List.forall_mem_singleton.mpr hask'⟩, ds, ?_, hnull⟩
  simp only [operands, comparison, hcolumn, hx, bind, Except.bind, hds]

end Store

/-! ## Filters -/

namespace FilterRules

/-- The rules accept a value under a name, for an operator and for its denial, which prepares it as another one. -/
structure AcceptsBoth (rules : FilterRules) (checked : Bool) (name token token' : String) (type : ColumnType) (x : Value)
    (op : Operator) (w : Value) : Prop where
  not_connective : name ≠ "and" ∧ name ≠ "or"
  permits : checked = true → rules.permits (.text name) = true
  tokens : (token, token') ∈ Registry.opposites
  registry : ∀ t ∈ [token, token'], rules.registry.get? t = Registry.default.get? t
  operator : Registry.default.get? token = some op
  prepared : op.prepare name type x = .ok w

variable {rules : FilterRules} {checked : Bool} {name token token' : String} {ref : FieldRef} {op : Operator} {x w : Value}

/-- The operator is sound, and so is its denial. -/
theorem AcceptsBoth.exists_denial {type : ColumnType} (h : rules.AcceptsBoth checked name token token' type x op w) :
    ∃ op', op'.Denies op ∧ rules.registry.get? token = some op ∧ rules.registry.get? token' = some op' ∧
      op.isSound = true ∧ op'.isSound = true ∧ op'.prepare name type x = .ok w ∧ op.literal = .null := by
  obtain ⟨op₀, op', hop, hop', hdenies, hliteral⟩ := Registry.exists_denial h.tokens
  cases h.operator.symm.trans hop
  refine ⟨op', hdenies, ?_, ?_, isSound_of_get? hop, isSound_of_get? hop', hdenies.prepare h.prepared, hliteral⟩
  · rw [h.registry _ List.mem_cons_self, hop]
  · rw [h.registry _ (List.mem_cons_of_mem _ List.mem_cons_self), hop']

theorem AcceptsBoth.prepares_null {type : ColumnType} (h : rules.AcceptsBoth checked name token token' type x op w) :
    w = .null ↔ x = .null := by
  obtain ⟨_, -, -, -, hsound, -, -, hliteral⟩ := h.exists_denial
  constructor
  · intro hw
    by_contra hx
    exact Operator.prepare_ne_null hsound hx h.prepared hw
  · rintro rfl
    exact Operator.prepare_null hliteral h.prepared

/-- The filter for either operator is a single comparison with the prepared value. -/
theorem AcceptsBoth.compile {o : Operator} {t : String} (h : rules.AcceptsBoth checked name token token' ref.type x op w)
    (href : rules.resolve (.text name) = .ok ref) (hget : rules.registry.get? t = some o)
    (hx : o.prepare name ref.type x = .ok w) :
    rules.compile checked (.object [(.text name, .object [(.text t, x)])]) =
      .ok ⟨.clause ⟨ref, o.kind, w, o.token⟩, if ref.isRelated then [ref.chain] else []⟩ := by
  rw [compile_single h.not_connective.1 h.not_connective.2 href h.permits hget, hx]
  rfl

end FilterRules

namespace OwnColumn

variable {s : Store} {rules : FilterRules} {checked : Bool} {name written token token' : String} {op : Operator}
  {x w : Value}

theorem storageOf_field (k : OwnColumn s.models rules.scope) :
    s.storageOf rules.scope.entity k.field = k.storage := by
  rw [Store.storageOf, show s.targetOf rules.scope.entity k.field.chain = rules.scope.entity from rfl, k.model_found,
    Option.bind_some, show k.field.column = k.column from rfl, k.column_kept, Option.getD_some]

/-- A filter with a denied operator selects the records of the other filter's complement, except where their column leaves
it open whether it is selected. In a column of a known type that are the records with nothing there, unless equality is
denied or an empty list. -/
theorem selects_denied (k : OwnColumn s.models rules.scope) (hwrites : rules.scope.Writes written k.column)
    (hpath : rules.scope.path (rules.policy.toInternal (.text name)) = .ok written)
    (h : rules.AcceptsBoth checked name token token' k.storage.columnType x op w) :
    ∃ c d, rules.compile checked (.object [(.text name, .object [(.text token, x)])]) = .ok c ∧
      rules.compile checked (.object [(.text name, .object [(.text token', x)])]) = .ok d ∧
      (∀ ds, s.operands rules.scope.entity ⟨k.field, op.kind, w, op.token⟩ = .ok ds → ∀ r : Record,
        (s.meets rules.scope.entity d.predicate r = true ↔
          ¬s.meets rules.scope.entity c.predicate r = true ∧ ¬Cell.LeavesOpen op.kind (r.cell k.column) ds)) ∧
      (k.storage.columnType ≠ .other → s.matcher ≠ .none → w.InRange →
        (∀ e ∈ c.predicate.clauses ++ d.predicate.clauses, s.Askable rules.scope.entity e) ∧ ∀ r : Record,
          (s.meets rules.scope.entity d.predicate r = true ↔ ¬s.meets rules.scope.entity c.predicate r = true ∧
            ((r.cell k.column).isNull = true → op.kind = .eq ∨ w = .tuple []))) := by
  obtain ⟨op', hdenies, hget, hget', hsound, hsound', hx', -⟩ := h.exists_denial
  have href : rules.resolve (.text name) = .ok k.field := k.resolve hwrites hpath
  have hselects : ∀ ds, s.operands rules.scope.entity ⟨k.field, op.kind, w, op.token⟩ = .ok ds → ∀ r : Record,
      (s.meets rules.scope.entity (.clause ⟨k.field, op'.kind, w, op'.token⟩) r = true ↔
        ¬s.meets rules.scope.entity (.clause ⟨k.field, op.kind, w, op.token⟩) r = true ∧
          ¬Cell.LeavesOpen op.kind (r.cell k.column) ds) := by
    intro ds hds r
    obtain ⟨hne, htruth⟩ := Store.columnTruth_denied hdenies.kind hds op'.token
    obtain ⟨hpos, hneg⟩ := htruth r
    rw [Store.meets_clause, Store.meets_clause,
      show s.clauseTruth rules.scope.entity r ⟨k.field, op.kind, w, op.token⟩ = _ from hpos,
      show s.clauseTruth rules.scope.entity r ⟨k.field, op'.kind, w, op'.token⟩ = _ from hneg]
    exact Cell.satisfies_denied hdenies.kind (r.cell k.column) hne
  refine ⟨_, _, h.compile href hget h.prepared, h.compile href hget' hx', hselects, fun htype hmatcher hrange => ?_⟩
  obtain ⟨hask, ds, hds, hnull, hnil, hequality⟩ :=
    Store.exists_operands_denied hdenies hsound hsound' hmatcher k.storageOf_field htype h.prepared hrange
  refine ⟨hask, fun r => ?_⟩
  have hopen : ¬Cell.LeavesOpen op.kind (r.cell k.column) ds ↔
      ((r.cell k.column).isNull = true → op.kind = .eq ∨ w = .tuple []) := by
    rw [Cell.leavesOpen_iff hdenies.kind hnull, Ne, Ne, hnil, not_and, not_and, not_not]
    constructor
    · intro hleft hmissing
      by_cases hkind : op.kind = .eq
      · exact .inl hkind
      · exact .inr ((hleft hkind hmissing).resolve_left fun hw => hkind (hequality hw))
    · intro hleft hkind hmissing
      exact .inr ((hleft hmissing).resolve_left hkind)
  rw [hselects ds hds r, hopen]

end OwnColumn

namespace Shop

/-- The category of products, in a shop where nobody is shown by another key. -/
def category : OwnColumn laptops.models (laptops.plainRules "Product" owners).scope where
  model := product
  column := "category"
  storage := .text
  keys := [(.text "owner_id", { label := "owner", target := .text "User", foreignKey := .text "owner_id" })]
  catalog_eq := rfl
  model_found := rfl
  column_kept := rfl
  keys_eq := rfl
  unmapped := fun _ hr => nomatch hr

/-- A filter on products by their category. -/
def categorized (token : String) (x : Value) : Value :=
  .object [(.text "category", .object [(.text token, x)])]

/-- Which products such a filter picks. -/
def picked (token : String) (x : Value) : Except Fault (List Bool) := do
  let c ← (laptops.plainRules "Product" owners).compile true (categorized token x)
  return (laptops.records "Product").map (laptops.meets "Product" c.predicate)

end Shop

namespace OwnColumn

theorem selects_denied_category : ∃ c d,
    (Shop.laptops.plainRules "Product" Shop.owners).compile true
      (Shop.categorized "in" (.list [.text "electronics"])) = .ok c ∧
    (Shop.laptops.plainRules "Product" Shop.owners).compile true
      (Shop.categorized "not_in" (.list [.text "electronics"])) = .ok d ∧
    Shop.laptops.meets "Product" d.predicate (Shop.named 1 "Laptop") = false := by
  have haccepts : (Shop.laptops.plainRules "Product" Shop.owners).AcceptsBoth true "category" "in" "not_in" .text
      (.list [.text "electronics"]) _ _ :=
    ⟨by decide, fun _ => rfl, by decide, fun _ _ => rfl, rfl, rfl⟩
  obtain ⟨c, d, hc, hd, -, hselects⟩ := selects_denied Shop.category ⟨by decide, rfl⟩ rfl haccepts
  obtain ⟨-, hselects⟩ := hselects (by decide) (by decide) fun n hn => by simp at hn
  refine ⟨c, d, hc, hd, Bool.eq_false_iff.mpr fun hmeets => ?_⟩
  rcases ((hselects _).mp hmeets).2 rfl with hkind | hempty
  · cases hkind
  · cases hempty

/-- Records with nothing in a column are selected by no list and no pattern, and not by their denials either. -/
theorem not_complementary :
    (Shop.picked "in" (.list [.text "electronics"])).toOption = some [false] ∧
      (Shop.picked "not_in" (.list [.text "electronics"])).toOption = some [false] ∧
      (Shop.picked "contains" (.text "e")).toOption = some [false] ∧
      (Shop.picked "not_contains" (.text "e")).toOption = some [false] ∧
      (Shop.picked "icontains" (.text "e")).toOption = some [false] ∧
      (Shop.picked "not_icontains" (.text "e")).toOption = some [false] ∧
      (Shop.picked "neq" (.text "electronics")).toOption = some [true] := by
  decide +kernel

end OwnColumn

end Sift
