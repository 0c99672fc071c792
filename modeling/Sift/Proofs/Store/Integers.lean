import Sift.Proofs.Filter.WellTyped
import Sift.Proofs.Store.Run

/-!
# Integers beyond those of a store

A store takes in everything that a plan with well-typed clauses hands over, but for integers that it does not keep. The
limit and the offset are handed over as they are, and so are the integers that columns of integers are compared with.
-/

namespace Sift

/-- The scalars that requests and columns of known types have. -/
inductive Value.IsScalar : Value → Prop
  | null : IsScalar .null
  | bool (b : Bool) : IsScalar (.bool b)
  | int (n : Int) : IsScalar (.int n)
  | float (x : Binary64) : IsScalar (.float x)
  | date (d : Date) : IsScalar (.date d)
  | moment (t : Moment) : IsScalar (.moment t)
  | text (s : String) : IsScalar (.text s)

theorem ColumnType.Holds.isScalar {type : ColumnType} {v : Value} (h : type.Holds v) : v.IsScalar := by
  cases h with
  | integer n | whole n => exact .int n
  | number x => exact .float x
  | truth b => exact .bool b
  | day d => exact .date d
  | moment t => exact .moment t
  | text s => exact .text s

namespace Storage

variable {v w : Value}

theorem takeIn_eq_overflow_iff : takeIn v = .error .overflow ↔ ∃ n, v = .int n ∧ fitsStore n = false := by
  cases v with
  | int n =>
    rw [takeIn]
    cases hfits : fitsStore n <;> simp [hfits]
  | _ => simp [takeIn]

/-- The value is taken in, unless it is an integer that is too large. -/
def IsStorable (v : Value) : Prop := takeIn v = .error .overflow ∨ ∃ cell, takeIn v = .ok cell

theorem isStorable_int (n : Int) : IsStorable (.int n) := by
  rw [IsStorable, takeIn]
  split
  · exact .inr ⟨_, rfl⟩
  · exact .inl rfl

theorem mapM_takeIn_eq_overflow_iff {vs : List Value} (h : ∀ v ∈ vs, IsStorable v) :
    vs.mapM takeIn = .error .overflow ↔ ∃ n, .int n ∈ vs ∧ fitsStore n = false := by
  constructor
  · intro hvs
    obtain ⟨v, hv, htake⟩ := exists_of_mapM_eq_error hvs
    obtain ⟨n, rfl, hn⟩ := takeIn_eq_overflow_iff.mp htake
    exact ⟨n, hv, hn⟩
  · rintro ⟨n, hmem, hn⟩
    cases hvs : vs.mapM takeIn with
    | ok cells =>
      obtain ⟨cell, -, hcell⟩ := exists_mem_of_mapM_eq_ok hvs _ hmem
      cases (takeIn_eq_overflow_iff.mpr ⟨n, rfl, hn⟩).symm.trans hcell
    | error fault =>
      obtain ⟨v, hv, htake⟩ := exists_of_mapM_eq_error hvs
      rcases h v hv with hlarge | ⟨cell, hcell⟩
      · cases htake.symm.trans hlarge
        rfl
      · cases hcell.symm.trans htake

/-! ## Handing over -/

/-- What is handed over is the value itself, a text, a number, or a truth value as an integer. -/
theorem handOver_cases (s : Storage) (v : Value) : s.handOver v = .error .unfitting ∨
    ∃ w, s.handOver v = .ok w ∧ (w = v ∨ (∃ t, w = .text t) ∨ (∃ x, w = .float x) ∨ w = .int 0 ∨ w = .int 1) := by
  unfold handOver
  split
  case h_5 =>
    cases v.document? with
    | none => exact .inl rfl
    | some d => exact .inr ⟨_, rfl, .inr (.inl ⟨d, rfl⟩)⟩
  case h_7 =>
    cases binary? v with
    | none => exact .inl rfl
    | some x => exact .inr ⟨_, rfl, .inr (.inr (.inl ⟨x, rfl⟩))⟩
  case h_8 =>
    split
    · exact .inr ⟨_, rfl, .inr (.inr (.inr (.inl rfl)))⟩
    · split
      · exact .inr ⟨_, rfl, .inr (.inr (.inr (.inr rfl)))⟩
      · exact .inl rfl
  all_goals first
    | exact .inl rfl
    | exact .inr ⟨_, rfl, .inl rfl⟩
    | exact .inr ⟨_, rfl, .inr (.inl ⟨_, rfl⟩)⟩

theorem handOver_ne_overflow (s : Storage) (v : Value) : s.handOver v ≠ .error .overflow := by
  intro h
  rcases s.handOver_cases v with herror | ⟨w, hok, -⟩
  · cases herror.symm.trans h
  · cases hok.symm.trans h

/-- Whatever is handed over for a scalar is of a kind that a store has. -/
theorem isStorable_of_handOver {s : Storage} (hv : v.IsScalar) (h : s.handOver v = .ok w) : IsStorable w := by
  rcases s.handOver_cases v with herror | ⟨w', hok, hw⟩
  · cases herror.symm.trans h
  cases hok.symm.trans h
  rcases hw with rfl | ⟨t, rfl⟩ | ⟨x, rfl⟩ | rfl | rfl
  · cases hv with
    | int n => exact isStorable_int n
    | _ => exact .inr ⟨_, rfl⟩
  · exact .inr ⟨_, rfl⟩
  · exact .inr ⟨_, rfl⟩
  · exact isStorable_int 0
  · exact isStorable_int 1

/-- Integers are handed over as they are, with whatever they are compared. -/
theorem handOver_comparing_int (column : Storage) (n : Int) (v : Value) :
    (column.comparing (.int n)).handOver v = .ok v := by
  cases column with
  | choice words => rfl
  | _ => rfl

end Storage

/-! ## Comparisons -/

/-- The values that a clause compares with. -/
def Clause.operands (c : Clause) : List Value :=
  match c.value with
  | .tuple vs => vs
  | v => [v]

theorem Clause.isScalar_of_operand {c : Clause} (h : c.value.IsScalar) : ∀ v ∈ c.operands, v.IsScalar := by
  obtain ⟨ref, kind, v, token⟩ := c
  have hone : Clause.operands ⟨ref, kind, v, token⟩ = [v] := by
    cases h with
    | _ => rfl
  rw [hone]
  exact List.forall_mem_singleton.mpr h

/-- Columns of known types are compared with scalars. -/
theorem Clause.isScalar_of_wellTyped {c : Clause} (hc : c.WellTyped) (htype : c.field.type ≠ .other) :
    ∀ v ∈ c.operands, v.IsScalar := by
  obtain ⟨ref, kind, v, token⟩ := c
  have hfits {v : Value} (hv : ref.type.Fits v) : v.IsScalar := ((ColumnType.fits_iff_holds htype).mp hv).isScalar
  have hnullable (h : v = .null ∨ ref.type.Fits v) : v.IsScalar := by
    rcases h with hnull | hv
    · rw [hnull]
      exact .null
    · exact hfits hv
  cases kind with
  | eq | neq => exact isScalar_of_operand (hnullable hc)
  | ieq => exact isScalar_of_operand (hnullable hc.2)
  | gt | gte | lt | lte => exact isScalar_of_operand (hfits hc.1)
  | oneOf | notOneOf =>
    obtain ⟨vs, hvs, hitems⟩ := hc
    cases hvs
    exact fun v hv => hfits (hitems v hv)
  | like | notLike | ilike | notIlike =>
    obtain ⟨-, t, ht⟩ := hc
    cases ht
    exact isScalar_of_operand (.text t)

/-- An operand that suits the column is no list, and a scalar if the operands are. -/
theorem Clause.isScalar_of_fits {c : Clause} (hscalar : ∀ v ∈ c.operands, v.IsScalar) (h : c.field.type.Fits c.value) :
    c.value.IsScalar := by
  obtain ⟨ref, kind, v, token⟩ := c
  by_cases htype : ref.type = .other
  · rw [ColumnType.Fits, if_pos htype] at h
    cases v with
    | tuple vs => cases h
    | _ => exact hscalar _ List.mem_cons_self
  · exact ((ColumnType.fits_iff_holds htype).mp h).isScalar

theorem Comparison.ofOrdered_cases (kind : OperatorKind) (column : Storage) {v : Value} (hv : v.IsScalar) :
    (∃ fault, ofOrdered kind column v = .error fault ∧ fault ≠ .overflow) ∨
      ∃ x, ofOrdered kind column v = .ok x ∧ ∀ v ∈ x.values, v.IsScalar := by
  rw [ofOrdered]
  split
  · exact .inr ⟨_, rfl, List.forall_mem_singleton.mpr hv⟩
  · exact .inl ⟨_, rfl, Fault.noConfusion⟩

/-- The integers that a value consists of. -/
def Value.integers : Value → List Int
  | .int n => [n]
  | .tuple vs => vs.filterMap fun v => match v with | .int n => some n | _ => none
  | _ => []

theorem Value.mem_integers_tuple {vs : List Value} {n : Int} : n ∈ (Value.tuple vs).integers ↔ .int n ∈ vs := by
  simp only [integers, List.mem_filterMap]
  constructor
  · rintro ⟨v, hv, hn⟩
    split at hn
    · cases hn
      exact hv
    · cases hn
  · exact fun hn => ⟨_, hn, rfl⟩

namespace Store

variable {s : Store} {entity : String} {c : Clause} {plan : Plan} {m : Model}

/-- What a well-typed clause asks of its column are scalars, if its operands are and it can be asked at all. -/
theorem comparison_cases (s : Store) (entity : String) (hc : c.WellTyped) (hscalar : ∀ v ∈ c.operands, v.IsScalar) :
    (∃ fault, s.comparison entity c = .error fault ∧ fault ≠ .overflow) ∨
      ∃ x, s.comparison entity c = .ok x ∧ ∀ v ∈ x.values, v.IsScalar := by
  have hfits := Clause.isScalar_of_fits hscalar
  obtain ⟨ref, kind, v, token⟩ := c
  have hone {v : Value} (hv : v.IsScalar) : ∀ u ∈ [v], u.IsScalar := List.forall_mem_singleton.mpr hv
  have hnone : ∀ u ∈ ([] : List Value), u.IsScalar := fun _ hu => absurd hu List.not_mem_nil
  cases kind with
  | eq | neq =>
    by_cases hnull : v = .null
    · cases hnull
      exact .inr ⟨_, rfl, hnone⟩
    · exact .inr ⟨_, Matcher.comparison_of_ne_null hnull (by simp), hone (hfits (hc.resolve_left hnull))⟩
  | gt | gte | lt | lte => exact Comparison.ofOrdered_cases _ _ (hfits hc.1)
  | oneOf | notOneOf =>
    obtain ⟨vs, hvs, -⟩ := hc
    cases hvs
    exact .inr ⟨_, rfl, hscalar⟩
  | like | notLike =>
    obtain ⟨-, t, ht⟩ := hc
    cases ht
    exact Comparison.ofOrdered_cases _ _ (.text t)
  | ilike | notIlike =>
    obtain ⟨-, t, ht⟩ := hc
    cases ht
    unfold comparison
    cases s.matcher with
    | patterns => exact Comparison.ofOrdered_cases _ _ (.text t)
    | lowering => exact .inr ⟨_, rfl, hone (.text t)⟩
    | none => exact .inl ⟨_, rfl, Fault.noConfusion⟩
  | ieq =>
    obtain ⟨htext, hnull | hv⟩ := hc
    · cases hnull
      exact .inr ⟨_, rfl, hnone⟩
    · obtain ⟨t, ht⟩ := hv.exists_text htext
      cases ht
      unfold comparison
      cases s.matcher with
      | patterns => exact .inr ⟨_, rfl, hone (.text _)⟩
      | lowering => exact .inr ⟨_, rfl, hone (.text t)⟩
      | none => exact .inl ⟨_, rfl, Fault.noConfusion⟩

/-- A clause about a column of integers can be asked, and its integers are handed over as they are. -/
theorem exists_comparison_of_integer (s : Store) (entity : String) (hc : c.WellTyped)
    (htype : c.field.type = .integer) : ∃ x, s.comparison entity c = .ok x ∧ x.handedOver = .ok x.values ∧
      ∀ n, .int n ∈ x.values ↔ n ∈ c.value.integers := by
  obtain ⟨ref, kind, v, token⟩ := c
  have hint {v : Value} (hv : ref.type.Fits v) : ∃ k, v = .int k := by
    have hholds := (ColumnType.fits_iff_holds (by rw [htype]; exact ColumnType.noConfusion)).mp hv
    rw [htype] at hholds
    cases hholds with
    | integer k => exact ⟨k, rfl⟩
  have hvalue (k : Int) (column : Storage) : (Comparison.ofValue kind column (.int k)).handedOver = .ok [.int k] := by
    simp only [Comparison.handedOver, Comparison.ofValue, List.mapM_cons, List.mapM_nil,
      Storage.handOver_comparing_int, bind, Except.bind, pure, Except.pure]
  have hmem (k n : Int) : .int n ∈ [Value.int k] ↔ n ∈ (Value.int k).integers := by simp [Value.integers]
  have hnot (htext : ref.type = .text) : False := ColumnType.noConfusion (htype.symm.trans htext)
  cases kind with
  | eq | neq =>
    rcases hc with hnull | hv
    · cases hnull
      exact ⟨_, rfl, rfl, fun n => by simp [Value.integers]⟩
    · obtain ⟨k, hk⟩ := hint hv
      cases hk
      exact ⟨_, rfl, hvalue k _, hmem k⟩
  | gt | gte | lt | lte =>
    obtain ⟨k, hk⟩ := hint hc.1
    cases hk
    exact ⟨_, rfl, hvalue k _, hmem k⟩
  | oneOf | notOneOf =>
    obtain ⟨vs, hvs, hitems⟩ := hc
    cases hvs
    refine ⟨_, rfl, ?_, fun n => Value.mem_integers_tuple.symm⟩
    cases vs with
    | nil => rfl
    | cons first rest =>
      obtain ⟨k, rfl⟩ := hint (hitems first List.mem_cons_self)
      exact (mapM_eq_ok fun v _ => Storage.handOver_comparing_int _ k v).trans (by rw [List.map_id'])
  | like | notLike | ilike | notIlike | ieq => exact (hnot hc.1).elim

/-! ## Plans -/

/-- What a plan hands over: the values that it compares with, its limit and its offset. -/
def handed (s : Store) (plan : Plan) : Except Fault (List Value) := do
  let xs ← s.comparisons plan
  let (limit, offset) ← window plan.page
  return (← xs.mapM Comparison.handedOver).flatten ++ (limit :: offset.toList).map Value.int

/-- The limit and the offset of a page of a whole size. Without rows before the page there is no offset. -/
theorem window_eq {page : Page} {size : Int} (h : page.size.integer? = some size) :
    window page = .ok (size, if (page.number - 1) * size = 0 then none else some ((page.number - 1) * size)) := by
  have hlimit : page.limit.truncated = .ok size := Quantity.truncated_of_integer? h
  have hoffset : page.offset = .ok (.whole ((page.number - 1) * size)) := Quantity.times_of_integer? h _
  have htruthy : (Quantity.whole ((page.number - 1) * size)).toValue.truthy = ((page.number - 1) * size != 0) := rfl
  simp only [window, hlimit, hoffset, htruthy, bind, Except.bind]
  by_cases hzero : (page.number - 1) * size = 0
  · rw [if_neg (by rw [hzero]; decide), if_pos hzero]
    rfl
  · rw [if_pos (bne_iff_ne.mpr hzero), if_neg hzero]
    rfl

theorem run_eq_overflow_iff (hm : Model.find? s.models plan.entity = some m) (fresh : plan.spent = false) :
    s.run plan = .error .overflow ↔
      s.handed plan = .error .overflow ∨ ∃ vs, s.handed plan = .ok vs ∧ vs.mapM Storage.takeIn = .error .overflow := by
  have hconsume : plan.consume = .ok { plan with spent := true } := by
    rw [Plan.consume, if_neg (by rw [fresh]; exact Bool.false_ne_true)]
  have hcomparisons : s.comparisons { plan with spent := true } = s.comparisons plan := rfl
  simp only [run, hconsume, hm, hcomparisons, handed, ask, bind, Except.bind]
  cases s.comparisons plan with
  | error fault => simp
  | ok xs =>
    simp only
    cases window plan.page with
    | error fault => simp
    | ok w =>
      obtain ⟨limit, offset⟩ := w
      simp only
      cases xs.mapM Comparison.handedOver with
      | error fault => simp
      | ok given =>
        simp only [pure, Except.pure, reduceCtorEq, false_or, Except.ok.injEq, exists_eq_left']
        cases (given.flatten ++ (limit :: offset.toList).map Value.int).mapM Storage.takeIn with
        | error fault =>
          constructor
          · intro h
            cases h
            rfl
          · intro h
            cases h
            rfl
        | ok cells =>
          -- what is left refuses only words
          refine iff_of_false (fun h => ?_) (by simp)
          rw [show discard (Except.ok cells : Except Fault (List Cell)) = .ok () from rfl] at h
          simp only at h
          generalize List.all _ _ = legible at h
          cases legible <;> cases h

variable {size : Int} {vs : List Value}

/-- Well-typed clauses that compare with scalars. -/
def IsTyped (plan : Plan) : Prop :=
  ∀ c ∈ plan.criteria.predicate.clauses, c.WellTyped ∧ ∀ v ∈ c.operands, v.IsScalar

theorem handed_ne_overflow (hsize : plan.page.size.integer? = some size) (htyped : IsTyped plan) :
    s.handed plan ≠ .error .overflow := by
  intro h
  simp only [handed, window_eq hsize, bind, Except.bind] at h
  cases hxs : s.comparisons plan with
  | error fault =>
    rw [hxs] at h
    cases h
    obtain ⟨c, hc, hfault⟩ := exists_of_mapM_eq_error hxs
    obtain ⟨hwell, hscalar⟩ := htyped c (List.mem_filter.mp hc).1
    rcases s.comparison_cases plan.entity hwell hscalar with ⟨fault, herror, hne⟩ | ⟨x, hx, -⟩
    · cases herror.symm.trans hfault
      exact hne rfl
    · cases hx.symm.trans hfault
  | ok xs =>
    rw [hxs] at h
    simp only at h
    cases hgiven : xs.mapM Comparison.handedOver with
    | ok given =>
      rw [hgiven] at h
      cases h
    | error fault =>
      rw [hgiven] at h
      cases h
      obtain ⟨x, -, hfault⟩ := exists_of_mapM_eq_error hgiven
      obtain ⟨v, -, hfault⟩ := exists_of_mapM_eq_error hfault
      exact Storage.handOver_ne_overflow _ _ hfault

theorem isStorable_of_handed (hsize : plan.page.size.integer? = some size) (htyped : IsTyped plan)
    (h : s.handed plan = .ok vs) : ∀ v ∈ vs, Storage.IsStorable v := by
  simp only [handed, window_eq hsize, bind_eq_ok_iff, pure_eq_ok_iff] at h
  obtain ⟨xs, hxs, _, -, given, hgiven, rfl⟩ := h
  intro v hv
  rcases List.mem_append.mp hv with hv | hv
  · obtain ⟨ws, hws, hv⟩ := List.mem_flatten.mp hv
    obtain ⟨x, hx, hws⟩ := mem_of_mapM_eq_ok hgiven ws hws
    obtain ⟨c, hc, hx⟩ := mem_of_mapM_eq_ok hxs x hx
    obtain ⟨u, hu, hv⟩ := mem_of_mapM_eq_ok hws v hv
    obtain ⟨hwell, hscalar⟩ := htyped c (List.mem_filter.mp hc).1
    rcases s.comparison_cases plan.entity hwell hscalar with ⟨fault, herror, -⟩ | ⟨x', hx', hvalues⟩
    · cases herror.symm.trans hx
    · cases hx'.symm.trans hx
      exact Storage.isStorable_of_handOver (hvalues u hu) hv
  · obtain ⟨n, -, rfl⟩ := List.mem_map.mp hv
    exact Storage.isStorable_int n

/-- Only an integer that is handed over overflows, and every integer does that the store does not keep. -/
theorem run_overflows_iff (hm : Model.find? s.models plan.entity = some m) (fresh : plan.spent = false)
    (hsize : plan.page.size.integer? = some size) (htyped : IsTyped plan) :
    s.run plan = .error .overflow ↔ ∃ vs n, s.handed plan = .ok vs ∧ .int n ∈ vs ∧ fitsStore n = false := by
  rw [run_eq_overflow_iff hm fresh, or_iff_right (handed_ne_overflow hsize htyped)]
  constructor
  · rintro ⟨vs, hvs, htake⟩
    obtain ⟨n, hn, hfits⟩ := (Storage.mapM_takeIn_eq_overflow_iff (isStorable_of_handed hsize htyped hvs)).mp htake
    exact ⟨vs, n, hvs, hn, hfits⟩
  · rintro ⟨vs, n, hvs, hn, hfits⟩
    exact ⟨vs, hvs, (Storage.mapM_takeIn_eq_overflow_iff (isStorable_of_handed hsize htyped hvs)).mpr ⟨n, hn, hfits⟩⟩

theorem mem_handed_numbers (hsize : plan.page.size.integer? = some size) (h : s.handed plan = .ok vs) :
    .int size ∈ vs ∧ ((plan.page.number - 1) * size ≠ 0 → .int ((plan.page.number - 1) * size) ∈ vs) := by
  simp only [handed, window_eq hsize, bind_eq_ok_iff, pure_eq_ok_iff] at h
  obtain ⟨xs, -, _, hwindow, given, -, rfl⟩ := h
  cases hwindow
  refine ⟨List.mem_append_right _ List.mem_cons_self, fun hne => List.mem_append_right _ ?_⟩
  rw [if_neg hne]
  exact List.mem_cons_of_mem _ (List.mem_singleton_self _)

theorem mem_handed_integers {n : Int} (h : s.handed plan = .ok vs) (hc : c ∈ plan.criteria.predicate.clauses)
    (hwell : c.WellTyped) (htype : c.field.type = .integer) (hn : n ∈ c.value.integers) : .int n ∈ vs := by
  simp only [handed, bind_eq_ok_iff, pure_eq_ok_iff] at h
  obtain ⟨xs, hxs, _, -, given, hgiven, rfl⟩ := h
  -- null has no integers
  have hkey : (!asksForKey c) = true := by
    rw [asksForKey, Bool.not_and, Bool.or_eq_true]
    refine .inr ?_
    cases hv : c.value with
    | null => rw [hv] at hn; cases hn
    | _ => rfl
  obtain ⟨x, hx, hcomparison⟩ := exists_mem_of_mapM_eq_ok hxs c (List.mem_filter.mpr ⟨hc, hkey⟩)
  obtain ⟨x', hx', hhanded, hmem⟩ := s.exists_comparison_of_integer plan.entity hwell htype
  cases hx'.symm.trans hcomparison
  obtain ⟨ws, hws, hx⟩ := exists_mem_of_mapM_eq_ok hgiven _ hx
  cases hhanded.symm.trans hx
  exact List.mem_append_left _ (List.mem_flatten.mpr ⟨_, hws, (hmem n).mpr hn⟩)

/-- A plan that asks for integers only hands over nothing else. -/
theorem exists_handed (hsize : plan.page.size.integer? = some size)
    (hintegers : ∀ c ∈ plan.criteria.predicate.clauses, c.WellTyped ∧ c.field.type = .integer) :
    ∃ vs, s.handed plan = .ok vs ∧ ∀ n, .int n ∈ vs → n = size ∨ n = (plan.page.number - 1) * size ∨
      ∃ c ∈ plan.criteria.predicate.clauses, n ∈ c.value.integers := by
  obtain ⟨xs, hxs, hvalues⟩ : ∃ xs, s.comparisons plan = .ok xs ∧ ∀ x ∈ xs, x.handedOver = .ok x.values ∧
      ∀ n, .int n ∈ x.values → ∃ c ∈ plan.criteria.predicate.clauses, n ∈ c.value.integers := by
    refine exists_mapM_eq_ok fun c hc => ?_
    have hmem := (List.mem_filter.mp hc).1
    obtain ⟨hwell, htype⟩ := hintegers c hmem
    obtain ⟨x, hx, hhanded, hintegers⟩ := s.exists_comparison_of_integer plan.entity hwell htype
    exact ⟨x, hx, hhanded, fun n hn => ⟨c, hmem, (hintegers n).mp hn⟩⟩
  have hgiven : xs.mapM Comparison.handedOver = .ok (xs.map Comparison.values) :=
    mapM_eq_ok fun x hx => (hvalues x hx).1
  refine ⟨_, by simp only [handed, hxs, window_eq hsize, hgiven, bind, Except.bind]; rfl, fun n hn => ?_⟩
  rcases List.mem_append.mp hn with hn | hn
  · obtain ⟨ws, hws, hn⟩ := List.mem_flatten.mp hn
    obtain ⟨x, hx, rfl⟩ := List.mem_map.mp hws
    exact .inr (.inr ((hvalues x hx).2 n hn))
  · obtain ⟨k, hk, heq⟩ := List.mem_map.mp hn
    cases heq
    rcases List.mem_cons.mp hk with rfl | hk
    · exact .inl rfl
    · split at hk
      · exact absurd hk List.not_mem_nil
      · exact .inr (.inl (List.mem_singleton.mp hk))

/-- The store keeps the limit, the offset and all integers that the clauses of a plan are about. -/
structure Keeps (plan : Plan) (size : Int) : Prop where
  limit : fitsStore size = true
  offset : fitsStore ((plan.page.number - 1) * size) = true
  clauses : ∀ c ∈ plan.criteria.predicate.clauses, ∀ n ∈ c.value.integers, fitsStore n = true

theorem run_overflows_iff_not_keeps (hm : Model.find? s.models plan.entity = some m) (fresh : plan.spent = false)
    (hsize : plan.page.size.integer? = some size)
    (hintegers : ∀ c ∈ plan.criteria.predicate.clauses, c.WellTyped ∧ c.field.type = .integer) :
    s.run plan = .error .overflow ↔ ¬ Keeps plan size := by
  have htyped : IsTyped plan := fun c hc =>
    ⟨(hintegers c hc).1,
      Clause.isScalar_of_wellTyped (hintegers c hc).1 (by rw [(hintegers c hc).2]; exact ColumnType.noConfusion)⟩
  obtain ⟨vs, hvs, honly⟩ := exists_handed (s := s) hsize hintegers
  obtain ⟨hlimit, hoffset⟩ := mem_handed_numbers hsize hvs
  have hall : Keeps plan size ↔ ∀ n, .int n ∈ vs → fitsStore n = true := by
    constructor
    · intro h n hn
      rcases honly n hn with rfl | rfl | ⟨c, hc, hmem⟩
      · exact h.limit
      · exact h.offset
      · exact h.clauses c hc n hmem
    · intro h
      refine ⟨h _ hlimit, ?_, fun c hc n hn => ?_⟩
      · by_cases hzero : (plan.page.number - 1) * size = 0
        · rw [hzero]
          rfl
        · exact h _ (hoffset hzero)
      · exact h n (mem_handed_integers hvs hc (hintegers c hc).1 (hintegers c hc).2 hn)
  rw [run_overflows_iff hm fresh hsize htyped, hall]
  push Not
  constructor
  · rintro ⟨vs', n, hvs', hn, hfits⟩
    cases hvs.symm.trans hvs'
    exact ⟨n, hn, by rw [hfits]; exact Bool.false_ne_true⟩
  · rintro ⟨n, hn, hfits⟩
    exact ⟨vs, n, hvs, hn, Bool.not_eq_true _ |>.mp hfits⟩

end Store

end Sift
