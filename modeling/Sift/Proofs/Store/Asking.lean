import Sift.Operator.Preparation
import Sift.Proofs.Outcome
import Sift.Proofs.Schema.Typed
import Sift.Proofs.Value.Numbers
import Sift.Store.Basic

/-!
# What a store can be asked

A comparison can be asked when all its values can be handed over and taken in. For the usual operators and a column of
a known type that leaves two things out: integers beyond those that a store keeps, and an order of truth values.
-/

namespace Sift

/-! ## Integers as binary numbers -/

theorem fitsStore_iff {n : Int} : fitsStore n = true ↔ -2 ^ 63 ≤ n ∧ n < 2 ^ 63 := by
  have hsize : ((twoTo 63 : Nat) : Int) = 2 ^ 63 := rfl
  rw [fitsStore, Bool.and_eq_true, decide_eq_true_iff, decide_eq_true_iff, hsize]

namespace Binary64

theorem isFinite_ofRatio {negative : Bool} {num den : Nat} (h : binaryOrder num den < 1000) :
    (ofRatio negative num den).isFinite = true := by
  unfold ofRatio
  split
  · rfl
  -- rounding up moves the exponent by one at most
  have hexponent (m : Nat) : ¬ maxExponent <
      (if m = twoTo 53 then (twoTo 52, max minExponent (binaryOrder num den - 52) + 1)
        else (m, max minExponent (binaryOrder num den - 52))).2 := by
    simp only [minExponent, maxExponent]
    split
    · simp only
      omega
    · simp only
      omega
  simp only [if_neg (hexponent _), isFinite]

theorem isFinite_ofInt {n : Int} (h : fitsStore n = true) : (ofInt n).isFinite = true := by
  obtain ⟨hlow, hhigh⟩ := fitsStore_iff.mp h
  by_cases h0 : n.natAbs = 0
  · rw [ofInt, h0]
    rfl
  have hlog : n.natAbs.log2 < 64 := (Nat.log2_lt h0).mpr (by omega)
  refine isFinite_ofRatio ?_
  simp only [binaryOrder, show Nat.log2 1 = 0 by decide]
  split
  · omega
  · omega

theorem ofInt?_of_fits {n : Int} (h : fitsStore n = true) : ofInt? n = .ok (ofInt n) := by
  have hfinite := isFinite_ofInt h
  unfold ofInt?
  cases hx : ofInt n with
  | finite negative m e => rfl
  | _ => simp only [hx, isFinite, Bool.false_eq_true] at hfinite

theorem ofBinary_of_isFinite {x : Binary64} (h : x.isFinite = true) : Cell.ofBinary x = .real x := by
  cases x with
  | nan o => cases h
  | _ => rfl

end Binary64

/-! ## Handing over -/

/-- All integers that a value consists of are kept by a store. -/
def Value.InRange : Value → Prop
  | .int n => fitsStore n = true
  | .tuple vs => ∀ n : Int, .int n ∈ vs → fitsStore n = true
  | _ => True

theorem Value.inRange_of_holds {type : ColumnType} {v : Value} (hv : type.Holds v)
    (h : ∀ n : Int, v = .int n → fitsStore n = true) : v.InRange := by
  cases hv with
  | integer n => exact h n rfl
  | whole n => exact h n rfl
  | _ => trivial

namespace Storage

variable {column : Storage} {v w : Value}

theorem takeIn_int {n : Int} (h : fitsStore n = true) : takeIn (.int n) = .ok (.integer n) := by
  rw [takeIn, if_pos h]

theorem handOver_bool (b : Bool) : handOver .boolean (.bool b) = .ok (.int (if b then 1 else 0)) := by
  cases b <;> simp [handOver, Value.bool_beq_int]

theorem isNull_ofBinary {x : Binary64} (h : x.isFinite = true) : (Cell.ofBinary x).isNull = false := by
  cases x with
  | finite negative m e => rfl
  | _ => cases h

/-- A value of the column's type can be handed over as any value of that type is, and is taken in as a cell that holds
something. -/
theorem exists_cell (hv : column.columnType.Holds v) (hw : column.columnType.Holds w) (hrange : v.InRange) :
    ∃ handed cell, (column.comparing w).handOver v = .ok handed ∧ takeIn handed = .ok cell ∧ cell.isNull = false := by
  cases column with
  | integer =>
    cases hv with
    | integer n =>
      cases hw
      exact ⟨_, _, rfl, takeIn_int hrange, rfl⟩
  | real =>
    -- numbers go together whichever of them comes first
    cases hv with
    | whole n =>
      cases hw with
      | whole m => exact ⟨_, _, rfl, takeIn_int hrange, rfl⟩
      | number y hy =>
        have hhand : handOver .real (.int n) = .ok (.float (Binary64.ofInt n)) := by
          simp only [handOver, binary?, Binary64.ofInt?_of_fits hrange, Except.toOption, Option.elim_some]
        exact ⟨_, _, hhand, rfl, isNull_ofBinary (Binary64.isFinite_ofInt hrange)⟩
    | number x hx =>
      cases hw with
      | whole m => exact ⟨_, _, rfl, rfl, isNull_ofBinary hx⟩
      | number y hy => exact ⟨_, _, rfl, rfl, isNull_ofBinary hx⟩
  | boolean =>
    cases hv with
    | truth b =>
      cases hw
      exact ⟨_, .integer (if b then 1 else 0), handOver_bool b, by cases b <;> rfl, rfl⟩
  | date =>
    cases hv with
    | day d =>
      cases hw
      exact ⟨_, _, rfl, rfl, rfl⟩
  | moment =>
    cases hv with
    | moment t =>
      cases hw
      exact ⟨_, _, rfl, rfl, rfl⟩
  | text =>
    cases hv with
    | text t =>
      cases hw
      exact ⟨_, _, rfl, rfl, rfl⟩
  | wrapped =>
    cases hv with
    | text t => exact ⟨_, _, rfl, rfl, rfl⟩
  | choice words =>
    cases hv with
    | text t =>
      cases hw
      exact ⟨_, _, rfl, rfl, rfl⟩
  | document => cases hv
  | bytes => cases hv
  | computed => cases hv

theorem exists_takeIn (hv : column.columnType.Holds v) (hw : column.columnType.Holds w) (hrange : v.InRange) :
    ∃ handed, (column.comparing w).handOver v = .ok handed ∧ ∃ cell, takeIn handed = .ok cell := by
  obtain ⟨handed, cell, hhanded, hcell, -⟩ := exists_cell hv hw hrange
  exact ⟨handed, hhanded, cell, hcell⟩

end Storage

/-! ## The usual operators -/

namespace OperatorKind

def isMembership : OperatorKind → Bool
  | .oneOf | .notOneOf => true
  | _ => false

def isEquality : OperatorKind → Bool
  | .eq | .neq | .ieq => true
  | _ => false

def isTextual : OperatorKind → Bool
  | .ieq | .like | .ilike | .notLike | .notIlike => true
  | _ => false

def isOrder : OperatorKind → Bool
  | .gt | .gte | .lt | .lte => true
  | _ => false

end OperatorKind

namespace Operator

/-- Do the switches of an operator suit its kind? -/
def isSound (op : Operator) : Bool :=
  (!op.nullable.truthy || op.kind.isEquality) && op.takesList.truthy == op.kind.isMembership &&
    (!(op.kind.isTextual || op.place.isSome) || op.textOnly.truthy) &&
    match op.literal with
    | .null => true
    | .bool _ => op.kind = .eq && op.booleanOnly.truthy
    | _ => false

theorem isSound_of_mem_defaults {op : Operator} (h : op ∈ defaults) : op.isSound = true := by
  have hall : defaults.all isSound = true := by decide
  exact List.all_eq_true.mp hall op h

/-- What a sound operator makes of a value for a column of a known type. -/
inductive Makes (op : Operator) (type : ColumnType) : Value → Prop
  | null : op.kind.isEquality = true → Makes op type .null
  | items (vs : List Value) : op.kind.isMembership = true → (∀ v ∈ vs, type.Holds v) → Makes op type (.tuple vs)
  | one (v : Value) : op.kind.isMembership = false → (op.kind.isTextual = true → type = .text) → type.Holds v →
      Makes op type v

variable {op : Operator} {type : ColumnType} {name : String} {v w : Value}

theorem pattern_fits (hplace : op.place.isSome = true → type = .text) (hv : type.Fits v) (hnull : v ≠ .null)
    (h : op.pattern name v = .ok w) : type.Fits w ∧ w ≠ .null := by
  unfold pattern at h
  cases hp : op.place with
  | none =>
    rw [hp] at h
    cases h
    exact ⟨hv, hnull⟩
  | some place =>
    obtain rfl := hplace (by rw [hp]; rfl)
    obtain ⟨t, rfl⟩ := hv.exists_text rfl
    rw [hp] at h
    cases h
    exact ⟨.text _, Value.noConfusion⟩

/-- What is prepared is a value of the operator's own, null, a list of coerced items or one coerced value. -/
theorem prepare_cases (h : op.prepare name type v = .ok w) :
    (op.textOnly.truthy = true → type = .text) ∧ (op.booleanOnly.truthy = true → type = .boolean) ∧
      (op.literal ≠ .null ∧ w = op.literal ∨
        op.nullable.truthy = true ∧ v = .null ∧ w = .null ∨
        op.takesList.truthy = true ∧ (∃ vs, (splitList v).mapM type.coerce = .ok vs ∧ w = .tuple vs) ∨
        op.takesList.truthy = false ∧ v ≠ .null ∧ ∃ u, type.coerce v = .ok u ∧ op.pattern name u = .ok w) := by
  unfold prepare at h
  simp only at h
  split at h
  · cases h
  rename_i htextOnly
  split at h
  · cases h
  rename_i hbooleanOnly
  simp only [Bool.and_eq_true, decide_eq_true_eq, not_and, not_not] at htextOnly hbooleanOnly
  refine ⟨htextOnly, hbooleanOnly, ?_⟩
  split at h
  · split at h
    · exact .inr (.inl ⟨‹_›, rfl, (Except.ok.inj h).symm⟩)
    · cases h
  · rename_i hv
    split at h
    · obtain ⟨vs, hvs, rfl⟩ := map_eq_ok_iff.mp h
      exact .inr (.inr (.inl ⟨‹_›, vs, mapError_eq_ok_iff.mp hvs, rfl⟩))
    · rename_i htakes
      split at h
      case h_5 =>
        obtain ⟨u, hu, h⟩ := bind_eq_ok_iff.mp h
        exact .inr (.inr (.inr ⟨Bool.not_eq_true _ |>.mp htakes, hv, u, mapError_eq_ok_iff.mp hu, h⟩))
      all_goals cases h
  · rename_i hliteral _
    exact .inl ⟨hliteral, (Except.ok.inj h).symm⟩

/-- What a sound operator makes of a value, for a column of any type. -/
inductive Yields (op : Operator) (type : ColumnType) : Value → Prop
  | null : op.kind.isEquality = true → (op.kind.isTextual = true → type = .text) → Yields op type .null
  | items (vs : List Value) : op.kind.isMembership = true → (∀ v ∈ vs, type.Fits v) → Yields op type (.tuple vs)
  | one (v : Value) : op.kind.isMembership = false → (op.kind.isTextual = true → type = .text) → type.Fits v →
      v ≠ .null → Yields op type v

theorem prepare_yields (hsound : op.isSound = true) (h : op.prepare name type v = .ok w) : Yields op type w := by
  simp only [isSound, Bool.and_eq_true, Bool.or_eq_true, Bool.not_eq_true', beq_iff_eq] at hsound
  obtain ⟨⟨⟨hnull, hlist⟩, htext⟩, hliteral⟩ := hsound
  obtain ⟨htextOnly, hbooleanOnly, hcases⟩ := prepare_cases h
  have htextual (hk : op.kind.isTextual = true) : type = .text := by
    refine htextOnly (htext.resolve_left ?_)
    simp [hk]
  have hplace (hp : op.place.isSome = true) : type = .text := by
    refine htextOnly (htext.resolve_left ?_)
    simp [hp]
  rcases hcases with ⟨hown, rfl⟩ | ⟨hnullable, -, rfl⟩ | ⟨htakes, vs, hvs, rfl⟩ | ⟨htakes, hv, u, hu, hw⟩
  · -- a value of the operator's own
    cases hl : op.literal with
    | bool b =>
      rw [hl] at hliteral
      simp only [Bool.and_eq_true, decide_eq_true_eq] at hliteral
      obtain rfl := hbooleanOnly hliteral.2
      exact .one _ (by rw [hliteral.1]; rfl) htextual (.truth b) Value.noConfusion
    | null => exact absurd hl hown
    | _ => rw [hl] at hliteral; cases hliteral
  · exact .null (hnull.resolve_left (by simp [hnullable])) htextual
  · refine .items vs (hlist ▸ htakes) fun v hv => ?_
    obtain ⟨item, -, hitem⟩ := mem_of_mapM_eq_ok hvs v hv
    exact ColumnType.coerce_fits hitem
  · obtain ⟨hfits, hne⟩ := pattern_fits hplace (ColumnType.coerce_fits hu) (ColumnType.coerce_ne_null hv hu) hw
    exact .one w (hlist ▸ htakes) htextual hfits hne

theorem prepare_makes (hsound : op.isSound = true) (htype : type ≠ .other) (h : op.prepare name type v = .ok w) :
    Makes op type w := by
  cases prepare_yields hsound h with
  | null hkind => exact .null hkind
  | items vs hkind hvs => exact .items vs hkind fun v hv => (ColumnType.fits_iff_holds htype).mp (hvs v hv)
  | one w hkind htext hw => exact .one w hkind htext ((ColumnType.fits_iff_holds htype).mp hw)

/-- Only null is prepared as null. -/
theorem prepare_ne_null (hsound : op.isSound = true) (hv : v ≠ .null) (h : op.prepare name type v = .ok w) :
    w ≠ .null := by
  simp only [isSound, Bool.and_eq_true, Bool.or_eq_true, Bool.not_eq_true', beq_iff_eq] at hsound
  obtain ⟨⟨-, htext⟩, -⟩ := hsound
  obtain ⟨htextOnly, -, ⟨hown, rfl⟩ | ⟨-, hnull, -⟩ | ⟨-, vs, -, rfl⟩ | ⟨-, -, u, hu, hw⟩⟩ := prepare_cases h
  · exact hown
  · exact absurd hnull hv
  · exact Value.noConfusion
  · have hplace (hp : op.place.isSome = true) : type = .text := htextOnly (htext.resolve_left (by simp [hp]))
    exact (pattern_fits hplace (ColumnType.coerce_fits hu) (ColumnType.coerce_ne_null hv hu) hw).2

/-- What an operator of equality makes of a value for a column of a known type is null or a value of the column. -/
theorem prepare_eq_cases (hsound : op.isSound = true) (hkind : op.kind = .eq) (htype : type ≠ .other)
    (h : op.prepare name type v = .ok w) : w = .null ∨ type.Holds w := by
  cases prepare_makes hsound htype h with
  | null => exact .inl rfl
  | items vs hmember =>
    rw [hkind] at hmember
    cases hmember
  | one w _ _ hw => exact .inr hw

end Operator

/-! ## Asking -/

/-- The values of a comparison are handed over and taken in. -/
def Comparison.Taken (x : Comparison) : Prop :=
  ∃ handed, x.handedOver = .ok handed ∧ ∀ v ∈ handed, ∃ cell, Storage.takeIn v = .ok cell

namespace Comparison

variable {kind : OperatorKind} {column : Storage} {v : Value}

theorem taken_ofValue (hv : column.columnType.Holds v) (hrange : v.InRange) : (ofValue kind column v).Taken := by
  obtain ⟨given, hgiven, htaken⟩ := Storage.exists_takeIn hv hv hrange
  refine ⟨[given], ?_, fun u hu => List.mem_singleton.mp hu ▸ htaken⟩
  simp only [ofValue, handedOver, List.mapM_cons, List.mapM_nil, hgiven, bind, Except.bind, pure, Except.pure]

theorem taken_ofText (s : String) : (ofText kind (.text s)).Taken :=
  ⟨[.text s], rfl, fun _ hu => List.mem_singleton.mp hu ▸ ⟨.text s, rfl⟩⟩

theorem exists_ofItems {vs : List Value} (hvs : ∀ v ∈ vs, column.columnType.Holds v)
    (hrange : (Value.tuple vs).InRange) : ∃ x, ofItems kind column (.tuple vs) = .ok x ∧ x.Taken := by
  have hitems : ∀ v ∈ vs, ∃ given, (column.comparing (vs.headD .null)).handOver v = .ok given ∧
      ∃ cell, Storage.takeIn given = .ok cell := by
    intro v hv
    cases vs with
    | nil => cases hv
    | cons first rest =>
      exact Storage.exists_takeIn (hvs v hv) (hvs first List.mem_cons_self)
        (Value.inRange_of_holds (hvs v hv) fun n hn => hrange n (hn ▸ hv))
  obtain ⟨handed, hhanded, htaken⟩ := exists_mapM_eq_ok hitems
  exact ⟨_, rfl, handed, hhanded, htaken⟩

theorem exists_ofOrdered (hv : column.columnType.Holds v) (hrange : v.InRange)
    (horder : column.columnType ≠ .boolean) : ∃ x, ofOrdered kind column v = .ok x ∧ x.Taken := by
  have hordered : isOrdered column v = true := by
    generalize column.columnType = type at hv horder
    cases hv with
    | truth b => exact absurd rfl horder
    | _ => rfl
  exact ⟨_, by rw [ofOrdered, if_pos hordered], taken_ofValue hv hrange⟩

end Comparison

namespace Matcher

variable {m : Matcher} {kind : OperatorKind} {column : Storage}

theorem comparison_of_ne_null {v : Value} (hv : v ≠ .null) (hkind : kind = .eq ∨ kind = .neq) :
    m.comparison column kind v = .ok (.ofValue kind column v) := by
  rcases hkind with rfl | rfl <;> cases v <;> first
    | rfl
    | exact absurd rfl hv

/-- A text can be matched, either with a pattern that ignores case or in small letters. -/
theorem exists_comparison_text (hm : m ≠ .none) (hcolumn : column.columnType = .text) (hkind : kind.isTextual = true)
    (t : String) : ∃ x, m.comparison column kind (.text t) = .ok x ∧ x.Taken := by
  have hvalue (k : OperatorKind) (u : String) : (Comparison.ofValue k column (.text u)).Taken :=
    Comparison.taken_ofValue (hcolumn ▸ .text u) trivial
  cases kind with
  | like | notLike => exact ⟨_, rfl, hvalue _ t⟩
  | ieq =>
    cases m with
    | patterns => exact ⟨_, rfl, hvalue _ _⟩
    | lowering => exact ⟨_, rfl, Comparison.taken_ofText t⟩
    | none => exact absurd rfl hm
  | ilike | notIlike =>
    cases m with
    | patterns => exact ⟨_, rfl, hvalue _ t⟩
    | lowering => exact ⟨_, rfl, Comparison.taken_ofText t⟩
    | none => exact absurd rfl hm
  | _ => cases hkind

end Matcher

namespace Store

/-- There is such a comparison with the column, and all values that it needs are handed over and taken in. -/
def Askable (s : Store) (entity : String) (c : Clause) : Prop := ∃ x, s.comparison entity c = .ok x ∧ x.Taken

variable {s : Store} {entity : String} {ref : FieldRef} {column : Storage} {op : Operator} {name : String} {v w : Value}

/-- Whatever a sound operator makes of a value, a store can be asked for: but for integers beyond those that it keeps,
and for the order of truth values. -/
theorem askable_of_prepare (hsound : op.isSound = true) (hmatcher : s.matcher ≠ .none)
    (hcolumn : s.storageOf entity ref = column) (htype : column.columnType ≠ .other)
    (h : op.prepare name column.columnType v = .ok w) (hrange : w.InRange)
    (horder : op.kind.isOrder = true → column.columnType ≠ .boolean) (token : String) :
    s.Askable entity ⟨ref, op.kind, w, token⟩ := by
  suffices hasked : ∃ x, s.matcher.comparison column op.kind w = .ok x ∧ x.Taken by
    obtain ⟨x, hx, htaken⟩ := hasked
    exact ⟨x, by rw [comparison, hcolumn]; exact hx, htaken⟩
  cases Operator.prepare_makes hsound htype h with
  | null hkind =>
    have hnothing : Comparison.Taken ⟨op.kind, column, []⟩ := ⟨[], rfl, fun _ hu => absurd hu List.not_mem_nil⟩
    cases hk : op.kind <;> rw [hk] at hkind hnothing <;> first
      | exact ⟨_, rfl, hnothing⟩
      | cases hkind
  | items vs hkind hvs =>
    cases hk : op.kind <;> rw [hk] at hkind <;> first
      | exact Comparison.exists_ofItems hvs hrange
      | cases hkind
  | one w hkind htext hw =>
    have hordered (k : OperatorKind) (hk : op.kind.isOrder = true) : ∃ x, Comparison.ofOrdered k column w = .ok x ∧ x.Taken :=
      Comparison.exists_ofOrdered hw hrange (horder hk)
    have htextual (hk : op.kind.isTextual = true) : ∃ x, s.matcher.comparison column op.kind w = .ok x ∧ x.Taken := by
      obtain ⟨t, rfl⟩ := hw.exists_text (htext hk)
      exact Matcher.exists_comparison_text hmatcher (htext hk) hk t
    cases hk : op.kind with
    | eq | neq => exact ⟨_, Matcher.comparison_of_ne_null hw.ne_null (by simp), Comparison.taken_ofValue hw hrange⟩
    | gt | gte | lt | lte => exact hordered _ (by rw [hk]; rfl)
    | ieq | like | ilike | notLike | notIlike => exact hk ▸ htextual (by rw [hk]; rfl)
    | oneOf | notOneOf =>
      rw [hk] at hkind
      cases hkind

end Store

end Sift
