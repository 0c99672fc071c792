import Sift.Proofs.Number.Exact
import Sift.Proofs.Number.Numerals
import Sift.Proofs.Operator.Listings
import Sift.Request.Filter

/-!
# Numerals and the integers they name

A query string gives an integer as its numeral, a body as the integer itself. On a column of integers both are the same
value. On a column of numbers the numeral is read as a binary number, so it keeps its value only where the integer is
one.
-/

namespace Sift

/-- Is the text the numeral of an integer, with any blanks around it? -/
def IsNumeral (s : String) (n : Int) : Prop := Text.Pads s (toString n)

variable {s : String} {n : Int} {op : Operator} {type : ColumnType} {u v w : Value}

theorem IsNumeral.trimmed (h : IsNumeral s n) : Text.trimmed s = toString n :=
  Text.Pads.trimmed_eq h (trimmed_toString n)

theorem isNumeral_toString (n : Int) : IsNumeral (toString n) n := .refl _

/-! ## Coercion -/

namespace ColumnType

theorem coerce_int (htype : type ∈ [.integer, .decimal]) : type.coerce (.int n) = .ok (.int n) := by
  simp only [List.mem_cons, List.not_mem_nil, or_false] at htype
  rcases htype with rfl | rfl <;> rfl

theorem integer_coerce_numeral (hn : n.natAbs < 10 ^ Numeral.maxDigits) (hs : IsNumeral s n) :
    integer.coerce (.text s) = .ok (.int n) := by
  simp only [coerce, toInteger, readInteger, hs.trimmed, Numeral.int_toString hn]

theorem decimal_coerce_numeral (hs : IsNumeral s n) :
    decimal.coerce (.text s) = finite (Binary64.ofDecimal (decide (n < 0)) n.natAbs 0) := by
  simp only [coerce, toNumber, readNumber, hs.trimmed, Numeral.binary64?_toString]

/-- On a column of numbers a numeral keeps its value exactly where the integer is a binary number. -/
theorem decimal_keeps_numeral_iff (hs : IsNumeral s n) :
    (∃ v, decimal.coerce (.text s) = .ok v ∧ (v == .int n) = true) ↔ Binary64.Representable n := by
  rw [decimal_coerce_numeral hs, ← Binary64.toRat?_ofDecimal_iff]
  generalize Binary64.ofDecimal (decide (n < 0)) n.natAbs 0 = x
  constructor
  · rintro ⟨v, hv, heq⟩
    unfold finite at hv
    split at hv
    · rename_i hx
      cases hv
      exact (Value.float_beq_int hx).mp heq
    · cases hv
  · intro hrat
    have hx : x.isFinite = true := by
      cases x with
      | finite => rfl
      | _ => cases hrat
    exact ⟨.float x, if_pos hx, (Value.float_beq_int hx).mpr hrat⟩

theorem coerce_numeral (htype : type ∈ [.integer, .decimal]) (hn : n.natAbs < 10 ^ Numeral.maxDigits)
    (hs : IsNumeral s n) : type.coerce (.text s) = type.coerce (.text (toString n)) := by
  simp only [List.mem_cons, List.not_mem_nil, or_false] at htype
  rcases htype with rfl | rfl
  · rw [integer_coerce_numeral hn hs, integer_coerce_numeral hn (isNumeral_toString n)]
  · rw [decimal_coerce_numeral hs, decimal_coerce_numeral (isNumeral_toString n)]

/-- The types of numbers that a numeral keeps its value for. -/
theorem keeps_numeral_iff (htype : type ∈ [.integer, .decimal]) (hn : n.natAbs < 10 ^ Numeral.maxDigits)
    (hs : IsNumeral s n) :
    (∃ v, type.coerce (.text s) = .ok v ∧ (v == .int n) = true) ↔ type = .integer ∨ Binary64.Representable n := by
  simp only [List.mem_cons, List.not_mem_nil, or_false] at htype
  rcases htype with rfl | rfl
  · exact iff_of_true ⟨.int n, integer_coerce_numeral hn hs, Value.int_beq_int.mpr rfl⟩ (.inl rfl)
  · rw [decimal_keeps_numeral_iff hs]
    exact ⟨.inr, fun h => h.resolve_left ColumnType.noConfusion⟩

end ColumnType

/-! ## Clauses -/

namespace Operator

/-- An operator that compares a column of numbers with the value it is given, or with a list of such values. -/
structure TakesNumbers (op : Operator) : Prop where
  anyText : op.textOnly.truthy = false
  anyBoolean : op.booleanOnly.truthy = false
  noLiteral : op.literal = .null
  noPattern : op.place = none

/-- A value as the operator hands it on: on its own, or as the only one of a list. -/
def handed (op : Operator) (v : Value) : Value := if op.takesList.truthy then .tuple [v] else v

theorem handed_beq_handed : (op.handed u == op.handed v) = (u == v) := by
  unfold handed
  split
  · show Value.same (.tuple [u]) (.tuple [v]) = Value.same u v
    simp only [Value.same, Value.sameList, Bool.and_true]
  · rfl

theorem TakesNumbers.prepare_int (h : op.TakesNumbers) (htype : type ∈ [.integer, .decimal]) (name : String) :
    op.prepare name type (.int n) = .ok (op.handed (.int n)) := by
  unfold prepare handed pattern
  simp only [h.anyText, h.anyBoolean, h.noLiteral, h.noPattern, Bool.false_and, Bool.false_eq_true, if_false]
  split
  · simp only [splitList, List.mapM_cons, List.mapM_nil, ColumnType.coerce_int htype]
    rfl
  · rw [ColumnType.coerce_int htype]
    rfl

theorem listable_toString (n : Int) : Listable (toString n) where
  nonempty h := by
    have hlist := toList_toString n
    rw [h, String.toList_empty, eq_comm, List.append_eq_nil_iff] at hlist
    exact Nat.toDigits_ne_nil hlist.2
  whole hcomma := by
    rw [toList_toString] at hcomma
    rcases List.mem_append.mp hcomma with hsign | hdigit
    · split at hsign
      · simp at hsign
      · cases hsign
    · exact absurd (isDigit_of_mem_toDigits _ hdigit) (by decide)
  trimmed := trimmed_toString n

theorem TakesNumbers.prepare_numeral (h : op.TakesNumbers) (htype : type ∈ [.integer, .decimal])
    (hn : n.natAbs < 10 ^ Numeral.maxDigits) (hs : IsNumeral s n) (name : String) :
    op.prepare name type (.text s) = op.handed <$> (type.coerce (.text s)).mapError fun reason =>
      .query (.typeMismatch name op.token (.text s) reason) := by
  obtain ⟨before, after, hb, ha, hchars⟩ := hs
  have hsplit : splitList (.text s) = [.text (toString n)] :=
    splitList_of_lists (.last (hchars ▸ .value (toString n) before after hb ha))
      fun x hx => List.mem_singleton.mp hx ▸ listable_toString n
  unfold prepare handed pattern
  simp only [h.anyText, h.anyBoolean, h.noLiteral, h.noPattern, Bool.false_and, Bool.false_eq_true, if_false]
  split
  · rw [hsplit, List.mapM_cons, List.mapM_nil, ← ColumnType.coerce_numeral htype hn ⟨before, after, hb, ha, hchars⟩]
    cases type.coerce (.text s) <;> rfl
  · cases type.coerce (.text s) <;> rfl

end Operator

theorem FilterRules.clause_eq_ok_iff {name : String} {ref : FieldRef} {c : Clause} :
    clause name ref op v = .ok c ↔ ∃ w, op.prepare name ref.type v = .ok w ∧ ⟨ref, op.kind, w, op.token⟩ = c := by
  simp only [clause, bind_eq_ok_iff, pure_eq_ok_iff]

/-- The clauses that a numeral and its integer give compare with equal values on columns of integers, and on columns
of numbers exactly where the integer is a binary number. -/
theorem FilterRules.clause_numeral_iff (h : op.TakesNumbers) {ref : FieldRef} (htype : ref.type ∈ [.integer, .decimal])
    (hn : n.natAbs < 10 ^ Numeral.maxDigits) (hs : IsNumeral s n) (name : String) :
    (∃ c c', clause name ref op (.text s) = .ok c ∧ clause name ref op (.int n) = .ok c' ∧
        (c.value == c'.value) = true) ↔
      ref.type = .integer ∨ Binary64.Representable n := by
  rw [← ColumnType.keeps_numeral_iff htype hn hs]
  simp only [clause_eq_ok_iff, h.prepare_int htype, h.prepare_numeral htype hn hs, map_eq_ok_iff, mapError_eq_ok_iff]
  constructor
  · rintro ⟨c, c', ⟨w, ⟨u, hu, rfl⟩, rfl⟩, ⟨w', hw', rfl⟩, heq⟩
    cases hw'
    exact ⟨u, hu, Operator.handed_beq_handed.symm.trans heq⟩
  · rintro ⟨u, hu, heq⟩
    exact ⟨_, _, ⟨_, ⟨u, hu, rfl⟩, rfl⟩, ⟨_, rfl, rfl⟩, Operator.handed_beq_handed.trans heq⟩

/-! ## What numerals keep -/

namespace ColumnType

/-- The numeral of an integer of at most 4300 digits is the integer itself on a column of integers. On a column of
numbers, which take the integer as it is, the numeral equals it exactly where it is a binary number, and so do the
clauses that both give. -/
theorem numeral_kept_iff (hn : n.natAbs < 10 ^ Numeral.maxDigits) (hs : IsNumeral s n) :
    integer.coerce (.text s) = .ok (.int n) ∧ (∀ type ∈ [integer, decimal], type.coerce (.int n) = .ok (.int n)) ∧
      ((∃ v, decimal.coerce (.text s) = .ok v ∧ (v == .int n) = true) ↔ Binary64.Representable n) ∧
      ∀ op : Operator, op.TakesNumbers → ∀ (name : String) (ref : FieldRef), ref.type ∈ [integer, decimal] →
        ((∃ c c', FilterRules.clause name ref op (.text s) = .ok c ∧ FilterRules.clause name ref op (.int n) = .ok c' ∧
            (c.value == c'.value) = true) ↔
          ref.type = .integer ∨ Binary64.Representable n) :=
  ⟨integer_coerce_numeral hn hs, fun _ htype => coerce_int htype, decimal_keeps_numeral_iff hs,
    fun _ hop name _ htype => FilterRules.clause_numeral_iff hop htype hn hs name⟩

theorem numeral_kept_iff_padded :
    let price : FieldRef := { entity := .text "Product", column := "price", type := .decimal }
    let atLeast : Operator := { token := "gte", kind := .gte }
    ∃ v c c', (-42 : Int).natAbs < 10 ^ Numeral.maxDigits ∧ IsNumeral " -42\n" (-42) ∧
      integer.coerce (.text " -42\n") = .ok (.int (-42)) ∧
      decimal.coerce (.text " -42\n") = .ok v ∧ (v == .int (-42)) = true ∧
      FilterRules.clause "price" price atLeast (.text " -42\n") = .ok c ∧
      FilterRules.clause "price" price atLeast (.int (-42)) = .ok c' ∧ (c.value == c'.value) = true := by
  intro price atLeast
  have hn : (-42 : Int).natAbs < 10 ^ Numeral.maxDigits :=
    Nat.lt_of_lt_of_le (show 42 < 10 ^ 2 by decide) (Nat.pow_le_pow_right (by decide) (by decide))
  have hs : IsNumeral " -42\n" (-42) := ⟨[' '], ['\n'], by decide, by decide, rfl⟩
  have hbits : Binary64.Representable (-42) := ⟨42, 0, by decide, by decide, rfl⟩
  obtain ⟨hinteger, -, hdecimal, hclause⟩ := numeral_kept_iff hn hs
  obtain ⟨v, hv, heq⟩ := hdecimal.mpr hbits
  obtain ⟨c, c', hc⟩ := (hclause atLeast ⟨rfl, rfl, rfl, rfl⟩ "price" price (by decide)).mpr (.inr hbits)
  exact ⟨v, c, c', hn, hs, hinteger, hv, heq, hc⟩

/-- The first positive integer that is no binary number loses its last bit. -/
theorem numeral_rounded : IsNumeral "9007199254740993" 9007199254740993 ∧
    decimal.coerce (.text "9007199254740993") = .ok (.float (.finite false 4503599627370496 1)) ∧
    (Value.float (.finite false 4503599627370496 1) == .int 9007199254740993) = false ∧
    decimal.coerce (.int 9007199254740993) = .ok (.int 9007199254740993) := by
  have hs : IsNumeral "9007199254740993" 9007199254740993 := isNumeral_toString 9007199254740993
  refine ⟨hs, ?_, ?_, rfl⟩
  · have hratio : Binary64.ofRatio false 9007199254740993 1 = .finite false 4503599627370496 1 := by decide
    have hlength : ¬ 400 < (toString 9007199254740993).length := by decide
    rw [decimal_coerce_numeral hs]
    refine (congrArg finite ((Binary64.ofDecimal_int false (by decide)).trans ((if_neg hlength).trans hratio))).trans rfl
  · rw [← Bool.not_eq_true, Value.float_beq_int rfl]
    exact fun h => absurd (Binary64.toRat?_eq_int_iff (n := 9007199254740993).mp h) (by decide)

end ColumnType

end Sift
