import Sift.Proofs.Outcome
import Sift.Request.Ordering

/-!
# The terms of an ordering

An ordering is compiled in steps: the direction of the fields without one, the fields that it names, a term for each of
them, and the default term where there are none. What each step finds is said here once, and what it takes for an object
to name a field.
-/

namespace Sift

theorem Direction.parse_word (d default : Direction) : parse (.text d.word) default = .ok d := by
  cases d <;> rfl

theorem Row.get?_text_cons (key name : String) (v : Value) (row : Row) :
    Table.get? (.text name) ((.text key, v) :: row) = if key = name then some v else Table.get? (.text name) row := by
  simp only [Table.get?, Value.text_beq_iff, Value.text.injEq]

/-- Of some keys a row has one, with a value under it. -/
def Row.Singles (keys : List String) (v : Value) (row : Row) : Prop :=
  ∃ key ∈ keys, Table.get? (.text key) row = some v ∧
    ∀ other ∈ keys, other ≠ key → Table.get? (.text other) row = none

namespace SortOrder

/-! ## Objects -/

def fieldKeys : List String := ["order_by", "orderby", "column", "field"]

def directionKeys : List String := ["direction", "dir"]

def directionValue (d : Option Direction) : Value := d.elim .null fun d => .text d.word

/-- An object names a field under one of the keys for it, and gives it a direction under one of the keys for that or not
at all. -/
structure Says (entries : Row) (name : String) (direction : Option Direction) : Prop where
  field : entries.Singles fieldKeys (.text name)
  undirected : direction = none → ∀ key ∈ directionKeys, Table.get? (.text key) entries = none
  directed : ∀ d ∈ direction, entries.Singles directionKeys (.text d.word)

theorem not_mem_directionKeys : ∀ key ∈ fieldKeys, key ∉ directionKeys := by decide

theorem says_pair {key key' : String} (hkey : key ∈ fieldKeys) (hkey' : key' ∈ directionKeys) (name : String)
    (d : Direction) : Says [(.text key, .text name), (.text key', .text d.word)] name (some d) where
  field := by
    refine ⟨key, hkey, by rw [Row.get?_text_cons, if_pos rfl], fun other hother hne => ?_⟩
    have hne' : key' ≠ other := fun heq => not_mem_directionKeys other hother (heq ▸ hkey')
    rw [Row.get?_text_cons, if_neg (Ne.symm hne), Row.get?_text_cons, if_neg hne', Table.get?]
  undirected := nofun
  directed := by
    rintro d ⟨⟩
    have hdisjoint : ∀ other ∈ directionKeys, key ≠ other := fun other hother heq =>
      not_mem_directionKeys key hkey (heq ▸ hother)
    refine ⟨key', hkey', ?_, fun other hother hne => ?_⟩
    · rw [Row.get?_text_cons, if_neg (hdisjoint key' hkey'), Row.get?_text_cons, if_pos rfl]
    · rw [Row.get?_text_cons, if_neg (hdisjoint other hother), Row.get?_text_cons, if_neg (Ne.symm hne), Table.get?]

theorem says_single {key : String} (hkey : key ∈ fieldKeys) (name : String) :
    Says [(.text key, .text name)] name none where
  field := by
    refine ⟨key, hkey, by rw [Row.get?_text_cons, if_pos rfl], fun other _ hne => ?_⟩
    rw [Row.get?_text_cons, if_neg (Ne.symm hne), Table.get?]
  undirected _ other hother := by
    have hne : key ≠ other := fun heq => not_mem_directionKeys key hkey (heq ▸ hother)
    rw [Row.get?_text_cons, if_neg hne, Table.get?]
  directed := nofun

theorem parse_directionValue (d : Option Direction) (default : Direction) :
    Direction.parse (directionValue d) default = .ok (d.getD default) := by
  cases d with
  | none => rfl
  | some d => exact Direction.parse_word d default

theorem find?_of_singles {keys : List String} {v : Value} {row : Row} (h : row.Singles keys v) :
    ∃ key, (keys.find? fun key => row.contains key) = some key ∧ row.get key = v := by
  obtain ⟨key, hkey, hget, hothers⟩ := h
  have hcontains : row.contains key = true := by rw [Row.contains, Table.contains, hget]; rfl
  cases hfind : keys.find? fun key => row.contains key with
  | none => exact absurd hcontains (List.find?_eq_none.mp hfind key hkey)
  | some found =>
    have hfound : found = key := by
      by_contra hne
      have hthere := List.find?_some hfind
      rw [Row.contains, Table.contains, hothers found (List.mem_of_find?_eq_some hfind) hne] at hthere
      cases hthere
    exact ⟨found, rfl, by rw [hfound, Row.get, hget, Option.getD_some]⟩

theorem find?_truthy_of_singles {keys : List String} {v : Value} {row : Row} (h : row.Singles keys v)
    (hv : v.truthy = true) : (keys.map fun key => row.get key).find? Value.truthy = some v := by
  obtain ⟨key, hkey, hget, hothers⟩ := h
  have hvalue : row.get key = v := by rw [Row.get, hget, Option.getD_some]
  cases hfind : (keys.map fun key => row.get key).find? Value.truthy with
  | none => exact absurd hv (List.find?_eq_none.mp hfind v (List.mem_map.mpr ⟨key, hkey, hvalue⟩))
  | some found =>
    obtain ⟨other, hother, rfl⟩ := List.mem_map.mp (List.mem_of_find?_eq_some hfind)
    by_cases hne : other = key
    · rw [hne, hvalue]
    · have hthere := List.find?_some hfind
      rw [Row.get, hothers other hother hne] at hthere
      cases hthere

theorem Says.objectField {entries : Row} {name : String} {d : Option Direction} (h : Says entries name d)
    (hne : name ≠ "") : objectField entries = .ok (name, directionValue d) := by
  have htruthy : (Value.text name).truthy = true := by simpa [Value.truthy] using hne
  have hfield := find?_truthy_of_singles h.field htruthy
  have hdirection : ((directionKeys.find? fun key => entries.contains key).elim .null fun key => entries.get key) =
      directionValue d := by
    cases d with
    | none =>
      rw [List.find?_eq_none.mpr]
      · rfl
      · intro key hkey
        rw [Row.contains, Table.contains, h.undirected rfl key hkey]
        exact Bool.false_ne_true
    | some d =>
      obtain ⟨key, hkey, hvalue⟩ := find?_of_singles (h.directed d rfl)
      rw [hkey, Option.elim_some, hvalue]
      rfl
  simp only [fieldKeys, directionKeys] at hfield hdirection
  simp only [SortOrder.objectField, hfield, hdirection]

/-! ## The fields that are named -/

theorem fields_text (s : String) : fields (.text s) = .ok (signedFields s) := by
  cases hs : s.isEmpty with
  | true =>
    obtain rfl : s = "" := by simpa using hs
    rfl
  | false => simp only [fields, Value.truthy, hs, Bool.not_false, if_true]

theorem fields_list {items : List Value} : fields (.list items) = List.flatten <$> items.mapM itemFields := by
  cases items with
  | nil => rfl
  | cons v vs => rfl

theorem fields_tuple {items : List Value} : fields (.tuple items) = List.flatten <$> items.mapM itemFields := by
  cases items with
  | nil => rfl
  | cons v vs => rfl

theorem Says.fields_object {entries : Row} {name : String} {d : Option Direction} (h : Says entries name d)
    (hne : name ≠ "") : fields (.object entries) = .ok [(name, directionValue d)] := by
  have htruthy : (Value.object entries).truthy = true := by
    cases entries with
    | nil =>
      obtain ⟨key, -, hget, -⟩ := h.field
      cases hget
    | cons entry rest => rfl
  simp only [fields, htruthy, if_true, h.objectField hne]
  rfl

end SortOrder

namespace OrderRules

/-! ## Terms -/

variable {r : OrderRules} {default : Direction} {name : String} {v direction : Value} {ref : FieldRef} {t : OrderTerm}
  {terms : List OrderTerm} {o : SortOrder}

/-- The column that a field is ordered by, of which a row has to have one at most. -/
def column (r : OrderRules) (name : String) : Except Fault FieldRef := do
  let ref ← r.field true (.text name)
  if ref.many.truthy then throw (.malformed (.orderedByMany name))
  return ref

theorem column_eq_ok_iff : r.column name = .ok ref ↔ r.field true (.text name) = .ok ref ∧ ref.many.truthy = false := by
  simp only [column, bind_eq_ok_iff]
  constructor
  · rintro ⟨ref', href, h⟩
    cases hmany : ref'.many.truthy with
    | true =>
      rw [hmany] at h
      cases h
    | false =>
      rw [hmany] at h
      cases h
      exact ⟨href, hmany⟩
  · rintro ⟨href, hmany⟩
    exact ⟨ref, href, by rw [hmany]; rfl⟩

theorem term_eq (r : OrderRules) (default : Direction) (name : String) (direction : Value) :
    r.term default name direction = (do
      let ref ← r.column name
      return ⟨name, ref, ← Direction.parse direction default⟩) := by
  simp only [term, column]
  cases r.field true (.text name) with
  | error e => rfl
  | ok ref =>
    simp only [bind, Except.bind]
    cases ref.many.truthy <;> rfl

theorem term_eq_ok_iff : r.term default name direction = .ok t ↔
    t.field = name ∧ r.column name = .ok t.ref ∧ Direction.parse direction default = .ok t.direction := by
  simp only [term_eq, bind_eq_ok_iff, pure_eq_ok_iff]
  constructor
  · rintro ⟨ref, href, d, hd, rfl⟩
    exact ⟨rfl, href, hd⟩
  · rintro ⟨rfl, href, hd⟩
    exact ⟨t.ref, href, t.direction, hd, rfl⟩

/-- An ordering by the terms that a request names, or by the default one if it names none. -/
def complete (r : OrderRules) (terms : List OrderTerm) : Except Fault SortOrder := do
  if terms.isEmpty then return ⟨[← r.defaultTerm], []⟩
  return ⟨terms, joins terms⟩

theorem complete_of_ne_nil (r : OrderRules) (h : terms ≠ []) : r.complete terms = .ok ⟨terms, joins terms⟩ := by
  rw [complete, List.isEmpty_eq_false_iff.mpr h]
  rfl

theorem compile_eq (r : OrderRules) (v direction : Value) : r.compile v direction = (do
    let default ← Direction.parse direction r.defaultDirection
    let fields ← SortOrder.fields v
    r.complete (← fields.mapM fun f => r.term default f.1 f.2)) := rfl

theorem compile_eq_ok_iff : r.compile v direction = .ok o ↔
    ∃ default, Direction.parse direction r.defaultDirection = .ok default ∧
      ∃ fields, SortOrder.fields v = .ok fields ∧
        ∃ terms, fields.mapM (fun f => r.term default f.1 f.2) = .ok terms ∧ r.complete terms = .ok o := by
  simp only [compile_eq, bind_eq_ok_iff]

theorem complete_eq_ok_iff : r.complete terms = .ok o ↔
    (terms ≠ [] ∧ o = ⟨terms, joins terms⟩) ∨ terms = [] ∧ ∃ t, r.defaultTerm = .ok t ∧ o = ⟨[t], []⟩ := by
  cases terms with
  | nil =>
    simp only [complete, List.isEmpty_nil, if_true, bind_eq_ok_iff, pure_eq_ok_iff, ne_eq, not_true_eq_false, false_and,
      false_or, true_and]
    exact exists_congr fun t => and_congr_right fun _ => eq_comm
  | cons t ts =>
    rw [complete_of_ne_nil r (List.cons_ne_nil t ts), Except.ok.injEq]
    simp only [ne_eq, reduceCtorEq, not_false_eq_true, true_and, false_and, or_false]
    exact eq_comm

end OrderRules

end Sift
