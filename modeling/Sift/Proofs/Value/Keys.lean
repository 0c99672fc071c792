import Sift.Proofs.Value.Numbers
import Sift.Proofs.Value.Tables

/-!
# Keys

What can be a key of a table is equal to another value exactly where both are taken for the same thing. So a table has
one answer for equal keys, whichever of them was put.
-/

namespace Sift

/-- What tells a moment from others: its instant, or what a clock on the wall shows. -/
def Moment.reading (t : Moment) : Nat ⊕ Int := t.instant?.elim (.inl t.wall) .inr

theorem Moment.same_iff_reading {s t : Moment} : s.same t = true ↔ s.reading = t.reading := by
  unfold same reading
  cases s.instant? <;> cases t.instant? <;> simp

/-- What a key is taken for. -/
inductive Face where
  | nothing
  | size (s : Size)
  | day (d : Date)
  | moment (reading : Nat ⊕ Int)
  | text (s : String)
  | nan (decimal : Bool) (origin : Nat)
  | tuple (faces : List Face)

/-- Is it what numbers are taken for? -/
def Face.isNumber : Face → Bool
  | .size _ | .nan .. => true
  | _ => false

namespace Value

mutual
/-- What a value is taken for, if it is made of values that may be equal to others and can be keys. -/
def face? : Value → Option Face
  | .null => some .nothing
  | .date d => some (.day d)
  | .moment t => some (.moment t.reading)
  | .text s => some (.text s)
  | .tuple xs => (faces? xs).map .tuple
  | .mapping a b c => (face? a).bind fun f => (face? b).bind fun g => (face? c).map fun h => .tuple [f, g, h]
  | .float (.nan origin) => some (.nan false origin)
  | .decimal (.nan _ _ _ origin) => some (.nan true origin)
  | v => v.size?.map .size

/-- What some values are taken for, one by one. -/
def faces? : List Value → Option (List Face)
  | [] => some []
  | x :: xs => (face? x).bind fun f => (faces? xs).map (f :: ·)
end

/-- The parts of a tuple, which a mapping is one of. -/
def parts? : Value → Option (List Value)
  | .tuple xs => some xs
  | .mapping a b c => some [a, b, c]
  | _ => none

variable {v w : Value}

/-! ## Numbers -/

theorem exists_size?_or_nan (h : v.isNumeric = true) :
    (∃ s, v.size? = some s) ∨ (∃ origin, v = .float (.nan origin)) ∨
      ∃ negative signalling payload origin, v = .decimal (.nan negative signalling payload origin) := by
  match v, h with
  | bool b, _ => exact .inl ⟨_, rfl⟩
  | int n, _ => exact .inl ⟨_, rfl⟩
  | float (.nan origin), _ => exact .inr (.inl ⟨origin, rfl⟩)
  | float (.infinite _), _ => exact .inl ⟨_, rfl⟩
  | float (.finite negative m e), _ =>
    left
    simp only [size?, Binary64.size?]
    split <;> exact ⟨_, rfl⟩
  | decimal (.nan ..), _ => exact .inr (.inr ⟨_, _, _, _, rfl⟩)
  | decimal (.infinite _), _ => exact .inl ⟨_, rfl⟩
  | decimal (.finite ..), _ => exact .inl ⟨_, rfl⟩

theorem face?_of_size? {s : Size} (h : v.size? = some s) : v.face? = some (.size s) := by
  unfold face?
  split
  case h_9 => rw [h, Option.map_some]
  all_goals cases h

theorem same_of_size?_of_nan {s : Size} (hv : v.size? = some s) (hw : w.size? = none) :
    v.same w = false ∧ w.same v = false := by
  constructor
  · unfold same
    split
    case h_13 => rw [hv, hw]
    all_goals cases hv
  · unfold same
    split
    case h_13 => rw [hv, hw]
    all_goals cases hv

theorem same_number (hv : v.isNumeric = true) (hw : w.isNumeric = true) :
    v.same w = true ↔ ∃ f, w.face? = some f ∧ v.face? = some f := by
  have hfloat (o : Nat) : (float (.nan o)).size? = none := rfl
  have hdecimal (n g : Bool) (q : String) (o : Nat) : (decimal (.nan n g q o)).size? = none := rfl
  rcases exists_size?_or_nan hv with ⟨s, hs⟩ | ⟨o, rfl⟩ | ⟨n, g, q, o, rfl⟩
  · have hface := face?_of_size? hs
    rcases exists_size?_or_nan hw with ⟨t, ht⟩ | ⟨o', rfl⟩ | ⟨n', g', q', o', rfl⟩
    · have hsame : v.same w = (s == t) := same_of_size? hs ht
      simp [hsame, hface, face?_of_size? ht]
    · simp [(same_of_size?_of_nan hs (hfloat o')).1, hface, face?]
    · simp [(same_of_size?_of_nan hs (hdecimal n' g' q' o')).1, hface, face?]
  · rcases exists_size?_or_nan hw with ⟨t, ht⟩ | ⟨o', rfl⟩ | ⟨n', g', q', o', rfl⟩
    · simp [(same_of_size?_of_nan ht (hfloat o)).2, face?_of_size? ht, face?]
    · simp [same, face?]
    · simp [same, face?, hfloat, hdecimal]
  · rcases exists_size?_or_nan hw with ⟨t, ht⟩ | ⟨o', rfl⟩ | ⟨n', g', q', o', rfl⟩
    · simp [(same_of_size?_of_nan ht (hdecimal n g q o)).2, face?_of_size? ht, face?]
    · simp [same, face?, hfloat, hdecimal]
    · simp [same, face?]

theorem face?_number (h : w.isNumeric = true) :
    (∃ s, w.face? = some (.size s)) ∨ ∃ decimal origin, w.face? = some (.nan decimal origin) := by
  rcases exists_size?_or_nan h with ⟨s, hs⟩ | ⟨o, rfl⟩ | ⟨_, _, _, o, rfl⟩
  · exact .inl ⟨s, face?_of_size? hs⟩
  · exact .inr ⟨_, _, rfl⟩
  · exact .inr ⟨_, _, rfl⟩

theorem isNumber_of_face? {f : Face} (h : w.face? = some f) : f.isNumber = w.isNumeric := by
  cases hw : w.isNumeric with
  | true =>
    rcases face?_number hw with ⟨s, hs⟩ | ⟨decimal, origin, hs⟩
    · rw [Option.some.inj (h.symm.trans hs), Face.isNumber]
    · rw [Option.some.inj (h.symm.trans hs), Face.isNumber]
  | false =>
    cases w
    case bool | int | float | decimal => cases hw
    all_goals simp only [face?, size?, Option.some.injEq, Option.bind_eq_some_iff, Option.map_eq_some_iff,
      Option.map_none, reduceCtorEq] at h
    case tuple =>
      obtain ⟨fs, -, rfl⟩ := h
      rfl
    case mapping =>
      obtain ⟨f₁, -, f₂, -, f₃, -, rfl⟩ := h
      rfl
    all_goals
      subst h
      rfl

theorem same_eq_false_of_isNumeric (h : v.isNumeric ≠ w.isNumeric) : v.same w = false := by
  cases v <;> cases w <;> first | exact absurd rfl h | simp [same, size?]

/-! ## Tuples -/

theorem face?_of_parts? {xs : List Value} (h : v.parts? = some xs) : v.face? = (faces? xs).map .tuple := by
  cases v with
  | tuple ys =>
    cases h
    rw [face?]
  | mapping a b c =>
    cases h
    simp only [face?, faces?]
    cases a.face? <;> cases b.face? <;> cases c.face? <;> rfl
  | _ => cases h

theorem same_iff_parts? {xs : List Value} (h : v.parts? = some xs) :
    v.same w = true ↔ ∃ ys, w.parts? = some ys ∧ sameList xs ys = true := by
  cases v with
  | tuple zs =>
    cases h
    cases w with
    | mapping x y z =>
      match xs with
      | [] | [_] | [_, _] | _ :: _ :: _ :: _ :: _ => simp [same, sameList, parts?, size?]
      | [a, b, c] => simp [same, sameList, parts?, and_assoc]
    | _ => simp [same, parts?, size?]
  | mapping a b c =>
    cases h
    cases w with
    | tuple zs =>
      match zs with
      | [] | [_] | [_, _] | _ :: _ :: _ :: _ :: _ => simp [same, sameList, parts?, size?]
      | [x, y, z] => simp [same, sameList, parts?, and_assoc]
    | mapping x y z => simp [same, sameList, parts?, and_assoc]
    | _ => simp [same, parts?, size?]
  | _ => cases h

theorem face?_eq_tuple_iff {fs : List Face} :
    w.face? = some (.tuple fs) ↔ ∃ ys, w.parts? = some ys ∧ faces? ys = some fs := by
  cases h : w.parts? with
  | some ys => simp [face?_of_parts? h]
  | none =>
    have hface : w.face? ≠ some (.tuple fs) := by
      cases hw : w.isNumeric with
      | true => rcases face?_number hw with ⟨s, hs⟩ | ⟨_, _, hs⟩ <;> simp [hs]
      | false => cases w <;> simp [face?, parts?, isNumeric, size?] at h hw ⊢
    simp [hface]

/-! ## Keys -/

theorem same_plain (hkey : v.isKey = true) (hparts : v.parts? = none) :
    v.same w = true ↔ ∃ f, w.face? = some f ∧ v.face? = some f := by
  by_cases h : v.isNumeric = w.isNumeric
  · cases hv : v.isNumeric with
    | true => exact same_number hv (h ▸ hv)
    | false =>
      rw [hv] at h
      cases v <;> simp only [isKey, isNumeric, parts?, reduceCtorEq] at hkey hv hparts
      all_goals cases w <;> simp [same, Moment.same_iff_reading, face?, isNumeric, size?, Option.bind_eq_some_iff] at h ⊢
  · rw [same_eq_false_of_isNumeric h]
    refine iff_of_false Bool.false_ne_true ?_
    rintro ⟨f, hw, hv⟩
    exact h ((isNumber_of_face? hv).symm.trans (isNumber_of_face? hw))

theorem same_tuple {xs : List Value} (hparts : v.parts? = some xs)
    (h : ∀ ys, sameList xs ys = true ↔ ∃ fs, faces? ys = some fs ∧ faces? xs = some fs) :
    v.same w = true ↔ ∃ f, w.face? = some f ∧ v.face? = some f := by
  rw [same_iff_parts? hparts, face?_of_parts? hparts]
  constructor
  · rintro ⟨ys, hys, hsame⟩
    obtain ⟨fs, hfs, hxs⟩ := (h ys).mp hsame
    exact ⟨.tuple fs, face?_eq_tuple_iff.mpr ⟨ys, hys, hfs⟩, by rw [hxs, Option.map_some]⟩
  · rintro ⟨f, hw, hv⟩
    obtain ⟨fs, hfs, rfl⟩ := Option.map_eq_some_iff.mp hv
    obtain ⟨ys, hys, hface⟩ := face?_eq_tuple_iff.mp hw
    exact ⟨ys, hys, (h ys).mpr ⟨fs, hface, hfs⟩⟩

theorem sameList_cons {x : Value} {xs : List Value}
    (hx : ∀ y, x.same y = true ↔ ∃ f, y.face? = some f ∧ x.face? = some f)
    (hxs : ∀ ys, sameList xs ys = true ↔ ∃ fs, faces? ys = some fs ∧ faces? xs = some fs) (ys : List Value) :
    sameList (x :: xs) ys = true ↔ ∃ fs, faces? ys = some fs ∧ faces? (x :: xs) = some fs := by
  cases ys with
  | nil => simp [sameList, faces?, Option.bind_eq_some_iff]
  | cons y ys =>
    simp only [sameList, faces?, Bool.and_eq_true, hx, hxs]
    constructor
    · rintro ⟨⟨f, hf, hf'⟩, fs, hfs, hfs'⟩
      simp [hf, hf', hfs, hfs']
    · rintro ⟨gs, hys, hxs⟩
      simp only [Option.bind_eq_some_iff, Option.map_eq_some_iff] at hys hxs
      obtain ⟨f, hf, fs, hfs, rfl⟩ := hys
      obtain ⟨f', hf', fs', hfs', heq⟩ := hxs
      cases heq
      exact ⟨⟨f, hf, hf'⟩, fs, hfs, hfs'⟩

theorem sameList_nil (ys : List Value) :
    sameList [] ys = true ↔ ∃ fs, faces? ys = some fs ∧ faces? [] = some fs := by
  cases ys with
  | nil => simp [sameList, faces?]
  | cons y ys => simp [sameList, faces?, Option.bind_eq_some_iff]

mutual
/-- A key equals exactly what is taken for the same thing. -/
theorem same_iff_face? : {v : Value} → v.isKey = true → (w : Value) →
    (v.same w = true ↔ ∃ f, w.face? = some f ∧ v.face? = some f)
  | .tuple xs, h, w => same_tuple rfl (sameList_iff_faces? (by simpa only [isKey] using h))
  | .mapping a b c, h, w => by
    simp only [isKey, Bool.and_eq_true] at h
    have hc := sameList_cons (same_iff_face? h.2) sameList_nil
    have hb := sameList_cons (same_iff_face? h.1.2) hc
    exact same_tuple rfl (sameList_cons (same_iff_face? h.1.1) hb)
  | .null, h, _ | .bool _, h, _ | .int _, h, _ | .float _, h, _ | .decimal _, h, _ | .date _, h, _ | .moment _, h, _
  | .text _, h, _ | .alien _, h, _ => same_plain h rfl

theorem sameList_iff_faces? : {xs : List Value} → areKeys xs = true → (ys : List Value) →
    (sameList xs ys = true ↔ ∃ fs, faces? ys = some fs ∧ faces? xs = some fs)
  | [], _, ys => sameList_nil ys
  | x :: xs, h, ys => by
    simp only [areKeys, Bool.and_eq_true] at h
    exact sameList_cons (same_iff_face? h.1) (sameList_iff_faces? h.2) ys
end

theorem beq_iff_face? (h : v.isKey = true) : (v == w) = true ↔ ∃ f, w.face? = some f ∧ v.face? = some f :=
  same_iff_face? h w

theorem beq_self_of_beq (hv : v.isKey = true) (h : (v == w) = true) : (v == v) = true := by
  obtain ⟨f, -, hf⟩ := (beq_iff_face? hv).mp h
  exact (beq_iff_face? hv).mpr ⟨f, hf, hf⟩

theorem beq_comm (hv : v.isKey = true) (hw : w.isKey = true) : (v == w) = (w == v) := by
  rw [Bool.eq_iff_iff, beq_iff_face? hv, beq_iff_face? hw]
  exact exists_congr fun _ => and_comm

variable {u : Value}

/-- Equal keys equal the same values. -/
theorem beq_congr_left (hv : v.isKey = true) (hw : w.isKey = true) (h : (v == w) = true) (u : Value) :
    (v == u) = (w == u) := by
  obtain ⟨f, hwf, hvf⟩ := (beq_iff_face? hv).mp h
  rw [Bool.eq_iff_iff, beq_iff_face? hv, beq_iff_face? hw, hvf, hwf]

/-- Keys equal the same of two values if one of these is a key that equals the other. -/
theorem beq_congr_right (hu : u.isKey = true) (hv : v.isKey = true) (h : (v == w) = true) : (u == v) = (u == w) := by
  obtain ⟨f, hwf, hvf⟩ := (beq_iff_face? hv).mp h
  rw [Bool.eq_iff_iff, beq_iff_face? hu, beq_iff_face? hu, hvf, hwf]

theorem beq_trans (hu : u.isKey = true) (hv : v.isKey = true) (huv : (u == v) = true) (huw : (u == w) = true) :
    (v == w) = true := by
  rwa [← beq_congr_left hu hv huv]

end Value

/-! ## Tables -/

namespace Table

variable {α : Type} {k v w : Value} {a : α}

/-- Equal keys have one entry. -/
theorem get?_congr (hv : v.isKey = true) (hw : w.isKey = true) (h : (v == w) = true) (t : Table Value α) :
    t.get? v = t.get? w := by
  induction t with
  | nil => rfl
  | cons p t ih =>
    obtain ⟨k, a⟩ := p
    rw [get?, get?, Value.beq_congr_left hv hw h, ih]

/-- A key that does not equal itself has no entry. -/
theorem get?_of_not_beq_self (hv : v.isKey = true) (h : ¬ (v == v) = true) (t : Table Value α) : t.get? v = none := by
  induction t with
  | nil => rfl
  | cons p t ih =>
    obtain ⟨k, a⟩ := p
    rw [get?, if_neg (fun hk => h (Value.beq_self_of_beq hv hk)), ih]

theorem get?_insert_key (hk : k.isKey = true) (hv : v.isKey = true) (a : α) (t : Table Value α) :
    (t.insert k a).get? v = if v == k then some a else t.get? v := by
  induction t with
  | nil => rfl
  | cons p t ih =>
    obtain ⟨k', a'⟩ := p
    rw [insert]
    split
    · rename_i hkk'
      rw [get?, get?, ← Value.beq_congr_right hv hk hkk']
      split <;> rfl
    · rename_i hkk'
      rw [get?, get?, ih]
      by_cases hvk' : (v == k') = true
      · have hvk : ¬ (v == k) = true := fun hvk => hkk' (Value.beq_trans hv hk hvk hvk')
        rw [if_pos hvk', if_pos hvk', if_neg hvk]
      · rw [if_neg hvk', if_neg hvk']

end Table

end Sift
