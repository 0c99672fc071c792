import Mathlib.Data.List.Forall2
import Sift.Projection
import Sift.Proofs.Outcome

/-!
# Walks along included relations

The objects of an entity hold other objects under the labels of its branches, and these hold others in turn. Properties
of all of them and changes of all of them follow the branches, whatever else the objects hold.
-/

namespace Sift

open Projector

namespace Value

variable (f : Row → Row)

/-- Changes an object, or the objects in a list. -/
def mapObjects : Value → Value
  | .list items => .list (items.map fun
    | .object o => .object (f o)
    | v => v)
  | .object o => .object (f o)
  | v => v

/-- Changes an object, or the objects in a list, of which nothing else is kept. -/
def mapOnlyObjects : Value → Value
  | .list items => .list (items.filterMap fun
    | .object o => some (.object (f o))
    | _ => none)
  | .object o => .object (f o)
  | v => v

variable {f} {g h : Row → Row} {v : Value}

theorem mapOnlyObjects_list (items : List Value) :
    mapOnlyObjects f (.list items) = .list ((nestedObjects (.list items)).map fun o => .object (f o)) := by
  rw [mapOnlyObjects, nestedObjects, List.map_filterMap]
  congr 1
  refine List.filterMap_congr fun v _ => ?_
  cases v <;> rfl

theorem nestedObjects_list_map (os : List Row) : nestedObjects (.list (os.map object)) = os := by
  rw [nestedObjects, List.filterMap_map]
  exact List.filterMap_some

theorem nestedObjects_mapObjects : nestedObjects (v.mapObjects f) = (nestedObjects v).map f := by
  cases v with
  | list items =>
    rw [mapObjects, nestedObjects, nestedObjects, List.filterMap_map, List.map_filterMap]
    refine List.filterMap_congr fun v _ => ?_
    cases v <;> rfl
  | _ => rfl

theorem nestedObjects_mapOnlyObjects : nestedObjects (v.mapOnlyObjects f) = (nestedObjects v).map f := by
  cases v with
  | list items =>
    have hobjects := List.map_map (f := f) (g := object) (l := nestedObjects (.list items))
    rw [mapOnlyObjects_list, ← nestedObjects_list_map (List.map f _), hobjects]
    rfl
  | _ => rfl

/-- Changing the objects twice is changing them once, where the second change makes of each what one change does. -/
theorem mapOnlyObjects_mapObjects (hg : ∀ o ∈ nestedObjects v, f (g o) = h o) :
    (v.mapObjects g).mapOnlyObjects f = v.mapOnlyObjects h := by
  cases v with
  | list items =>
    have hobjects := nestedObjects_mapObjects (f := g) (v := .list items)
    rw [mapObjects] at hobjects ⊢
    rw [mapOnlyObjects_list, mapOnlyObjects_list, hobjects, List.map_map]
    congr 1
    exact List.map_congr_left fun o ho => congrArg Value.object (hg o ho)
  | object o => exact congrArg Value.object (hg o (List.mem_singleton_self o))
  | _ => rfl

end Value

namespace Branch

/-! ## Changes of all objects -/

section

variable (through : (Row → Row) → Value → Value) (change : Value → (Value → Value → Value) → Row → Row)

mutual
/-- Changes the objects under the label of a branch. Each is changed by its entity, and by how what it holds under
labels is changed. -/
def changed : Branch → Value → Value
  | ⟨_, target, _, _, nested⟩, v => through (change target (allChanged nested)) v

/-- Changes the objects under a key that is the label of a branch. -/
def allChanged : List Branch → Value → Value → Value
  | [], _, v => v
  | b :: bs, k, v => if k == .text b.label then changed b v else allChanged bs k v
end

end

/-! ## Properties of all objects -/

section

variable (P : Value → List Branch → Row → Prop)

mutual
/-- The objects under the label of a branch have a property, and so have those below them. -/
def Below : Branch → Value → Prop
  | ⟨_, target, _, _, nested⟩, v => ∀ o ∈ nestedObjects v, P target nested o ∧ AllBelow nested o

/-- The objects below an object have a property of objects of their entity with the branches below it. -/
def AllBelow : List Branch → Row → Prop
  | [], _ => True
  | b :: bs, row => Below b (row.get b.label) ∧ AllBelow bs row
end

/-- An object and all objects below it have a property. -/
def Throughout (entity : Value) (bs : List Branch) (row : Row) : Prop := P entity bs row ∧ AllBelow P bs row

end

variable {P Q R : Value → List Branch → Row → Prop} {entity : Value} {row row' : Row} {bs : List Branch}

theorem allChanged_of_not_mem {through : (Row → Row) → Value → Value}
    {change : Value → (Value → Value → Value) → Row → Row} {name : String} (h : name ∉ bs.map Branch.label)
    {v : Value} : allChanged through change bs (.text name) v = v := by
  induction bs with
  | nil => rw [allChanged]
  | cons b bs ih =>
    rw [List.map_cons, List.mem_cons, not_or] at h
    rw [allChanged, if_neg, ih h.2]
    exact fun heq => h.1 (Value.text.inj (Value.text_beq_iff.mp heq)).symm

theorem allChanged_of_mem {through : (Row → Row) → Value → Value} {change : Value → (Value → Value → Value) → Row → Row}
    {b : Branch} (hlabels : (bs.map Branch.label).Nodup) (hb : b ∈ bs) {v : Value} :
    allChanged through change bs (.text b.label) v = changed through change b v := by
  induction bs with
  | nil => exact absurd hb List.not_mem_nil
  | cons c bs ih =>
    obtain ⟨hlabel, hlabels⟩ := List.nodup_cons.mp hlabels
    rw [allChanged]
    rcases List.mem_cons.mp hb with rfl | hb
    · rw [if_pos (Value.text_beq_iff.mpr rfl)]
    · rw [if_neg, ih hlabels hb]
      intro heq
      exact hlabel (Value.text.inj (Value.text_beq_iff.mp heq) ▸ List.mem_map_of_mem hb)

theorem allBelow_iff : AllBelow P bs row ↔ ∀ b ∈ bs, Below P b (row.get b.label) := by
  induction bs with
  | nil => simp [AllBelow]
  | cons b bs ih => rw [AllBelow, ih, List.forall_mem_cons]

theorem AllBelow.congr (h : AllBelow P bs row) (hrow : ∀ b ∈ bs, row'.get b.label = row.get b.label) :
    AllBelow P bs row' := by
  rw [allBelow_iff] at h ⊢
  intro b hb
  rw [hrow b hb]
  exact h b hb

mutual
theorem Below.imp₂ (himp : ∀ entity bs row, P entity bs row → Q entity bs row → R entity bs row) :
    (b : Branch) → {v : Value} → Below P b v → Below Q b v → Below R b v
  | ⟨_, target, _, _, nested⟩, v, hP, hQ => by
    rw [Below] at hP hQ ⊢
    exact fun o ho => ⟨himp _ _ _ (hP o ho).1 (hQ o ho).1, AllBelow.imp₂ himp nested (hP o ho).2 (hQ o ho).2⟩

theorem AllBelow.imp₂ (himp : ∀ entity bs row, P entity bs row → Q entity bs row → R entity bs row) :
    (bs : List Branch) → {row : Row} → AllBelow P bs row → AllBelow Q bs row → AllBelow R bs row
  | [], _, _, _ => by rw [AllBelow]; trivial
  | b :: bs, row, hP, hQ => by
    rw [AllBelow] at hP hQ ⊢
    exact ⟨Below.imp₂ himp b hP.1 hQ.1, AllBelow.imp₂ himp bs hP.2 hQ.2⟩
end

theorem Throughout.imp₂ (himp : ∀ entity bs row, P entity bs row → Q entity bs row → R entity bs row)
    (hP : Throughout P entity bs row) (hQ : Throughout Q entity bs row) : Throughout R entity bs row :=
  ⟨himp _ _ _ hP.1 hQ.1, AllBelow.imp₂ himp bs hP.2 hQ.2⟩

theorem Throughout.imp (himp : ∀ entity bs row, P entity bs row → Q entity bs row) (h : Throughout P entity bs row) :
    Throughout Q entity bs row :=
  h.imp₂ (fun entity bs row hP _ => himp entity bs row hP) h

end Branch

namespace Projector

/-! ## Collecting keys -/

/-- Keys can be collected, and all of them have a property. -/
def Collects (x : Except Fault (List Request)) (Q : Request → Prop) : Prop := ∃ qs, x = .ok qs ∧ ∀ q ∈ qs, Q q

variable {p : Projector} {Q : Request → Prop} {entity : Value} {row : Row} {bs : List Branch}

theorem collects_append_iff {x y : Except Fault (List Request)} :
    Collects (do let own ← x; return own ++ (← y)) Q ↔ Collects x Q ∧ Collects y Q := by
  simp only [Collects, bind_eq_ok_iff, pure_eq_ok_iff]
  constructor
  · rintro ⟨_, ⟨as, ha, bs, hb, rfl⟩, hall⟩
    obtain ⟨has, hbs⟩ := List.forall_mem_append.mp hall
    exact ⟨⟨as, ha, has⟩, bs, hb, hbs⟩
  · rintro ⟨⟨as, ha, has⟩, bs, hb, hbs⟩
    exact ⟨as ++ bs, ⟨as, ha, bs, hb, rfl⟩, List.forall_mem_append.mpr ⟨has, hbs⟩⟩

theorem collects_flatten_iff {α : Type} {f : α → Except Fault (List Request)} {as : List α} :
    Collects (do return (← as.mapM f).flatten) Q ↔ ∀ a ∈ as, Collects (f a) Q := by
  simp only [Collects, bind_eq_ok_iff, pure_eq_ok_iff]
  constructor
  · rintro ⟨_, ⟨found, hfound, rfl⟩, hall⟩ a ha
    obtain ⟨qs, hqs, hf⟩ := exists_mem_of_mapM_eq_ok hfound a ha
    exact ⟨qs, hf, fun q hq => hall q (List.mem_flatten.mpr ⟨qs, hqs, hq⟩)⟩
  · intro hall
    obtain ⟨found, hfound, hQ⟩ := exists_mapM_eq_ok hall
    refine ⟨found.flatten, ⟨found, hfound, rfl⟩, fun q hq => ?_⟩
    obtain ⟨qs, hqs, hq⟩ := List.mem_flatten.mp hq
    exact hQ qs hqs q hq

/-- Null asks for nothing, and a key for itself. -/
theorem collects_request_iff {v : Value} :
    Collects (request entity v) Q ↔ v = .null ∨ v.isKey = true ∧ Q (entity, v) := by
  by_cases hnull : v = .null
  · subst hnull
    simp [Collects, request]
  · have hrequest : request entity v = (do return [(entity, ← v.requireKey)]) := by
      cases v <;> first | exact absurd rfl hnull | rfl
    rw [hrequest, Value.requireKey]
    cases hkey : v.isKey <;> simp [Collects, hnull, bind, Except.bind, pure, Except.pure]

theorem collects_objectRequests_iff {keys : List (Value × KeyMapping)} (hkeys : p.foreignKeys entity = .ok keys) :
    Collects (p.objectRequests entity row) Q ↔ Collects (p.ownRequest entity row) Q ∧
      ∀ e ∈ keys, Collects (request e.2.entity (Row.field e.1 row)) Q := by
  rw [← collects_flatten_iff, ← collects_append_iff]
  simp only [objectRequests, hkeys, bind_assoc, pure_bind]
  rfl

mutual
theorem collects_branchRequests_iff : (b : Branch) → {row : Row} → Collects (p.branchRequests row b) Q ↔
    b.Below (fun entity _ o => Collects (p.objectRequests entity o) Q) (row.get b.label)
  | ⟨label, target, _, _, nested⟩, row => by
    rw [branchRequests, Branch.Below]
    refine collects_flatten_iff.trans ?_
    refine forall₂_congr fun o _ => ?_
    rw [collects_append_iff, collects_nestedRequests_iff nested]

theorem collects_nestedRequests_iff : (bs : List Branch) → {row : Row} → Collects (p.nestedRequests row bs) Q ↔
    Branch.AllBelow (fun entity _ o => Collects (p.objectRequests entity o) Q) bs row
  | [], row => by
    rw [nestedRequests, Branch.AllBelow, iff_true]
    exact ⟨[], rfl, fun _ hq => absurd hq List.not_mem_nil⟩
  | b :: bs, row => by
    rw [nestedRequests, Branch.AllBelow, collects_append_iff, collects_branchRequests_iff b,
      collects_nestedRequests_iff bs]
end

/-- What a row and the objects in it ask for is what each of these objects asks for. -/
theorem collects_rowRequests_iff : Collects (p.rowRequests (.object row)) Q ↔
    Branch.Throughout (fun entity _ o => Collects (p.objectRequests entity o) Q) (.text p.entity) p.includes.branches
      row := by
  rw [rowRequests, collects_append_iff, collects_nestedRequests_iff, Branch.Throughout]

end Projector

end Sift
