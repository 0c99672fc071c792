import Sift.Proofs.Includes.Merging
import Sift.Proofs.Projection.Exposure
import Sift.Proofs.Projection.Rewriting

/-!
# Places of objects

The objects that a walk along included relations comes to have places in the row: the labels that lead to them, each
with a position among the objects under it. Replacing the keys of a row leaves its objects in their places.
-/

namespace Sift

open Projector

namespace Branch

/-- The object of an entity, with the branches below it, at a place of a row. The walk follows a branch where it may. -/
inductive At (along : Value → Branch → Prop) :
    Value → List Branch → Row → List (String × Nat) → Value → List Branch → Row → Prop
  | here {entity : Value} {bs : List Branch} {row : Row} : At along entity bs row [] entity bs row
  | under {entity e : Value} {bs cs : List Branch} {row o o' : Row} {place : List (String × Nat)} {b : Branch} {i : Nat}
      (mem : b ∈ bs) (may : along entity b) (object : (nestedObjects (row.get b.label))[i]? = some o)
      (below : At along b.target b.nested o place e cs o') : At along entity bs row ((b.label, i) :: place) e cs o'

/-- The walk follows every branch. -/
def Every (_ : Value) (_ : Branch) : Prop := True

variable {along along' : Value → Branch → Prop} {P : Value → List Branch → Row → Prop} {entity e e' : Value}
  {bs cs cs' : List Branch} {row o o' : Row} {place : List (String × Nat)} {b : Branch} {v : Value}

/-- Where no node repeats a label, there is one object at a place. -/
theorem At.unique (hbs : AllDistinct bs) (h : At along entity bs row place e cs o)
    (h' : At along' entity bs row place e' cs' o') : e' = e ∧ cs' = cs ∧ o' = o := by
  induction h with
  | here =>
    cases h'
    exact ⟨rfl, rfl, rfl⟩
  | @under _ _ bs _ _ _ _ _ b i mem _ object _ ih =>
    generalize hlabel : b.label = label at h'
    cases h' with
    | under mem' _ object' below' =>
      obtain rfl := List.inj_on_of_nodup_map hbs.1 mem mem' hlabel
      cases object.symm.trans object'
      exact ih (hbs.2 b mem).nested below'

theorem At.allDistinct (hbs : AllDistinct bs) (h : At along entity bs row place e cs o) : AllDistinct cs := by
  induction h with
  | here => exact hbs
  | under mem _ _ _ ih => exact ih (hbs.2 _ mem).nested

/-! ## Properties of the objects at all places -/

theorem below_iff : Below P b v ↔ ∀ o ∈ nestedObjects v, Throughout P b.target b.nested o := by
  cases b
  rw [Below]
  rfl

theorem Throughout.at (hrow : Throughout P entity bs row) (h : At along entity bs row place e cs o) : P e cs o := by
  induction h with
  | here => exact hrow.1
  | under mem _ object _ ih =>
    exact ih (below_iff.mp (allBelow_iff.mp hrow.2 _ mem) _ (List.mem_of_getElem? object))

mutual
theorem below_of_at : (b : Branch) → {v : Value} →
    (∀ o ∈ nestedObjects v, ∀ place e cs o', At Every b.target b.nested o place e cs o' → P e cs o') → Below P b v
  | ⟨_, _, _, _, nested⟩, _, h => by
    rw [Below]
    intro o ho
    refine ⟨h o ho _ _ _ _ .here, allBelow_of_at nested fun c hc o' ho' place e cs o'' hat => ?_⟩
    obtain ⟨i, hi⟩ := List.mem_iff_getElem?.mp ho'
    exact h o ho _ _ _ _ (.under hc trivial hi hat)

theorem allBelow_of_at : (bs : List Branch) → {row : Row} →
    (∀ b ∈ bs, ∀ o ∈ nestedObjects (row.get b.label), ∀ place e cs o',
      At Every b.target b.nested o place e cs o' → P e cs o') → AllBelow P bs row
  | [], _, _ => by rw [AllBelow]; trivial
  | b :: bs, _, h => by
    rw [AllBelow]
    obtain ⟨hb, hbs⟩ := List.forall_mem_cons.mp h
    exact ⟨below_of_at b hb, allBelow_of_at bs hbs⟩
end

/-- An object and all objects below it have a property just if the objects at all places have it. -/
theorem throughout_iff :
    Throughout P entity bs row ↔ ∀ place e cs o, At Every entity bs row place e cs o → P e cs o := by
  constructor
  · exact fun hrow _ _ _ _ hat => hrow.at hat
  · intro h
    refine ⟨h _ _ _ _ .here, allBelow_of_at bs fun b hb o ho place e cs o' hat => ?_⟩
    obtain ⟨i, hi⟩ := List.mem_iff_getElem?.mp ho
    exact h _ _ _ _ (.under hb trivial hi hat)

end Branch

namespace Projector

variable {p : Projector} {found : Table Value Row} {entity e : Value} {bs cs : List Branch} {row row' o : Row}
  {place : List (String × Nat)} {b : Branch} {name : String} {v v' : Value}

/-! ## What replacing keys touches -/

/-- The names under which an object of an entity has keys or identifiers. -/
def touched (p : Projector) (entity : Value) : List Value := p.ownNames entity ++ Table.keys (p.mappedKeys entity)

/-- The label of a branch is none of these names. -/
def Apart (p : Projector) (entity : Value) (b : Branch) : Prop := .text b.label ∉ p.touched entity

theorem get?_exposeOwn (h : p.exposeOwn found entity row = .ok row') (hname : .text name ∉ p.ownNames entity) :
    Table.get? (.text name) row' = Table.get? (.text name) row := by
  unfold exposeOwn at h
  unfold ownNames at hname
  cases hm : p.mappings.get? entity with
  | none =>
    rw [hm] at h
    cases h
    rfl
  | some m =>
    simp only [hm, Option.elim_some, List.mem_cons, List.not_mem_nil, or_false, not_or] at h hname
    obtain ⟨hid, hexposed⟩ := hname
    have hput (row : Row) (v : Value) : Table.get? (.text name) (row.insert "id" v) = Table.get? (.text name) row :=
      Row.get?_insert_of_ne (fun heq => hid (congrArg Value.text heq)) v
    obtain ⟨exposed, hrequire, h⟩ := bind_eq_ok_iff.mp h
    obtain rfl := Value.eq_of_requireKey hrequire
    split at h
    · -- the identifier was loaded
      cases pure_eq_ok_iff.mp h
      rw [hput, Table.get?_text_erase (Ne.symm hexposed)]
    · obtain ⟨key, hkey, h⟩ := bind_eq_ok_iff.mp h
      split at h
      · cases pure_eq_ok_iff.mp h
        rfl
      · obtain ⟨identifier, -, h⟩ := bind_eq_ok_iff.mp h
        cases pure_eq_ok_iff.mp h
        exact hput row identifier

theorem get?_exposeForeignKey {fk : Value × KeyMapping} (h : exposeForeignKey found row fk = .ok row')
    (hname : fk.1 ≠ .text name) : Table.get? (.text name) row' = Table.get? (.text name) row := by
  unfold exposeForeignKey at h
  split at h
  · cases h
    rfl
  · obtain ⟨w, -, h⟩ := bind_eq_ok_iff.mp h
    cases pure_eq_ok_iff.mp h
    rw [Table.get?_text_insert, if_neg]
    exact fun heq => hname (Value.beq_text_iff.mp heq)

theorem get?_foldlM_exposeForeignKey {keys : List (Value × KeyMapping)}
    (h : keys.foldlM (exposeForeignKey found) row = .ok row') (hname : ∀ fk ∈ keys, fk.1 ≠ .text name) :
    Table.get? (.text name) row' = Table.get? (.text name) row := by
  induction keys generalizing row with
  | nil =>
    cases h
    rfl
  | cons fk keys ih =>
    obtain ⟨hfirst, hrest⟩ := List.forall_mem_cons.mp hname
    obtain ⟨row₁, hrow₁, h⟩ := bind_eq_ok_iff.mp h
    rw [ih h hrest, get?_exposeForeignKey hrow₁ hfirst]

theorem get?_exposeKeys (h : p.exposeKeys found entity row = .ok row') (hname : .text name ∉ p.touched entity) :
    Table.get? (.text name) row' = Table.get? (.text name) row := by
  obtain ⟨hown, hforeign⟩ := not_or.mp (mt List.mem_append.mpr hname)
  obtain ⟨row₁, hrow₁, h⟩ := bind_eq_ok_iff.mp h
  obtain ⟨keys, hkeys, h⟩ := bind_eq_ok_iff.mp h
  obtain rfl := Except.ok.inj (hkeys.symm.trans (foreignKeys_eq hkeys))
  rw [get?_foldlM_exposeForeignKey h, get?_exposeOwn hrow₁ hown]
  intro fk hfk heq
  exact hforeign (heq ▸ List.mem_map_of_mem hfk)

/-! ## Objects in their places -/

/-- Replacing the keys under a label changes an object, or the objects in a list, of which nothing else is left. -/
theorem exposeValue_cases (h : p.exposeValue found b v = .ok v') :
    (∃ items os, v = .list items ∧ v' = .list (os.map .object) ∧
      List.Forall₂ (fun o o' => p.exposeObject found b.target b.nested o = .ok o') (nestedObjects (.list items)) os) ∨
    (∃ o o', v = .object o ∧ v' = .object o' ∧ p.exposeObject found b.target b.nested o = .ok o') ∨
    (v' = v ∧ (∀ items, v ≠ .list items) ∧ ∀ o, v ≠ .object o) := by
  unfold exposeValue at h
  split at h
  · rename_i items
    obtain ⟨values, hvalues, rfl⟩ := map_eq_ok_iff.mp h
    obtain ⟨os, hos, rfl⟩ := exists_map_of_mapM_eq_ok hvalues
    exact .inl ⟨items, os, rfl, rfl, forall₂_of_mapM_eq_ok hos⟩
  · rename_i o
    obtain ⟨o', ho', rfl⟩ := map_eq_ok_iff.mp h
    exact .inr (.inl ⟨o, o', rfl, rfl, ho'⟩)
  · rename_i hlist hobject
    cases h
    exact .inr (.inr ⟨rfl, hlist, hobject⟩)

theorem nestedObjects_eq_nil (hlist : ∀ items, v ≠ .list items) (hobject : ∀ o, v ≠ .object o) :
    nestedObjects v = [] := by
  unfold nestedObjects
  split
  · exact absurd rfl (hlist _)
  · exact absurd rfl (hobject _)
  · rfl

theorem forall₂_nestedObjects (h : p.exposeValue found b v = .ok v') :
    List.Forall₂ (fun o o' => p.exposeObject found b.target b.nested o = .ok o') (nestedObjects v)
      (nestedObjects v') := by
  obtain ⟨items, os, rfl, rfl, hos⟩ | ⟨o, o', rfl, rfl, ho⟩ | ⟨rfl, hlist, hobject⟩ := exposeValue_cases h
  · rwa [Value.nestedObjects_list_map]
  · exact .cons ho .nil
  · rw [nestedObjects_eq_nil hlist hobject]
    exact .nil

/-- Replacing the keys of an object replaces those of the object at every place that is reached by labels apart from
the names of keys. -/
theorem exists_at_exposeObject (hbs : Branch.AllDistinct bs) (h : p.exposeObject found entity bs row = .ok row')
    (hat : Branch.At p.Apart entity bs row place e cs o) :
    ∃ o', Branch.At p.Apart entity bs row' place e cs o' ∧ p.exposeObject found e cs o = .ok o' := by
  induction hat generalizing row' with
  | here => exact ⟨row', .here, h⟩
  | @under _ _ _ _ _ _ _ _ b i mem may object _ ih =>
    obtain ⟨row₁, hrow₁, hnested⟩ := bind_eq_ok_iff.mp h
    obtain ⟨-, hvalue⟩ := (exposeNested_cases hbs.1 hnested).2 b mem
    rw [Row.get_of_get? (get?_exposeKeys hrow₁ may)] at hvalue
    obtain ⟨o', object', ho'⟩ := exists_of_forall₂ (forall₂_nestedObjects hvalue) object
    obtain ⟨o'', hat', ho''⟩ := ih (hbs.2 b mem).nested ho'
    exact ⟨o'', .under mem may object' hat', ho''⟩

end Projector

end Sift
