import Sift.Proofs.Projection.Batching
import Sift.Proofs.Projection.Places

/-!
# What projection leaves as it was

Wherever an object stands in a row, projecting the row keeps what it holds under names that are neither keys nor labels.
A value under a label keeps its shape, except that of a list nothing but the objects is left: a list is rebuilt from the
objects that the walk comes to, and the walk passes over the rest. So nothing is lost just if lists hold only objects.
-/

namespace Sift

open Branch (At AllDistinct)

namespace Value

/-- An object is still an object, and anything else is what it was. -/
inductive Stays : Value → Value → Prop
  | object (o o' : Row) : Stays (.object o) (.object o')
  | same (v : Value) : Stays v v

/-- A value keeps its shape: of a list some items are left, at their positions. -/
inductive Carries (left : List Value → List Value) : Value → Value → Prop
  | list {items items' : List Value} (h : List.Forall₂ Stays (left items) items') :
      Carries left (.list items) (.list items')
  | single {v w : Value} (hlist : ∀ items, v ≠ .list items) (h : Stays v w) : Carries left v w

/-- The objects among some values. -/
def onlyObjects (items : List Value) : List Value := items.filter fun v => v.entries?.isSome

/-- If it is a list, it holds only objects. -/
def ListsObjects (v : Value) : Prop := ∀ items, v = .list items → ∀ item ∈ items, item.entries?.isSome = true

variable {v w : Value} {items : List Value}

theorem onlyObjects_eq_map (items : List Value) :
    onlyObjects items = (Projector.nestedObjects (.list items)).map .object := by
  induction items with
  | nil => rfl
  | cons v items ih =>
    rw [Projector.nestedObjects] at ih ⊢
    cases v <;> simp [onlyObjects, entries?] at ih ⊢ <;> exact ih

theorem onlyObjects_eq_self_iff : onlyObjects items = items ↔ ∀ item ∈ items, item.entries?.isSome = true :=
  List.filter_eq_self

/-- Where only the objects are left of a list, all is left just if it held nothing else. -/
theorem Carries.all_iff (h : Carries onlyObjects v w) : Carries id v w ↔ v.ListsObjects := by
  constructor
  · rintro (⟨hall⟩ | ⟨hlist, -⟩)
    · cases h with
      | list honly =>
        rintro _ ⟨⟩
        have hlength := honly.length_eq.trans hall.length_eq.symm
        exact List.length_filter_eq_length_iff.mp hlength
      | single hlist => exact absurd rfl (hlist _)
    · exact fun items heq => absurd heq (hlist items)
  · intro hobjects
    cases h with
    | list honly =>
      rw [onlyObjects_eq_self_iff.mpr (hobjects _ rfl)] at honly
      exact .list honly
    | single hlist hstays => exact .single hlist hstays

end Value

/-! ## What is spared -/

namespace Projector

variable {p : Projector} {store : LookupStore} {found : Table Value Row} {entity : Value} {bs : List Branch}
  {row row' : Row}

/-- An object keeps what it holds under names that are neither touched nor labels, and its values under labels keep
their shapes. -/
structure Spares (p : Projector) (left : List Value → List Value) (entity : Value) (bs : List Branch) (row row' : Row) :
    Prop where
  same : ∀ name, .text name ∉ p.touched entity → name ∉ bs.map Branch.label →
    Table.get? (.text name) row' = Table.get? (.text name) row
  present : ∀ b ∈ bs, p.Apart entity b → row'.contains b.label = row.contains b.label
  labelled : ∀ b ∈ bs, p.Apart entity b → Value.Carries left (row.get b.label) (row'.get b.label)

/-- Every object of a row is spared where it stands. -/
def Intact (p : Projector) (left : List Value → List Value) (row row' : Row) : Prop :=
  ∀ place e cs o, At p.Apart (.text p.entity) p.includes.branches row place e cs o →
    ∃ o', At p.Apart (.text p.entity) p.includes.branches row' place e cs o' ∧ p.Spares left e cs o o'

/-- Lists under labels hold only objects, wherever they stand in a row. -/
def HoldsObjects (p : Projector) (row : Row) : Prop :=
  ∀ place e cs o, At p.Apart (.text p.entity) p.includes.branches row place e cs o →
    ∀ b ∈ cs, p.Apart e b → (o.get b.label).ListsObjects

theorem carries_exposeValue {b : Branch} {v v' : Value} (h : p.exposeValue found b v = .ok v') :
    Value.Carries Value.onlyObjects v v' := by
  obtain ⟨items, os, rfl, rfl, hos⟩ | ⟨o, o', rfl, rfl, -⟩ | ⟨rfl, hlist, -⟩ := exposeValue_cases h
  · refine .list ?_
    rw [Value.onlyObjects_eq_map, List.forall₂_map_left_iff, List.forall₂_map_right_iff]
    exact hos.imp fun o o' _ => .object o o'
  · exact .single (fun _ heq => nomatch heq) (.object o o')
  · exact .single hlist (.same _)

theorem spares_exposeObject (hbs : AllDistinct bs) (h : p.exposeObject found entity bs row = .ok row') :
    p.Spares Value.onlyObjects entity bs row row' := by
  obtain ⟨row₁, hrow₁, hnested⟩ := bind_eq_ok_iff.mp h
  obtain ⟨hsame, hlabels⟩ := exposeNested_cases hbs.1 hnested
  constructor
  · intro name hname hlabel
    rw [hsame name hlabel, get?_exposeKeys hrow₁ hname]
  · intro b hb hapart
    rw [(hlabels b hb).1, Row.contains_of_get? (get?_exposeKeys hrow₁ hapart)]
  · intro b hb hapart
    rw [← Row.get_of_get? (get?_exposeKeys hrow₁ hapart)]
    exact carries_exposeValue (hlabels b hb).2

theorem Spares.all_iff (h : p.Spares Value.onlyObjects entity bs row row') :
    p.Spares id entity bs row row' ↔ ∀ b ∈ bs, p.Apart entity b → (row.get b.label).ListsObjects := by
  constructor
  · intro hall b hb hapart
    exact (h.labelled b hb hapart).all_iff.mp (hall.labelled b hb hapart)
  · intro hobjects
    refine ⟨h.same, h.present, fun b hb hapart => ?_⟩
    exact (h.labelled b hb hapart).all_iff.mpr (hobjects b hb hapart)

theorem intact_expose (hbs : AllDistinct p.includes.branches) (h : p.expose found (.object row) = .ok row') :
    p.Intact Value.onlyObjects row row' ∧ (p.Intact id row row' ↔ p.HoldsObjects row) := by
  -- what becomes of the object at a place, and that there is no other
  have hplace : p.Intact Value.onlyObjects row row' := by
    intro place e cs o hat
    obtain ⟨o', hat', ho'⟩ := exists_at_exposeObject hbs h hat
    exact ⟨o', hat', spares_exposeObject (hat.allDistinct hbs) ho'⟩
  refine ⟨hplace, fun hall place e cs o hat => ?_, fun hobjects place e cs o hat => ?_⟩
  · obtain ⟨o₁, hat₁, hspares⟩ := hplace place e cs o hat
    obtain ⟨o₂, hat₂, hkeeps⟩ := hall place e cs o hat
    obtain ⟨-, -, rfl⟩ := hat₁.unique hbs hat₂
    exact hspares.all_iff.mp hkeeps
  · obtain ⟨o', hat', hspares⟩ := hplace place e cs o hat
    exact ⟨o', hat', hspares.all_iff.mpr (hobjects place e cs o hat)⟩

theorem forall₂_of_project {rows shown : List Row} (h : p.project store (rows.map .object) = .ok shown) :
    ∃ found, List.Forall₂ (fun row row' => p.expose found (.object row) = .ok row') rows shown := by
  obtain ⟨calls, -, h⟩ := bind_eq_ok_iff.mp h
  obtain ⟨found, -, h⟩ := bind_eq_ok_iff.mp h
  exact ⟨found, List.forall₂_map_left_iff.mp (forall₂_of_mapM_eq_ok h)⟩

end Projector

theorem Branch.allDistinct_of_leaves {bs : List Branch} (hlabels : (bs.map Branch.label).Nodup)
    (h : ∀ b ∈ bs, b.nested = []) : AllDistinct bs := by
  refine ⟨hlabels, fun b hb => .of_nested ?_⟩
  rw [h b hb]
  exact ⟨List.nodup_nil, fun _ hc => absurd hc List.not_mem_nil⟩

namespace Shop

theorem allDistinct_directory : AllDistinct directory.includes.branches := by
  refine Branch.allDistinct_of_leaves (by decide) ?_
  simp [directory]

def unmapped : Projector :=
  { directory with includes := ⟨"User", [⟨"products", .text "Product", .bool true, .null, []⟩]⟩, mappings := [] }

def gapped : Row :=
  [(.text "id", .int 7),
    (.text "products", .list [.object [(.text "id", .int 1)], .null, .object [(.text "id", .int 2)]])]

def closed : Row :=
  [(.text "id", .int 7), (.text "products", .list [.object [(.text "id", .int 1)], .object [(.text "id", .int 2)]])]

end Shop

/-! ## Projected rows -/

namespace Projector

variable {p : Projector} {store : LookupStore}

/-- Rows that can be projected keep their number and their order. Wherever an object stands in them it is spared, except
for what lists under labels hold besides objects. -/
theorem intact_project (hbs : AllDistinct p.includes.branches) {rows shown : List Row}
    (h : p.project store (rows.map .object) = .ok shown) :
    List.Forall₂ (fun row row' => p.Intact Value.onlyObjects row row' ∧ (p.Intact id row row' ↔ p.HoldsObjects row))
      rows shown := by
  obtain ⟨found, hall⟩ := forall₂_of_project h
  exact hall.imp fun row row' hrow => intact_expose hbs hrow

theorem intact_project_staff : ∃ shown : List Row, AllDistinct Shop.directory.includes.branches ∧
    Shop.directory.project (.ofTables Shop.identifiers) (Shop.staff.map .object) = .ok shown ∧
      List.Forall₂ (fun row row' => Shop.directory.Intact Value.onlyObjects row row' ∧
        (Shop.directory.Intact id row row' ↔ Shop.directory.HoldsObjects row)) Shop.staff shown := by
  obtain ⟨found, hfound, hexpose⟩ :=
    exists_found_rewritten Shop.wellNamed_directory (LookupStore.restricts_ofTables Shop.identifiers) Shop.ready_staff
  have hproject := project_eq_map hfound hexpose
  exact ⟨_, Shop.allDistinct_directory, hproject, intact_project Shop.allDistinct_directory hproject⟩

/-- Where nothing is mapped a list still loses what is no object, and what comes after it moves up. -/
theorem not_intact_project_gapped :
    AllDistinct Shop.unmapped.includes.branches ∧
      Shop.unmapped.project .empty [.object Shop.gapped] = .ok [Shop.closed] ∧
        ¬ List.Forall₂ (Shop.unmapped.Intact id) [Shop.gapped] [Shop.closed] := by
  refine ⟨Branch.allDistinct_of_leaves (by decide) fun b hb => ?_, rfl, fun h => ?_⟩
  · obtain rfl := List.mem_singleton.mp hb
    rfl
  · obtain ⟨o', hat, hspares⟩ := (List.forall₂_cons.mp h).1 _ _ _ _ .here
    cases hat
    have htouched : Shop.unmapped.touched (.text "User") = [] := rfl
    have hcarries : Value.Carries id (Shop.gapped.get "products") (Shop.closed.get "products") :=
      hspares.labelled _ List.mem_cons_self (by rw [Apart]; exact htouched ▸ List.not_mem_nil)
    cases hcarries with
    | list hall => exact absurd hall.length_eq (by decide)
    | single hlist => exact hlist _ rfl

end Projector

end Sift
