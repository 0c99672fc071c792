import Sift.Proofs.Projection.Batching
import Sift.Proofs.Projection.Places

/-!
# Which keys are hidden

The identifier of an object of a mapped entity is put under `id`. So where `id` is the column of the key, the key is out
of sight. Under another column it stays, unless it is a foreign key as well and something else is shown for that.
-/

namespace Sift

open Branch (At Every)

namespace Projector

variable {p : Projector} {known : Value → Row} {entity e : Value} {bs cs : List Branch} {row o : Row}
  {place : List (String × Nat)} {b : Branch} {m : KeyMapping} {name : String} {k v x : Value}

/-! ## Fields of rewritten objects -/

theorem nestedShown_of_isKey (hv : v.isKey = true) : p.nestedShown known bs k v = v := by
  rw [nestedShown]
  induction bs with
  | nil => rw [Branch.allChanged]
  | cons b bs ih =>
    rw [Branch.allChanged]
    split
    · cases b
      rw [Branch.changed]
      cases v <;> first | rfl | cases hv
    · exact ih

theorem get_objectShown (hready : p.Ready entity bs row) (name : String) :
    (p.objectShown known entity (p.nestedShown known bs) row).get name =
      p.nestedShown known bs (.text name) ((p.keysShown known entity row).get name) := by
  rw [objectShown_of_ready hready, Row.get_mapValues (nestedShown_of_isKey rfl)]

theorem get_objectShown_label (hnamed : p.WellNamed) (hready : p.Ready entity bs row) (hb : b ∈ bs) :
    (p.objectShown known entity (p.nestedShown known bs) row).get b.label =
      (row.get b.label).mapOnlyObjects (p.objectShown known b.target (p.nestedShown known b.nested)) := by
  rw [get_objectShown hready, get_keysShown_label hnamed hready hb, nestedShown,
    Branch.allChanged_of_mem hready.labels.once hb]
  cases b
  rw [Branch.changed]

theorem get_objectShown_id (hready : p.Ready entity bs row) (hx : p.ownIdentifier? known entity row = some x) :
    (p.objectShown known entity (p.nestedShown known bs) row).get "id" = x := by
  obtain ⟨m, hm⟩ := exists_mapping hx
  have hid := id_mem_ownNames hm
  rw [get_objectShown hready, nestedShown_of_not_mem (hready.labels.own_not_mem hid), get_keysShown,
    hready.columns.get?_own hid, Option.elim_none, identified, hx, Option.elim_some, Row.get_insert, if_pos rfl]

theorem get_objectShown_column (hnamed : p.WellNamed) (hready : p.Ready entity bs row)
    (hname : .text name ∉ p.ownNames entity) (hkey : (row.get name).isKey = true) :
    (p.objectShown known entity (p.nestedShown known bs) row).get name =
      ((p.mappedKeys entity).get? (.text name)).elim (row.get name) fun k => foreignShown known k (row.get name) := by
  rw [get_objectShown hready, get_keysShown, get_identified hnamed hname]
  cases hk : (p.mappedKeys entity).get? (.text name) with
  | none => exact nestedShown_of_isKey hkey
  | some k => exact nestedShown_of_not_mem (hready.labels.column_not_mem (Table.mem_of_get?_text hk)) _

/-- What a row is rewritten to holds the rewritten objects where the row holds the objects. -/
theorem at_objectShown (hnamed : p.WellNamed) (hrow : Branch.Throughout p.Ready entity bs row)
    (hat : At Every entity bs row place e cs o) :
    At Every entity bs (p.objectShown known entity (p.nestedShown known bs) row) place e cs
      (p.objectShown known e (p.nestedShown known cs) o) := by
  induction hat with
  | here => exact .here
  | under mem may object below ih =>
    have hbelow := Branch.below_iff.mp (Branch.allBelow_iff.mp hrow.2 _ mem) _ (List.mem_of_getElem? object)
    refine .under mem may ?_ (ih hbelow)
    rw [get_objectShown_label hnamed hrow.1 mem, Value.nestedObjects_mapOnlyObjects, List.getElem?_map, object]
    rfl

/-! ## Identifiers and keys -/

/-- The identifier of an object: the one that was loaded, or else the one that is known for its key. -/
inductive Identifies (m : KeyMapping) (known : Row) (o : Row) : Value → Prop
  | loaded (h : Table.contains m.exposed o = true) : Identifies m known o (o.field m.exposed)
  | known {x : Value} (hloaded : Table.contains m.exposed o = false) (hkey : o.field m.key ≠ .null)
      (hx : known.get? (o.field m.key) = some x) : Identifies m known o x

/-- An object holds a key of its own, which can be looked up and found again. -/
structure OwnKey (m : KeyMapping) (o : Row) (key : Value) : Prop where
  held : o.field m.key = key
  ne_null : key ≠ .null
  isKey : key.isKey = true
  beq_self : (key == key) = true

/-- The key of an object does not show where it stands: its column shows the identifier, or what a foreign key is shown
as. -/
def Covered (p : Projector) (known : Value → Row) (entity : Value) (m : KeyMapping) (key : Value) : Prop :=
  m.key = .text "id" ∨ ∃ k, (p.mappedKeys entity).get? m.key = some k ∧ ¬ (foreignShown known k key == key) = true

theorem Identifies.ownIdentifier? (hm : p.mappings.get? entity = some m) (hx : Identifies m (known entity) o x) :
    p.ownIdentifier? known entity o = some x := by
  rw [Projector.ownIdentifier?, hm, Option.bind_some]
  cases hx with
  | loaded h => rw [if_pos h]
  | known hloaded hkey hx => rw [if_neg (by simp [hloaded]), keyShown?_of_ne_null hkey, shownAs, hx, Option.getD_some]

/-- A key that is not its own identifier stands under another column than that. -/
theorem OwnKey.ne_exposed {key : Value} (hkey : OwnKey m o key) (hx : Identifies m (known entity) o x)
    (hne : ¬ (x == key) = true) : m.exposed ≠ m.key := by
  intro heq
  cases hx with
  | loaded h => exact hne (by rw [heq, hkey.held]; exact hkey.beq_self)
  | known hloaded hnull hx =>
    refine hnull ?_
    rw [← heq, Row.field]
    rw [Table.contains, Option.isSome_eq_false_iff, Option.isNone_iff_eq_none] at hloaded
    rw [hloaded, Option.getD_none]

theorem hides_objectShown_iff (hnamed : p.WellNamed) (hready : p.Ready e cs o) (hm : p.mappings.get? e = some m)
    (hx : Identifies m (known e) o x) {key : Value} (hkey : OwnKey m o key) (hne : ¬ (x == key) = true) :
    ¬ ((p.objectShown known e (p.nestedShown known cs) o).field m.key == key) = true ↔ p.Covered known e m key := by
  have hexposed := hkey.ne_exposed hx hne
  obtain ⟨name, column, exposed, rfl, rfl⟩ := hnamed.mapping hm
  rw [Row.field_text]
  by_cases hid : column = "id"
  · subst hid
    rw [get_objectShown_id hready (hx.ownIdentifier? hm)]
    exact iff_of_true hne (.inl rfl)
  · have hcolumn : .text column ∉ p.ownNames (.text name) := by
      simpa [ownNames, hm, hid] using Ne.symm hexposed
    have hheld : o.get column = key := hkey.held
    rw [get_objectShown_column hnamed hready hcolumn (hheld ▸ hkey.isKey), hheld]
    simp only [Covered, Value.text.injEq, hid, false_or]
    cases (p.mappedKeys (.text name)).get? (.text column) with
    | none => simp [hkey.beq_self]
    | some k => simp

end Projector

namespace Shop

def bioKey : KeyMapping := ⟨.text "Profile", .text "profile_id", .text "bio"⟩

def profiles : Projector where
  catalog := fullCatalog
  entity := "Profile"
  includes := ⟨"Profile", []⟩
  mappings := [(.text "Profile", bioKey)]

def profileRow : Row := [(.text "profile_id", .int 1), (.text "bio", .text "green"), (.text "user_id", .int 7)]

end Shop

namespace Projector

variable {p : Projector} {store : LookupStore} {known : Value → Row}

/-- In projected rows every object stands where it stood, with its identifier under `id`. Its key no longer shows just
if `id` is the column of the key, or the key is a foreign key as well and something else is shown for that. -/
theorem project_hides_iff (hnamed : p.WellNamed) (hstore : store.Restricts known) {rows : List Row}
    (hrows : ∀ row ∈ rows, Branch.Throughout p.Ready (.text p.entity) p.includes.branches row) :
    ∃ shown, p.project store (rows.map .object) = .ok shown ∧
      List.Forall₂ (fun row row' => ∀ place e cs o, At Every (.text p.entity) p.includes.branches row place e cs o →
        ∃ o', At Every (.text p.entity) p.includes.branches row' place e cs o' ∧
          ∀ m x, p.mappings.get? e = some m → Identifies m (known e) o x → o'.get "id" = x ∧
            ∀ key, OwnKey m o key → ¬ (x == key) = true →
              (¬ (o'.field m.key == key) = true ↔ p.Covered known e m key)) rows shown := by
  obtain ⟨found, hfound, hexpose⟩ := exists_found_rewritten hnamed hstore hrows
  refine ⟨_, project_eq_map hfound hexpose, List.forall₂_map_right_iff.mpr (List.forall₂_same.mpr ?_)⟩
  intro row hrow place e cs o hat
  have hready := (hrows row hrow).at hat
  refine ⟨_, at_objectShown hnamed (hrows row hrow) hat, fun m x hm hx => ⟨?_, fun key hkey hne => ?_⟩⟩
  · exact get_objectShown_id hready (hx.ownIdentifier? hm)
  · exact hides_objectShown_iff hnamed hready hm hx hkey hne

theorem project_hides_iff_staff : ∃ shown,
    Shop.directory.project (.ofTables Shop.identifiers) (Shop.staff.map .object) = .ok shown ∧
      List.Forall₂ (fun row row' => ∀ place e cs o,
        At Every (.text "User") Shop.directory.includes.branches row place e cs o →
          ∃ o', At Every (.text "User") Shop.directory.includes.branches row' place e cs o' ∧
            ∀ m x, Shop.directory.mappings.get? e = some m →
              Identifies m (LookupStore.known Shop.identifiers e) o x → o'.get "id" = x ∧
                ∀ key, OwnKey m o key → ¬ (x == key) = true → (¬ (o'.field m.key == key) = true ↔
                  Shop.directory.Covered (LookupStore.known Shop.identifiers) e m key)) Shop.staff shown :=
  project_hides_iff Shop.wellNamed_directory (LookupStore.restricts_ofTables _) Shop.ready_staff

/-- A profile whose identifier is loaded shows that under `id`, and shows its key besides. -/
theorem not_hides_profile :
    Shop.profiles.project .empty [.object Shop.profileRow] =
        .ok [[(.text "profile_id", .int 1), (.text "user_id", .int 7), (.text "id", .text "green")]] ∧
      Identifies Shop.bioKey [] Shop.profileRow (.text "green") ∧ OwnKey Shop.bioKey Shop.profileRow (.int 1) ∧
        ¬ (Value.text "green" == .int 1) = true ∧
          (Row.field Shop.bioKey.key [(.text "profile_id", .int 1), (.text "user_id", .int 7),
            (.text "id", .text "green")] == .int 1) = true := by
  refine ⟨rfl, ?_, ⟨rfl, by simp, rfl, by decide +kernel⟩, by decide, by decide +kernel⟩
  exact .loaded rfl

end Projector

end Sift
