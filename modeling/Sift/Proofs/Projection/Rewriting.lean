import Sift.Proofs.Includes.Follows
import Sift.Proofs.Projection.Walk
import Sift.Proofs.Value.Rows

/-!
# Objects rewritten one by one

What becomes of an object can be said without any lookups, where it is known what every key is shown as: its identifier
is put under `id`, its foreign keys are replaced, and so are those of the objects it holds. Replacing the keys in steps,
each of which reads what the steps before it left, comes to the same.
-/

namespace Sift

namespace Projector

/-! ## Rewriting -/

/-- What a key is shown as: the identifier that is known for it, or the key itself. -/
def shownAs (known : Row) (v : Value) : Value := (known.get? v).getD v

/-- What a key is shown as. Null is no key. -/
def keyShown? (known : Row) : Value → Option Value
  | .null => none
  | v => some (shownAs known v)

/-- What a foreign key is shown as. Null stays null. -/
def foreignShown (known : Value → Row) (m : KeyMapping) (v : Value) : Value := (keyShown? (known m.entity) v).getD .null

/-- The foreign keys of an entity that refer to mapped entities. -/
def mappedKeys (p : Projector) (entity : Value) : Table Value KeyMapping :=
  ((p.catalog.foreignKeys entity).toOption.getD []).filterMap fun (column, relation) =>
    (p.mappings.get? relation.target).map fun m => (column, m)

/-- The identifier of an object of a mapped entity: the one that was loaded, or what its key is shown as. -/
def ownIdentifier? (p : Projector) (known : Value → Row) (entity : Value) (row : Row) : Option Value :=
  (p.mappings.get? entity).bind fun m =>
    if Table.contains m.exposed row then some (Row.field m.exposed row)
    else keyShown? (known entity) (Row.field m.key row)

/-- An object without the column that its entity is exposed by. -/
def kept (p : Projector) (entity : Value) (row : Row) : Row :=
  (p.mappings.get? entity).elim row fun m => Table.erase m.exposed row

/-- What is shown under a key of an object in place of what it holds there: its identifier, what a foreign key is shown
as, or what is shown under a label. -/
def fieldShown (p : Projector) (known : Value → Row) (entity : Value) (own : Option Value)
    (labelled : Value → Value → Value) (k v : Value) : Value :=
  match own, k == .text "id" with
  | some identifier, true => identifier
  | _, _ => ((p.mappedKeys entity).get? k).elim (labelled k v) fun m => foreignShown known m v

/-- An object that is rewritten on its own: every field as it is shown, with the identifier at the end where the object
has no `id`. -/
def objectShown (p : Projector) (known : Value → Row) (entity : Value) (labelled : Value → Value → Value) (row : Row) :
    Row :=
  let own := p.ownIdentifier? known entity row
  let shown := (p.kept entity row).mapValues (p.fieldShown known entity own labelled)
  if shown.contains "id" then shown else shown ++ (own.map fun v => (.text "id", v)).toList

/-- What is shown under the labels of branches: objects that are rewritten on their own. -/
def nestedShown (p : Projector) (known : Value → Row) : List Branch → Value → Value → Value :=
  Branch.allChanged Value.mapOnlyObjects (p.objectShown known)

/-- A row that is rewritten on its own. -/
def rewritten (p : Projector) (known : Value → Row) (row : Row) : Row :=
  p.objectShown known (.text p.entity) (p.nestedShown known p.includes.branches) row

theorem keyShown?_of_ne_null {known : Row} {v : Value} (h : v ≠ .null) :
    keyShown? known v = some (shownAs known v) := by
  unfold keyShown?
  split
  · exact absurd rfl h
  · rfl

/-! ## Rows that can be rewritten -/

/-- The mappings are made of names. -/
def WellNamed (p : Projector) : Prop :=
  ∀ e ∈ p.mappings, ∃ name key exposed : String, e = (.text name, ⟨.text name, .text key, .text exposed⟩)

/-- The names under which a mapped entity has identifiers of its own: `id`, and the column that it is exposed by. -/
def ownNames (p : Projector) (entity : Value) : List Value :=
  (p.mappings.get? entity).elim [] fun m => [.text "id", m.exposed]

/-- The foreign keys of an entity are known, and none that refers to a mapped entity is named as an identifier. -/
structure ColumnsApart (p : Projector) (entity : Value) : Prop where
  known : ∃ keys, p.foreignKeys entity = .ok keys
  named : ∀ e ∈ p.mappedKeys entity, ∃ column : String, e.1 = .text column
  own : ∀ e ∈ p.mappedKeys entity, e.1 ∉ p.ownNames entity

/-- Every branch has a label of its own, which is not the name of an identifier or of a foreign key. Trees that are
parsed or merged have every label once. -/
structure LabelsApart (p : Projector) (entity : Value) (bs : List Branch) : Prop where
  once : (bs.map Branch.label).Nodup
  own : ∀ b ∈ bs, .text b.label ∉ p.ownNames entity
  columns : ∀ b ∈ bs, ∀ e ∈ p.mappedKeys entity, e.1 ≠ .text b.label

/-- An object has every key once, and what it holds as keys of mapped entities can be keys. -/
structure Keyed (p : Projector) (entity : Value) (row : Row) : Prop where
  distinct : row.Distinct
  own : ∀ m, p.mappings.get? entity = some m → Table.contains m.exposed row = false →
    (Row.field m.key row).isKey = true
  foreign : ∀ e ∈ p.mappedKeys entity, (Row.field e.1 row).isKey = true

/-- An object that can be rewritten: what it holds under a name is one thing only. -/
structure Ready (p : Projector) (entity : Value) (bs : List Branch) (row : Row) : Prop where
  columns : p.ColumnsApart entity
  labels : p.LabelsApart entity bs
  keyed : p.Keyed entity row

variable {p : Projector} {known : Value → Row} {found : Table Value Row} {entity : Value} {bs : List Branch} {row : Row}

/-! ## Mappings and foreign keys -/

theorem WellNamed.mapping (h : p.WellNamed) {m : KeyMapping} (hm : p.mappings.get? entity = some m) :
    ∃ name key exposed : String, entity = .text name ∧ m = ⟨.text name, .text key, .text exposed⟩ := by
  obtain ⟨k, hk, heq⟩ := Table.exists_mem_of_get?_eq_some hm
  obtain ⟨name, key, exposed, he⟩ := h _ hk
  cases he
  exact ⟨name, key, exposed, Value.beq_text_iff.mp heq, rfl⟩

theorem collects_ownRequest_iff {Q : Request → Prop} (hnamed : p.WellNamed) : Collects (p.ownRequest entity row) Q ↔
    ∀ m, p.mappings.get? entity = some m → Table.contains m.exposed row = false →
      row.field m.key = .null ∨ (row.field m.key).isKey = true ∧ Q (entity, row.field m.key) := by
  unfold ownRequest
  cases hm : p.mappings.get? entity with
  | none => simp [Collects]
  | some m =>
    obtain ⟨name, key, exposed, rfl, rfl⟩ := hnamed.mapping hm
    simp only [Value.requireKey_text, bind, Except.bind, Option.some.injEq, forall_eq']
    split
    · rename_i hloaded
      simp [Collects, hloaded, pure, Except.pure]
    · rename_i hloaded
      simp [collects_request_iff, hloaded]

theorem mem_mappedKeys_iff {column : Value} {m : KeyMapping} : (column, m) ∈ p.mappedKeys entity ↔
    ∃ keys r, p.catalog.foreignKeys entity = .ok keys ∧ (column, r) ∈ keys ∧ p.mappings.get? r.target = some m := by
  unfold mappedKeys
  cases p.catalog.foreignKeys entity with
  | error e => simp [Except.toOption]
  | ok keys => simp [Except.toOption]

theorem WellNamed.mappedKey (h : p.WellNamed) {e : Value × KeyMapping} (he : e ∈ p.mappedKeys entity) :
    ∃ name : String, e.2.entity = .text name ∧ p.mappings.get? (.text name) = some e.2 := by
  obtain ⟨-, r, -, -, hm⟩ := mem_mappedKeys_iff.mp he
  obtain ⟨name, key, exposed, htarget, heq⟩ := h.mapping hm
  exact ⟨name, by rw [heq], htarget ▸ hm⟩

/-- Mappings that are made of names make such a projector, also where the base entity is exposed by a column of its
own. -/
theorem wellNamed_ofMappings {c : Catalog} {base : String} {t : IncludeTree} {ms : List KeyMapping} {column : Value}
    (hms : ∀ m ∈ ms, ∃ name key exposed : String, m = ⟨.text name, .text key, .text exposed⟩)
    (hcolumn : column.truthy = true → ∃ name : String, column = .text name)
    (hprimary : ∀ v, c.primaryKey (.text base) = .ok v → ∃ key : String, v = .text key)
    (h : ofMappings c base t ms column = .ok p) : p.WellNamed := by
  have hsame (k k' : Value) (m : KeyMapping) (heq : (k == k') = true)
      (hk : ∃ name key exposed : String, (k, m) = (.text name, ⟨.text name, .text key, .text exposed⟩)) :
      ∃ name key exposed : String, (k', m) = (.text name, ⟨.text name, .text key, .text exposed⟩) := by
    obtain ⟨name, key, exposed, hk⟩ := hk
    cases hk
    exact ⟨name, key, exposed, by rw [Value.text_beq_iff.mp heq]⟩
  simp only [ofMappings, KeyMapping.table, bind_eq_ok_iff, pure_eq_ok_iff] at h
  obtain ⟨_, ⟨entries, hentries, rfl⟩, h⟩ := h
  have hmapped : ∀ e ∈ Table.ofList entries, ∃ name key exposed : String,
      e = (.text name, ⟨.text name, .text key, .text exposed⟩) := by
    refine Table.forall_mem_ofList hsame fun e he => ?_
    obtain ⟨m, hm, hkey⟩ := mem_of_mapM_eq_ok hentries e he
    obtain ⟨k, hk, hkey⟩ := bind_eq_ok_iff.mp hkey
    cases pure_eq_ok_iff.mp hkey
    obtain rfl := Value.eq_of_requireKey hk
    obtain ⟨name, key, exposed, rfl⟩ := hms m hm
    exact ⟨name, key, exposed, rfl⟩
  split at h
  · rename_i htruthy
    simp only [bind_eq_ok_iff, pure_eq_ok_iff] at h
    obtain ⟨key, hkey, _, rfl, rfl⟩ := h
    obtain ⟨name, rfl⟩ := hcolumn htruthy
    obtain ⟨key, rfl⟩ := hprimary key hkey
    exact Table.forall_mem_insert hsame ⟨base, key, name, rfl⟩ hmapped
  · simp only [bind_eq_ok_iff, pure_eq_ok_iff] at h
    obtain ⟨_, rfl, rfl⟩ := h
    exact hmapped

theorem foreignKeys_eq {keys : List (Value × KeyMapping)} (h : p.foreignKeys entity = .ok keys) :
    p.foreignKeys entity = .ok (p.mappedKeys entity) := by
  rw [h]
  simp only [foreignKeys, bind_eq_ok_iff, pure_eq_ok_iff] at h
  obtain ⟨owned, howned, mapped, hmapped, rfl⟩ := h
  have hmap : mapped = owned.map fun e => (p.mappings.get? e.2.target).map fun m => (e.1, m) := by
    rw [← List.map_id mapped]
    refine map_eq_of_mapM_eq_ok (fun e o ho => ?_) hmapped
    obtain ⟨target, htarget, ho⟩ := bind_eq_ok_iff.mp ho
    cases pure_eq_ok_iff.mp ho
    obtain rfl := Value.eq_of_requireKey htarget
    rfl
  rw [hmap, List.filterMap_map, mappedKeys, howned]
  rfl

theorem ColumnsApart.of_singleton {column : String} {m : KeyMapping}
    (h : p.foreignKeys entity = .ok [(.text column, m)]) (hown : .text column ∉ p.ownNames entity) : p.ColumnsApart entity := by
  have hkeys : [(.text column, m)] = p.mappedKeys entity := Except.ok.inj (h.symm.trans (foreignKeys_eq h))
  refine ⟨⟨_, h⟩, ?_, ?_⟩ <;> rw [← hkeys]
  · exact List.forall_mem_singleton.mpr ⟨column, rfl⟩
  · exact List.forall_mem_singleton.mpr hown

/-- Foreign keys are told once each. -/
theorem distinct_mappedKeys : Table.Distinct (p.mappedKeys entity) := by
  have hdistinct : Table.Distinct ((p.catalog.foreignKeys entity).toOption.getD []) := by
    cases h : p.catalog.foreignKeys entity with
    | error e => exact List.Pairwise.nil
    | ok keys =>
      simp only [Catalog.foreignKeys, bind_eq_ok_iff, pure_eq_ok_iff] at h
      obtain ⟨-, -, -, -, rfl⟩ := h
      exact Table.distinct_ofList _
  exact hdistinct.filterMap fun e => p.mappings.get? e.2.target

theorem ColumnsApart.exists_column (h : p.ColumnsApart entity) {k : Value} {m : KeyMapping}
    (hk : (p.mappedKeys entity).get? k = some m) :
    ∃ column : String, k = .text column ∧ (k, m) ∈ p.mappedKeys entity := by
  obtain ⟨k', hmem, heq⟩ := Table.exists_mem_of_get?_eq_some hk
  obtain ⟨column, rfl⟩ := h.named _ hmem
  obtain rfl := Value.beq_text_iff.mp heq
  exact ⟨column, rfl, hmem⟩

theorem ColumnsApart.get?_own (h : p.ColumnsApart entity) {name : String} (hname : .text name ∈ p.ownNames entity) :
    (p.mappedKeys entity).get? (.text name) = none := by
  cases hk : (p.mappedKeys entity).get? (.text name) with
  | none => rfl
  | some m =>
    obtain ⟨_, -, hmem⟩ := h.exists_column hk
    exact absurd hname (h.own _ hmem)

theorem LabelsApart.get?_label (h : p.LabelsApart entity bs) {b : Branch} (hb : b ∈ bs) :
    (p.mappedKeys entity).get? (.text b.label) = none := by
  cases hk : (p.mappedKeys entity).get? (.text b.label) with
  | none => rfl
  | some m => exact absurd rfl (h.columns b hb _ (Table.mem_of_get?_text hk))

theorem LabelsApart.own_not_mem (h : p.LabelsApart entity bs) {name : String} (hname : .text name ∈ p.ownNames entity) :
    name ∉ bs.map Branch.label := by
  intro hmem
  obtain ⟨b, hb, rfl⟩ := List.mem_map.mp hmem
  exact h.own b hb hname

theorem LabelsApart.column_not_mem (h : p.LabelsApart entity bs) {column : String} {m : KeyMapping}
    (hcolumn : (.text column, m) ∈ p.mappedKeys entity) : column ∉ bs.map Branch.label := by
  intro hmem
  obtain ⟨b, hb, rfl⟩ := List.mem_map.mp hmem
  exact h.columns b hb _ hcolumn rfl

theorem id_mem_ownNames {m : KeyMapping} (hm : p.mappings.get? entity = some m) : .text "id" ∈ p.ownNames entity := by
  rw [ownNames, hm]
  exact List.mem_cons_self

/-! ## The keys of one object -/

/-- An object with its identifier under `id` instead of where it was loaded. -/
def identified (p : Projector) (known : Value → Row) (entity : Value) (row : Row) : Row :=
  (p.ownIdentifier? known entity row).elim (p.kept entity row) fun v => Row.insert "id" v (p.kept entity row)

/-- An object with identifiers in place of the keys that it holds itself. -/
def keysShown (p : Projector) (known : Value → Row) (entity : Value) (row : Row) : Row :=
  (p.identified known entity row).mapValues fun k v =>
    ((p.mappedKeys entity).get? k).elim v fun m => foreignShown known m v


/-- What was found tells what a key is shown as. -/
def Tells (found : Table Value Row) (known : Value → Row) (q : Request) : Prop :=
  identifier found q.1 q.2 = .ok (shownAs (known q.1) q.2)

theorem Tells.of_collects {v : Value} (h : Collects (request entity v) (Tells found known)) (hv : v ≠ .null) :
    identifier found entity v = .ok (shownAs (known entity) v) :=
  ((collects_request_iff.mp h).resolve_left hv).2

theorem exposeOwn_eq (hnamed : p.WellNamed) (h : Collects (p.ownRequest entity row) (Tells found known)) :
    p.exposeOwn found entity row = .ok (p.identified known entity row) := by
  unfold exposeOwn identified ownIdentifier? kept
  cases hm : p.mappings.get? entity with
  | none => rfl
  | some m =>
    obtain ⟨name, key, exposed, rfl, rfl⟩ := hnamed.mapping hm
    simp only [Value.requireKey_text, bind, Except.bind, Option.bind_some, Option.elim_some]
    split
    · rfl
    · rename_i hloaded
      have htold := (collects_ownRequest_iff hnamed).mp h _ hm (Bool.eq_false_iff.mpr hloaded)
      rw [Table.erase_of_not_contains (Bool.eq_false_iff.mpr hloaded)]
      generalize Row.field (.text key) row = v at htold ⊢
      by_cases hnull : v = .null
      · subst hnull
        rfl
      · have hidentifier : identifier found (.text name) v = .ok (shownAs (known (.text name)) v) :=
          (htold.resolve_left hnull).2
        cases v <;>
          first | exact absurd rfl hnull | simp only [hidentifier, keyShown?, Option.elim_some, pure, Except.pure]

/-- Replacing a foreign key changes the value under its column. -/
theorem exposeForeignKey_eq (hrow : row.Distinct) {column : String} {m : KeyMapping}
    (h : Collects (request m.entity (row.get column)) (Tells found known)) :
    exposeForeignKey found row (.text column, m) = .ok (row.adjusted column (foreignShown known m)) := by
  unfold exposeForeignKey
  rw [Row.field_text]
  split
  · rename_i hnull
    rw [Row.adjusted_eq_self hrow (by rw [hnull]; rfl)]
  · rename_i hnull
    have hshown : foreignShown known m (row.get column) = shownAs (known m.entity) (row.get column) := by
      rw [foreignShown, keyShown?_of_ne_null hnull, Option.getD_some]
    rw [Tells.of_collects h hnull, Row.adjusted_eq_insert hrow (Row.contains_of_get hnull), hshown]
    rfl

/-- Foreign keys that are told once each are replaced one after another as if all at once. -/
theorem foldlM_exposeForeignKey_eq {keys : Table Value KeyMapping}
    (hcolumns : ∀ e ∈ keys, ∃ column : String, e.1 = .text column)
    (honce : keys.Pairwise fun a b => ¬ (b.1 == a.1) = true) {row : Row} (hrow : row.Distinct)
    (h : ∀ e ∈ keys, Collects (request e.2.entity (Row.field e.1 row)) (Tells found known)) :
    keys.foldlM (exposeForeignKey found) row =
      .ok (row.mapValues fun k v => (keys.get? k).elim v fun m => foreignShown known m v) := by
  induction keys generalizing row with
  | nil =>
    rw [Row.mapValues_eq_self fun _ _ => rfl]
    rfl
  | cons e keys ih =>
    obtain ⟨column, m⟩ := e
    obtain ⟨⟨column, rfl⟩, hothers⟩ := List.forall_mem_cons.mp hcolumns
    obtain ⟨hfirst, honce⟩ := List.pairwise_cons.mp honce
    obtain ⟨hm, hrest⟩ := List.forall_mem_cons.mp h
    have hother : ∀ e ∈ keys, ∃ other : String, e.1 = .text other ∧ other ≠ column := by
      intro e he
      obtain ⟨other, hother⟩ := hothers e he
      refine ⟨other, hother, ?_⟩
      rintro rfl
      exact hfirst e he (Value.beq_text_iff.mpr hother)
    -- the first replacement leaves the columns of the others alone, so the others find what they would have found
    have hrest' : ∀ e ∈ keys, Collects
        (request e.2.entity (Row.field e.1 (row.adjusted column (foreignShown known m)))) (Tells found known) := by
      intro e he
      obtain ⟨other, hother, hne⟩ := hother e he
      have hget := hrest e he
      rw [hother, Row.field_text] at hget ⊢
      rwa [Row.get_adjusted hne]
    have hnone : Table.get? (.text column) keys = none := by
      rw [← Option.not_isSome_iff_eq_none, Option.isSome_iff_exists]
      rintro ⟨m', hm'⟩
      exact hfirst _ (Table.mem_of_get?_text hm') (Value.text_beq_iff.mpr rfl)
    rw [List.foldlM_cons, exposeForeignKey_eq hrow hm]
    simp only [bind, Except.bind]
    rw [ih hothers honce (Row.distinct_adjusted hrow) hrest',
      Row.mapValues_adjusted fun v => by rw [hnone, Option.elim_none]]
    congr 1
    refine Row.mapValues_congr fun e _ => ?_
    rw [Table.get?]
    split <;> rfl

theorem get_identified {name : String} (hnamed : p.WellNamed) (h : .text name ∉ p.ownNames entity) :
    (p.identified known entity row).get name = row.get name := by
  unfold identified ownIdentifier? kept
  unfold ownNames at h
  cases hm : p.mappings.get? entity with
  | none => rfl
  | some m =>
    obtain ⟨_, key, exposed, -, rfl⟩ := hnamed.mapping hm
    simp only [hm, Option.elim_some, List.mem_cons, List.not_mem_nil, or_false, not_or] at h
    obtain ⟨hid, hexposed⟩ := h
    have hkept : (Row.erase exposed row).get name = row.get name :=
      Row.get_erase (fun heq => hexposed (congrArg _ heq)) row
    simp only [Option.elim_some, Option.bind_some]
    cases hown : (if Table.contains (.text exposed) row then some (Row.field (.text exposed) row)
      else keyShown? (known entity) (Row.field (.text key) row)) with
    | none => exact hkept
    | some v =>
      rw [Option.elim_some, Row.get_insert, if_neg fun heq => hid (congrArg _ heq)]
      exact hkept

theorem distinct_kept (h : row.Distinct) : (p.kept entity row).Distinct := by
  unfold kept
  cases p.mappings.get? entity with
  | none => exact h
  | some m => exact h.erase _

theorem distinct_identified (h : row.Distinct) : (p.identified known entity row).Distinct := by
  unfold identified
  cases p.ownIdentifier? known entity row with
  | none => exact distinct_kept h
  | some v => exact (distinct_kept h).insert _ _

theorem exposeKeys_eq (hnamed : p.WellNamed) (hcolumns : p.ColumnsApart entity) (hkeyed : p.Keyed entity row)
    (h : Collects (p.objectRequests entity row) (Tells found known)) :
    p.exposeKeys found entity row = .ok (p.keysShown known entity row) := by
  obtain ⟨keys, hkeys⟩ := hcolumns.known
  have hkeys := foreignKeys_eq hkeys
  obtain ⟨hown, hforeign⟩ := (collects_objectRequests_iff hkeys).mp h
  have hidentified : ∀ e ∈ p.mappedKeys entity,
      Collects (request e.2.entity (Row.field e.1 (p.identified known entity row))) (Tells found known) := by
    intro e he
    obtain ⟨column, hcolumn⟩ := hcolumns.named e he
    have hget := hforeign e he
    rw [hcolumn, Row.field_text] at hget ⊢
    rwa [get_identified hnamed (hcolumn ▸ hcolumns.own e he)]
  simp only [exposeKeys, exposeOwn_eq hnamed hown, hkeys, bind, Except.bind]
  exact foldlM_exposeForeignKey_eq hcolumns.named distinct_mappedKeys (distinct_identified hkeyed.distinct) hidentified

theorem exists_mapping {v : Value} (h : p.ownIdentifier? known entity row = some v) :
    ∃ m, p.mappings.get? entity = some m := by
  cases hm : p.mappings.get? entity with
  | none =>
    rw [ownIdentifier?, hm] at h
    cases h
  | some m => exact ⟨m, rfl⟩

/-- Changing what is left under labels when the keys are replaced makes of an object what rewriting it makes. -/
theorem objectShown_eq {labelled : Value → Value → Value} (hrow : row.Distinct)
    (hforeign : ∀ k m, (p.mappedKeys entity).get? k = some m → ∀ v, labelled k v = v)
    (hown : ∀ m, p.mappings.get? entity = some m →
      (p.mappedKeys entity).get? (.text "id") = none ∧ ∀ v, labelled (.text "id") v = v) :
    p.objectShown known entity labelled row = (p.keysShown known entity row).mapValues labelled := by
  -- what becomes of a field other than the identifier
  have hfield (k v : Value) : labelled k (((p.mappedKeys entity).get? k).elim v fun m => foreignShown known m v) =
      ((p.mappedKeys entity).get? k).elim (labelled k v) fun m => foreignShown known m v := by
    cases hk : (p.mappedKeys entity).get? k with
    | none => rfl
    | some m => exact hforeign k m hk _
  rw [keysShown, Row.mapValues_mapValues]
  simp only [objectShown, hfield, identified]
  cases hidentifier : p.ownIdentifier? known entity row with
  | none =>
    rw [Option.map_none, Option.toList_none, List.append_nil, ite_self]
    rfl
  | some v =>
    obtain ⟨m, hm⟩ := exists_mapping hidentifier
    obtain ⟨hid, hlabelled⟩ := hown m hm
    have hself (w : Value) : ((p.mappedKeys entity).get? (.text "id")).elim (labelled (.text "id") w)
        (fun m => foreignShown known m w) = w := by
      rw [hid, Option.elim_none, hlabelled]
    rw [Row.contains, Row.contains_mapValues, Option.elim_some]
    split
    · rename_i hcontains
      have hinsert : (p.kept entity row).adjusted "id" (fun _ => v) = (p.kept entity row).insert "id" v :=
        Row.adjusted_eq_insert (distinct_kept hrow) hcontains
      rw [← hinsert, Row.mapValues_adjusted hself]
      refine Row.mapValues_congr fun e _ => ?_
      unfold fieldShown
      cases e.1 == .text "id" <;> rfl
    · -- the identifier is put at the end, where no field is changed by it
      rename_i hcontains
      have hinsert : (p.kept entity row).insert "id" v = p.kept entity row ++ [(.text "id", v)] :=
        Table.insert_of_not_contains (Bool.eq_false_iff.mpr hcontains) v
      rw [hinsert, Row.mapValues_append, Option.map_some, Option.toList_some]
      congr 1
      · refine Row.mapValues_congr fun e he => ?_
        have hne : ¬ (e.1 == .text "id") = true := fun heq =>
          hcontains (Row.contains_of_mem (Value.beq_text_iff.mp heq ▸ he : (.text "id", e.2) ∈ p.kept entity row))
        unfold fieldShown
        rw [Bool.eq_false_iff.mpr hne]
      · rw [Row.mapValues, List.map_singleton]
        simp only [hself]

/-! ## The objects in a row -/

/-- An object whose keys are replaced as they are shown, and whose labels keep what they held. -/
structure Exposed (p : Projector) (found : Table Value Row) (known : Value → Row) (entity : Value) (bs : List Branch)
    (row : Row) : Prop where
  keys : p.exposeKeys found entity row = .ok (p.keysShown known entity row)
  distinct : (p.keysShown known entity row).Distinct
  labels : (bs.map Branch.label).Nodup
  kept : ∀ b ∈ bs, (p.keysShown known entity row).get b.label = row.get b.label
  shown : p.objectShown known entity (p.nestedShown known bs) row =
    (p.keysShown known entity row).mapValues (p.nestedShown known bs)

theorem nestedShown_of_not_mem {name : String} (h : name ∉ bs.map Branch.label) (v : Value) :
    p.nestedShown known bs (.text name) v = v :=
  Branch.allChanged_of_not_mem h

/-- In an object that can be rewritten no name is changed twice. -/
theorem objectShown_of_ready (hready : p.Ready entity bs row) :
    p.objectShown known entity (p.nestedShown known bs) row =
      (p.keysShown known entity row).mapValues (p.nestedShown known bs) := by
  refine objectShown_eq hready.keyed.distinct (fun k m hk => ?_) fun m hm => ?_
  · obtain ⟨column, rfl, hmem⟩ := hready.columns.exists_column hk
    exact nestedShown_of_not_mem (hready.labels.column_not_mem hmem)
  · have hid := id_mem_ownNames hm
    exact ⟨hready.columns.get?_own hid, nestedShown_of_not_mem (hready.labels.own_not_mem hid)⟩

theorem get_keysShown (name : String) : (p.keysShown known entity row).get name =
    ((p.mappedKeys entity).get? (.text name)).elim ((p.identified known entity row).get name) fun m =>
      foreignShown known m ((p.identified known entity row).get name) := by
  refine Row.get_mapValues ?_
  cases (p.mappedKeys entity).get? (.text name) <;> rfl

/-- Replacing the keys of an object leaves the labels alone. -/
theorem get_keysShown_label (hnamed : p.WellNamed) (hready : p.Ready entity bs row) {b : Branch} (hb : b ∈ bs) :
    (p.keysShown known entity row).get b.label = row.get b.label := by
  rw [get_keysShown, hready.labels.get?_label hb, Option.elim_none, get_identified hnamed (hready.labels.own b hb)]

theorem exposed_of_ready (hnamed : p.WellNamed) (hready : p.Ready entity bs row)
    (h : Collects (p.objectRequests entity row) (Tells found known)) : p.Exposed found known entity bs row where
  keys := exposeKeys_eq hnamed hready.columns hready.keyed h
  distinct := Row.distinct_mapValues (distinct_identified hready.keyed.distinct)
  labels := hready.labels.once
  kept _ hb := get_keysShown_label hnamed hready hb
  shown := objectShown_of_ready hready

mutual
theorem exposeBranch_eq : (b : Branch) → {row : Row} → row.Distinct →
    b.Below (p.Exposed found known) (row.get b.label) → p.exposeBranch found row b =
      .ok (row.adjusted b.label (b.changed Value.mapOnlyObjects (p.objectShown known)))
  | ⟨label, target, many, through, nested⟩, row, hrow, h => by
    rw [Branch.Below] at h
    have hobject : ∀ o ∈ nestedObjects (row.get label), (do
        return .object (← p.exposeNested found (← p.exposeKeys found target o) nested) : Except Fault Value) =
          .ok (.object (p.objectShown known target (p.nestedShown known nested) o)) := by
      intro o ho
      obtain ⟨hexposed, hbelow⟩ := h o ho
      simp only [hexposed.keys, bind, Except.bind,
        exposeNested_eq nested hexposed.distinct hexposed.labels (hbelow.congr hexposed.kept), hexposed.shown]
      rfl
    have hchanged : Branch.changed Value.mapOnlyObjects (p.objectShown known) ⟨label, target, many, through, nested⟩ =
        Value.mapOnlyObjects (p.objectShown known target (p.nestedShown known nested)) := by
      funext v
      rw [Branch.changed]
      rfl
    rw [exposeBranch, hchanged]
    simp only
    split
    · rename_i items heq
      rw [heq] at hobject
      have hcontains : row.contains label = true := Row.contains_of_get (by simp [heq])
      rw [mapM_eq_ok hobject, Row.adjusted_eq_insert hrow hcontains, heq, Value.mapOnlyObjects_list]
      rfl
    · rename_i entries heq
      rw [heq] at hobject
      have hcontains : row.contains label = true := Row.contains_of_get (by simp [heq])
      rw [hobject entries (List.mem_singleton_self _), Row.adjusted_eq_insert hrow hcontains, heq]
      rfl
    · rename_i hlist hobject
      rw [Row.adjusted_eq_self hrow]
      · rfl
      · unfold Value.mapOnlyObjects
        split
        · exact absurd ‹_› (hlist _)
        · exact absurd ‹_› (hobject _)
        · rfl

/-- Replacing the keys below one label after another is changing what stands under all of them. -/
theorem exposeNested_eq : (bs : List Branch) → {row : Row} → row.Distinct → (bs.map Branch.label).Nodup →
    Branch.AllBelow (p.Exposed found known) bs row →
      p.exposeNested found row bs = .ok (row.mapValues (p.nestedShown known bs))
  | [], row, _, _, _ => by
    rw [exposeNested, Row.mapValues_eq_self]
    intro e _
    rw [nestedShown, Branch.allChanged]
  | b :: bs, row, hrow, hlabels, h => by
    obtain ⟨hlabel, hlabels⟩ := List.nodup_cons.mp hlabels
    rw [Branch.AllBelow] at h
    -- no other branch looks under this label
    have hrest : Branch.AllBelow (p.Exposed found known) bs
        (row.adjusted b.label (b.changed Value.mapOnlyObjects (p.objectShown known))) := by
      refine h.2.congr fun c hc => Row.get_adjusted fun heq => hlabel ?_
      exact heq ▸ List.mem_map_of_mem hc
    have hkept (v : Value) : p.nestedShown known bs (.text b.label) v = v := Branch.allChanged_of_not_mem hlabel
    rw [exposeNested, exposeBranch_eq b hrow h.1]
    simp only [bind, Except.bind]
    rw [exposeNested_eq bs (Row.distinct_adjusted hrow) hlabels hrest, Row.mapValues_adjusted hkept]
    simp only [nestedShown, Branch.allChanged]
end

/-- A row is shown as it is when it is rewritten on its own, where its keys are told. -/
theorem expose_eq (hnamed : p.WellNamed)
    (hready : Branch.Throughout p.Ready (.text p.entity) p.includes.branches row)
    (h : Collects (p.rowRequests (.object row)) (Tells found known)) :
    p.expose found (.object row) = .ok (p.rewritten known row) := by
  obtain ⟨hrow, hbelow⟩ := collects_rowRequests_iff.mp h
  have hexposed := exposed_of_ready hnamed hready.1 hrow
  have hnested : Branch.AllBelow (p.Exposed found known) p.includes.branches row :=
    hready.2.imp₂ (fun _ _ _ => exposed_of_ready hnamed) p.includes.branches hbelow
  simp only [expose, Row.ofValue, hexposed.keys, bind, Except.bind, rewritten, hexposed.shown]
  exact exposeNested_eq p.includes.branches hexposed.distinct hexposed.labels (hnested.congr hexposed.kept)

end Projector

end Sift
