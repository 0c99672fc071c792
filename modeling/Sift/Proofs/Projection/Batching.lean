import Sift.Proofs.Projection.Lookups
import Sift.Proofs.Projection.Rewriting
import Sift.Proofs.Sample
import Sift.Proofs.Value.Keys

/-!
# Looking keys up in batches

The keys of all rows are looked up with one call per entity, and then replaced in a second walk. A store that finds what
is known of the keys it is asked for makes the rows that rewriting each of their objects on its own makes.
-/

namespace Sift

/-- For the keys that it is asked for the store finds what is known of them, and nothing for those that are unknown. -/
def LookupStore.Restricts (store : LookupStore) (known : Value → Row) : Prop :=
  ∀ (entity key exposed : Value) (keys : List Value), (∀ v ∈ keys, v.isKey = true) →
    ∃ found, store ⟨entity, key, exposed, .list keys⟩ = .ok found ∧
      ∀ v, v.isKey = true → keys.contains v = true → found.get? v = (known entity).get? v

/-! ## Stores of tables -/

theorem Table.get?_insertMany_known (known : Row) {v : Value} (hv : v.isKey = true) {keys : List Value}
    (hkeys : ∀ k ∈ keys, k.isKey = true) (t : Table Value Value) :
    (t.insertMany (keys.filterMap fun k => (known.get? k).map fun a => (k, a))).get? v =
      if keys.contains v then (known.get? v).or (t.get? v) else t.get? v := by
  induction keys generalizing t with
  | nil => rfl
  | cons k keys ih =>
    obtain ⟨hk, hkeys⟩ := List.forall_mem_cons.mp hkeys
    rw [List.contains_cons]
    cases ha : known.get? k with
    | none =>
      rw [List.filterMap_cons_none (by rw [ha, Option.map_none]), ih hkeys]
      by_cases hvk : (v == k) = true
      · have hnone : known.get? v = none := (Table.get?_congr hv hk hvk known).trans ha
        rw [hnone, hvk, Bool.true_or, if_pos rfl, Option.none_or, ite_self]
      · rw [Bool.eq_false_iff.mpr hvk, Bool.false_or]
    | some a =>
      have hstep : t.insertMany ((k, a) :: keys.filterMap fun k => (known.get? k).map fun a => (k, a)) =
        (Table.insert k a t).insertMany (keys.filterMap fun k => (known.get? k).map fun a => (k, a)) := rfl
      rw [List.filterMap_cons_some (by rw [ha, Option.map_some]), hstep, ih hkeys, Table.get?_insert_key hk hv]
      by_cases hvk : (v == k) = true
      · have hsome : known.get? v = some a := (Table.get?_congr hv hk hvk known).trans ha
        rw [hsome, hvk, Bool.true_or, if_pos rfl, if_pos rfl, Option.some_or, Option.some_or, ite_self]
      · rw [Bool.eq_false_iff.mpr hvk, Bool.false_or, if_neg Bool.false_ne_true]

/-- The store that finds what is known. -/
def LookupStore.ofKnown (known : Value → Row) : LookupStore := fun l => do
  return Table.ofList ((← l.keys.elements).filterMap fun k => ((known l.entity).get? k).map fun v => (k, v))

theorem LookupStore.restricts_ofKnown (known : Value → Row) : (ofKnown known).Restricts known := by
  intro entity key exposed keys hkeys
  refine ⟨_, rfl, fun v hv hcontains => ?_⟩
  have hfound := Table.get?_insertMany_known (known entity) hv hkeys []
  rw [if_pos hcontains] at hfound
  refine hfound.trans ?_
  cases Table.get? v (known entity) <;> rfl

/-- What tables have for the keys of an entity. -/
def LookupStore.known (tables : Table Value Row) (entity : Value) : Row := (tables.get? entity).getD []

/-- Tables find what they have for the keys that they are asked for. -/
theorem LookupStore.restricts_ofTables (tables : Table Value Row) : (ofTables tables).Restricts (known tables) :=
  restricts_ofKnown (known tables)

theorem LookupStore.isKey_known {tables : Table Value Row} (h : ∀ t ∈ tables, ∀ e ∈ t.2, e.1.isKey = true)
    (entity : Value) : ∀ e ∈ known tables entity, e.1.isKey = true := by
  unfold known
  cases ht : tables.get? entity with
  | none => exact fun _ he => absurd he List.not_mem_nil
  | some t =>
    obtain ⟨k, hmem, -⟩ := Table.exists_mem_of_get?_eq_some ht
    exact h _ hmem

namespace Projector

variable {p : Projector} {store : LookupStore} {known : Value → Row} {entity : Value} {bs : List Branch} {row : Row}
  {rows : List Row}

/-! ## Requests -/

/-- A key that can be looked up, of a mapped entity. -/
def Lookupable (p : Projector) (q : Request) : Prop :=
  ∃ name : String, q.1 = .text name ∧ (∃ m, p.mappings.get? (.text name) = some m) ∧ q.2.isKey = true

theorem collects_of_ready (hnamed : p.WellNamed) (hready : p.Ready entity bs row) :
    Collects (p.objectRequests entity row) p.Lookupable := by
  obtain ⟨⟨⟨keys, hkeys⟩, -, -⟩, -, hkeyed⟩ := hready
  refine (collects_objectRequests_iff (foreignKeys_eq hkeys)).mpr ⟨?_, fun e he => ?_⟩
  · refine (collects_ownRequest_iff hnamed).mpr fun m hm hloaded => ?_
    obtain ⟨name, key, exposed, rfl, rfl⟩ := hnamed.mapping hm
    have howned := hkeyed.own _ hm hloaded
    exact .inr ⟨howned, name, rfl, ⟨_, hm⟩, howned⟩
  · obtain ⟨name, hname, hm⟩ := hnamed.mappedKey he
    exact collects_request_iff.mpr (.inr ⟨hkeyed.foreign e he, name, hname, ⟨_, hm⟩, hkeyed.foreign e he⟩)

/-- The lookups tell what every key is shown as that some row asks for. -/
theorem exists_found_known (hstore : store.Restricts known)
    (h : ∀ row ∈ rows, Collects (p.rowRequests (.object row)) p.Lookupable) :
    ∃ calls found, p.lookups (rows.map .object) = .ok calls ∧ lookAll store calls = .ok found ∧
      ∀ row ∈ rows, Collects (p.rowRequests (.object row)) (Tells found known) := by
  obtain ⟨requests, hmap, hall⟩ := exists_mapM_eq_ok (List.forall_mem_map.mpr h)
  have hflatten : ∀ q ∈ requests.flatten, p.Lookupable q := by
    intro q hq
    obtain ⟨qs, hqs, hq⟩ := List.mem_flatten.mp hq
    exact hall qs hqs q hq
  have hwanted := forall_foldl_addRequest (G := fun name => ∃ m, p.mappings.get? (.text name) = some m)
    (K := fun v => v.isKey = true) hflatten
  obtain ⟨found, hfound, -, hanswers⟩ := exists_lookAll_of
    (fun name keys row => ∀ v, v.isKey = true → keys.contains v = true → row.get? v = (known (.text name)).get? v)
    fun e he => by
      obtain ⟨name, hname, ⟨m, hm⟩, hkeys⟩ := hwanted e he
      obtain ⟨found, hfound, hget⟩ := hstore (.text name) m.key m.exposed
        (sortBy (fun v w => decide (v.literal ≤ w.literal)) e.2) fun v hv => hkeys v (mem_sortBy.mp hv)
      exact ⟨name, m, found, hname, hm, hfound, fun v hv hcontains => hget v hv (by rw [contains_sortBy, hcontains])⟩
  refine ⟨_, found, by simp only [lookups, hmap, bind, Except.bind]; rfl, hfound, fun row hrow => ?_⟩
  obtain ⟨qs, hqs, hrequests⟩ := exists_mem_of_mapM_eq_ok hmap _ (List.mem_map_of_mem hrow)
  refine ⟨qs, hrequests, fun q hq => ?_⟩
  obtain ⟨name, hname, -, hkey⟩ := hall qs hqs q hq
  have hasked : (.text name, q.2) ∈ requests.flatten := hname ▸ List.mem_flatten.mpr ⟨qs, hqs, hq⟩
  have hget : ((found.get? (.text name)).getD []).get? q.2 = (known (.text name)).get? q.2 := by
    -- a key that does not equal itself is in no list of keys, and known to no table
    by_cases hself : (q.2 == q.2) = true
    · have hholds : Holds (requests.flatten.foldl addRequest []) name q.2 := holds_foldl (.inr hasked) hself
      obtain ⟨keys, hkeys, hcontains⟩ := hholds
      obtain ⟨row, hrow, hget⟩ := hanswers name keys hkeys
      rw [hrow]
      exact hget q.2 hkey hcontains
    · rw [Table.get?_of_not_beq_self hkey hself, Table.get?_of_not_beq_self hkey hself]
  have hrequire : q.2.requireKey = .ok q.2 := if_pos hkey
  rw [Tells, identifier, hname, hrequire]
  simp only [bind, Except.bind, hget]
  rfl

end Projector

/-! ## People and what they own -/

namespace Shop

def directory : Projector where
  catalog := fullCatalog
  entity := "User"
  includes := ⟨"User", [⟨"products", .text "Product", .bool true, .null, []⟩,
    ⟨"manager", .text "User", .bool false, .null, []⟩]⟩
  mappings := [(.text "User", external)]

def staff : List Row :=
  [[(.text "id", .int 7), (.text "manager_id", .null), (.text "manager", .null),
      (.text "products", .list [.object [(.text "id", .int 1), (.text "owner_id", .int 7)]])],
    [(.text "id", .int 8), (.text "external_id", .text "ext-008"), (.text "manager_id", .int 7),
      (.text "manager", .object [(.text "id", .int 7), (.text "name", .text "Alice")]), (.text "products", .list [])]]

theorem wellNamed_directory : directory.WellNamed := by
  intro e he
  obtain rfl := List.mem_singleton.mp he
  exact ⟨"User", "id", "external_id", rfl⟩

theorem ownNames_directory : directory.ownNames (.text "User") = [.text "id", .text "external_id"] := rfl

theorem ready_person (bs : List Branch) (hlabels : (bs.map Branch.label).Nodup)
    (hnames : ∀ b ∈ bs, b.label ∉ ["id", "external_id", "manager_id"]) {row : Row} (hrow : row.Distinct)
    (hid : (row.get "id").isKey = true) (hmanager : (row.get "manager_id").isKey = true) :
    directory.Ready (.text "User") bs row where
  columns := .of_singleton rfl (by simp [ownNames_directory])
  labels := {
    once := hlabels
    own := fun b hb hmem => hnames b hb (by
      rw [ownNames_directory] at hmem
      simp only [List.mem_cons, Value.text.injEq] at hmem ⊢
      tauto)
    columns := fun b hb => List.forall_mem_singleton.mpr fun heq => hnames b hb (by simp [← Value.text.inj heq]) }
  keyed := ⟨hrow, fun m hm _ => by cases hm; exact hid, List.forall_mem_singleton.mpr hmanager⟩

theorem ready_product {row : Row} (hrow : row.Distinct) (howner : (row.get "owner_id").isKey = true) :
    directory.Ready (.text "Product") [] row where
  columns := .of_singleton (m := external) rfl List.not_mem_nil
  labels := ⟨List.nodup_nil, fun _ hb => absurd hb List.not_mem_nil, fun _ hb => absurd hb List.not_mem_nil⟩
  keyed := ⟨hrow, fun _ hm => (nomatch hm), List.forall_mem_singleton.mpr howner⟩

theorem ready_staff : ∀ row ∈ staff,
    Branch.Throughout directory.Ready (.text "User") directory.includes.branches row := by
  have hperson {row : Row} (hrow : row.Distinct) :=
    ready_person directory.includes.branches (by decide) (by decide) hrow
  refine List.forall_mem_cons.mpr ⟨⟨hperson (by decide) rfl rfl, ?_⟩,
    List.forall_mem_singleton.mpr ⟨hperson (by decide) rfl rfl, ?_⟩⟩
  · simp only [directory, Branch.AllBelow, Branch.Below, and_true]
    refine ⟨List.forall_mem_singleton.mpr (ready_product (by decide) rfl), fun o ho => ?_⟩
    cases ho
  · simp only [directory, Branch.AllBelow, Branch.Below, and_true]
    refine ⟨fun o ho => (nomatch ho), List.forall_mem_singleton.mpr ?_⟩
    exact ready_person [] List.nodup_nil (fun _ hb => nomatch hb) (by decide) rfl rfl

end Shop

namespace Projector

variable {p : Projector} {store : LookupStore} {known : Value → Row} {rows : List Row}

/-! ## Rows -/

/-- The lookups find what makes of every row what rewriting each object in it on its own makes of it. -/
theorem exists_found_rewritten (hnamed : p.WellNamed) (hstore : store.Restricts known)
    (hrows : ∀ row ∈ rows, Branch.Throughout p.Ready (.text p.entity) p.includes.branches row) :
    ∃ found, (do lookAll store (← p.lookups (rows.map .object))) = .ok found ∧
      ∀ row ∈ rows, p.expose found (.object row) = .ok (p.rewritten known row) := by
  have hrequests : ∀ row ∈ rows, Collects (p.rowRequests (.object row)) p.Lookupable := fun row hrow =>
    collects_rowRequests_iff.mpr ((hrows row hrow).imp fun _ _ _ => collects_of_ready hnamed)
  obtain ⟨calls, found, hcalls, hfound, htells⟩ := exists_found_known hstore hrequests
  refine ⟨found, ?_, fun row hrow => expose_eq hnamed (hrows row hrow) (htells row hrow)⟩
  rw [hcalls]
  exact hfound

theorem project_eq_map {found : Table Value Row} {f : Row → Row}
    (hfound : (do lookAll store (← p.lookups (rows.map .object))) = .ok found)
    (h : ∀ row ∈ rows, p.expose found (.object row) = .ok (f row)) :
    p.project store (rows.map .object) = .ok (rows.map f) := by
  obtain ⟨calls, hcalls, hfound⟩ := bind_eq_ok_iff.mp hfound
  simp only [project, hcalls, hfound, bind, Except.bind]
  rw [List.mapM_map]
  exact mapM_eq_ok h

/-- Rows are projected to what rewriting each object in them on its own makes of them. -/
theorem project_eq_rewritten (hnamed : p.WellNamed) (hstore : store.Restricts known)
    (hrows : ∀ row ∈ rows, Branch.Throughout p.Ready (.text p.entity) p.includes.branches row) :
    p.project store (rows.map .object) = .ok (rows.map (p.rewritten known)) := by
  obtain ⟨found, hfound, hexpose⟩ := exists_found_rewritten hnamed hstore hrows
  exact project_eq_map hfound hexpose

theorem project_eq_rewritten_staff :
    Shop.directory.WellNamed ∧
      (LookupStore.ofTables Shop.identifiers).Restricts (LookupStore.known Shop.identifiers) ∧
      (∀ row ∈ Shop.staff, Branch.Throughout Shop.directory.Ready (.text Shop.directory.entity)
        Shop.directory.includes.branches row) ∧
      Shop.directory.project (.ofTables Shop.identifiers) (Shop.staff.map .object) =
        .ok (Shop.staff.map (Shop.directory.rewritten (LookupStore.known Shop.identifiers))) :=
  ⟨Shop.wellNamed_directory, LookupStore.restricts_ofTables _, Shop.ready_staff,
    project_eq_rewritten Shop.wellNamed_directory (LookupStore.restricts_ofTables _) Shop.ready_staff⟩

example : (Shop.staff.map (Shop.directory.rewritten (LookupStore.known Shop.identifiers)) ==
    [[(.text "id", .text "ext-007"), (.text "manager_id", .null), (.text "manager", .null),
        (.text "products", .list [.object [(.text "id", .int 1), (.text "owner_id", .text "ext-007")]])],
      [(.text "id", .text "ext-008"), (.text "manager_id", .text "ext-007"),
        (.text "manager", .object [(.text "id", .text "ext-007"), (.text "name", .text "Alice")]),
        (.text "products", .list [])]]) = true := by
  decide +kernel

end Projector

end Sift
