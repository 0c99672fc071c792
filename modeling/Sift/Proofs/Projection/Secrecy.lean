import Sift.Proofs.Projection.Renaming

/-!
# Keys that are not shown

Rows are shown with identifiers in place of keys. Where every name tells one thing only, nothing that is shown depends on
what the keys are.
-/

namespace Sift

namespace Projector

/-- Rows in which objects hold keys of mapped entities under `id`, and as foreign keys that are no names of identifiers
and belong to one relation each, and the identifiers of all these keys are known. -/
structure Knows (p : Projector) (known : Value → Row) (rows : List Row) : Prop where
  named : p.WellNamed
  key : ∀ e ∈ p.mappings, e.2.key = .text "id"
  keys : ∀ entity, ∀ e ∈ known entity, e.1.isKey = true
  objects : ∀ row ∈ rows, Branch.Throughout
    (fun entity _ o => p.ColumnsApart entity ∧ p.Keyed entity o ∧ p.Held known entity o)
    (.text p.entity) p.includes.branches row

/-- Are rows shown otherwise when their keys are renamed? -/
def Leaks (p : Projector) (known : Value → Row) (ρ : KeyRenaming) (rows : List Row) : Prop :=
  p.project (.ofKnown known) (rows.map .object) ≠
    p.project (.ofKnown (ρ.ofKnown known)) ((rows.map (p.renamed ρ)).map .object)

end Projector

/-! ## People and what they own -/

namespace Shop

abbrev known : Value → Row := LookupStore.known identifiers

theorem held_person {row : Row} (hid : Table.contains (row.get "id") (known (.text "User")) = true)
    (hmanager : row.get "manager_id" ≠ .null → Table.contains (row.get "manager_id") (known (.text "User")) = true) :
    directory.Held known (.text "User") row where
  once := by decide
  own := fun _ _ _ _ => hid
  foreign := List.forall_mem_singleton.mpr hmanager

theorem held_product {row : Row}
    (howner : row.get "owner_id" ≠ .null → Table.contains (row.get "owner_id") (known (.text "User")) = true) :
    directory.Held known (.text "Product") row where
  once := by decide
  own := fun _ hm => (nomatch hm)
  foreign := List.forall_mem_singleton.mpr howner

theorem held_staff : ∀ row ∈ staff, Branch.Throughout (fun entity _ o => directory.Held known entity o)
    (.text "User") directory.includes.branches row := by
  refine List.forall_mem_cons.mpr ⟨⟨held_person (by decide +kernel) fun h => absurd rfl h, ?_⟩,
    List.forall_mem_singleton.mpr ⟨held_person (by decide +kernel) fun _ => by decide +kernel, ?_⟩⟩
  · simp only [directory, Branch.AllBelow, Branch.Below, and_true]
    refine ⟨List.forall_mem_singleton.mpr (held_product fun _ => by decide +kernel), fun o ho => ?_⟩
    cases ho
  · simp only [directory, Branch.AllBelow, Branch.Below, and_true]
    refine ⟨fun o ho => (nomatch ho), List.forall_mem_singleton.mpr ?_⟩
    exact held_person (by decide +kernel) fun h => absurd rfl h

theorem isKey_known : ∀ entity, ∀ e ∈ known entity, e.1.isKey = true := LookupStore.isKey_known (by decide)

theorem knows_staff : directory.Knows known staff where
  named := wellNamed_directory
  key := List.forall_mem_singleton.mpr rfl
  keys := isKey_known
  objects := fun row hrow =>
    (ready_staff row hrow).imp₂ (fun _ _ _ h hheld => ⟨h.columns, h.keyed, hheld⟩) (held_staff row hrow)

/-- People who are exposed by the key that they have. -/
def badges : Projector where
  catalog := fullCatalog
  entity := "User"
  includes := ⟨"User", []⟩
  mappings := [(.text "User", ⟨.text "User", .text "id", .text "id"⟩)]

/-- Somebody with nothing but a key. -/
def numbered : List Row := [[(.text "id", .int 7)]]

theorem knows_badges : badges.Knows known numbered where
  named := List.forall_mem_singleton.mpr ⟨"User", "id", "id", rfl⟩
  key := List.forall_mem_singleton.mpr rfl
  keys := isKey_known
  objects := by
    have hown : badges.ownNames (.text badges.entity) = [.text "id", .text "id"] := rfl
    refine List.forall_mem_singleton.mpr ⟨⟨.of_singleton rfl (by simp [hown]), ⟨by decide, ?_, ?_⟩,
      ⟨by decide, ?_, ?_⟩⟩, trivial⟩
    · exact fun _ hm hloaded => by cases hm; cases hloaded
    · exact List.forall_mem_singleton.mpr rfl
    · exact fun _ hm hloaded => by cases hm; cases hloaded
    · exact List.forall_mem_singleton.mpr fun h => absurd rfl h

/-- Products with who owns them, which is also what they are exposed by. -/
def lent : Projector where
  catalog := fullCatalog
  entity := "Product"
  includes := owners
  mappings := [(.text "User", external), (.text "Product", ⟨.text "Product", .text "id", .text "owner"⟩)]

/-- Something with who owns it. -/
def taken : List Row := [[(.text "id", .int 1), (.text "owner", .object [(.text "id", .int 7)])]]

theorem knows_lent : lent.Knows known taken where
  named := List.forall_mem_cons.mpr ⟨⟨"User", "id", "external_id", rfl⟩,
    List.forall_mem_singleton.mpr ⟨"Product", "id", "owner", rfl⟩⟩
  key := List.forall_mem_cons.mpr ⟨rfl, List.forall_mem_singleton.mpr rfl⟩
  keys := isKey_known
  objects := by
    have huser : lent.ownNames (.text "User") = [.text "id", .text "external_id"] := rfl
    have hproduct : lent.ownNames (.text lent.entity) = [.text "id", .text "owner"] := rfl
    refine List.forall_mem_singleton.mpr ⟨⟨.of_singleton rfl (by simp [hproduct]), ⟨by decide, ?_, ?_⟩,
      ⟨by decide, ?_, ?_⟩⟩, ?_⟩
    · exact fun _ hm hloaded => by cases hm; cases hloaded
    · exact List.forall_mem_singleton.mpr rfl
    · exact fun _ hm hloaded => by cases hm; cases hloaded
    · exact List.forall_mem_singleton.mpr fun h => absurd rfl h
    · have hbranches : lent.includes.branches = [⟨"owner", .text "User", .bool false, .null, []⟩] := rfl
      simp only [hbranches, Branch.AllBelow, Branch.Below, and_true]
      refine List.forall_mem_singleton.mpr ⟨.of_singleton rfl (by simp [huser]), ⟨by decide, ?_, ?_⟩,
        ⟨by decide, ?_, ?_⟩⟩
      · exact fun _ hm _ => by cases hm; rfl
      · exact List.forall_mem_singleton.mpr rfl
      · exact fun _ _ _ _ => by decide +kernel
      · exact List.forall_mem_singleton.mpr fun h => absurd rfl h

/-- Products with who owns them, whose key is under the same name. -/
def homonymous : Projector where
  catalog := .ofModels [user,
    { name := "Product"
      columns := [("id", .integer), ("owner", .integer)]
      key := ["id"]
      relations := [({ label := "owner", target := .text "User", foreignKey := .text "owner" },
        .columns [("owner", "id")])] }]
  entity := "Product"
  includes := owners
  mappings := [(.text "User", external)]

/-- Two things, and the key of who owns each. -/
def pledged : List Row := [[(.text "owner", .int 7)], [(.text "owner", .int 8)]]

/-- People of whom one is known by an object. -/
def entangled : Table Value Row :=
  [(.text "User", [(.int 7, .object [(.text "id", .int 8)]), (.int 8, .text "ext-008")])]

theorem knows_homonymous : homonymous.Knows (LookupStore.known entangled) pledged where
  named := List.forall_mem_singleton.mpr ⟨"User", "id", "external_id", rfl⟩
  key := List.forall_mem_singleton.mpr rfl
  keys := LookupStore.isKey_known (by decide)
  objects := by
    have hobject (v : Value) (hkey : v.isKey = true)
        (hv : Table.contains v (LookupStore.known entangled (.text "User")) = true) :
        homonymous.ColumnsApart (.text "Product") ∧ homonymous.Keyed (.text "Product") [(.text "owner", v)] ∧
          homonymous.Held (LookupStore.known entangled) (.text "Product") [(.text "owner", v)] := by
      refine ⟨.of_singleton (m := external) rfl List.not_mem_nil, ⟨List.pairwise_singleton _ _, ?_, ?_⟩,
        ⟨by decide, ?_, ?_⟩⟩
      · exact fun _ hm => (nomatch hm)
      · exact List.forall_mem_singleton.mpr hkey
      · exact fun _ hm => (nomatch hm)
      · exact List.forall_mem_singleton.mpr fun _ => hv
    refine List.forall_mem_cons.mpr ⟨⟨hobject _ rfl (by decide +kernel), ?_⟩,
      List.forall_mem_singleton.mpr ⟨hobject _ rfl (by decide +kernel), ?_⟩⟩ <;>
    · simp only [homonymous, owners, Branch.AllBelow, Branch.Below, and_true]
      exact fun _ ho => (nomatch ho)

end Shop

namespace Projector

/-! ## Rows -/

variable {p : Projector} {ρ : KeyRenaming} {known : Value → Row} {store renamedStore : LookupStore} {rows : List Row}

/-- Rows are projected to the same, whatever their keys are: with other keys in all objects, in what refers to them and
in the store, nothing that is shown differs. -/
theorem project_renamed (hknows : p.Knows known rows) (hexposed : ∀ e ∈ p.mappings, e.2.exposed ≠ .text "id")
    (hlabels : ∀ row ∈ rows, Branch.Throughout (fun entity bs _ => p.LabelsApart entity bs) (.text p.entity)
      p.includes.branches row)
    (hstore : store.Restricts known) (hrenamed : renamedStore.Restricts (ρ.ofKnown known)) :
    ∃ shown, p.project store (rows.map .object) = .ok shown ∧
      p.project renamedStore ((rows.map (p.renamed ρ)).map .object) = .ok shown := by
  have hby : p.KeyedById known := ⟨hknows.named, hknows.key, hexposed, hknows.keys⟩
  have hrows : ∀ row ∈ rows, Branch.Throughout (p.Renamable known) (.text p.entity) p.includes.branches row := by
    intro row hrow
    refine (hknows.objects row hrow).imp₂ (fun entity bs o ho hlabels => ?_) (hlabels row hrow)
    exact ⟨⟨ho.1, hlabels, ho.2.1⟩, ho.2.2⟩
  have hready : ∀ row ∈ rows, Branch.Throughout p.Ready (.text p.entity) p.includes.branches row :=
    fun row hrow => (hrows row hrow).imp fun _ _ _ h => h.ready
  obtain ⟨found, hfound, hexpose⟩ := exists_found_rewritten hby.named hstore hready
  obtain ⟨found', hfound', hexpose'⟩ := exists_found_rewritten hby.named hrenamed
    (List.forall_mem_map.mpr fun row hrow => throughout_ready_renamed hby (hrows row hrow))
  refine ⟨rows.map (p.rewritten known), project_eq_map hfound hexpose, ?_⟩
  rw [project_eq_map hfound' hexpose', List.map_map]
  congr 1
  exact List.map_congr_left fun row hrow => rewritten_renamed hby (hrows row hrow)

theorem project_renamed_staff :
    Shop.directory.Knows Shop.known Shop.staff ∧
      (∀ e ∈ Shop.directory.mappings, e.2.exposed ≠ .text "id") ∧
      (∀ row ∈ Shop.staff, Branch.Throughout (fun entity bs _ => Shop.directory.LabelsApart entity bs)
        (.text Shop.directory.entity) Shop.directory.includes.branches row) ∧
      (LookupStore.ofTables Shop.identifiers).Restricts Shop.known ∧
      (LookupStore.ofKnown ((KeyRenaming.exchange 7 8).ofKnown Shop.known)).Restricts
        ((KeyRenaming.exchange 7 8).ofKnown Shop.known) ∧
      ∃ shown, Shop.directory.project (.ofTables Shop.identifiers) (Shop.staff.map .object) = .ok shown ∧
        Shop.directory.project (.ofKnown ((KeyRenaming.exchange 7 8).ofKnown Shop.known))
          ((Shop.staff.map (Shop.directory.renamed (.exchange 7 8))).map .object) = .ok shown := by
  have hexposed : ∀ e ∈ Shop.directory.mappings, e.2.exposed ≠ .text "id" :=
    List.forall_mem_singleton.mpr (by simp [Shop.external])
  have hlabels : ∀ row ∈ Shop.staff, Branch.Throughout (fun entity bs _ => Shop.directory.LabelsApart entity bs)
      (.text Shop.directory.entity) Shop.directory.includes.branches row :=
    fun row hrow => (Shop.ready_staff row hrow).imp fun _ _ _ h => h.labels
  exact ⟨Shop.knows_staff, hexposed, hlabels, LookupStore.restricts_ofTables _, LookupStore.restricts_ofKnown _,
    project_renamed Shop.knows_staff hexposed hlabels (LookupStore.restricts_ofTables _)
      (LookupStore.restricts_ofKnown _)⟩

/-- Keys are told where an entity is exposed by its keys, where objects of a branch stand in place of an identifier, and
where an identifier that is an object stands in place of the objects of a branch. -/
theorem leaks_unless_apart :
    (Shop.badges.Knows Shop.known Shop.numbered ∧ Shop.badges.Leaks Shop.known (.exchange 7 8) Shop.numbered) ∧
      (Shop.lent.Knows Shop.known Shop.taken ∧ Shop.lent.Leaks Shop.known (.exchange 7 8) Shop.taken) ∧
      Shop.homonymous.Knows (LookupStore.known Shop.entangled) Shop.pledged ∧
        Shop.homonymous.Leaks (LookupStore.known Shop.entangled) (.exchange 8 9) Shop.pledged := by
  refine ⟨⟨Shop.knows_badges, fun h => ?_⟩, ⟨Shop.knows_lent, fun h => ?_⟩, Shop.knows_homonymous, fun h => ?_⟩
  · have hshown := congrArg (fun x => x.toOption.map (· == Shop.numbered)) h
    exact absurd hshown (by decide +kernel)
  · have hshown := congrArg (fun x => x.toOption.map (· == [[(.text "id", .object [(.text "id", .int 7)])]])) h
    exact absurd hshown (by decide +kernel)
  · have hshown := congrArg (fun x => x.toOption.map
      (· == [[(.text "owner", .object [(.text "id", .int 8)])], [(.text "owner", .text "ext-008")]])) h
    exact absurd hshown (by decide +kernel)

end Projector

end Sift
