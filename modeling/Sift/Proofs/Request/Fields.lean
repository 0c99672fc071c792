import Sift.Proofs.Filter.Related
import Sift.Proofs.Includes.Paths
import Sift.Proofs.Request.Names
import Sift.Proofs.Schema.Relations

/-!
# Fields and the relations they are behind

A field names the entity that has its column, and the labels that lead there from the base entity. What it says agrees
with the relations of the schema that have these labels, whichever name it was found under. Where no name stands for
another, the names are the columns of the base entity and of what the paths of included relations lead to.
-/

namespace Sift

/-! ## Chains of relations -/

/-- The entity that relations lead to from an entity, one after another. -/
def Relation.reached (entity : Value) (rs : List Relation) : Value := rs.foldl (fun _ r => r.target) entity

namespace Catalog

/-- The relations of a schema that a chain of labels goes along from an entity. -/
inductive Trail (c : Catalog) : Value → List String → List Relation → Prop
  | nil (entity : Value) : Trail c entity [] []
  | cons {entity : Value} {label : String} {r : Relation} {chain : List String} {rs : List Relation}
      (relation : c.relation? entity label = .ok (some r)) (rest : Trail c r.target chain rs) :
      Trail c entity (label :: chain) (r :: rs)

/-- Every relation is found under its label, and the column that holds its key is known by a name, if there is one. -/
structure Labelled (c : Catalog) : Prop where
  found : ∀ {entity : Value} {relations : Table String Relation}, c.relations entity = .ok relations →
    ∀ r ∈ relations.values, relations.get? r.label = some r
  named : ∀ {entity : Value} {relations : Table String Relation}, c.relations entity = .ok relations →
    ∀ r ∈ relations.values, Scope.IsName r.foreignKey

variable {c : Catalog} {entity column : Value} {base label : String} {chain : List String} {rs : List Relation}

theorem Labelled.relation? (h : c.Labelled) {relations : Table String Relation} (hrelations : c.relations entity = .ok relations)
    {r : Relation} (hr : r ∈ relations.values) : c.relation? entity r.label = .ok (some r) := by
  simp only [Catalog.relation?, hrelations, bind, Except.bind, h.found hrelations r hr]
  rfl

/-- A column that is a foreign key holds the key of a relation with one row at most. -/
theorem Labelled.foreignKeys (h : c.Labelled) {keys : Table Value Relation} (hkeys : c.foreignKeys entity = .ok keys)
    {r : Relation} (hr : keys.get? column = some r) :
    c.relation? entity r.label = .ok (some r) ∧ r.many.truthy = false ∧ r.foreignKey = column := by
  simp only [Catalog.foreignKeys, bind_eq_ok_iff, pure_eq_ok_iff] at hkeys
  obtain ⟨relations, hrelations, pairs, hpairs, rfl⟩ := hkeys
  have hpair : ∀ p ∈ pairs, ∃ key, p.1 = .text key ∧ p.2.foreignKey = .text key ∧ p.2.many.truthy = false ∧
      p.2 ∈ relations.values := by
    intro p hp
    obtain ⟨r, hr, hkey⟩ := mem_of_mapM_eq_ok hpairs p hp
    obtain ⟨key, hkey, hpair⟩ := bind_eq_ok_iff.mp hkey
    cases pure_eq_ok_iff.mp hpair
    obtain ⟨hmem, howned⟩ := List.mem_filter.mp hr
    rw [Bool.and_eq_true, Bool.not_eq_true'] at howned
    rcases h.named hrelations r hmem with hnull | ⟨name, hname⟩
    · rw [hnull] at howned
      cases howned.1
    · rw [hname] at hkey
      cases hkey
      exact ⟨name, rfl, hname, howned.2, hmem⟩
  obtain ⟨k, hmem, hk⟩ := Table.exists_mem_of_get?_eq_some hr
  obtain ⟨key, rfl, hforeign, hmany, hr⟩ := Table.forall_mem_ofList
    (P := fun k r => ∃ key, k = .text key ∧ r.foreignKey = .text key ∧ r.many.truthy = false ∧ r ∈ relations.values)
    (by
      rintro k k' r hkk' ⟨key, rfl, hr⟩
      exact ⟨key, Value.text_beq_iff.mp hkk', hr⟩) hpair _ hmem
  exact ⟨h.relation? hrelations hr, hmany, hforeign.trans (Value.beq_text_iff.mp hk).symm⟩

theorem relations_ofModels {models : List Model} {relations : Table String Relation}
    (h : (ofModels models).relations entity = .ok relations) : ∃ m ∈ models,
      relations.keys.Sublist (m.relations.map fun e => e.1.label) ∧
        ∀ r ∈ relations.values, (r.label, r) ∈ relations ∧ ∃ link, (r, link) ∈ m.relations := by
  obtain ⟨key, -, h⟩ := bind_eq_ok_iff.mp h
  split at h
  · rename_i m hm
    cases pure_eq_ok_iff.mp h
    obtain ⟨name, -, hm⟩ := Option.bind_eq_some_iff.mp hm
    refine ⟨m, List.mem_of_find?_eq_some hm, ?_, fun r hr => ?_⟩
    · rw [Table.keys, List.map_map]
      exact List.filter_sublist.map _
    · obtain ⟨⟨label, r⟩, hmem, rfl⟩ := List.mem_map.mp hr
      obtain ⟨e, he, hsame⟩ := List.mem_map.mp hmem
      cases hsame
      exact ⟨hmem, e.2, (List.mem_filter.mp he).1⟩
  · cases h

theorem labelled_ofModels {models : List Model} (hlabels : ∀ m ∈ models, m.WellLabelled)
    (hkeys : ∀ m ∈ models, ∀ r ∈ m.relations, Scope.IsName r.1.foreignKey) : (ofModels models).Labelled where
  found := by
    intro entity relations hrelations r hr
    obtain ⟨m, hm, hsublist, hof⟩ := relations_ofModels hrelations
    exact Table.get?_of_mem ((hlabels m hm).nodup.sublist hsublist) (hof r hr).1
  named := by
    intro entity relations hrelations r hr
    obtain ⟨m, hm, -, hof⟩ := relations_ofModels hrelations
    obtain ⟨link, hlink⟩ := (hof r hr).2
    exact hkeys m hm _ hlink

theorem Trail.unique {rs' : List Relation} (h : c.Trail entity chain rs) (h' : c.Trail entity chain rs') : rs = rs' := by
  induction h generalizing rs' with
  | nil => cases h'; rfl
  | cons hrelation _ ih =>
    cases h' with
    | cons hrelation' hrest' =>
      cases hrelation.symm.trans hrelation'
      rw [ih hrest']

theorem hasColumn_of_columnType {type : ColumnType} (h : c.columnType entity column = .ok type) :
    c.hasColumn entity column = .ok true := by
  simp only [columnType, bind_eq_ok_iff] at h
  obtain ⟨types, htypes, key, hkey, h⟩ := h
  simp only [hasColumn, htypes, hkey, bind, Except.bind]
  cases hget : types.get? key with
  | none =>
    rw [hget] at h
    cases h
  | some type =>
    rw [Table.contains, hget]
    rfl

theorem WellFormed.known_reached (h : c.WellFormed base) (htrail : c.Trail entity chain rs) {start : String}
    (hstart : entity = .text start) (hknown : c.Knows start) :
    ∃ last, Relation.reached entity rs = .text last ∧ c.Knows last := by
  induction htrail generalizing start with
  | nil entity => exact ⟨start, hstart, hknown⟩
  | @cons entity label r chain rs hrelation _ ih =>
    subst hstart
    obtain ⟨found, relations, hfound, hrelations, hmem⟩ := hknown.relation? label
    obtain rfl : found = some r := Except.ok.inj (hfound.symm.trans hrelation)
    obtain ⟨⟨target, htarget, hknown⟩, -⟩ := h.related hrelations r (hmem r rfl)
    exact ih htarget hknown

end Catalog

/-! ## Located fields -/

/-- A field has a column of the entity that its labels lead to along some relations of the schema. It is behind many rows
if one of these relations leads to many, and a foreign key shows it only where it is behind one relation to one row at
most, which has this foreign key. -/
structure FieldRef.Located (c : Catalog) (base : String) (ref : FieldRef) (rs : List Relation) : Prop where
  trail : c.Trail (.text base) ref.chain rs
  entity : ref.entity = Relation.reached (.text base) rs
  column : c.hasColumn ref.entity (.text ref.column) = .ok true
  type : c.columnType ref.entity (.text ref.column) = .ok ref.type
  many : ref.many.truthy = true ↔ ∃ r ∈ rs, r.many.truthy = true
  foreignKey : ref.foreignKey ≠ .null → ∃ r, rs = [r] ∧ r.many.truthy = false ∧ r.foreignKey = ref.foreignKey

namespace Scope

variable {s : Scope} {ref : FieldRef} {entity many column : Value} {name place written label : String}
  {chain : List String} {rs : List Relation}

theorem unless_eq_ok_iff {α : Type} {b : Bool} {x : Except Fault α} {a : α} :
    (do
      unless b do unknown entity written place
      x) = .ok a ↔ b = true ∧ x = .ok a := by
  cases b with
  | true => simp
  | false => simp [unknown, bind, Except.bind]

theorem columnRef_eq_ok (h : s.columnRef entity column = .ok ref) : ∃ name type,
    column = .text name ∧ ref = { entity, column := name, type } ∧
      s.catalog.columnType entity (.text name) = .ok type := by
  simp only [columnRef, bind_eq_ok_iff] at h
  obtain ⟨type, htype, h⟩ := h
  cases column with
  | text name =>
    cases pure_eq_ok_iff.mp h
    exact ⟨name, type, rfl, rfl, htype⟩
  | _ => cases h

theorem located_columnRef {base : String} {key : Value} (htrail : s.catalog.Trail (.text base) chain rs)
    (href : s.columnRef (Relation.reached (.text base) rs) column = .ok ref)
    (hmany : many.truthy = rs.any (·.many.truthy))
    (hkey : key ≠ .null → ∃ r, rs = [r] ∧ r.many.truthy = false ∧ r.foreignKey = key) :
    FieldRef.Located s.catalog base { ref with chain, many, foreignKey := key } rs := by
  obtain ⟨name, type, rfl, rfl, htype⟩ := columnRef_eq_ok href
  refine ⟨htrail, rfl, Catalog.hasColumn_of_columnType htype, htype, ?_, hkey⟩
  rw [hmany, List.any_eq_true]

/-- A column of the base entity, which may stand for one of the entity that its key refers to. -/
theorem located_ownField {column : String} (hc : s.catalog.Labelled)
    (h : s.ownField column place written = .ok ref) : ∃ rs, ref.Located s.catalog s.entity rs := by
  simp only [ownField] at h
  generalize (if column = "id" then s.exposedId.either (.text column) else .text column) = own at h
  obtain ⟨b, -, h⟩ := bind_eq_ok_iff.mp h
  obtain ⟨-, h⟩ := unless_eq_ok_iff.mp h
  obtain ⟨keys, hkeys, h⟩ := bind_eq_ok_iff.mp h
  have hplain : s.columnRef (.text s.entity) own = .ok ref → ∃ rs, ref.Located s.catalog s.entity rs := fun h => by
    obtain ⟨name, type, rfl, rfl, -⟩ := columnRef_eq_ok h
    exact ⟨[], located_columnRef (.nil _) h rfl fun hnull => absurd rfl hnull⟩
  split at h
  · rename_i r hr
    obtain ⟨mapping, -, h⟩ := bind_eq_ok_iff.mp h
    cases mapping with
    | none => exact hplain h
    | some mapping =>
      obtain ⟨target, htarget, h⟩ := bind_eq_ok_iff.mp h
      cases pure_eq_ok_iff.mp h
      obtain ⟨hrelation, hmany, hkey⟩ := hc.foreignKeys hkeys hr
      obtain ⟨name, type, -, rfl, -⟩ := columnRef_eq_ok htarget
      refine ⟨[r], located_columnRef (.cons hrelation (.nil _)) htarget ?_ fun _ => ⟨r, rfl, hmany, hkey⟩⟩
      rw [List.any_cons, List.any_nil, hmany]
      rfl
  · exact hplain h

/-! ## Fields behind relations -/

theorem truthy_either (v w : Value) : (v.either w).truthy = (v.truthy || w.truthy) := by
  unfold Value.either
  split
  · rename_i hv
    rw [hv, Bool.true_or]
  · rename_i hv
    rw [Bool.eq_false_iff.mpr hv, Bool.false_or]

/-- A chain of labels is walked along its relations if it is a path, and refused otherwise. -/
theorem walk_cases {c : Catalog} (place written : String) : (chain : List String) → {entity : Value} →
    (many : Value) → {bs : List Branch} → Branch.AllFollow c entity bs →
      ((chain = [] ∨ chain ∈ Branch.pathsAll bs) ∧ ∃ rs many', c.Trail entity chain rs ∧
          many'.truthy = (many.truthy || rs.any (·.many.truthy)) ∧
            walk place written entity many bs chain = .ok (Relation.reached entity rs, many')) ∨
        ¬(chain = [] ∨ chain ∈ Branch.pathsAll bs) ∧
          ∃ e, walk place written entity many bs chain = unknown e written place
  | [], entity, many, _, _ => .inl ⟨.inl rfl, [], many, .nil entity, (Bool.or_false _).symm, rfl⟩
  | label :: chain, entity, many, bs, hbs => by
    cases hb : Branch.find? label bs with
    | none =>
      refine .inr ⟨?_, entity, by simp only [walk, hb]⟩
      rintro (h | h)
      · cases h
      · obtain ⟨b, hmem, rfl, -⟩ := Branch.cons_mem_pathsAll_iff.mp h
        rw [Branch.find?_eq_some_of_mem hbs.1 hmem] at hb
        cases hb
    | some b =>
      obtain ⟨hmem, rfl⟩ := Branch.mem_of_find?_eq_some hb
      have hpath : b.label :: chain = [] ∨ b.label :: chain ∈ Branch.pathsAll bs ↔
          chain = [] ∨ chain ∈ Branch.pathsAll b.nested := by
        rw [Branch.cons_mem_pathsAll_iff]
        constructor
        · rintro (h | ⟨b', hmem', hlabel, h⟩)
          · cases h
          · have hsame := Branch.find?_eq_some_of_mem hbs.1 hmem'
            rw [hlabel, hb] at hsame
            cases hsame
            exact h
        · exact fun h => .inr ⟨b, hmem, rfl, h⟩
      have hfollows := hbs.2 b hmem
      simp only [walk, hb, hpath]
      obtain ⟨h, rs, many', htrail, hmany, hwalk⟩ | h := walk_cases place written chain (many.either b.many) hfollows.nested
      · cases hfollows with
        | @mk _ _ r _ hrelation =>
          refine .inl ⟨h, r :: rs, many', .cons hrelation htrail, ?_, hwalk⟩
          rw [hmany, truthy_either, List.any_cons, Bool.or_assoc]
      · exact .inr h

theorem shownBy_eq {r : Relation} (hrelation : s.catalog.relation? (.text s.entity) label = .ok (some r)) :
    s.shownBy label = .ok (if r.many.truthy then .null else r.foreignKey) := by
  simp only [shownBy, hrelation, bind, Except.bind]
  rfl

/-- A column behind relations, which stands for the exposed one if it is the key of a mapped entity. -/
theorem located_relatedField {column : String} (hs : Branch.AllFollow s.catalog (.text s.entity) s.includes.branches)
    (h : s.relatedField chain column place written = .ok ref) : ∃ rs, ref.Located s.catalog s.entity rs := by
  simp only [relatedField] at h
  obtain ⟨⟨entity, many⟩, hwalk, h⟩ := bind_eq_ok_iff.mp h
  obtain ⟨b, -, h⟩ := bind_eq_ok_iff.mp h
  obtain ⟨-, h⟩ := unless_eq_ok_iff.mp h
  obtain ⟨mapping, -, h⟩ := bind_eq_ok_iff.mp h
  obtain ⟨-, rs, many', htrail, hmany, hto⟩ | ⟨-, e, hto⟩ := walk_cases place written chain (.bool false) hs
  swap
  · rw [hto] at hwalk
    cases hwalk
  rw [hto] at hwalk
  cases hwalk
  have hmapped : ∀ {column key : Value}, (do
      return { ← s.columnRef (Relation.reached (.text s.entity) rs) column with chain, many, foreignKey := key }) =
        Except.ok ref →
      (key ≠ .null → ∃ r, rs = [r] ∧ r.many.truthy = false ∧ r.foreignKey = key) →
        ∃ rs, ref.Located s.catalog s.entity rs := by
    intro column key h hkey
    obtain ⟨ref', href, h⟩ := bind_eq_ok_iff.mp h
    cases pure_eq_ok_iff.mp h
    exact ⟨rs, located_columnRef htrail href hmany hkey⟩
  have hplain : (do
      return { ← s.columnRef (Relation.reached (.text s.entity) rs) (.text column) with chain, many }) =
        Except.ok ref → ∃ rs, ref.Located s.catalog s.entity rs := by
    intro h
    obtain ⟨ref', href, h⟩ := bind_eq_ok_iff.mp h
    obtain ⟨name, type, -, rfl, -⟩ := columnRef_eq_ok href
    cases pure_eq_ok_iff.mp h
    exact ⟨rs, located_columnRef htrail href hmany fun hnull => absurd rfl hnull⟩
  split at h
  · split at h
    · split at h
      · rename_i label
        cases htrail with
        | @cons _ _ r _ _ hrelation hrest =>
          cases hrest
          rw [shownBy_eq hrelation] at h
          refine hmapped h fun hkey => ⟨r, rfl, ?_⟩
          split at hkey
          · exact absurd rfl hkey
          · rename_i hmany
            exact ⟨Bool.eq_false_iff.mpr hmany, (if_neg hmany).symm⟩
      · exact hmapped h fun hnull => absurd rfl hnull
    · exact hplain h
  · exact hplain h

/-! ## Names that nothing stands for -/

/-- No name stands for another one. -/
structure IsPlain (s : Scope) : Prop where
  mappings : s.mappings = []
  idColumn : s.idColumn = .null
  flattening : s.flattening = {}

/-- A chain of included relations leads to an entity that has a column. -/
structure Reaches (s : Scope) (chain : List String) (column : String) : Prop where
  included : chain = [] ∨ chain ∈ s.includes.paths
  found : ∃ rs, s.catalog.Trail (.text s.entity) chain rs ∧
    s.catalog.hasColumn (Relation.reached (.text s.entity) rs) (.text column) = .ok true

/-- A name is the dotted path to a column that a chain of included relations leads to. -/
structure Denotes (s : Scope) (name : String) (chain : List String) (column : String) : Prop
    extends s.Reaches chain column where
  path : name = Text.dotted (chain ++ [column])
  segments : IsPath (chain ++ [column])

variable {column : String}

theorem IsPlain.mapping? (h : s.IsPlain) (entity : String) : s.mapping? (.text entity) = .ok none := by
  rw [mapping?_text, h.mappings]
  rfl

theorem IsPlain.path (h : s.IsPlain) (name : String) : s.path (.text name) = .ok name := by
  rw [Scope.path, h.flattening]
  rfl

theorem IsPlain.exposedId (h : s.IsPlain) : s.exposedId = .null := by
  rw [Scope.exposedId, h.mappings, h.idColumn]
  rfl

theorem IsPlain.ownField_cases (h : s.IsPlain) (hc : s.catalog.WellFormed s.entity) (column place written : String) :
    (s.Reaches [] column ∧ ∃ type, s.catalog.columnType (.text s.entity) (.text column) = .ok type ∧
        s.ownField column place written = .ok { entity := .text s.entity, column, type }) ∨
      ¬s.Reaches [] column ∧ s.ownField column place written = unknown (.text s.entity) written place := by
  have hid : (if column = "id" then s.exposedId.either (.text column) else .text column) = .text column := by
    rw [h.exposedId]
    split <;> rfl
  obtain ⟨b, hb, hhas⟩ := hc.known.hasColumn column
  obtain ⟨keys, hkeys, htargets⟩ := hc.foreignKeys hc.known
  simp only [ownField, hid, hb, hkeys, bind, Except.bind]
  cases b with
  | false =>
    refine .inr ⟨fun hreaches => ?_, rfl⟩
    obtain ⟨rs, htrail, hcolumn⟩ := hreaches.found
    cases htrail
    cases hb.symm.trans hcolumn
  | true =>
    obtain ⟨type, htype⟩ := (hhas rfl).columnType
    refine .inl ⟨⟨.inl rfl, [], .nil _, hb⟩, type, htype, ?_⟩
    simp only [if_true, columnRef_eq htype]
    split
    · rename_i r hr
      obtain ⟨target, htarget, -⟩ := htargets _ r hr
      rw [htarget, h.mapping?]
    · rfl

theorem IsPlain.relatedField_cases (h : s.IsPlain) (hc : s.catalog.WellFormed s.entity)
    (hs : Branch.AllFollow s.catalog (.text s.entity) s.includes.branches) (chain : List String)
    (column place written : String) :
    (s.Reaches chain column ∧ ∃ ref, s.relatedField chain column place written = .ok ref ∧
        ref.chain = chain ∧ ref.column = column) ∨
      ¬s.Reaches chain column ∧ ∃ e, s.relatedField chain column place written = unknown e written place := by
  obtain ⟨hpath, rs, many, htrail, -, hwalk⟩ | ⟨hpath, e, hwalk⟩ := walk_cases place written chain (.bool false) hs
  · obtain ⟨last, hlast, hknown⟩ := hc.known_reached htrail rfl hc.known
    obtain ⟨b, hb, hhas⟩ := hknown.hasColumn column
    rw [hlast] at hwalk
    cases b with
    | false =>
      refine .inr ⟨fun hreaches => ?_, .text last, ?_⟩
      · obtain ⟨rs', htrail', hcolumn⟩ := hreaches.found
        rw [htrail'.unique htrail, hlast] at hcolumn
        cases hb.symm.trans hcolumn
      · simp only [relatedField, hwalk, hb, bind, Except.bind]
        rfl
    | true =>
      obtain ⟨type, htype⟩ := (hhas rfl).columnType
      refine .inl ⟨⟨hpath, rs, htrail, hlast ▸ hb⟩, _, relatedField_column hwalk hb htype ?_, rfl, rfl⟩
      intro key hkey
      rw [h.mappings] at hkey
      cases hkey
  · refine .inr ⟨fun hreaches => hpath hreaches.included, e, ?_⟩
    simp only [relatedField, hwalk, bind, Except.bind]
    rfl

theorem IsPlain.resolve_dotted (h : s.IsPlain) (hc : s.catalog.WellFormed s.entity)
    (hs : Branch.AllFollow s.catalog (.text s.entity) s.includes.branches) (hname : name = Text.dotted (chain ++ [column]))
    (hsegments : IsPath (chain ++ [column])) (place written : String) :
    (s.Reaches chain column ∧ ∃ ref, s.resolve (.text name) place written = .ok ref ∧
        ref.chain = chain ∧ ref.column = column) ∨
      ¬s.Reaches chain column ∧ ∃ e, s.resolve (.text name) place written =
        unknown e (if written.isEmpty then name else written) place := by
  have hpath : s.path (.text name) = .ok (Text.dotted (chain ++ [column])) := hname ▸ h.path name
  by_cases hne : chain = []
  · subst hne
    have hsingle : Text.dotted ([] ++ [column]) = column := String.intercalate_singleton
    rw [hsingle] at hpath
    rw [resolve_own hpath hsegments]
    obtain ⟨hreaches, type, -, hown⟩ | ⟨hreaches, hown⟩ := h.ownField_cases hc column place _
    · exact .inl ⟨hreaches, _, hown, rfl, rfl⟩
    · exact .inr ⟨hreaches, _, hown⟩
  · rw [resolve_related hne hpath hsegments]
    exact h.relatedField_cases hc hs chain column place _

theorem Denotes.pieces (h : s.Denotes name chain column) : Text.pieces '.' name = chain ++ [column] := by
  rw [h.path]
  exact Text.pieces_dotted (by simp) fun segment hsegment => (h.segments segment hsegment).2

/-- A name finds a field if it denotes one, and otherwise it is unknown. -/
theorem IsPlain.resolve_cases (h : s.IsPlain) (hc : s.catalog.WellFormed s.entity)
    (hs : Branch.AllFollow s.catalog (.text s.entity) s.includes.branches) (name place written : String) :
    (∃ ref, s.resolve (.text name) place written = .ok ref ∧ s.Denotes name ref.chain ref.column) ∨
      (∀ chain column, ¬s.Denotes name chain column) ∧ ∃ e, s.resolve (.text name) place written =
        unknown e (if written.isEmpty then name else written) place := by
  obtain ⟨chain, column, hpieces⟩ : ∃ chain column, Text.pieces '.' name = chain ++ [column] :=
    ⟨_, _, (List.dropLast_append_getLast (Text.pieces_ne_nil '.' name)).symm⟩
  by_cases hsegments : IsPath (chain ++ [column])
  · have hname : name = Text.dotted (chain ++ [column]) := by rw [← hpieces, Text.dotted_pieces]
    obtain ⟨hreaches, ref, href, rfl, rfl⟩ | ⟨hreaches, hunknown⟩ := h.resolve_dotted hc hs hname hsegments place written
    · exact .inl ⟨ref, href, hreaches, hname, hsegments⟩
    · refine .inr ⟨fun chain' column' hd => ?_, hunknown⟩
      obtain ⟨rfl, hcolumn⟩ := List.append_inj' (hpieces.symm.trans hd.pieces) rfl
      cases hcolumn
      exact hreaches hd.toReaches
  · refine .inr ⟨fun chain' column' hd => ?_, .text s.entity, ?_⟩
    · rw [hd.pieces] at hpieces
      exact hsegments (hpieces ▸ hd.segments)
    · have hempty : (column.isEmpty || chain.any (·.isEmpty)) = true := by
        by_contra hnone
        rw [Bool.or_eq_true, not_or, List.any_eq_true] at hnone
        refine hsegments fun segment hsegment => ⟨?_, Text.not_mem_of_mem_pieces (hpieces ▸ hsegment)⟩
        rintro rfl
        rcases List.mem_append.mp hsegment with hmem | hmem
        · exact hnone.2 ⟨"", hmem, rfl⟩
        · exact hnone.1 (List.mem_singleton.mp hmem ▸ rfl)
      simp only [resolve, h.path, hpieces, bind, Except.bind, List.dropLast_concat, List.getLastD_concat, hempty]
      rfl

theorem located_resolve {v : Value} (hc : s.catalog.Labelled)
    (hs : Branch.AllFollow s.catalog (.text s.entity) s.includes.branches) (h : s.resolve v place written = .ok ref) :
    ∃ rs, ref.Located s.catalog s.entity rs := by
  obtain ⟨path, -, h⟩ := bind_eq_ok_iff.mp h
  simp only at h
  split at h
  · cases h
  · split at h
    · exact located_ownField hc h
    · exact located_relatedField hs h

/-- Fields are found exactly. Whatever the names of a scope stand for, a field that one of them finds has a column of the
entity that its labels lead to along relations of the schema, with the type and the marks that these give it. Where no
name stands for another one, a name finds a field exactly if it is the dotted path to a column behind included relations,
and it finds that column; any other name is unknown, and the message gives it as the request wrote it. -/
theorem resolve_exact (hc : s.catalog.WellFormed s.entity) (hl : s.catalog.Labelled)
    (hs : IncludeTree.Built s.catalog s.entity s.includes) (place written : String) :
    (∀ (v : Value) (ref : FieldRef), s.resolve v place written = .ok ref →
      ∃ rs, ref.Located s.catalog s.entity rs) ∧
    (s.IsPlain → ∀ name : String,
      ((∃ ref, s.resolve (.text name) place written = .ok ref) ↔ ∃ chain column, s.Denotes name chain column) ∧
      (∀ ref, s.resolve (.text name) place written = .ok ref → s.Denotes name ref.chain ref.column) ∧
      ((¬∃ chain column, s.Denotes name chain column) → ∃ entity, s.resolve (.text name) place written =
        .error (.query (.unknownField entity (if written.isEmpty then name else written) place)))) := by
  obtain ⟨hentity, hfollows⟩ := hs.follows
  rw [IncludeTree.Follows, hentity] at hfollows
  refine ⟨fun v ref h => located_resolve hl hfollows h, fun hplain name => ?_⟩
  obtain ⟨ref, href, hd⟩ | ⟨hnone, e, hunknown⟩ := hplain.resolve_cases hc hfollows name place written
  · refine ⟨⟨fun _ => ⟨_, _, hd⟩, fun _ => ⟨ref, href⟩⟩, fun ref' href' => ?_, fun hnone => absurd ⟨_, _, hd⟩ hnone⟩
    cases href.symm.trans href'
    exact hd
  · have hfail : ∀ ref, s.resolve (.text name) place written ≠ .ok ref := fun ref href => by
      rw [hunknown] at href
      cases href
    refine ⟨⟨fun ⟨ref, href⟩ => absurd href (hfail ref), fun ⟨chain, column, hd⟩ => absurd hd (hnone chain column)⟩,
      fun ref href => absurd href (hfail ref), fun _ => ⟨_, hunknown⟩⟩

end Scope

namespace Shop

theorem labelled_fullCatalog : fullCatalog.Labelled := by
  refine Catalog.labelled_ofModels (fun m hm => ⟨?_, ?_⟩) ?_
  · revert m
    decide
  · revert m
    decide
  · simp only [models, company, user, profile, product, tag, shelf, box, List.forall_mem_cons]
    simp [Scope.IsName]

def shownSellers : Scope where
  catalog := fullCatalog
  entity := "Product"
  includes := sellers
  mappings := [(.text "User", external)]

def plainSellers : Scope where
  catalog := fullCatalog
  entity := "Product"
  includes := sellers

end Shop

theorem Scope.resolve_exact_sellers :
    (∃ ref rs, Shop.shownSellers.resolve (.text "owner_id") "filter" "" = .ok ref ∧ ref.column = "external_id" ∧
        ref.Located Shop.fullCatalog "Product" rs) ∧
      Shop.plainSellers.Denotes "owner.company.name" ["owner", "company"] "name" ∧
      ¬∃ chain column, Shop.plainSellers.Denotes "owner..name" chain column := by
  have hc : Shop.fullCatalog.WellFormed "Product" := Catalog.wellFormed_ofModels (m := Shop.product) rfl (by decide)
  have hs : IncludeTree.Built Shop.fullCatalog "Product" Shop.sellers :=
    .parse (show IncludeTree.parse Shop.fullCatalog "Product" (.text "owner.company") = .ok Shop.sellers from rfl)
  have hplain := (resolve_exact (s := Shop.plainSellers) hc Shop.labelled_fullCatalog hs "filter" "").2 ⟨rfl, rfl, rfl⟩
  refine ⟨?_, ?_, ?_⟩
  · obtain ⟨rs, h⟩ := (resolve_exact (s := Shop.shownSellers) hc Shop.labelled_fullCatalog hs "filter" "").1
      (.text "owner_id") _ rfl
    exact ⟨_, rs, rfl, rfl, h⟩
  · exact (hplain "owner.company.name").2.1 _ rfl
  · intro hd
    obtain ⟨ref, href⟩ := (hplain "owner..name").1.mpr hd
    cases href

end Sift
