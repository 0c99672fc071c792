import Sift.Proofs.Projection.Exposure
import Sift.Proofs.Store.Presented

/-!
# Records in projected rows

A projected row holds under a label that leads to one record at most that record with its keys replaced, or null where
there is none. So a chain of such labels finds in the row what it leads to in the store.
-/

namespace Sift

/-- The object that a chain of labels leads to in a row. -/
def Row.at? (row : Row) : List String → Option Row
  | [] => some row
  | label :: chain => (row.get label).entries?.bind fun o => Row.at? o chain

namespace Projector

variable {p : Projector} {s : Store} {found : Table Value Row} {store : LookupStore} {entity name last : String}
  {m : Model} {r : Record} {row : Row} {b : Branch} {bs bs' : List Branch} {chain : List String}

/-- A row is what a projection makes of a record of an entity with what it shows under branches, where it knows what
these ask for. -/
structure Renders (p : Projector) (s : Store) (found : Table Value Row) (entity : String) (bs : List Branch)
    (r : Record) (row : Row) : Prop where
  model : ∃ m, Model.find? s.models entity = some m
  mem : r ∈ s.records entity
  follow : Branch.AllFollow (.ofModels s.models) (.text entity) bs
  exposed : p.exposeObject found (.text entity) bs (s.shown entity bs r) = .ok row
  known : Branch.Throughout (fun entity _ o => Collects (p.objectRequests entity o) (p.IsFound s found)) (.text entity)
    bs (s.shown entity bs r)

/-- The rows that records are shown as. -/
theorem exists_rendered (h : p.Suits s) (hs : s.Stored) (hlabels : s.WellLabelled) (hstore : p.Answered s store)
    (hm : Model.find? s.models p.entity = some m) (hentity : p.includes.entity = p.entity)
    (hincludes : p.includes.Follows (.ofModels s.models)) {records : List Record}
    (hrecords : ∀ r ∈ records, r ∈ s.records p.entity) : ∃ found rows,
      p.project store (records.map fun r => .object (s.present p.entity p.includes r)) = .ok rows ∧ Finds s found ∧
        List.Forall₂ (p.Renders s found p.entity p.includes.branches) records rows := by
  have hfollow : Branch.AllFollow (.ofModels s.models) (.text p.entity) p.includes.branches := hentity ▸ hincludes
  have hpresented : ∀ row ∈ records.map (s.shown p.entity p.includes.branches), s.Fills p.entity row ∧
      Branch.AllFit s p.entity row p.includes.branches := by
    intro row hrow
    obtain ⟨r, hr, rfl⟩ := List.mem_map.mp hrow
    exact Store.shown_fits hlabels hm hfollow (hrecords r hr)
  obtain ⟨found, rows, hproject, hfinds, hshown⟩ := exists_project h hs hstore hm hpresented
  rw [List.map_map] at hproject
  refine ⟨found, rows, hproject, hfinds, ?_⟩
  refine ((List.forall₂_and_left _ _).mpr ⟨hrecords, List.forall₂_map_left_iff.mp hshown⟩).imp ?_
  exact fun r row ⟨hr, hrow, hknown⟩ => ⟨⟨m, hm⟩, hr, hfollow, hrow, collects_rowRequests_iff.mp hknown⟩

namespace Renders

variable (h : p.Suits s) (hs : s.Stored) (hlabels : s.WellLabelled) (hfound : Finds s found)
  (hrow : p.Renders s found entity bs r row)

include h hs hlabels hfound hrow in
/-- What stands in the row: under columns what replacing the keys of the record makes of it, under labels what
replacing the keys below makes of what is there. -/
theorem exists_keysExposed (hm : Model.find? s.models entity = some m) : ∃ row₁,
    p.KeysExposed s found entity m (s.shown entity bs r) row₁ ∧
      (∀ name, name ∉ bs.map Branch.label → row.get name = row₁.get name) ∧
        ∀ b ∈ bs, p.exposeValue found b (row₁.get b.label) = .ok (row.get b.label) :=
  exposeObject_cases h hs hfound hm (Store.shown_fits hlabels hm hrow.follow hrow.mem).1 hrow.follow.1 hrow.exposed

include h hs hlabels hfound hrow in
/-- Under a label that leads to one record at most that record is rendered, if there is one. -/
theorem toOne (hb : b ∈ bs) (hmany : b.many.truthy = false) (htarget : b.target = .text name) (hid : b.label ≠ "id") :
    (s.related entity b.label r).head? = none ∧ row.get b.label = .null ∨
      ∃ other o, (s.related entity b.label r).head? = some other ∧ row.get b.label = .object o ∧
        p.Renders s found name b.nested other o := by
  obtain ⟨m, hm⟩ := hrow.model
  obtain ⟨row₁, hkeys, -, hvalues⟩ := exists_keysExposed h hs hlabels hfound hrow hm
  have hfollows := hrow.follow.2 b hb
  have hcolumn := Store.not_isPlain_of_follows hlabels hm hfollows
  obtain ⟨hlead, t, ht⟩ := Store.target_of_follows hlabels hm hfollows htarget
  have hget : (s.shown entity bs r).get b.label = (s.related entity b.label r).head?.elim .null
      fun o => .object (s.shown (s.target entity b.label) b.nested o) := Store.get_shown_toOne hrow.follow.1 hb hmany
  have hvalue := hvalues b hb
  have hbelow := Branch.allBelow_iff.mp hrow.known.2 b hb
  rw [hkeys.get_of_not_isPlain h hm hcolumn hid, hget] at hvalue
  rw [hget] at hbelow
  cases hrelated : (s.related entity b.label r).head? with
  | none =>
    rw [hrelated] at hvalue
    exact .inl ⟨rfl, (Except.ok.inj hvalue).symm⟩
  | some other =>
    rw [hrelated, hlead] at hvalue hbelow
    obtain ⟨o, ho, hvalue⟩ := map_eq_ok_iff.mp hvalue
    refine .inr ⟨other, o, rfl, hvalue.symm, ?_⟩
    obtain ⟨label, target, many, through, nested⟩ := b
    cases htarget
    rw [Option.elim_some, Branch.Below] at hbelow
    exact {
      model := ⟨t, ht⟩
      mem := hlead ▸ Store.mem_records_of_related (List.mem_of_mem_head? hrelated)
      follow := hfollows.nested
      exposed := ho
      known := hbelow _ (List.mem_singleton_self _) }

include h hs hlabels hfound in
/-- A chain of such labels finds in the row what it leads to from the record. -/
theorem at? (hchain : Branch.Along entity bs chain last bs') (hids : "id" ∉ chain)
    (hrow : p.Renders s found entity bs r row) {o : Row} (ho : row.at? chain = some o) :
    ∃ other, s.behind entity r chain = some other ∧ p.Renders s found last bs' other o := by
  induction hchain generalizing r row with
  | nil name bs =>
    cases ho
    exact ⟨r, rfl, hrow⟩
  | cons hb hmany htarget hrest ih =>
    obtain ⟨hid, hids⟩ := not_or.mp (List.mem_cons.not.mp hids)
    obtain ⟨m, hm⟩ := hrow.model
    obtain ⟨hlead, -⟩ := Store.target_of_follows hlabels hm (hrow.follow.2 _ hb) htarget
    rw [Row.at?] at ho
    rcases toOne h hs hlabels hfound hrow hb hmany htarget (Ne.symm hid) with
      ⟨-, hget⟩ | ⟨other, o', hrelated, hget, hother⟩
    · rw [hget] at ho
      cases ho
    · rw [hget] at ho
      rw [Store.behind, hrelated, Option.bind_some, hlead]
      exact ih hids hother ho

end Renders

end Projector

end Sift
