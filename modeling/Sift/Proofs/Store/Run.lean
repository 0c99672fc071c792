import Sift.Proofs.Paging.Quantity
import Sift.Proofs.Sample
import Sift.Proofs.Schema.WellFormed
import Sift.Proofs.Store.Asking
import Sift.Proofs.Store.Joins

/-!
# A page and its count are exact

A store shows the rows of a page as a slice of all rows that meet the predicate, in the order that was asked for: the
relations that the ordering goes through neither add nor drop any, and every page tells how many rows there are.
-/

namespace Sift

theorem insertBy_map {α β : Type} (first : β → β → Bool) (f : α → β) (a : α) (l : List α) :
    insertBy first (f a) (l.map f) = (insertBy (fun a b => first (f a) (f b)) a l).map f := by
  induction l with
  | nil => rfl
  | cons b bs ih =>
    simp only [List.map_cons, insertBy]
    split
    · rfl
    · rw [List.map_cons, ih]

theorem sortBy_map {α β : Type} (first : β → β → Bool) (f : α → β) (l : List α) :
    sortBy first (l.map f) = (sortBy (fun a b => first (f a) (f b)) l).map f := by
  induction l with
  | nil => rfl
  | cons a as ih => rw [List.map_cons, sortBy, ih, insertBy_map, sortBy]

namespace Store

variable {s : Store} {entity : String} {m : Model} {plan : Plan}

/-! ## What is found -/

theorem candidates_perm (s : Store) (m : Model) (p : Predicate) : (s.candidates m p).Perm (s.records m.name) := by
  unfold candidates
  split
  · exact sortBy_perm _ _
  · exact List.Perm.refl _

theorem inOrder_congr {α β : Type} {cell : α → FieldRef → Cell} {cell' : β → FieldRef → Cell} {a b : α} {a' b' : β}
    {terms : List OrderTerm} (ha : ∀ t ∈ terms, cell a t.ref = cell' a' t.ref)
    (hb : ∀ t ∈ terms, cell b t.ref = cell' b' t.ref) : inOrder cell a b terms = inOrder cell' a' b' terms := by
  induction terms with
  | nil => rfl
  | cons t ts ih =>
    obtain ⟨ha, has⟩ := List.forall_mem_cons.mp ha
    obtain ⟨hb, hbs⟩ := List.forall_mem_cons.mp hb
    simp only [inOrder, ha, hb, ih has hbs]

/-- The records that meet the predicate of a plan, in its order. -/
def foundInOrder (s : Store) (m : Model) (plan : Plan) : List Record :=
  sortBy (fun a b => inOrder (s.cellBehind plan.entity) a b plan.order)
    ((s.candidates m plan.criteria.predicate).filter (s.meets m.name plan.criteria.predicate))

theorem foundInOrder_perm (s : Store) (m : Model) (plan : Plan) :
    (s.foundInOrder m plan).Perm ((s.records m.name).filter (s.meets m.name plan.criteria.predicate)) :=
  (sortBy_perm _ _).trans ((s.candidates_perm m _).filter _)

theorem foundInOrder_pairwise (s : Store) (m : Model) (plan : Plan) :
    (s.foundInOrder m plan).Pairwise fun a b => inOrder (s.cellBehind plan.entity) a b plan.order = true := by
  unfold foundInOrder
  refine pairwise_sortBy ?_ ?_ _
  · exact fun _ _ => inOrder_total
  · exact fun _ _ _ => inOrder_trans

theorem found_eq (hm : m.name = plan.entity) (hone : ∀ t ∈ plan.order, s.LeadsToOne plan.entity t.ref.chain) :
    s.found m plan = s.foundInOrder m plan := by
  have hmem : ∀ r ∈ (s.candidates m plan.criteria.predicate).filter (s.meets m.name plan.criteria.predicate),
      r ∈ s.records plan.entity := by
    intro r hr
    rw [← hm]
    exact (s.candidates_perm m _).mem_iff.mp (List.mem_filter.mp hr).1
  have horder (a b : Record) : ordered (s.joined plan.entity (orderChains plan.order) a)
      (s.joined plan.entity (orderChains plan.order) b) plan.order =
        inOrder (s.cellBehind plan.entity) a b plan.order := by
    rw [ordered_eq_inOrder]
    exact inOrder_congr (fun t ht => cell_joined ht a) fun t ht => cell_joined ht b
  simp only [found, foundInOrder, sorted, joinAll_eq hone hmem, sortBy_map, List.map_map, horder]
  rw [show Joined.base ∘ s.joined plan.entity (orderChains plan.order) = id from funext (base_joined _)]
  exact List.map_id _

theorem distinct_eq {records : List Record} (h : (records.map m.keyOf).Nodup) : distinct m records = records := by
  suffices hseen : ∀ seen : List Record, ((seen ++ records).map m.keyOf).Nodup →
      records.foldl (fun seen r => if seen.any fun other => m.keyOf other = m.keyOf r then seen else seen ++ [r]) seen =
        seen ++ records from hseen [] h
  clear h
  induction records with
  | nil => intro seen _; rw [List.append_nil]; rfl
  | cons r records ih =>
    intro seen hnodup
    have hnew : ¬ (seen.any fun other => m.keyOf other = m.keyOf r) = true := by
      intro hany
      obtain ⟨other, hother, hkey⟩ := List.any_eq_true.mp hany
      rw [List.map_append, List.map_cons] at hnodup
      exact (List.nodup_append.mp hnodup).2.2 _ (List.mem_map_of_mem hother) _ List.mem_cons_self
        (of_decide_eq_true hkey)
    rw [List.foldl_cons, if_neg hnew, ih _ (by rwa [List.append_assoc]), List.append_assoc]
    rfl

/-! ## What is asked -/

/-- A page with so many rows at most, after so many rows, both in numbers that the store keeps. -/
structure Spans (page : Page) (limit offset : Nat) : Prop where
  shows : page.limit.truncated = .ok (limit : Int)
  positive : 0 < limit
  skips : ∃ q, page.offset = .ok q ∧ q.truncated = .ok (offset : Int)
  fits : fitsStore limit = true ∧ fitsStore offset = true

theorem Spans.of_integer? {size : Quantity} {limit : Nat} (h : size.integer? = some (limit : Int)) (hpos : 0 < limit)
    (k : Nat) (hlimit : fitsStore limit = true) (hoffset : fitsStore (k * limit : Nat) = true) :
    Spans ⟨k + 1, size⟩ limit (k * limit) where
  shows := Quantity.truncated_of_integer? h
  positive := hpos
  skips := by
    refine ⟨.whole (k * limit : Nat), ?_, rfl⟩
    rw [Page.offset, Quantity.times_of_integer? h, add_sub_cancel_right]
    push_cast
    rfl
  fits := ⟨hlimit, hoffset⟩

theorem exists_window {page : Page} {limit offset : Nat} (h : Spans page limit offset) :
    ∃ skipped : Option Int, window page = .ok ((limit : Int), skipped) ∧ skipped.getD 0 = offset := by
  obtain ⟨q, hq, hoffset⟩ := h.skips
  simp only [window, hq, h.shows, bind, Except.bind]
  cases htruthy : q.toValue.truthy with
  | true => exact ⟨some offset, by rw [if_pos rfl, hoffset]; rfl, rfl⟩
  | false => exact ⟨none, rfl, (Quantity.truncated_of_not_truthy htruthy hoffset).symm⟩

theorem exists_comparisons (h : ∀ c ∈ plan.criteria.predicate.clauses, asksForKey c = false → s.Askable plan.entity c) :
    ∃ xs, s.comparisons plan = .ok xs ∧ ∀ x ∈ xs, x.Taken := by
  refine exists_mapM_eq_ok fun c hc => ?_
  obtain ⟨hc, hkey⟩ := List.mem_filter.mp hc
  exact h c hc (by simpa using hkey)

theorem ask_eq_ok {xs : List Comparison} {limit : Int} {offset : Option Int} (h : ∀ x ∈ xs, x.Taken)
    (hlimit : fitsStore limit = true) (hoffset : fitsStore (offset.getD 0) = true) : ask xs limit offset = .ok () := by
  obtain ⟨handed, hhanded, htaken⟩ := exists_mapM_eq_ok h
  have hfits : ∀ n ∈ limit :: offset.toList, fitsStore n = true := by
    intro n hn
    rcases List.mem_cons.mp hn with rfl | hn
    · exact hlimit
    · obtain rfl := Option.mem_toList.mp hn
      exact hoffset
  have hall : ∀ v ∈ handed.flatten ++ (limit :: offset.toList).map Value.int,
      ∃ cell, Storage.takeIn v = .ok cell ∧ True := by
    intro v hv
    rcases List.mem_append.mp hv with hv | hv
    · obtain ⟨vs, hvs, hv⟩ := List.mem_flatten.mp hv
      obtain ⟨cell, hcell⟩ := htaken vs hvs v hv
      exact ⟨cell, hcell, trivial⟩
    · obtain ⟨n, hn, rfl⟩ := List.mem_map.mp hv
      exact ⟨.integer n, Storage.takeIn_int (hfits n hn), trivial⟩
  obtain ⟨cells, hcells, -⟩ := exists_mapM_eq_ok hall
  simp only [ask, hhanded, bind, Except.bind, hcells]
  rfl

/-! ## What is shown -/

/-- All that is stored can be shown: columns of words hold only words that they allow. -/
def Legible (s : Store) : Prop := ∀ entity, ∀ r ∈ s.records entity, s.isLegible entity r = true

mutual
theorem Legible.branch (h : s.Legible) : (b : Branch) → (entity : String) → (r : Record) →
    s.branchIsLegible entity r b = true
  | ⟨label, _, _, _, nested⟩, entity, r => by
    simp only [branchIsLegible, List.all_eq_true, Bool.and_eq_true]
    exact fun other hother => ⟨h _ _ (mem_records_of_related hother), Legible.nested h nested _ _⟩

theorem Legible.nested (h : s.Legible) : (bs : List Branch) → (entity : String) → (r : Record) →
    s.nestedAreLegible entity r bs = true
  | [], entity, r => by simp only [nestedAreLegible]
  | b :: bs, entity, r => by
    simp only [nestedAreLegible, Legible.branch h b entity r, Legible.nested h bs entity r, Bool.and_self]
end

theorem legible_of_tables (h : ∀ table ∈ s.tables, ∀ r ∈ table.2, s.isLegible table.1 r = true) : s.Legible := by
  intro entity r hr
  obtain ⟨rs, hmem, hr⟩ := Table.exists_mem_of_mem_getD hr
  exact h _ hmem r hr

theorem load_eq {limit offset : Nat} {skipped : Option Int} (hpos : 0 < limit) (hoffset : skipped.getD 0 = offset)
    (found : List Record) : (CountedPage.load (some (limit : Int)) skipped found).rows = (found.drop offset).take limit ∧
      (CountedPage.load (some (limit : Int)) skipped found).count = found.length := by
  have hlimit (rows : List Record) : CountedPage.limited (some (limit : Int)) rows = rows.take limit := by
    rw [CountedPage.limited, if_neg (by omega), Int.toNat_natCast]
  simp only [CountedPage.load, hlimit, hoffset, Int.toNat_natCast]
  split
  · exact ⟨rfl, rfl⟩
  rename_i hempty
  rw [Bool.not_eq_true', Bool.not_eq_false, List.isEmpty_iff] at hempty
  rw [hempty]
  split
  · exact ⟨rfl, rfl⟩
  · -- nothing was skipped, so nothing is found
    rename_i hskipped
    rw [Bool.not_eq_true, Option.isSome_eq_false_iff, Option.isNone_iff_eq_none] at hskipped
    obtain rfl : offset = 0 := by
      rw [hskipped, Option.getD_none] at hoffset
      exact_mod_cast hoffset.symm
    have hfound : found = [] := (List.take_eq_nil_iff.mp hempty).resolve_left hpos.ne'
    exact ⟨rfl, by rw [hfound]; rfl⟩

/-! ## Pages -/

/-- Any page shows a slice of one list, which has each record that meets the predicate once and is in the order of the
plan. The count is the length of that list. -/
theorem run_exact (hm : Model.find? s.models plan.entity = some m) (hkeys : ((s.records plan.entity).map m.keyOf).Nodup)
    (hwords : s.Legible) (fresh : plan.spent = false)
    (asks : ∀ c ∈ plan.criteria.predicate.clauses, asksForKey c = false → s.Askable plan.entity c)
    (toOne : ∀ t ∈ plan.order, s.LeadsToOne plan.entity t.ref.chain) :
    ∃ rows : List Record,
      rows.Perm ((s.records plan.entity).filter (s.meets plan.entity plan.criteria.predicate)) ∧
      (rows.map m.keyOf).Nodup ∧
      rows.Pairwise (fun a b => inOrder (s.cellBehind plan.entity) a b plan.order = true) ∧
      ∀ (page : Page) (limit offset : Nat), Spans page limit offset →
        s.run { plan with page } = .ok
          ⟨((rows.drop offset).take limit).map fun r => .object (s.present plan.entity plan.includes r),
            .int ((s.records plan.entity).filter (s.meets plan.entity plan.criteria.predicate)).length⟩ := by
  have hname := Model.name_of_find? hm
  have hperm := s.foundInOrder_perm m plan
  rw [hname] at hperm
  have hnodup : ((s.foundInOrder m plan).map m.keyOf).Nodup :=
    (hperm.map m.keyOf).nodup_iff.mpr (hkeys.sublist (List.filter_sublist.map m.keyOf))
  refine ⟨s.foundInOrder m plan, hperm, hnodup, s.foundInOrder_pairwise m plan, fun page limit offset hpage => ?_⟩
  obtain ⟨xs, hxs, htaken⟩ := exists_comparisons asks
  obtain ⟨skipped, hwindow, hskipped⟩ := exists_window hpage
  have hask : ask xs limit skipped = .ok () := ask_eq_ok htaken hpage.fits.1 (hskipped ▸ hpage.fits.2)
  obtain ⟨hrows, hcount⟩ := load_eq hpage.positive hskipped (s.foundInOrder m plan)
  have hdistinct : distinct m (((s.foundInOrder m plan).drop offset).take limit) =
      ((s.foundInOrder m plan).drop offset).take limit :=
    distinct_eq (hnodup.sublist (((List.take_sublist _ _).trans (List.drop_sublist _ _)).map m.keyOf))
  have hlegible : ((((s.foundInOrder m plan).drop offset).take limit).all fun r =>
      m.isLegible r && s.nestedAreLegible plan.entity r plan.includes.branches) = true := by
    refine List.all_eq_true.mpr fun r hr => ?_
    have hmem := (List.mem_filter.mp (hperm.mem_iff.mp (List.mem_of_mem_drop (List.mem_of_mem_take hr)))).1
    have hown := hwords plan.entity r hmem
    rw [isLegible, hm] at hown
    rw [Bool.and_eq_true]
    exact ⟨hown, hwords.nested _ _ _⟩
  have hcomparisons : s.comparisons { plan with page, spent := true } = .ok xs := hxs
  have hfound : s.found m { plan with page, spent := true } = s.foundInOrder m plan :=
    @found_eq s m { plan with page, spent := true } hname toOne
  have hconsume : Plan.consume { plan with page } = .ok { plan with page, spent := true } := by
    rw [Plan.consume, if_neg (by simp only [fresh, Bool.false_eq_true, not_false_eq_true])]
  simp only [run, hconsume, hm, hcomparisons, hwindow, hask, hfound, hrows, hcount, hdistinct, hlegible, require, if_true,
    bind, Except.bind, pure, Except.pure, hperm.length_eq]

/-- Whoever leads others is found once, however many they are, and who says nothing is not left out. -/
theorem run_exact_leading : ∃ rows : List Record, rows.Perm (Shop.team.records "User") ∧
    rows.Pairwise (fun a b => inOrder (Shop.team.cellBehind "User") a b Shop.byBio = true) ∧
    Shop.team.run (Shop.listed Shop.leading Shop.byBio ⟨1, .whole 2⟩) =
      .ok ⟨(rows.take 2).map fun r => .object (Shop.team.present "User" ⟨"User", []⟩ r), .int 3⟩ ∧
    Shop.team.run (Shop.listed Shop.leading Shop.byBio ⟨3, .whole 2⟩) = .ok ⟨[], .int 3⟩ := by
  have hasks : ∀ c ∈ Shop.leading.clauses, asksForKey c = false → Shop.team.Askable "User" c := by
    intro c hc _
    rcases List.mem_cons.mp hc with rfl | hc
    · have hop : Operator.isSound { token := "gt", kind := .gt } = true := by decide
      have hcolumn : Shop.team.storageOf "User" (Shop.led "id" .integer) = .integer := rfl
      have hprepare : Operator.prepare { token := "gt", kind := .gt } "reports.id" Storage.integer.columnType (.int 0) =
        .ok (.int 0) := rfl
      have hzero : fitsStore 0 = true := by decide
      exact askable_of_prepare hop (by decide) hcolumn (by decide) hprepare hzero (fun _ => by decide) "gt"
    · obtain rfl := List.mem_singleton.mp hc
      have hop : Operator.isSound { token := "eq", kind := .eq } = true := by decide
      have hcolumn : Shop.team.storageOf "User" { entity := .text "User", column := "manager_id", type := .integer } =
        .integer := rfl
      have hprepare : Operator.prepare { token := "eq", kind := .eq } "manager_id" Storage.integer.columnType (.int 7) =
        .ok (.int 7) := rfl
      have hseven : fitsStore 7 = true := by decide
      exact askable_of_prepare hop (by decide) hcolumn (by decide) hprepare hseven (fun _ => by decide) "eq"
  have htoOne : ∀ t ∈ Shop.byBio, Shop.team.LeadsToOne "User" t.ref.chain := by
    intro t ht
    obtain rfl := List.mem_singleton.mp ht
    exact ⟨by decide +kernel, trivial⟩
  obtain ⟨rows, hperm, -, horder, hpages⟩ := @run_exact Shop.team Shop.user
    (Shop.listed Shop.leading Shop.byBio ⟨1, .whole 2⟩) rfl (by decide +kernel) (legible_of_tables (by decide +kernel)) rfl
    hasks htoOne
  have hall : (Shop.team.records "User").filter (Shop.team.meets "User" Shop.leading) = Shop.team.records "User" := rfl
  have hlength : rows.length = 3 := hperm.length_eq
  refine ⟨rows, hall ▸ hperm, horder, ?_, ?_⟩
  · exact hpages ⟨1, .whole 2⟩ 2 0 (Spans.of_integer? rfl (by decide) 0 (by decide) (by decide))
  · have hlast := hpages ⟨3, .whole 2⟩ 2 4 (Spans.of_integer? rfl (by decide) 2 (by decide) (by decide))
    rw [List.drop_of_length_le (by omega)] at hlast
    exact hlast

/-- A record is counted twice where a relation to one row leads to two; truth values are compared by no order; and a
stored word that its column does not allow is not shown. -/
theorem run_inexact :
    ((Shop.user.link? "profile").map (·.1.many.truthy) = some false ∧
      ((Shop.people [Shop.bio 1 "green" 8, Shop.bio 2 "blue" 8]).records "User").length = 3 ∧
      ((Shop.people [Shop.bio 1 "green" 8, Shop.bio 2 "blue" 8]).run
        (Shop.listed .always Shop.byBio ⟨1, .whole 9⟩)).map (·.count) = .ok (.int 4)) ∧
    (Operator.prepare { token := "gt", kind := .gt } "active" .boolean (.bool true) = .ok (.bool true) ∧
      (Shop.team.run (Shop.listed (.clause ⟨{ entity := .text "User", column := "active", type := .boolean }, .gt,
        .bool true, "gt"⟩) [] ⟨1, .whole 9⟩)).map (·.count) = .error .uncomparable) ∧
    (Shop.misfiled.run { Shop.listed .always [] ⟨1, .whole 9⟩ with entity := "Tag" }).map (·.count) =
      .error .unknownWord :=
  ⟨⟨rfl, rfl, rfl⟩, ⟨rfl, rfl⟩, rfl⟩

end Store

end Sift
