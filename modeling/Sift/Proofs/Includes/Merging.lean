import Mathlib.Data.List.Nodup
import Sift.Proofs.Includes.Follows

/-!
# Laws of merging

Where no node repeats a label, merging is associative and idempotent, and keeps it so. Both laws are about the order of
branches too: a label stays where it was first.
-/

namespace Sift

namespace Branch

variable {b c e : Branch} {as bs cs : List Branch}

/-! ## Distinct labels -/

/-- No node below the branch repeats a label. -/
inductive Distinct : Branch → Prop
  | mk {label : String} {target many through : Value} {nested : List Branch} (labels : (nested.map Branch.label).Nodup)
      (below : ∀ b ∈ nested, Distinct b) : Distinct ⟨label, target, many, through, nested⟩

/-- Branches with a label of its own each, below which no node repeats a label. -/
def AllDistinct (bs : List Branch) : Prop := (bs.map Branch.label).Nodup ∧ ∀ b ∈ bs, Distinct b

theorem Distinct.nested (h : Distinct b) : AllDistinct b.nested := by
  cases h with
  | mk labels below => exact ⟨labels, below⟩

theorem Distinct.of_nested (h : AllDistinct b.nested) : Distinct b := by
  cases b
  exact .mk h.1 h.2

theorem Follows.distinct {catalog : Catalog} {entity : Value} (h : Follows catalog entity b) : Distinct b := by
  induction h with
  | mk _ labels _ ih => exact .mk labels ih

theorem AllFollow.allDistinct {catalog : Catalog} {entity : Value} (h : AllFollow catalog entity bs) : AllDistinct bs :=
  ⟨h.1, fun b hb => (h.2 b hb).distinct⟩

/-! ## Merging one branch -/

/-- The first branch, with what is below the second one merged in below it. -/
def joined (e b : Branch) : Branch := { e with nested := merge e.nested b.nested }

@[simp] theorem label_joined (e b : Branch) : (joined e b).label = e.label := rfl

theorem mergeOne_nil (b : Branch) : mergeOne [] b = [b] := by
  cases b
  simp only [mergeOne, graft]

theorem mergeOne_cons_of_eq (h : e.label = b.label) : mergeOne (e :: bs) b = joined e b :: bs := by
  cases b
  simp only [mergeOne, graft, if_pos h, joined]

theorem mergeOne_cons_of_ne (h : e.label ≠ b.label) : mergeOne (e :: bs) b = e :: mergeOne bs b := by
  cases b
  simp only [mergeOne, graft, if_neg h]

theorem mergeOne_of_not_mem (h : b.label ∉ bs.map Branch.label) : mergeOne bs b = bs ++ [b] := by
  induction bs with
  | nil => exact mergeOne_nil b
  | cons e bs ih =>
    rw [List.map_cons, List.mem_cons, not_or] at h
    rw [mergeOne_cons_of_ne (Ne.symm h.1), ih h.2, List.cons_append]

theorem labels_mergeOne_of_mem (h : b.label ∈ bs.map Branch.label) :
    (mergeOne bs b).map Branch.label = bs.map Branch.label := by
  induction bs with
  | nil => cases h
  | cons e bs ih =>
    by_cases he : e.label = b.label
    · rw [mergeOne_cons_of_eq he, List.map_cons, List.map_cons, label_joined]
    · rw [List.map_cons, List.mem_cons] at h
      rw [mergeOne_cons_of_ne he, List.map_cons, List.map_cons, ih (h.resolve_left (Ne.symm he))]

theorem label_mem_mergeOne (bs : List Branch) (b : Branch) : b.label ∈ (mergeOne bs b).map Branch.label := by
  by_cases h : b.label ∈ bs.map Branch.label
  · rwa [labels_mergeOne_of_mem h]
  · rw [mergeOne_of_not_mem h, List.map_append]
    exact List.mem_append_right _ (List.mem_singleton_self _)

theorem labels_subset_mergeOne (bs : List Branch) (b : Branch) :
    bs.map Branch.label ⊆ (mergeOne bs b).map Branch.label := by
  by_cases h : b.label ∈ bs.map Branch.label
  · rw [labels_mergeOne_of_mem h]
    exact List.Subset.refl _
  · rw [mergeOne_of_not_mem h, List.map_append]
    exact List.subset_append_left _ _

theorem nodup_mergeOne (h : (bs.map Branch.label).Nodup) (b : Branch) : ((mergeOne bs b).map Branch.label).Nodup := by
  by_cases hb : b.label ∈ bs.map Branch.label
  · rwa [labels_mergeOne_of_mem hb]
  · rw [mergeOne_of_not_mem hb, List.map_append]
    exact h.append (List.nodup_singleton _) fun l hl hl' => hb (List.mem_singleton.mp hl' ▸ hl)

/-- What holds of all branches before and of the one that is merged in holds of all after, if joining keeps it. -/
theorem forall_mergeOne {P : Branch → Prop} (hbs : ∀ e ∈ bs, P e) (hb : P b)
    (hjoined : ∀ e ∈ bs, e.label = b.label → P (joined e b)) : ∀ e ∈ mergeOne bs b, P e := by
  induction bs with
  | nil =>
    rw [mergeOne_nil]
    exact List.forall_mem_singleton.mpr hb
  | cons e bs ih =>
    obtain ⟨he, hbs⟩ := List.forall_mem_cons.mp hbs
    obtain ⟨hjoin, hjoined⟩ := List.forall_mem_cons.mp hjoined
    by_cases hlabel : e.label = b.label
    · rw [mergeOne_cons_of_eq hlabel]
      exact List.forall_mem_cons.mpr ⟨hjoin hlabel, hbs⟩
    · rw [mergeOne_cons_of_ne hlabel]
      exact List.forall_mem_cons.mpr ⟨he, ih hbs hjoined⟩

/-- Branches with different labels can be merged in either order, once there is one with the label of the second. -/
theorem mergeOne_comm (hne : c.label ≠ b.label) (hmem : c.label ∈ bs.map Branch.label) :
    mergeOne (mergeOne bs b) c = mergeOne (mergeOne bs c) b := by
  induction bs with
  | nil => cases hmem
  | cons e bs ih =>
    by_cases hb : e.label = b.label
    · have hc : e.label ≠ c.label := fun h => hne (h.symm.trans hb)
      rw [mergeOne_cons_of_eq hb, mergeOne_cons_of_ne (by rwa [label_joined]), mergeOne_cons_of_ne hc,
        mergeOne_cons_of_eq hb]
    · by_cases hc : e.label = c.label
      · rw [mergeOne_cons_of_ne hb, mergeOne_cons_of_eq hc, mergeOne_cons_of_eq hc,
          mergeOne_cons_of_ne (by rwa [label_joined])]
      · rw [List.map_cons, List.mem_cons] at hmem
        rw [mergeOne_cons_of_ne hb, mergeOne_cons_of_ne hc, mergeOne_cons_of_ne hc, mergeOne_cons_of_ne hb,
          ih (hmem.resolve_left (Ne.symm hc))]

/-- Two branches with one label are merged like the one that they join to. -/
theorem mergeOne_joined (hlabel : c.label = b.label) (hassoc : ∀ e, joined (joined e b) c = joined e (joined b c))
    (bs : List Branch) : mergeOne (mergeOne bs b) c = mergeOne bs (joined b c) := by
  induction bs with
  | nil => rw [mergeOne_nil, mergeOne_nil, mergeOne_cons_of_eq hlabel.symm]
  | cons e bs ih =>
    by_cases he : e.label = b.label
    · rw [mergeOne_cons_of_eq he, mergeOne_cons_of_eq ((label_joined e b).trans (he.trans hlabel.symm)),
        mergeOne_cons_of_eq (he.trans (label_joined b c).symm), hassoc]
    · rw [mergeOne_cons_of_ne he, mergeOne_cons_of_ne fun h => he (h.trans hlabel),
        mergeOne_cons_of_ne (by rwa [label_joined]), ih]

/-! ## Merging -/

theorem merge_nil (bs : List Branch) : merge bs [] = bs := by simp only [merge]

theorem merge_cons (bs : List Branch) (c : Branch) (cs : List Branch) :
    merge bs (c :: cs) = merge (mergeOne bs c) cs := by simp only [merge]

theorem merge_singleton (bs : List Branch) (b : Branch) : merge bs [b] = mergeOne bs b := by
  rw [merge_cons, merge_nil]

theorem forall_merge {P : List Branch → Prop} (hbs : P bs) (hone : ∀ c ∈ cs, ∀ bs, P bs → P (mergeOne bs c)) :
    P (merge bs cs) := by
  induction cs generalizing bs with
  | nil => rwa [merge_nil]
  | cons c cs ih =>
    obtain ⟨hc, hone⟩ := List.forall_mem_cons.mp hone
    rw [merge_cons]
    exact ih (hc bs hbs) hone

theorem Distinct.allDistinct_mergeOne (hb : Distinct b) : ∀ bs, AllDistinct bs → AllDistinct (mergeOne bs b) := by
  induction hb with
  | mk labels below ih =>
    refine fun bs hbs => ⟨nodup_mergeOne hbs.1 _, forall_mergeOne hbs.2 (.mk labels below) fun e he _ => ?_⟩
    exact .of_nested (forall_merge (hbs.2 e he).nested ih)

theorem AllDistinct.merge (hbs : AllDistinct bs) (hcs : AllDistinct cs) : AllDistinct (Branch.merge bs cs) :=
  forall_merge hbs fun c hc => (hcs.2 c hc).allDistinct_mergeOne

/-! ### Associativity -/

/-- A branch whose label is there already, and is not among those to come, can be merged first. -/
theorem merge_mergeOne_comm (hmem : c.label ∈ as.map Branch.label) (hnew : c.label ∉ bs.map Branch.label) :
    mergeOne (merge as bs) c = merge (mergeOne as c) bs := by
  induction bs generalizing as with
  | nil => rw [merge_nil, merge_nil]
  | cons b bs ih =>
    rw [List.map_cons, List.mem_cons, not_or] at hnew
    rw [merge_cons, merge_cons, ih (labels_subset_mergeOne as b hmem) hnew.2, mergeOne_comm hnew.1 hmem]

theorem mergeOne_merge (hbs : (bs.map Branch.label).Nodup)
    (hassoc : ∀ b ∈ bs, ∀ e, joined (joined e b) c = joined e (joined b c)) (as : List Branch) :
    mergeOne (merge as bs) c = merge as (mergeOne bs c) := by
  induction bs generalizing as with
  | nil => rw [merge_nil, mergeOne_nil, merge_singleton]
  | cons b bs ih =>
    obtain ⟨hnew, hbs⟩ := List.nodup_cons.mp hbs
    obtain ⟨hb, hassoc⟩ := List.forall_mem_cons.mp hassoc
    by_cases hlabel : b.label = c.label
    · -- the label has its place once `b` is merged in, and the rest of `bs` does not repeat it
      rw [mergeOne_cons_of_eq hlabel, merge_cons, merge_cons, ← mergeOne_joined hlabel.symm hb]
      exact merge_mergeOne_comm (hlabel ▸ label_mem_mergeOne as b) (hlabel ▸ hnew)
    · rw [mergeOne_cons_of_ne hlabel, merge_cons, merge_cons, ih hbs hassoc]

/-- Merging in the branches of a list commutes with merging it, if merging in each of them does. -/
theorem merge_merge (hbs : AllDistinct bs) (hcs : AllDistinct cs)
    (hone : ∀ c ∈ cs, ∀ as bs, AllDistinct bs → mergeOne (merge as bs) c = merge as (mergeOne bs c)) (as : List Branch) :
    merge (merge as bs) cs = merge as (merge bs cs) := by
  obtain ⟨-, hcs⟩ := hcs
  induction cs generalizing bs with
  | nil => rw [merge_nil, merge_nil]
  | cons c cs ih =>
    obtain ⟨hc, hcs⟩ := List.forall_mem_cons.mp hcs
    obtain ⟨hone, hrest⟩ := List.forall_mem_cons.mp hone
    rw [merge_cons, merge_cons, hone as bs hbs, ih (hc.allDistinct_mergeOne bs hbs) hrest hcs]

theorem Distinct.mergeOne_merge (hc : Distinct c) : ∀ as bs, AllDistinct bs →
    mergeOne (merge as bs) c = merge as (mergeOne bs c) := by
  -- on the nesting of `c`: below a branch with its label, its own branches are merged in one by one
  induction hc with
  | mk labels below ih =>
    refine fun as bs hbs => Branch.mergeOne_merge hbs.1 (fun b hb e => ?_) as
    exact congrArg (fun nested => { e with nested }) (merge_merge (hbs.2 b hb).nested ⟨labels, below⟩ ih e.nested)

theorem merge_assoc (as : List Branch) (hbs : AllDistinct bs) (hcs : AllDistinct cs) :
    merge (merge as bs) cs = merge as (merge bs cs) :=
  merge_merge hbs hcs (fun c hc => (hcs.2 c hc).mergeOne_merge) as

/-! ### Idempotence -/

theorem mergeOne_of_mem (hbs : (bs.map Branch.label).Nodup) (hb : b ∈ bs) (hself : joined b b = b) :
    mergeOne bs b = bs := by
  induction bs with
  | nil => cases hb
  | cons e bs ih =>
    obtain ⟨hnew, hbs⟩ := List.nodup_cons.mp hbs
    rcases List.mem_cons.mp hb with rfl | hb
    · rw [mergeOne_cons_of_eq rfl, hself]
    · have hne : e.label ≠ b.label := fun h => hnew (List.mem_map.mpr ⟨b, hb, h.symm⟩)
      rw [mergeOne_cons_of_ne hne, ih hbs hb]

theorem merge_of_subset (hbs : (bs.map Branch.label).Nodup) (hself : ∀ b ∈ bs, joined b b = b) (hcs : cs ⊆ bs) :
    merge bs cs = bs :=
  forall_merge (P := fun ds => ds = bs) rfl fun c hc ds hds => by
    rw [hds, mergeOne_of_mem hbs (hcs hc) (hself c (hcs hc))]

theorem Distinct.joined_self (h : Distinct b) : joined b b = b := by
  induction h with
  | @mk label target many through nested labels _ ih =>
    exact congrArg (Branch.mk label target many through) (merge_of_subset labels ih (List.Subset.refl _))

theorem AllDistinct.merge_self (h : AllDistinct bs) : Branch.merge bs bs = bs :=
  merge_of_subset h.1 (fun b hb => (h.2 b hb).joined_self) (List.Subset.refl _)

end Branch

end Sift
