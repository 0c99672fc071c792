import Mathlib.Data.List.Nodup
import Sift.Proofs.Includes.Follows
import Sift.Proofs.Includes.Merge
import Sift.Proofs.Sample
import Sift.Proofs.Store.Joins

/-!
# Paths of included relations

A tree of included relations is known by its paths, the chains of labels in it: each is there once and after the chain
it continues, and a chain leads somewhere exactly when it is among them. Adding a chain and merging act on the paths as
on sets, and leave those that were there in their order.
-/

namespace Sift

namespace Branch

variable {c : Catalog} {entity : Value} {b : Branch} {bs : List Branch} {label : String} {p : List String}

theorem paths_eq (b : Branch) : paths b = [b.label] :: (pathsAll b.nested).map (b.label :: ·) := by
  cases b
  simp only [paths]

theorem pathsAll_eq (bs : List Branch) : pathsAll bs = bs.flatMap paths := by
  induction bs with
  | nil => simp only [pathsAll, List.flatMap_nil]
  | cons b bs ih => rw [pathsAll, ih, List.flatMap_cons]

theorem pathsAll_append (bs cs : List Branch) : pathsAll (bs ++ cs) = pathsAll bs ++ pathsAll cs := by
  simp only [pathsAll_eq, List.flatMap_append]

theorem nil_not_mem_pathsAll (bs : List Branch) : [] ∉ pathsAll bs := by
  rw [pathsAll_eq]
  intro h
  obtain ⟨b, -, hb⟩ := List.mem_flatMap.mp h
  rw [paths_eq] at hb
  simp at hb

theorem cons_mem_paths_iff : label :: p ∈ paths b ↔ b.label = label ∧ (p = [] ∨ p ∈ pathsAll b.nested) := by
  rw [paths_eq, List.mem_cons, List.mem_map, List.cons.injEq]
  constructor
  · rintro (⟨rfl, rfl⟩ | ⟨q, hq, h⟩)
    · exact ⟨rfl, .inl rfl⟩
    · cases h
      exact ⟨rfl, .inr hq⟩
  · rintro ⟨rfl, rfl | hp⟩
    · exact .inl ⟨rfl, rfl⟩
    · exact .inr ⟨p, hp, rfl⟩

theorem cons_mem_pathsAll_iff :
    label :: p ∈ pathsAll bs ↔ ∃ b ∈ bs, b.label = label ∧ (p = [] ∨ p ∈ pathsAll b.nested) := by
  simp only [pathsAll_eq bs, List.mem_flatMap, cons_mem_paths_iff]

/-- A longer chain below a branch gives it longer paths. -/
theorem mem_paths_of_nested {nested : List Branch} {new : List String → Prop}
    (h : ∀ q, q ∈ pathsAll nested ↔ q ∈ pathsAll b.nested ∨ new q) :
    p ∈ paths { b with nested } ↔ p ∈ paths b ∨ ∃ q, p = b.label :: q ∧ new q := by
  cases p with
  | nil =>
    rw [paths_eq b, paths_eq { b with nested }]
    simp
  | cons label p =>
    rw [cons_mem_paths_iff, cons_mem_paths_iff, h]
    constructor
    · rintro ⟨rfl, rfl | hp | hp⟩
      · exact .inl ⟨rfl, .inl rfl⟩
      · exact .inl ⟨rfl, .inr hp⟩
      · exact .inr ⟨p, rfl, hp⟩
    · rintro (⟨rfl, hp⟩ | ⟨q, h, hq⟩)
      · exact ⟨rfl, hp.imp_right .inl⟩
      · cases h
        exact ⟨rfl, .inr (.inr hq)⟩

theorem paths_sublist {nested : List Branch} (h : (pathsAll b.nested).Sublist (pathsAll nested)) :
    (paths b).Sublist (paths { b with nested }) := by
  rw [paths_eq, paths_eq]
  exact (h.map _).cons_cons _

/-! ## What is gained -/

/-- The second branches have the paths of the first in their order, and beside them some new ones. -/
def Gains (new : List String → Prop) (bs cs : List Branch) : Prop :=
  (pathsAll bs).Sublist (pathsAll cs) ∧ ∀ p, p ∈ pathsAll cs ↔ p ∈ pathsAll bs ∨ new p

variable {cs : List Branch}

/-! ### Adding a chain -/

/-- The chains that lead to a chain, and the chain itself. -/
def Leads (chain p : List String) : Prop := p ≠ [] ∧ p <+: chain

theorem leads_cons_iff {chain : List String} :
    Leads (label :: chain) p ↔ p = [label] ∨ ∃ q, p = label :: q ∧ Leads chain q := by
  simp only [Leads, List.prefix_cons_iff]
  constructor
  · rintro ⟨hne, rfl | ⟨q, rfl, hq⟩⟩
    · exact absurd rfl hne
    · by_cases hnil : q = []
      · exact .inl (by rw [hnil])
      · exact .inr ⟨q, rfl, hnil, hq⟩
  · rintro (rfl | ⟨q, rfl, -, hq⟩)
    · exact ⟨List.cons_ne_nil _ _, .inr ⟨[], rfl, List.nil_prefix⟩⟩
    · exact ⟨List.cons_ne_nil _ _, .inr ⟨q, rfl, hq⟩⟩

/-- Paths of branches that a chain was added below. Those that the chain starts with are new below one of them. -/
theorem gains_lengthened {chain : List String} {out : List Branch}
    (h : List.Forall₂ (Lengthened c label chain) bs out)
    (hchain : ∀ {entity bs out}, addChain c entity bs chain = .ok out → Gains (Leads chain) bs out) :
    Gains (fun p => (∃ b ∈ bs, b.label = label) ∧ ∃ q, p = label :: q ∧ Leads chain q) bs out := by
  induction h with
  | nil => exact ⟨.refl _, by simp⟩
  | @cons b b' bs out hb _ ih =>
    have hbranch : (paths b).Sublist (paths b') ∧
        ∀ p, p ∈ paths b' ↔ p ∈ paths b ∨ b.label = label ∧ ∃ q, p = label :: q ∧ Leads chain q := by
      by_cases hlabel : b.label = label
      · unfold Lengthened at hb
        rw [if_pos hlabel] at hb
        obtain ⟨nested, hnested, rfl⟩ := hb
        obtain ⟨hsub, hmem⟩ := hchain hnested
        refine ⟨paths_sublist hsub, fun p => ?_⟩
        rw [mem_paths_of_nested hmem, hlabel]
        simp
      · rw [hb.eq_of_ne hlabel]
        exact ⟨.refl _, fun p => by simp [hlabel]⟩
    refine ⟨?_, fun p => ?_⟩
    · rw [pathsAll, pathsAll]
      exact hbranch.1.append ih.1
    · simp only [pathsAll, List.mem_append, hbranch.2 p, ih.2 p, List.exists_mem_cons_iff]
      rw [or_or_or_comm, or_and_right]

theorem gains_addChain : (chain : List String) → {entity : Value} → {bs out : List Branch} →
    addChain c entity bs chain = .ok out → Gains (Leads chain) bs out
  | [], entity, bs, out, h => by
    cases h
    exact ⟨.refl _, fun p => by simp [Leads]⟩
  | label :: chain, entity, bs, out, h => by
    obtain ⟨⟨b, hb, hlabel⟩, hall⟩ | ⟨-, r, nested, -, hnested, rfl⟩ := addChain_cons h
    · obtain ⟨hsub, hmem⟩ := gains_lengthened hall fun h => gains_addChain chain h
      have hthere : [label] ∈ pathsAll bs := cons_mem_pathsAll_iff.mpr ⟨b, hb, hlabel, .inl rfl⟩
      refine ⟨hsub, fun p => ?_⟩
      rw [hmem, leads_cons_iff]
      constructor
      · rintro (hp | ⟨-, hp⟩)
        · exact .inl hp
        · exact .inr (.inr hp)
      · rintro (hp | rfl | hp)
        · exact .inl hp
        · exact .inl hthere
        · exact .inr ⟨⟨b, hb, hlabel⟩, hp⟩
    · obtain ⟨-, hmem⟩ := gains_addChain chain hnested
      rw [pathsAll] at hmem
      refine ⟨?_, fun p => ?_⟩
      · rw [pathsAll_append]
        exact List.sublist_append_left _ _
      · rw [pathsAll_append, List.mem_append, leads_cons_iff, pathsAll, pathsAll, List.append_nil, paths_eq,
          List.mem_cons, List.mem_map]
        simp only [hmem, List.not_mem_nil, false_or, eq_comm (a := p), and_comm]

/-! ### Merging -/

theorem gains_graft {b : Branch} {change : Branch → Branch}
    (hchange : ∀ e, e.label = b.label → (paths e).Sublist (paths (change e)) ∧
      ∀ p, p ∈ paths (change e) ↔ p ∈ paths e ∨ p ∈ paths b) : Gains (· ∈ paths b) bs (graft b change bs) := by
  induction bs with
  | nil => exact ⟨List.nil_sublist _, fun p => by simp [graft, pathsAll]⟩
  | cons e es ih =>
    simp only [graft]
    split
    · obtain ⟨hsub, hmem⟩ := hchange e ‹_›
      refine ⟨?_, fun p => ?_⟩
      · rw [pathsAll, pathsAll]
        exact hsub.append_right _
      · rw [pathsAll, pathsAll, List.mem_append, List.mem_append, hmem, or_right_comm]
    · refine ⟨?_, fun p => ?_⟩
      · rw [pathsAll, pathsAll]
        exact ih.1.append_left _
      · rw [pathsAll, pathsAll, List.mem_append, List.mem_append, ih.2, or_assoc]

mutual
theorem gains_mergeOne : (b : Branch) → (bs : List Branch) → Gains (· ∈ paths b) bs (mergeOne bs b)
  | ⟨label, target, many, through, nested⟩, bs => by
    simp only [mergeOne]
    refine gains_graft fun e hlabel => ?_
    obtain ⟨hsub, hmem⟩ := gains_merge nested e.nested
    refine ⟨paths_sublist hsub, fun p => ?_⟩
    rw [mem_paths_of_nested hmem, paths_eq ⟨label, _, _, _, _⟩, List.mem_cons, List.mem_map]
    simp only at hlabel
    subst hlabel
    -- the label itself is a path of both branches
    have hlabel : [e.label] ∈ paths e := cons_mem_paths_iff.mpr ⟨rfl, .inl rfl⟩
    constructor
    · rintro (hp | ⟨q, rfl, hq⟩)
      · exact .inl hp
      · exact .inr (.inr ⟨q, hq, rfl⟩)
    · rintro (hp | rfl | ⟨q, hq, rfl⟩)
      · exact .inl hp
      · exact .inl hlabel
      · exact .inr ⟨q, rfl, hq⟩

theorem gains_merge : (cs bs : List Branch) → Gains (· ∈ pathsAll cs) bs (merge bs cs)
  | [], bs => by
    simp only [merge, pathsAll]
    exact ⟨.refl _, by simp⟩
  | c :: cs, bs => by
    obtain ⟨hsub, hmem⟩ := gains_mergeOne c bs
    obtain ⟨hsub', hmem'⟩ := gains_merge cs (mergeOne bs c)
    simp only [merge, pathsAll]
    refine ⟨hsub.trans hsub', fun p => ?_⟩
    simp only [hmem', hmem, List.mem_append, or_assoc]
end

/-! ## Order and uniqueness -/

theorem exists_label_of_mem_pathsAll (h : p ∈ pathsAll bs) :
    ∃ label rest, p = label :: rest ∧ label ∈ bs.map Branch.label := by
  cases p with
  | nil => exact absurd h (nil_not_mem_pathsAll bs)
  | cons label rest =>
    obtain ⟨b, hb, hlabel, -⟩ := cons_mem_pathsAll_iff.mp h
    exact ⟨label, rest, rfl, List.mem_map.mpr ⟨b, hb, hlabel⟩⟩

mutual
theorem Follows.nodup_paths : (b : Branch) → {entity : Value} → Follows c entity b → (paths b).Nodup
  | ⟨label, target, many, through, nested⟩, entity, h => by
    cases h with
    | mk _ labels below =>
      simp only [paths]
      refine List.nodup_cons.mpr ⟨fun h => ?_, ?_⟩
      · obtain ⟨q, hq, heq⟩ := List.mem_map.mp h
        cases heq
        exact nil_not_mem_pathsAll nested hq
      · exact List.Nodup.map List.cons_injective (AllFollow.nodup_pathsAll nested ⟨labels, below⟩)

theorem AllFollow.nodup_pathsAll : (bs : List Branch) → {entity : Value} → AllFollow c entity bs → (pathsAll bs).Nodup
  | [], entity, _ => by
    simp only [pathsAll]
    exact List.nodup_nil
  | b :: bs, entity, ⟨hlabels, hbs⟩ => by
    obtain ⟨hb, hbs⟩ := List.forall_mem_cons.mp hbs
    obtain ⟨hnew, hlabels⟩ := List.nodup_cons.mp hlabels
    simp only [pathsAll]
    refine List.nodup_append.mpr ⟨Follows.nodup_paths b hb, AllFollow.nodup_pathsAll bs ⟨hlabels, hbs⟩, ?_⟩
    rintro p hp q hq rfl
    obtain ⟨label, rest, rfl, hlabel⟩ := exists_label_of_mem_pathsAll hq
    exact hnew ((cons_mem_paths_iff.mp hp).1 ▸ hlabel)
end

theorem parentsFirst_map {done : List (List String)} {ps : List (List String)} (h : Store.ParentsFirst done ps) :
    ∀ {done'}, (∀ d ∈ done, label :: d ∈ done') → [label] ∈ done' →
      Store.ParentsFirst done' (ps.map (label :: ·)) := by
  induction ps generalizing done with
  | nil => exact fun _ _ => trivial
  | cons p ps ih =>
    obtain ⟨⟨parent, last, rfl, hparent⟩, h⟩ := h
    intro done' hdone hlabel
    refine ⟨⟨label :: parent, last, rfl, .inr ?_⟩, ih h (fun d hd => ?_) (List.mem_append_left _ hlabel)⟩
    · rcases hparent with rfl | hparent
      · exact hlabel
      · exact hdone parent hparent
    · rcases List.mem_append.mp hd with hd | hd
      · exact List.mem_append_left _ (hdone d hd)
      · exact List.mem_append_right _ (List.mem_singleton.mpr (by rw [List.mem_singleton.mp hd]))

mutual
theorem parentsFirst_paths : (b : Branch) → Store.ParentsFirst [] (paths b)
  | ⟨label, target, many, through, nested⟩ => by
    simp only [paths]
    refine ⟨⟨[], label, rfl, .inl rfl⟩, ?_⟩
    refine parentsFirst_map (parentsFirst_pathsAll nested) ?_ (List.mem_singleton.mpr rfl)
    exact fun d hd => absurd hd List.not_mem_nil

theorem parentsFirst_pathsAll : (bs : List Branch) → Store.ParentsFirst [] (pathsAll bs)
  | [] => by
    simp only [pathsAll]
    trivial
  | b :: bs => by
    simp only [pathsAll]
    exact (parentsFirst_paths b).append ((parentsFirst_pathsAll bs).mono fun _ h => absurd h List.not_mem_nil)
end

/-! ## Following -/

/-- A chain leads somewhere exactly when it is one of the paths. -/
theorem AllFollow.follow_isSome_iff : (chain : List String) → {entity : Value} → {bs : List Branch} →
    AllFollow c entity bs → ((follow bs chain).isSome ↔ chain ∈ pathsAll bs)
  | [], entity, bs, _ => by simp [follow, nil_not_mem_pathsAll]
  | [label], entity, bs, _ => by
    rw [follow, cons_mem_pathsAll_iff, find?, List.find?_isSome]
    simp
  | label :: next :: chain, entity, bs, ⟨hlabels, hbs⟩ => by
    rw [follow, cons_mem_pathsAll_iff]
    swap
    · exact List.cons_ne_nil _ _
    constructor
    · intro h
      obtain ⟨out, h⟩ := Option.isSome_iff_exists.mp h
      obtain ⟨b, hb, h⟩ := Option.bind_eq_some_iff.mp h
      obtain ⟨hmem, hlabel⟩ := mem_of_find?_eq_some hb
      refine ⟨b, hmem, hlabel, .inr ?_⟩
      exact (AllFollow.follow_isSome_iff (next :: chain) (hbs b hmem).nested).mp (Option.isSome_of_eq_some h)
    · rintro ⟨b, hb, rfl, h | h⟩
      · cases h
      · rw [find?_eq_some_of_mem hlabels hb]
        exact (AllFollow.follow_isSome_iff (next :: chain) (hbs b hb).nested).mpr h

end Branch

namespace Shop

/-- Products with their owners and the companies of these. -/
def sellers : IncludeTree :=
  ⟨"Product", [⟨"owner", .text "User", .bool false, .null, [⟨"company", .text "Company", .bool false, .null, []⟩]⟩]⟩

/-- Products with these and their tags. -/
def tagged : IncludeTree :=
  ⟨"Product", sellers.branches ++ [⟨"tags", .text "Tag", .bool true, .text "product_tags", []⟩]⟩

/-- Products with their owners and those who lead these. -/
def heads : IncludeTree :=
  ⟨"Product", [⟨"owner", .text "User", .bool false, .null, [⟨"manager", .text "User", .bool false, .null, []⟩]⟩]⟩

end Shop

namespace IncludeTree

/-- A tree over one entity that chains, merging and specifications lead to from the empty tree. -/
inductive Built (c : Catalog) (entity : String) : IncludeTree → Prop
  | empty : Built c entity ⟨entity, []⟩
  | withChain {t u : IncludeTree} {chain : List String} (ht : Built c entity t) (hu : t.withChain c chain = .ok u) :
      Built c entity u
  | merge {t u : IncludeTree} (ht : Built c entity t) (hu : Built c entity u) : Built c entity (t.merge u)
  | parse {spec : Value} {t : IncludeTree} (ht : IncludeTree.parse c entity spec = .ok t) : Built c entity t

variable {c : Catalog} {entity : String} {t u : IncludeTree}

/-- The second tree has the paths of the first in their order, and beside them some new ones. -/
def Gains (new : List String → Prop) (t u : IncludeTree) : Prop :=
  t.paths.Sublist u.paths ∧ ∀ p, p ∈ u.paths ↔ p ∈ t.paths ∨ new p

theorem withChain_cases {chain : List String} (h : t.withChain c chain = .ok u) :
    u.entity = t.entity ∧ Branch.addChain c (.text t.entity) t.branches chain = .ok u.branches := by
  obtain ⟨branches, hb, hu⟩ := bind_eq_ok_iff.mp h
  cases pure_eq_ok_iff.mp hu
  exact ⟨rfl, hb⟩

theorem entity_of_parse {spec : Value} (h : parse c entity spec = .ok t) : t.entity = entity :=
  add_keeps (fun _ _ _ ht hu => (withChain_cases hu).1.trans ht) spec rfl h

theorem Built.follows (h : Built c entity t) : t.entity = entity ∧ t.Follows c := by
  induction h with
  | empty => exact ⟨rfl, Branch.allFollow_nil⟩
  | withChain _ hu ih => exact ⟨(withChain_cases hu).1.trans ih.1, ih.2.withChain hu⟩
  | merge _ _ iht ihu => exact ⟨iht.1, iht.2.merge ihu.2 (ihu.1.trans iht.1.symm)⟩
  | parse ht => exact ⟨entity_of_parse ht, follows_parse ht⟩

/-- Every tree that is built over an entity is a tree of relations of the schema with distinct labels, its paths are
distinct and parents come first, and they are the chains that lead somewhere. Adding a chain adds what leads to it to
the paths, merging adds the paths of the other tree, and both leave the paths that are there in their order. -/
theorem Built.keeps_paths (h : Built c entity t) :
    (t.entity = entity ∧ t.Follows c) ∧ t.paths.Nodup ∧ Store.ParentsFirst [] t.paths ∧
      (∀ chain, (t.follow chain).isSome ↔ chain ∈ t.paths) ∧
      (∀ chain u, t.withChain c chain = .ok u → Gains (fun p => p ≠ [] ∧ p <+: chain) t u) ∧
      ∀ u, Built c entity u → Gains (· ∈ u.paths) t (t.merge u) := by
  have hfollows := h.follows
  refine ⟨hfollows, hfollows.2.nodup_pathsAll, Branch.parentsFirst_pathsAll _, fun chain => ?_, fun chain u hu => ?_,
    fun u _ => ?_⟩
  · exact hfollows.2.follow_isSome_iff chain
  · exact Branch.gains_addChain chain (withChain_cases hu).2
  · exact Branch.gains_merge u.branches t.branches

theorem Built.keeps_paths_touring :
    ∃ t u v, IncludeTree.parse Shop.fullCatalog "Product" (.text "owner.company") = .ok t ∧
      t.withChain Shop.fullCatalog ["tags"] = .ok u ∧
      IncludeTree.parse Shop.fullCatalog "Product" (.text "owner.manager") = .ok v ∧
      (u.merge v).paths = [["owner"], ["owner", "company"], ["owner", "manager"], ["tags"]] ∧
      (u.merge v).paths.Nodup ∧ Gains (· ∈ v.paths) u (u.merge v) := by
  have ht : IncludeTree.parse Shop.fullCatalog "Product" (.text "owner.company") = .ok Shop.sellers := rfl
  have hu : Shop.sellers.withChain Shop.fullCatalog ["tags"] = .ok Shop.tagged := rfl
  have hv : IncludeTree.parse Shop.fullCatalog "Product" (.text "owner.manager") = .ok Shop.heads := rfl
  have hbuilt : Built Shop.fullCatalog "Product" Shop.tagged := .withChain (.parse ht) hu
  refine ⟨_, _, _, ht, hu, hv, rfl, ?_, ?_⟩
  · exact (hbuilt.merge (.parse hv)).keeps_paths.2.1
  · exact hbuilt.keeps_paths.2.2.2.2.2 _ (.parse hv)

end IncludeTree

end Sift
