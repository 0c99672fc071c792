import Sift.Proofs.Includes.Specifications
import Sift.Proofs.Schema.Relations

/-!
# Trees from their paths

A tree of included relations is what its own paths specify, with the branches in their order at every node: adding the
paths of a branch to nothing rebuilds that branch, and what comes after it is merged in beside it.
-/

namespace Sift

/-- Every relation has a label that is not empty and contains no point. -/
def Catalog.PlainLabels (c : Catalog) : Prop :=
  ∀ entity label r, c.relation? entity label = .ok (some r) → label ≠ "" ∧ '.' ∉ label.toList

theorem Catalog.plainLabels_ofModels {models : List Model}
    (h : ∀ m ∈ models, ∀ r ∈ m.relations, r.1.label ≠ "" ∧ '.' ∉ r.1.label.toList) : (ofModels models).PlainLabels := by
  intro entity label r hr
  obtain ⟨relations, hrelations, hget⟩ := bind_eq_ok_iff.mp hr
  obtain ⟨key, hkey, hanswer⟩ := bind_eq_ok_iff.mp hrelations
  cases hm : key.text?.bind (Model.find? models) with
  | none =>
    rw [hm] at hanswer
    cases hanswer
  | some m =>
    rw [hm] at hanswer
    cases pure_eq_ok_iff.mp hanswer
    obtain ⟨name, -, hfind⟩ := Option.bind_eq_some_iff.mp hm
    obtain ⟨e, he, heq⟩ := List.mem_map.mp (Table.mem_of_get?_eq_some (pure_eq_ok_iff.mp hget))
    cases heq
    exact h m (List.mem_of_find?_eq_some hfind) e (List.mem_filter.mp he).1

namespace Branch

variable {c : Catalog} {entity : Value} {as bs cs : List Branch} {label : String} {r : Relation}

/-! ## Adding chains one after the other -/

def addChains (c : Catalog) (entity : Value) (bs : List Branch) (chains : List (List String)) :
    Except Fault (List Branch) := chains.foldlM (addChain c entity) bs

theorem addChains_append (chains chains' : List (List String)) :
    addChains c entity bs (chains ++ chains') = addChains c entity bs chains >>= fun bs => addChains c entity bs chains' :=
  List.foldlM_append

theorem addChains_merge (hbs : AllFollow c entity bs) (hcs : AllFollow c entity cs) (chains : List (List String)) :
    addChains c entity (merge bs cs) chains = (addChains c entity cs chains).map (merge bs) := by
  induction chains generalizing cs with
  | nil => rfl
  | cons chain chains ih =>
    simp only [addChains, List.foldlM_cons, addChain_merge hbs hcs] at ih ⊢
    cases hchain : addChain c entity cs chain with
    | error e => rfl
    | ok ds => exact ih (hcs.addChain chain hchain)

theorem addChain_ofRelation (hr : c.relation? entity label = .ok (some r)) (nested : List Branch) (chain : List String) :
    addChain c entity [ofRelation label r nested] (label :: chain) =
      (addChain c r.target nested chain).map fun nested => [ofRelation label r nested] := by
  rw [addChain_of_relation hr]
  simp only [List.mapM_cons, List.mapM_nil, addBelow, ofRelation, if_true, List.any_cons, decide_true, Bool.true_or]
  cases addChain c r.target nested chain <;> rfl

theorem addChains_ofRelation (hr : c.relation? entity label = .ok (some r)) (nested : List Branch)
    (chains : List (List String)) :
    addChains c entity [ofRelation label r nested] (chains.map (label :: ·)) =
      (addChains c r.target nested chains).map fun nested => [ofRelation label r nested] := by
  induction chains generalizing nested with
  | nil => rfl
  | cons chain chains ih =>
    simp only [addChains, List.map_cons, List.foldlM_cons, addChain_ofRelation hr] at ih ⊢
    cases addChain c r.target nested chain with
    | error e => rfl
    | ok nested => exact ih nested

/-! ## The paths of branches -/

/-- Branches with labels of their own are merged beside those that are there. -/
theorem merge_of_nodup (h : ((as ++ bs).map Branch.label).Nodup) : merge as bs = as ++ bs := by
  induction bs generalizing as with
  | nil => rw [merge_nil, List.append_nil]
  | cons b bs ih =>
    have hnew : b.label ∉ as.map Branch.label := by
      rw [List.map_append, List.map_cons] at h
      exact fun hb => (List.nodup_append.mp h).2.2 _ hb _ List.mem_cons_self rfl
    rw [merge_cons, mergeOne_of_not_mem hnew, ih (by rwa [List.append_assoc]), List.append_assoc, List.singleton_append]

theorem AllFollow.addChains_paths (hbs : AllFollow c entity bs) (h : ∀ b ∈ bs, addChains c entity [] (paths b) = .ok [b]) :
    addChains c entity [] (pathsAll bs) = .ok bs := by
  induction bs with
  | nil =>
    rw [pathsAll]
    rfl
  | cons b bs ih =>
    obtain ⟨hlabels, hfollow⟩ := hbs
    obtain ⟨hb, hfollow⟩ := List.forall_mem_cons.mp hfollow
    obtain ⟨hfirst, hrest⟩ := List.forall_mem_cons.mp h
    have hone : AllFollow c entity [b] := ⟨List.nodup_singleton _, List.forall_mem_singleton.mpr hb⟩
    have hbs : AllFollow c entity bs := ⟨(List.nodup_cons.mp hlabels).2, hfollow⟩
    -- what comes after `b` is added beside it as it is added to nothing
    have hbeside := addChains_merge hone allFollow_nil (pathsAll bs)
    rw [merge_nil, ih hbs hrest] at hbeside
    rw [pathsAll, addChains_append, hfirst]
    change addChains c entity [b] (pathsAll bs) = _
    rw [hbeside, Except.map, merge_of_nodup hlabels]
    rfl

theorem Follows.addChains_paths {b : Branch} (h : Follows c entity b) : addChains c entity [] (paths b) = .ok [b] := by
  induction h with
  | @mk entity label r nested hr labels below ih =>
    have hnested : addChains c r.target [] (pathsAll nested) = .ok nested := AllFollow.addChains_paths ⟨labels, below⟩ ih
    have hhead : addChain c entity [] [label] = .ok [ofRelation label r []] := addChain_nil_cons hr []
    rw [paths, addChains, List.foldlM_cons, hhead]
    change addChains c entity [ofRelation label r []] _ = _
    rw [addChains_ofRelation hr, hnested]
    rfl

theorem AllFollow.plainLabels (hc : c.PlainLabels) {p : List String} {entity : Value} {bs : List Branch}
    (hbs : AllFollow c entity bs) (hp : p ∈ pathsAll bs) : ∀ label ∈ p, label ≠ "" ∧ '.' ∉ label.toList := by
  induction p generalizing entity bs with
  | nil => exact fun _ h => absurd h List.not_mem_nil
  | cons label p ih =>
    obtain ⟨b, hb, rfl, hrest⟩ := cons_mem_pathsAll_iff.mp hp
    have hfollows := hbs.2 b hb
    refine List.forall_mem_cons.mpr ⟨?_, ?_⟩
    · cases hfollows with
      | mk hr _ _ => exact hc _ _ _ hr
    · rcases hrest with rfl | hrest
      · exact fun _ h => absurd h List.not_mem_nil
      · exact ih hfollows.nested hrest

end Branch

namespace IncludeTree

variable {c : Catalog} {entity : String} {t u v : IncludeTree}

/-- The specification that lists the paths of the tree. -/
def spec (t : IncludeTree) : Value := .list (t.paths.map fun p => .text (Text.dotted p))

theorem add_dotted {chain : List String} (hne : chain ≠ []) (h : ∀ label ∈ chain, label ≠ "" ∧ '.' ∉ label.toList)
    (t : IncludeTree) : t.add c [] (.text (Text.dotted chain)) = t.withChain c chain := by
  have hpieces : Text.pieces '.' (Text.dotted chain) = chain :=
    Text.pieces_dotted hne fun label hlabel => (h label hlabel).2
  have hnonempty : (Text.dotted chain).isEmpty = false := by
    rw [Bool.eq_false_iff]
    intro hempty
    rw [String.isEmpty_iff.mp hempty] at hpieces
    exact (h "" (by rw [← hpieces]; exact List.mem_singleton_self _)).1 rfl
  rw [add, hnonempty, hpieces]
  rfl

theorem addAll_dotted {chains : List (List String)}
    (h : ∀ chain ∈ chains, chain ≠ [] ∧ ∀ label ∈ chain, label ≠ "" ∧ '.' ∉ label.toList) (t : IncludeTree) :
    t.addAll c [] (chains.map fun chain => .text (Text.dotted chain)) =
      (Branch.addChains c (.text t.entity) t.branches chains).map (IncludeTree.mk t.entity) := by
  induction chains generalizing t with
  | nil =>
    simp only [List.map_nil, addAll]
    rfl
  | cons chain chains ih =>
    obtain ⟨⟨hne, hchain⟩, h⟩ := List.forall_mem_cons.mp h
    simp only [List.map_cons, addAll, add_dotted hne hchain, withChain, Branch.addChains, List.foldlM_cons]
    cases Branch.addChain c (.text t.entity) t.branches chain with
    | error e => rfl
    | ok branches => exact ih h ⟨t.entity, branches⟩

/-- The trees that their paths rebuild are those of relations of the schema with distinct labels. -/
theorem parse_spec_iff (hc : c.PlainLabels) : parse c t.entity t.spec = .ok t ↔ t.Follows c := by
  constructor
  · exact follows_parse
  · intro h
    have hpaths : Branch.addChains c (.text t.entity) [] t.paths = .ok t.branches :=
      Branch.AllFollow.addChains_paths h fun b hb => (h.2 b hb).addChains_paths
    have hplain : ∀ p ∈ t.paths, p ≠ [] ∧ ∀ label ∈ p, label ≠ "" ∧ '.' ∉ label.toList :=
      fun p hp => ⟨fun hnil => Branch.nil_not_mem_pathsAll t.branches (hnil ▸ hp), Branch.AllFollow.plainLabels hc h hp⟩
    rw [parse, spec, add, addAll_dotted hplain, hpaths]
    rfl

/-- Every tree that is built over an entity, in a schema with plain labels, is what its paths specify. -/
theorem Built.parse_spec (hc : c.PlainLabels) (h : Built c entity t) :
    IncludeTree.parse c t.entity t.spec = .ok t :=
  (parse_spec_iff hc).mpr h.follows.2

theorem plainLabels_fullCatalog : Shop.fullCatalog.PlainLabels := Catalog.plainLabels_ofModels (by decide)

theorem Built.parse_spec_touring :
    (Shop.tagged.merge Shop.heads).spec =
        .list [.text "owner", .text "owner.company", .text "owner.manager", .text "tags"] ∧
      IncludeTree.parse Shop.fullCatalog "Product" (Shop.tagged.merge Shop.heads).spec =
        .ok (Shop.tagged.merge Shop.heads) := by
  have hsellers : IncludeTree.parse Shop.fullCatalog "Product" (.text "owner.company") = .ok Shop.sellers := rfl
  have htagged : Shop.sellers.withChain Shop.fullCatalog ["tags"] = .ok Shop.tagged := rfl
  have hheads : IncludeTree.parse Shop.fullCatalog "Product" (.text "owner.manager") = .ok Shop.heads := rfl
  have hbuilt := Built.merge (.withChain (.parse hsellers) htagged) (.parse hheads)
  exact ⟨rfl, Built.parse_spec plainLabels_fullCatalog hbuilt⟩

/-- Where trees over different entities were merged, the paths need not make up the tree again. -/
theorem not_parse_spec_mixed : Shop.fullCatalog.PlainLabels ∧
    ∃ t u, parse Shop.fullCatalog "Product" (.text "owner") = .ok t ∧
      parse Shop.fullCatalog "User" (.text "company") = .ok u ∧ (t.merge u).paths = [["owner"], ["company"]] ∧
      parse Shop.fullCatalog (t.merge u).entity (t.merge u).spec =
        .error (.query (.unknownRelation "Product" "company" "include")) := by
  have howner : parse Shop.fullCatalog "Product" (.text "owner") =
    .ok ⟨"Product", [⟨"owner", .text "User", .bool false, .null, []⟩]⟩ := rfl
  have hcompany : parse Shop.fullCatalog "User" (.text "company") =
    .ok ⟨"User", [⟨"company", .text "Company", .bool false, .null, []⟩]⟩ := rfl
  exact ⟨plainLabels_fullCatalog, _, _, howner, hcompany, rfl, rfl⟩

end IncludeTree

end Sift
