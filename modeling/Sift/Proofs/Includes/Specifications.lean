import Sift.Proofs.Includes.Merging
import Sift.Proofs.Includes.Paths

/-!
# Specifications of included relations

Adding a chain of labels to a tree is merging in the tree of that chain alone. So what two specifications name together
is what their trees come to when they are merged, down to the first error, and the paths of a tree specify the tree.
-/

namespace Sift

namespace Branch

variable {c : Catalog} {entity : Value} {as bs cs : List Branch} {label : String} {chain : List String} {r : Relation}

/-! ## Adding a chain -/

def ofRelation (label : String) (r : Relation) (nested : List Branch) : Branch :=
  ⟨label, r.target, r.many, r.through, nested⟩

def addBelow (c : Catalog) (label : String) (chain : List String) (b : Branch) : Except Fault Branch :=
  if b.label = label then do return { b with nested := ← addChain c b.target b.nested chain } else pure b

theorem addChain_of_relation (hr : c.relation? entity label = .ok (some r)) (bs : List Branch) (chain : List String) :
    addChain c entity bs (label :: chain) = do
      let followed ← bs.mapM (addBelow c label chain)
      if bs.any (·.label = label) then return followed
      let nested ← addChain c r.target [] chain
      return followed ++ [ofRelation label r nested] := by
  rw [addChain, hr]
  rfl

theorem addBelow_of_ne {b : Branch} (h : b.label ≠ label) : addBelow c label chain b = .ok b := by
  rw [addBelow, if_neg h]
  rfl

theorem mapM_addBelow_of_not_mem (h : label ∉ bs.map Branch.label) : bs.mapM (addBelow c label chain) = .ok bs := by
  rw [mapM_eq_ok fun b hb => addBelow_of_ne fun hlabel => h (List.mem_map.mpr ⟨b, hb, hlabel⟩)]
  exact congrArg Except.ok (List.map_id' bs)

theorem addChain_nil_cons (hr : c.relation? entity label = .ok (some r)) (chain : List String) :
    addChain c entity [] (label :: chain) =
      (addChain c r.target [] chain).map fun nested => [ofRelation label r nested] := by
  rw [addChain_of_relation hr]
  cases addChain c r.target [] chain <;> rfl

/-- A chain is added below a branch along its first relation like the rest of it alone, merged in there. -/
theorem mapM_addBelow (hbs : AllFollow c entity bs) (hr : c.relation? entity label = .ok (some r))
    (hmem : label ∈ bs.map Branch.label) (hchain : ∀ {ds}, AllFollow c r.target ds →
      addChain c r.target ds chain = (addChain c r.target [] chain).map (merge ds)) :
    bs.mapM (addBelow c label chain) =
      (addChain c r.target [] chain).map fun nested => mergeOne bs (ofRelation label r nested) := by
  induction bs with
  | nil => cases hmem
  | cons b bs ih =>
    obtain ⟨hlabels, hfollow⟩ := hbs
    obtain ⟨hnew, hlabels⟩ := List.nodup_cons.mp hlabels
    obtain ⟨hb, hfollow⟩ := List.forall_mem_cons.mp hfollow
    by_cases hlabel : b.label = label
    · -- the branch and the chain go along one relation, since the label determines it
      subst hlabel
      have htarget : b.target = r.target := by
        cases hb with
        | mk hrelation _ _ =>
          cases hrelation.symm.trans hr
          rfl
      have hnested : addChain c b.target b.nested chain = (addChain c r.target [] chain).map (merge b.nested) := by
        rw [htarget]
        exact hchain (htarget ▸ hb.nested)
      have hmerged : ∀ nested, mergeOne (b :: bs) (ofRelation b.label r nested) = joined b (ofRelation b.label r nested) :: bs :=
        fun _ => mergeOne_cons_of_eq rfl
      rw [List.mapM_cons, addBelow, if_pos rfl, hnested, mapM_addBelow_of_not_mem hnew]
      simp only [hmerged]
      cases addChain c r.target [] chain <;> rfl
    · rw [List.map_cons, List.mem_cons] at hmem
      rw [List.mapM_cons, addBelow_of_ne hlabel, ih ⟨hlabels, hfollow⟩ (hmem.resolve_left (Ne.symm hlabel))]
      cases addChain c r.target [] chain with
      | error e => rfl
      | ok nested =>
        rw [Except.map, Except.map, mergeOne_cons_of_ne hlabel]
        rfl

/-- Adding a chain is merging in the branches that the chain alone comes to. -/
theorem addChain_eq_map_merge : (chain : List String) → {entity : Value} → {bs : List Branch} →
    AllFollow c entity bs → addChain c entity bs chain = (addChain c entity [] chain).map (merge bs)
  | [], entity, bs, _ => by rw [addChain, addChain, Except.map, merge_nil]
  | label :: chain, entity, bs, hbs => by
    cases hrelation : c.relation? entity label with
    | error e => simp only [addChain, hrelation, bind, Except.bind, Except.map]
    | ok found =>
      cases found with
      | none =>
        simp only [addChain, hrelation, bind, Except.bind]
        rfl
      | some r =>
        have hmerged : ∀ nested, merge bs [ofRelation label r nested] = mergeOne bs (ofRelation label r nested) :=
          fun nested => merge_singleton bs _
        rw [addChain_nil_cons hrelation, addChain_of_relation hrelation]
        -- a known label keeps its place and grows below, a new one comes last
        by_cases hmem : label ∈ bs.map Branch.label
        · have hany : bs.any (·.label = label) = true := by simpa [List.any_eq_true] using hmem
          rw [mapM_addBelow hbs hrelation hmem fun hds => addChain_eq_map_merge chain hds, hany]
          cases addChain c r.target [] chain with
          | error e => rfl
          | ok nested =>
            simp only [Except.map, hmerged]
            rfl
        · have hany : bs.any (·.label = label) = false := by simpa [List.any_eq_false] using hmem
          rw [mapM_addBelow_of_not_mem hmem, hany]
          cases addChain c r.target [] chain with
          | error e => rfl
          | ok nested =>
            simp only [Except.map, hmerged]
            rw [mergeOne_of_not_mem hmem]
            rfl

/-- Adding a chain to merged branches is merging in what it adds to the second ones. -/
theorem addChain_merge (hbs : AllFollow c entity bs) (hcs : AllFollow c entity cs) (chain : List String) :
    addChain c entity (merge bs cs) chain = (addChain c entity cs chain).map (merge bs) := by
  rw [addChain_eq_map_merge chain (AllFollow.merge cs hbs hcs.2), addChain_eq_map_merge chain hcs]
  cases hchain : addChain c entity [] chain with
  | error e => rfl
  | ok ds =>
    have hds := (allFollow_nil.addChain chain hchain).allDistinct
    simp only [Except.map, merge_assoc bs hcs.allDistinct hds]

end Branch

namespace IncludeTree

variable {c : Catalog} {entity : String} {t u v : IncludeTree}

theorem withChain_merge (ht : t.Follows c) (hu : u.Follows c) (hentity : u.entity = t.entity) (chain : List String) :
    (t.merge u).withChain c chain = (u.withChain c chain).map t.merge := by
  rw [Follows, hentity] at hu
  rw [withChain, withChain, hentity]
  simp only [merge, Branch.addChain_merge ht hu]
  cases Branch.addChain c (.text t.entity) u.branches chain <;> rfl

/-! ## Adding specifications -/

/-- A change of trees that commutes with adding a chain to a tree of some kind, which stays one of that kind. -/
structure Commutes (c : Catalog) (P : IncludeTree → Prop) (f : IncludeTree → IncludeTree) : Prop where
  keeps : ∀ t chain u, P t → withChain c t chain = .ok u → P u
  withChain : ∀ t chain, P t → (f t).withChain c chain = (t.withChain c chain).map f

variable {P : IncludeTree → Prop} {f : IncludeTree → IncludeTree}

mutual
/-- What commutes with adding a chain commutes with adding a specification. -/
theorem Commutes.add (h : Commutes c P f) : (s : Value) → {chain : List String} → {t : IncludeTree} → P t →
    (f t).add c chain s = (t.add c chain s).map f
  | .text s, chain, t, ht => by
    simp only [IncludeTree.add]
    split
    · rfl
    · exact h.withChain t _ ht
  | .list items, chain, t, ht | .tuple items, chain, t, ht => by
    simp only [IncludeTree.add]
    exact Commutes.addAll h items ht
  | .mapping x y z, chain, t, ht => by
    simp only [IncludeTree.add]
    rw [Commutes.add h x ht]
    cases hx : t.add c chain x with
    | error e => rfl
    | ok t₁ =>
      have ht₁ := add_keeps h.keeps x ht hx
      simp only [Except.map, bind, Except.bind]
      rw [Commutes.add h y ht₁]
      cases hy : t₁.add c chain y with
      | error e => rfl
      | ok t₂ => exact Commutes.add h z (add_keeps h.keeps y ht₁ hy)
  | .object entries, chain, t, ht => by
    simp only [IncludeTree.add]
    exact Commutes.addEntries h entries ht
  | .null, chain, t, ht | .bool _, chain, t, ht | .int _, chain, t, ht | .float _, chain, t, ht
  | .decimal _, chain, t, ht | .date _, chain, t, ht | .moment _, chain, t, ht | .alien _, chain, t, ht => by
    simp only [IncludeTree.add]
    split <;> rfl

theorem Commutes.addAll (h : Commutes c P f) : (ss : List Value) → {chain : List String} → {t : IncludeTree} → P t →
    (f t).addAll c chain ss = (t.addAll c chain ss).map f
  | [], chain, t, ht => by
    simp only [IncludeTree.addAll]
    rfl
  | s :: ss, chain, t, ht => by
    simp only [IncludeTree.addAll]
    rw [Commutes.add h s ht]
    cases hs : t.add c chain s with
    | error e => rfl
    | ok u => exact Commutes.addAll h ss (add_keeps h.keeps s ht hs)

theorem Commutes.addEntries (h : Commutes c P f) : (entries : List (Value × Value)) → {chain : List String} →
    {t : IncludeTree} → P t → (f t).addEntries c chain entries = (t.addEntries c chain entries).map f
  | [], chain, t, ht => by
    simp only [IncludeTree.addEntries]
    rfl
  | (key, s) :: rest, chain, t, ht => by
    cases key with
    | text label =>
      simp only [IncludeTree.addEntries]
      rw [h.withChain t _ ht]
      cases hlabel : t.withChain c (chain ++ Text.pieces '.' label) with
      | error e => rfl
      | ok t₁ =>
        have ht₁ := h.keeps _ _ _ ht hlabel
        simp only [Except.map, bind, Except.bind]
        rw [Commutes.add h s ht₁]
        cases hs : t₁.add c (chain ++ Text.pieces '.' label) s with
        | error e => rfl
        | ok t₂ => exact Commutes.addEntries h rest (add_keeps h.keeps s ht₁ hs)
    | _ =>
      simp only [IncludeTree.addEntries]
      rfl
end

/-- Merging in a tree of the schema commutes with adding chains to trees over the same entity. -/
theorem commutes_merge (ht : t.Follows c) : Commutes c (fun u => u.entity = t.entity ∧ u.Follows c) t.merge where
  keeps _ _ _ hu hv := ⟨(withChain_cases hv).1.trans hu.1, hu.2.withChain hv⟩
  withChain _ chain hu := withChain_merge ht hu.2 hu.1 chain

theorem merge_empty (t : IncludeTree) (entity : String) : t.merge ⟨entity, []⟩ = t :=
  congrArg (IncludeTree.mk t.entity) (Branch.merge_nil t.branches)

/-- Adding a specification to a tree is merging in the tree of the specification. -/
theorem add_eq_map_merge (ht : t.Follows c) (spec : Value) :
    t.add c [] spec = (parse c t.entity spec).map t.merge := by
  have h : (t.merge ⟨t.entity, []⟩).add c [] spec = (parse c t.entity spec).map t.merge :=
    (commutes_merge ht).add spec ⟨rfl, Branch.allFollow_nil⟩
  rwa [merge_empty] at h

/-- A tree that some specification describes. -/
def Parsed (t : IncludeTree) : Prop := ∃ c entity spec, parse c entity spec = .ok t

theorem Parsed.allDistinct (h : t.Parsed) : Branch.AllDistinct t.branches := by
  obtain ⟨_, _, _, h⟩ := h
  exact (follows_parse h).allDistinct

/-- Two specifications together describe what their trees merge to, or fail like the first of them that fails. Merging
trees of specifications is associative and idempotent. -/
theorem parse_pair (c : Catalog) (entity : String) (s₁ s₂ : Value) :
    (parse c entity (.list [s₁, s₂]) = do
      let t ← parse c entity s₁
      let u ← parse c entity s₂
      return t.merge u) ∧
    (∀ t u v : IncludeTree, t.Parsed → u.Parsed → v.Parsed → (t.merge u).merge v = t.merge (u.merge v)) ∧
      ∀ t : IncludeTree, t.Parsed → t.merge t = t := by
  refine ⟨?_, fun t u v _ hu hv => ?_, fun t ht => ?_⟩
  · rw [parse, add]
    simp only [addAll]
    change (parse c entity s₁ >>= _) = _
    cases hs : parse c entity s₁ with
    | error e => rfl
    | ok t =>
      have hsecond := add_eq_map_merge (follows_parse hs) s₂
      rw [entity_of_parse hs] at hsecond
      simp only [bind, Except.bind, hsecond]
      cases parse c entity s₂ <;> rfl
  · exact congrArg (IncludeTree.mk t.entity) (Branch.merge_assoc t.branches hu.allDistinct hv.allDistinct)
  · exact congrArg (IncludeTree.mk t.entity) ht.allDistinct.merge_self

theorem parse_pair_sellers :
    parse Shop.fullCatalog "Product" (.list [.text "owner.company", .object [(.text "owner", .text "manager")]]) =
        .ok (Shop.sellers.merge Shop.heads) ∧
      (Shop.sellers.merge Shop.heads).paths = [["owner"], ["owner", "company"], ["owner", "manager"]] ∧
      parse Shop.fullCatalog "Product" (.list [.text "owner.boss", .text "shop"]) =
        .error (.query (.unknownRelation "User" "boss" "include")) ∧
      (Shop.sellers.merge Shop.heads).merge Shop.sellers = Shop.sellers.merge (Shop.heads.merge Shop.sellers) ∧
      Shop.heads.merge Shop.heads = Shop.heads := by
  have hsellers : Shop.sellers.Parsed := ⟨Shop.fullCatalog, "Product", .text "owner.company", rfl⟩
  have hheads : Shop.heads.Parsed := ⟨Shop.fullCatalog, "Product", .object [(.text "owner", .text "manager")], rfl⟩
  refine ⟨(parse_pair _ _ _ _).1, rfl, (parse_pair _ _ _ _).1, ?_, ?_⟩
  · exact (parse_pair Shop.fullCatalog "Product" .null .null).2.1 _ _ _ hsellers hheads hsellers
  · exact (parse_pair Shop.fullCatalog "Product" .null .null).2.2 _ hheads

end IncludeTree

end Sift
