import Sift.Proofs.Schema.WellFormed

/-!
# Included relations follow the schema

Every branch of a tree that was made from specifications goes along a relation of the entity it starts at, and no two
branches of a node go along the same one. Merging such trees gives such a tree.
-/

namespace Sift

namespace Branch

/-- The branch goes along a relation of an entity, the branches below it go along relations of the entity it leads to,
and each of these has a label of its own. -/
inductive Follows (c : Catalog) : Value → Branch → Prop
  | mk {entity : Value} {label : String} {r : Relation} {nested : List Branch}
      (relation : c.relation? entity label = .ok (some r)) (labels : (nested.map Branch.label).Nodup)
      (below : ∀ b ∈ nested, Follows c r.target b) : Follows c entity ⟨label, r.target, r.many, r.through, nested⟩

/-- Branches along relations of an entity, each with a label of its own. -/
def AllFollow (c : Catalog) (entity : Value) (bs : List Branch) : Prop :=
  (bs.map Branch.label).Nodup ∧ ∀ b ∈ bs, Follows c entity b

variable {c : Catalog} {entity : Value}

theorem allFollow_nil : AllFollow c entity [] := ⟨List.nodup_nil, fun _ hb => absurd hb List.not_mem_nil⟩

theorem Follows.nested {b : Branch} (h : Follows c entity b) : AllFollow c b.target b.nested := by
  cases h with
  | mk _ labels below => exact ⟨labels, below⟩

/-- A chain of labels goes along branches that lead to one row at most, from an entity and its branches to the entity
and the branches at its end. -/
inductive Along : String → List Branch → List String → String → List Branch → Prop
  | nil (name : String) (bs : List Branch) : Along name bs [] name bs
  | cons {start next last : String} {bs bs' : List Branch} {b : Branch} {chain : List String} (mem : b ∈ bs)
      (toOne : b.many.truthy = false) (target : b.target = .text next) (rest : Along next b.nested chain last bs') :
      Along start bs (b.label :: chain) last bs'

/-! ## Adding chains -/

/-- Where a chain goes through a branch with its first label, the rest of it is added below that branch; other
branches stay as they are. -/
def Lengthened (c : Catalog) (label : String) (chain : List String) (b b' : Branch) : Prop :=
  if b.label = label then ∃ nested, Branch.addChain c b.target b.nested chain = .ok nested ∧ b' = { b with nested }
  else b' = b

theorem Lengthened.label_eq {label : String} {chain : List String} {b b' : Branch}
    (h : Lengthened c label chain b b') : b'.label = b.label := by
  unfold Lengthened at h
  split at h
  · obtain ⟨nested, -, rfl⟩ := h
    rfl
  · rw [h]

theorem Lengthened.eq_of_ne {label : String} {chain : List String} {b b' : Branch} (h : Lengthened c label chain b b')
    (hb : b.label ≠ label) : b' = b := by
  unfold Lengthened at h
  rwa [if_neg hb] at h

/-- A chain is added below the branches with its first label, or else a new branch takes it in at the end. -/
theorem addChain_cons {label : String} {chain : List String} {bs out : List Branch}
    (h : addChain c entity bs (label :: chain) = .ok out) :
    (∃ b ∈ bs, b.label = label) ∧ List.Forall₂ (Lengthened c label chain) bs out ∨
      (∀ b ∈ bs, b.label ≠ label) ∧ ∃ r nested, c.relation? entity label = .ok (some r) ∧
        addChain c r.target [] chain = .ok nested ∧ out = bs ++ [⟨label, r.target, r.many, r.through, nested⟩] := by
  simp only [addChain] at h
  obtain ⟨found, hfound, h⟩ := bind_eq_ok_iff.mp h
  cases found with
  | none => cases h
  | some r =>
    obtain ⟨followed, hfollowed, h⟩ := bind_eq_ok_iff.mp h
    have hall : List.Forall₂ (Lengthened c label chain) bs followed := by
      refine (forall₂_of_mapM_eq_ok hfollowed).imp fun b b' hb => ?_
      unfold Lengthened
      by_cases hlabel : b.label = label
      · rw [if_pos hlabel] at hb ⊢
        obtain ⟨nested, hnested, hb⟩ := bind_eq_ok_iff.mp hb
        exact ⟨nested, hnested, (pure_eq_ok_iff.mp hb).symm⟩
      · rw [if_neg hlabel] at hb ⊢
        exact (pure_eq_ok_iff.mp hb).symm
    split at h
    · rename_i hany
      cases pure_eq_ok_iff.mp h
      obtain ⟨b, hb, hlabel⟩ := List.any_eq_true.mp hany
      exact .inl ⟨⟨b, hb, of_decide_eq_true hlabel⟩, hall⟩
    · rename_i hany
      have hnew : ∀ b ∈ bs, b.label ≠ label :=
        fun b hb heq => hany (List.any_eq_true.mpr ⟨b, hb, decide_eq_true heq⟩)
      have hsame : List.Forall₂ (· = ·) bs followed :=
        ((List.forall₂_and_left _ _).mpr ⟨hnew, hall⟩).imp fun b b' hb => (hb.2.eq_of_ne hb.1).symm
      obtain ⟨nested, hnested, h⟩ := bind_eq_ok_iff.mp h
      rw [List.forall₂_eq_eq_eq] at hsame
      exact .inr ⟨hnew, r, nested, hfound, hnested, hsame ▸ (pure_eq_ok_iff.mp h).symm⟩

theorem AllFollow.lengthened {label : String} {chain : List String} {bs out : List Branch} (h : AllFollow c entity bs)
    (hout : List.Forall₂ (Lengthened c label chain) bs out)
    (hchain : ∀ {entity bs out}, AllFollow c entity bs → Branch.addChain c entity bs chain = .ok out →
      AllFollow c entity out) : AllFollow c entity out ∧ out.map Branch.label = bs.map Branch.label := by
  induction hout with
  | nil => exact ⟨h, rfl⟩
  | @cons b b' bs out hb _ ih =>
    obtain ⟨hlabels, hbs⟩ := h
    obtain ⟨hfollows, hbs⟩ := List.forall_mem_cons.mp hbs
    obtain ⟨hdistinct, hrest⟩ := List.nodup_cons.mp hlabels
    obtain ⟨⟨-, hout⟩, hsame⟩ := ih ⟨hrest, hbs⟩
    have hlabel : (b' :: out).map Branch.label = (b :: bs).map Branch.label := by
      rw [List.map_cons, List.map_cons, hsame, hb.label_eq]
    refine ⟨⟨hlabel ▸ hlabels, List.forall_mem_cons.mpr ⟨?_, hout⟩⟩, hlabel⟩
    unfold Lengthened at hb
    split at hb
    · obtain ⟨nested, hnested, rfl⟩ := hb
      cases hfollows with
      | mk hrelation hnodup hbelow =>
        obtain ⟨hnodup', hbelow'⟩ := hchain ⟨hnodup, hbelow⟩ hnested
        exact .mk hrelation hnodup' hbelow'
    · exact hb ▸ hfollows

theorem AllFollow.addChain : (chain : List String) → {entity : Value} → {bs out : List Branch} →
    AllFollow c entity bs → Branch.addChain c entity bs chain = .ok out → AllFollow c entity out
  | [], _, _, _, h, hout => by
    cases hout
    exact h
  | label :: chain, entity, bs, out, h, hout => by
    obtain ⟨-, hall⟩ | ⟨hnew, r, nested, hr, hnested, rfl⟩ := addChain_cons hout
    · exact (h.lengthened hall fun h => AllFollow.addChain chain h).1
    · obtain ⟨hlabels, hbs⟩ := h
      obtain ⟨hlabels', hbelow⟩ := AllFollow.addChain chain allFollow_nil hnested
      refine ⟨?_, List.forall_mem_append.mpr ⟨hbs, List.forall_mem_singleton.mpr (.mk hr hlabels' hbelow)⟩⟩
      rw [List.map_append, List.map_singleton]
      refine List.nodup_append.mpr ⟨hlabels, List.pairwise_singleton _ _, fun l hl l' hl' heq => ?_⟩
      obtain ⟨b, hb, hlabel⟩ := List.mem_map.mp hl
      exact hnew b hb (hlabel.trans (heq.trans (List.mem_singleton.mp hl')))

/-! ## Merging -/

theorem AllFollow.graft {b : Branch} {change : Branch → Branch} {bs : List Branch} (h : AllFollow c entity bs)
    (hb : Follows c entity b) (hlabel : ∀ e, (change e).label = e.label)
    (hchange : ∀ e, e.label = b.label → Follows c entity e → Follows c entity (change e)) :
    AllFollow c entity (Branch.graft b change bs) ∧
      ∀ e ∈ Branch.graft b change bs, e.label = b.label ∨ e.label ∈ bs.map Branch.label := by
  induction bs with
  | nil =>
    refine ⟨⟨List.pairwise_singleton _ _, fun e he => ?_⟩, fun e he => .inl ?_⟩
    · rwa [List.mem_singleton.mp he]
    · rw [List.mem_singleton.mp he]
  | cons d ds ih =>
    obtain ⟨hlabels, hbs⟩ := h
    obtain ⟨hd, hds⟩ := List.forall_mem_cons.mp hbs
    rw [List.map_cons, List.nodup_cons] at hlabels
    simp only [Branch.graft]
    split
    · rename_i hdb
      refine ⟨⟨?_, List.forall_mem_cons.mpr ⟨hchange d hdb hd, hds⟩⟩, List.forall_mem_cons.mpr ⟨?_, fun e he => ?_⟩⟩
      · rw [List.map_cons, hlabel]
        exact List.nodup_cons.mpr hlabels
      · rw [hlabel]
        exact .inr List.mem_cons_self
      · exact .inr (List.mem_cons_of_mem _ (List.mem_map_of_mem he))
    · rename_i hdb
      obtain ⟨⟨hlabels', hall⟩, hfrom⟩ := ih ⟨hlabels.2, hds⟩
      refine ⟨⟨List.nodup_cons.mpr ⟨fun hmem => ?_, hlabels'⟩, List.forall_mem_cons.mpr ⟨hd, hall⟩⟩,
        List.forall_mem_cons.mpr ⟨.inr List.mem_cons_self, fun e he => ?_⟩⟩
      · obtain ⟨e, he, heq⟩ := List.mem_map.mp hmem
        rcases hfrom e he with hb | hmem
        · exact hdb (heq ▸ hb)
        · exact hlabels.1 (heq ▸ hmem)
      · exact (hfrom e he).imp_right (List.mem_cons_of_mem _)

mutual
theorem AllFollow.mergeOne : (b : Branch) → {entity : Value} → {bs : List Branch} → AllFollow c entity bs →
    Follows c entity b → AllFollow c entity (Branch.mergeOne bs b)
  | ⟨label, target, many, through, nested⟩, entity, bs, h, hb => by
    simp only [Branch.mergeOne]
    refine (h.graft hb ?_ ?_).1
    · exact fun _ => rfl
    intro e hlabel he
    cases hb with
    | mk hrelation _ hbelow =>
      cases he with
      | mk hrelation' hlabels' hbelow' =>
        -- both branches go along the same relation
        cases hlabel
        cases hrelation.symm.trans hrelation'
        obtain ⟨hlabels, hall⟩ := AllFollow.merge nested ⟨hlabels', hbelow'⟩ hbelow
        exact .mk hrelation hlabels hall

theorem AllFollow.merge : (bs : List Branch) → {entity : Value} → {as : List Branch} → AllFollow c entity as →
    (∀ b ∈ bs, Follows c entity b) → AllFollow c entity (Branch.merge as bs)
  | [], entity, as, h, _ => by
    simp only [Branch.merge]
    exact h
  | b :: bs, entity, as, h, hbs => by
    obtain ⟨hb, hbs⟩ := List.forall_mem_cons.mp hbs
    simp only [Branch.merge]
    exact AllFollow.merge bs (AllFollow.mergeOne b h hb) hbs
end

end Branch

namespace IncludeTree

/-- All branches of the tree, however deep, go along relations of a schema. -/
def Follows (c : Catalog) (t : IncludeTree) : Prop := Branch.AllFollow c (.text t.entity) t.branches

variable {c : Catalog} {entity : String} {spec : Value} {t u : IncludeTree}

theorem Follows.withChain (h : t.Follows c) {chain : List String} (hu : t.withChain c chain = .ok u) : u.Follows c := by
  obtain ⟨branches, hb, hu⟩ := bind_eq_ok_iff.mp hu
  cases pure_eq_ok_iff.mp hu
  exact Branch.AllFollow.addChain chain h hb

/-- Whatever a specification describes follows the schema. -/
theorem follows_parse (h : parse c entity spec = .ok t) : t.Follows c := by
  have hempty : Follows c ⟨entity, []⟩ := Branch.allFollow_nil
  exact add_keeps (fun _ _ _ ht hu => ht.withChain hu) spec hempty h

theorem Follows.merge (h : t.Follows c) (hu : u.Follows c) (hentity : u.entity = t.entity) : (t.merge u).Follows c :=
  Branch.AllFollow.merge u.branches h (hentity ▸ hu.2)

end IncludeTree

end Sift
