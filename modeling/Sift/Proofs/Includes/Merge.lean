import Sift.Proofs.Outcome
import Sift.Request.Scope

/-!
# Names under merged relations

Merging brings relations in and takes none away: a chain of labels that leads somewhere leads to the same entity after
it. So a name that finds a field finds the same field when more relations are included.
-/

namespace Sift

namespace Branch

variable {label : String} {bs : List Branch} {b e : Branch}

theorem find?_cons_of_eq (h : b.label = label) : find? label (b :: bs) = some b :=
  List.find?_cons_of_pos (by simpa using h)

theorem find?_cons_of_ne (h : b.label ≠ label) : find? label (b :: bs) = find? label bs :=
  List.find?_cons_of_neg (by simpa using h)

theorem mem_of_find?_eq_some (h : find? label bs = some b) : b ∈ bs ∧ b.label = label := by
  unfold find? at h
  exact ⟨List.mem_of_find?_eq_some h, of_decide_eq_true (List.find?_some h :)⟩

theorem find?_eq_some_of_mem (hlabels : (bs.map Branch.label).Nodup) (hb : b ∈ bs) : find? b.label bs = some b := by
  induction bs with
  | nil => cases hb
  | cons d ds ih =>
    obtain ⟨hnew, hlabels⟩ := List.nodup_cons.mp hlabels
    rcases List.mem_cons.mp hb with rfl | hb
    · exact find?_cons_of_eq rfl
    · rw [find?_cons_of_ne fun heq => hnew (heq ▸ List.mem_map_of_mem hb), ih hlabels hb]

/-- Grafting changes the branch with the label of the graft, and leaves the others. -/
theorem find?_graft {change : Branch → Branch} (keeps : ∀ e, (change e).label = e.label)
    (h : find? label bs = some e) :
    find? label (graft b change bs) = some (if b.label = label then change e else e) := by
  induction bs with
  | nil => cases h
  | cons d ds ih =>
    simp only [graft]
    by_cases hd : d.label = label
    · rw [find?_cons_of_eq hd] at h
      cases h
      by_cases hb : b.label = label
      · rw [if_pos (hd.trans hb.symm), if_pos hb, find?_cons_of_eq ((keeps e).trans hd)]
      · rw [if_neg fun hdb => hb (hdb.symm.trans hd), if_neg hb, find?_cons_of_eq hd]
    · rw [find?_cons_of_ne hd] at h
      by_cases hdb : d.label = b.label
      · have hb : b.label ≠ label := fun hb => hd (hdb.trans hb)
        rw [if_pos hdb, if_neg hb, find?_cons_of_ne (by rwa [keeps]), h]
      · rw [if_neg hdb, find?_cons_of_ne hd, ih h]

end Branch

namespace Scope

variable {place written : String}

/-- Wherever a chain of labels leads in the first branches, it leads in the second ones too. -/
def Extends (bs cs : List Branch) : Prop :=
  ∀ (place written : String) (entity many : Value) (chain : List String) (out : Value × Value),
    walk place written entity many bs chain = .ok out → walk place written entity many cs chain = .ok out

theorem Extends.trans {as bs cs : List Branch} (h : Extends as bs) (h' : Extends bs cs) : Extends as cs :=
  fun _ _ _ _ _ _ ho => h' _ _ _ _ _ _ (h _ _ _ _ _ _ ho)

theorem extends_graft {bs : List Branch} {b : Branch} {change : Branch → Branch}
    (keeps : ∀ e, (change e).label = e.label ∧ (change e).target = e.target ∧ (change e).many = e.many)
    (nested : ∀ e, Extends e.nested (change e).nested) : Extends bs (Branch.graft b change bs) := by
  intro place written entity many chain out h
  cases chain with
  | nil => exact h
  | cons label chain =>
    simp only [walk] at h ⊢
    cases hf : Branch.find? label bs with
    | none =>
      rw [hf] at h
      cases h
    | some e =>
      rw [hf] at h
      rw [Branch.find?_graft (fun e => (keeps e).1) hf]
      obtain ⟨-, ht, hm⟩ := keeps e
      by_cases hb : b.label = label
      · simp only [if_pos hb, ht, hm]
        exact nested e _ _ _ _ _ _ h
      · simp only [if_neg hb]
        exact h

mutual
theorem extends_mergeOne : (b : Branch) → (bs : List Branch) → Extends bs (Branch.mergeOne bs b)
  | ⟨label, target, many, through, nested⟩, bs => by
    simp only [Branch.mergeOne]
    refine extends_graft (fun _ => ⟨rfl, rfl, rfl⟩) fun e => ?_
    exact extends_merge nested e.nested

theorem extends_merge : (cs bs : List Branch) → Extends bs (Branch.merge bs cs)
  | [], bs => by
    simp only [Branch.merge]
    exact fun _ _ _ _ _ _ h => h
  | c :: cs, bs => by
    simp only [Branch.merge]
    exact (extends_mergeOne c bs).trans (extends_merge cs _)
end

def including (s : Scope) (t : IncludeTree) : Scope := { s with includes := s.includes.merge t }

variable {s : Scope} {ref : FieldRef}

theorem relatedField_including {chain : List String} {column : String} (t : IncludeTree)
    (h : s.relatedField chain column place written = .ok ref) :
    (s.including t).relatedField chain column place written = .ok ref := by
  unfold relatedField at h ⊢
  obtain ⟨out, hout, h⟩ := bind_eq_ok_iff.mp h
  exact bind_eq_ok_iff.mpr ⟨out, extends_merge t.branches s.includes.branches _ _ _ _ _ _ hout, h⟩

theorem resolve_including {name : Value} (t : IncludeTree) (h : s.resolve name place written = .ok ref) :
    (s.including t).resolve name place written = .ok ref := by
  unfold resolve at h ⊢
  obtain ⟨path, hpath, h⟩ := bind_eq_ok_iff.mp h
  refine bind_eq_ok_iff.mpr ⟨path, hpath, ?_⟩
  simp only at h ⊢
  split at h
  · cases h
  · split at h
    · rw [if_neg ‹_›, if_pos ‹_›]
      exact h
    · rw [if_neg ‹_›, if_neg ‹_›]
      exact relatedField_including t h

end Scope

end Sift
