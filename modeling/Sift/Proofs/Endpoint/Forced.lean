import Sift.Endpoint.Basic
import Sift.Proofs.Filter.Keys
import Sift.Proofs.Includes.Merge
import Sift.Proofs.Policy.Names

/-!
# The forced filter

The filter that an endpoint forces on its requests is compiled anew for every request, among the relations that this
request includes. It comes to the same each time, and no request is answered with rows that do not meet it.
-/

namespace Sift

namespace FilterRules

variable {r : FilterRules} {v : Value} {x : Criteria}

def including (r : FilterRules) (t : IncludeTree) : FilterRules := { r with scope := r.scope.including t }

theorem retraced_including (t : IncludeTree) : r.Retraced false (r.including t) false fun _ => .ok () where
  registry := rfl
  field := by
    intro key ref h
    rw [Section.field_false] at h ⊢
    exact Scope.resolve_including t h

theorem compile_including (t : IncludeTree) (h : r.compile false v = .ok x) :
    (r.including t).compile false v = .ok x := by
  rw [(retraced_including t).compile h, forM_eq_ok_iff.mpr fun _ _ => rfl]
  rfl

end FilterRules

namespace Endpoint

variable {e : Endpoint} {entity : String} {catalog : Catalog} {s : Settings} {includes : IncludeTree}

/-- Compiles the filter of a request alone, where the sender may filter at all. -/
def own (e : Endpoint) (includes : IncludeTree) (filtering : Value) : Except Fault Criteria := do
  let rules ← e.filterRules includes
  if e.settings.allowFiltering.truthy then rules.compile true filtering else return {}

theorem filterRules_merge {rules : FilterRules} (t : IncludeTree) (h : e.filterRules includes = .ok rules) :
    e.filterRules (includes.merge t) = .ok (rules.including t) := by
  simp only [filterRules, scope, bind_eq_ok_iff, pure_eq_ok_iff] at h ⊢
  obtain ⟨scope, ⟨mappings, hm, rfl⟩, rfl⟩ := h
  exact ⟨_, ⟨mappings, hm, rfl⟩, rfl⟩

theorem requestIncludes_eq {v : Value} (h : e.requestIncludes v = .ok includes) :
    ∃ t, includes = e.includes.merge t := by
  unfold requestIncludes at h
  split at h
  · obtain ⟨t, -, h⟩ := bind_eq_ok_iff.mp h
    exact ⟨t, (pure_eq_ok_iff.mp h).symm⟩
  · exact ⟨⟨e.entity, []⟩, (pure_eq_ok_iff.mp h).symm⟩

theorem configure_forced (h : configure entity catalog s = .ok e) (hf : s.forceFilter ≠ .null) :
    e.settings = s ∧ ∃ rules forced, e.filterRules e.includes = .ok rules ∧
      rules.compile false s.forceFilter = .ok forced := by
  simp only [configure, bind_eq_ok_iff] at h
  obtain ⟨_, -, mappings, -, flattening, -, filteringPolicy, -, orderingPolicy, -, _, -, includes, -, h⟩ := h
  obtain ⟨rules, hrules, forced, hforced, h⟩ := h
  cases pure_eq_ok_iff.mp h
  exact ⟨rfl, rules, forced, hrules, hforced⟩

theorem criteria_eq {rules : FilterRules} (hrules : e.filterRules includes = .ok rules) (filtering : Value) :
    e.criteria includes filtering = (do
      let own ← e.own includes filtering
      return (← e.forced rules).elim own fun forced => .conj [own, forced]) := by
  cases ha : e.settings.allowFiltering.truthy with
  | true =>
    simp only [criteria, own, hrules, ha, if_true]
    rfl
  | false =>
    simp only [criteria, own, hrules, ha, Bool.false_eq_true, if_false]
    rfl

theorem own_of_not_allowed {filtering : Value} {x : Criteria} (h : e.own includes filtering = .ok x)
    (hn : e.settings.allowFiltering.truthy = false) : x = {} := by
  simp only [own, hn, bind_eq_ok_iff, Bool.false_eq_true, if_false, pure_eq_ok_iff] at h
  obtain ⟨_, _, rfl⟩ := h
  rfl

theorem forced_eq {rules : FilterRules} {x : Criteria} (hf : e.settings.forceFilter ≠ .null)
    (h : rules.compile false e.settings.forceFilter = .ok x) : e.forced rules = .ok (some x) := by
  unfold Endpoint.forced
  split
  · exact absurd ‹_› hf
  · rw [h]
    rfl

/-- A plan for rows that meet what the sender asks for and, beside it, what is forced on the endpoint. -/
structure Guarded (e : Endpoint) (own forced : Criteria) (filtering : Value) (plan : Plan) : Prop where
  compiled : e.own plan.includes filtering = .ok own
  always : e.settings.allowFiltering.truthy = false → own.predicate = .always
  combined : plan.criteria.predicate = .conj [own.predicate, forced.predicate]
  meets : ∀ value, plan.criteria.predicate.truth value = .yes ↔
    own.predicate.truth value = .yes ∧ forced.predicate.truth value = .yes

theorem guarded_of_compile {rules : FilterRules} {forced : Criteria} {request : Request} {plan : Plan}
    (hf : e.settings.forceFilter ≠ .null) (hrules : e.filterRules e.includes = .ok rules)
    (hforced : rules.compile false e.settings.forceFilter = .ok forced) (h : e.compile request = .ok plan) :
    ∃ own, e.Guarded own forced request.filtering plan := by
  simp only [Endpoint.compile, bind_eq_ok_iff, pure_eq_ok_iff] at h
  obtain ⟨_, _, _, _, includes, hincludes, criteria, hcriteria, _, _, rfl⟩ := h
  obtain ⟨t, rfl⟩ := requestIncludes_eq hincludes
  -- the forced filter is compiled again, among more relations
  have hagain := forced_eq hf (FilterRules.compile_including t hforced)
  simp only [criteria_eq (filterRules_merge t hrules), hagain, bind_eq_ok_iff, pure_eq_ok_iff] at hcriteria
  obtain ⟨own, hown, _, hsome, rfl⟩ := hcriteria
  cases hsome
  refine ⟨own, hown, fun hn => by rw [own_of_not_allowed hown hn], rfl, fun value => ?_⟩
  show (Predicate.conj [own.predicate, forced.predicate]).truth value = .yes ↔ _
  simp only [Predicate.truth_conj, Predicate.truthAll, Truth.and_yes, Truth.and_eq_yes_iff]

/-- No request escapes the forced filter. What it comes to depends on the endpoint alone. -/
theorem compile_guarded (h : configure entity catalog s = .ok e) (hf : s.forceFilter ≠ .null) :
    ∃ rules forced, e.filterRules e.includes = .ok rules ∧ rules.compile false s.forceFilter = .ok forced ∧
      (∀ body includes plan, e.compileBody body includes = .ok plan →
        ∃ request own, Request.ofBody body includes = .ok request ∧ e.Guarded own forced request.filtering plan) ∧
      ∀ parameters includes plan, e.compileParameters parameters includes = .ok plan →
        ∃ request own, Request.ofParameters s.querystringPrefix parameters includes = .ok request ∧
          e.Guarded own forced request.filtering plan := by
  obtain ⟨rfl, rules, forced, hrules, hforced⟩ := configure_forced h hf
  refine ⟨rules, forced, hrules, hforced, fun body includes plan hplan => ?_, fun parameters includes plan hplan => ?_⟩
  · obtain ⟨request, hrequest, hplan⟩ := bind_eq_ok_iff.mp hplan
    obtain ⟨own, hown⟩ := guarded_of_compile hf hrules hforced hplan
    exact ⟨request, own, hrequest, hown⟩
  · obtain ⟨request, hrequest, hplan⟩ := bind_eq_ok_iff.mp hplan
    obtain ⟨own, hown⟩ := guarded_of_compile hf hrules hforced hplan
    exact ⟨request, own, hrequest, hown⟩

theorem compile_guarded_mixed :
    ∃ e plan own forced, configure "Product" Shop.fullCatalog Shop.forcing = .ok e ∧
      e.compileBody (.object [(.text "filtering", Shop.mixed)]) (.text "owner.company") = .ok plan ∧
      e.Guarded own forced Shop.mixed plan := by
  have hok : (do
      let e ← configure "Product" Shop.fullCatalog Shop.forcing
      e.compileBody (.object [(.text "filtering", Shop.mixed)]) (.text "owner.company")).isOk = true := by
    decide +kernel
  obtain ⟨plan, h⟩ := eq_ok_of_isOk hok
  obtain ⟨e, he, hplan⟩ := bind_eq_ok_iff.mp h
  obtain ⟨_, forced, _, _, hbody, _⟩ := compile_guarded he nofun
  obtain ⟨request, own, hrequest, hg⟩ := hbody _ _ _ hplan
  cases hrequest
  exact ⟨e, plan, own, forced, he, hplan, hg⟩

end Endpoint

end Sift
