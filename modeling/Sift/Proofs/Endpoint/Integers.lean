import Sift.Proofs.Endpoint.Forced
import Sift.Proofs.Paging.Partition
import Sift.Proofs.Store.Integers

/-!
# Requests with integers beyond those of a store

Nothing keeps the pages and the integers of an accepted request within what a store keeps. Sizes and numbers of pages
are positive, and a largest size is respected, but a page may start anywhere and a column of integers may be compared
with any integer. Running such a request overflows, and what overflows is not answered.
-/

namespace Sift

def overflows {α : Type} : Except Fault α → Bool
  | .error .overflow => true
  | _ => false

theorem overflows_iff {α : Type} {x : Except Fault α} : overflows x = true ↔ x = .error .overflow := by
  constructor
  · intro h
    unfold overflows at h
    split at h
    · rfl
    · cases h
  · rintro rfl
    rfl

namespace Shop

/-- The page of the plan for a request for products, and the integers that its clauses are about. -/
def planned (settings : Settings) (body : Value) : Except Fault (Page × List (ColumnType × List Int)) := do
  let e ← Endpoint.configure "Product" (.ofModels employed.models) settings
  let plan ← e.compileBody body .null
  return (plan.page, plan.criteria.predicate.clauses.map fun c => (c.field.type, c.value.integers))

theorem exists_of_planned {settings : Settings} {body : Value} {page : Page} {operands : List (ColumnType × List Int)}
    (h : (planned settings body).toOption = some (page, operands)) :
    ∃ e plan, Endpoint.configure "Product" (.ofModels employed.models) settings = .ok e ∧
      e.compileBody body .null = .ok plan ∧ plan.page = page ∧
        plan.criteria.predicate.clauses.map (fun c => (c.field.type, c.value.integers)) = operands := by
  cases hplanned : planned settings body with
  | error fault =>
    rw [hplanned] at h
    cases h
  | ok result =>
    rw [hplanned] at h
    cases h
    simp only [planned, bind_eq_ok_iff, pure_eq_ok_iff, Prod.mk.injEq] at hplanned
    obtain ⟨e, he, plan, hplan, hpage, hclauses⟩ := hplanned
    exact ⟨e, plan, he, hplan, hpage, hclauses⟩

end Shop

namespace FilterRules

variable {r : FilterRules} {checked : Bool} {v : Value} {x : Criteria}

theorem wellTyped_of_compile (hr : r.registry = .default) (h : r.compile checked v = .ok x) :
    ∀ c ∈ x.predicate.clauses, c.WellTyped :=
  (tied_clauses (wellTyped_of_comparisons hr)).compile h

end FilterRules

namespace Endpoint

variable {e : Endpoint} {request : Request} {includes : IncludeTree} {plan : Plan} {most : Option Int}

theorem wellTyped_of_criteria (hr : e.registry = .default) {filtering : Value} {x : Criteria}
    (h : e.criteria includes filtering = .ok x) : ∀ c ∈ x.predicate.clauses, c.WellTyped := by
  cases hrules : e.filterRules includes with
  | error fault =>
    rw [criteria, hrules] at h
    cases h
  | ok rules =>
    have hregistry : rules.registry = .default := by
      obtain ⟨scope, -, hscope⟩ := bind_eq_ok_iff.mp hrules
      cases hscope
      exact hr
    rw [criteria_eq hrules] at h
    simp only [bind_eq_ok_iff, pure_eq_ok_iff] at h
    obtain ⟨own, hown, forced, hforced, rfl⟩ := h
    have htyped : ∀ c ∈ own.predicate.clauses, c.WellTyped := by
      rw [Endpoint.own, hrules] at hown
      simp only [bind, Except.bind] at hown
      split at hown
      · exact FilterRules.wellTyped_of_compile hregistry hown
      · cases hown
        exact fun _ hc => absurd hc List.not_mem_nil
    cases forced with
    | none => exact htyped
    | some forced =>
      have hforced : rules.compile false e.settings.forceFilter = .ok forced := by
        unfold Endpoint.forced at hforced
        split at hforced
        · cases hforced
        · obtain ⟨x, hx, hsome⟩ := map_eq_ok_iff.mp hforced
          cases hsome
          exact hx
      intro c hc
      rw [Option.elim_some, Criteria.conj, Predicate.clauses_conj] at hc
      obtain ⟨p, hp, hc⟩ := List.mem_flatMap.mp hc
      rcases List.mem_pair.mp hp with rfl | rfl
      · exact htyped c hc
      · exact FilterRules.wellTyped_of_compile hregistry hforced c hc

/-- What is compiled has well-typed clauses and a page within the bounds, and was not run yet. -/
theorem of_compile (hr : e.registry = .default) (hsizes : ∃ sizes, e.pageSizes = .ok sizes ∧ sizes.Bounded most)
    (h : e.compile request = .ok plan) :
    plan.entity = e.entity ∧ plan.spent = false ∧ (∀ c ∈ plan.criteria.predicate.clauses, c.WellTyped) ∧
      1 ≤ plan.page.number ∧ ∃ size : Int, plan.page.size.integer? = some size ∧ 0 < size ∧
        ∀ k, most = some k → size ≤ k := by
  obtain ⟨sizes, hpages, hbounded⟩ := hsizes
  simp only [compile, hpages, bind_eq_ok_iff, pure_eq_ok_iff, Except.ok.injEq, exists_eq_left'] at h
  obtain ⟨page, hpage, includes, -, criteria, hcriteria, order, -, rfl⟩ := h
  refine ⟨rfl, rfl, wellTyped_of_criteria hr hcriteria, ?_⟩
  obtain ⟨row, hrow⟩ : ∃ row, sizes.compile request.paging = sizes.compile (.object row) := by
    unfold PageSizes.compile at hpage ⊢
    cases hpaging : request.paging with
    | null => exact ⟨[], rfl⟩
    | object entries => exact ⟨entries, rfl⟩
    | _ =>
      rw [hpaging] at hpage
      cases hpage
  obtain ⟨page', size, hcompile, hnumber, hsize, hpos, hmost⟩ := hbounded.exists_compile row
  cases (hrow.symm.trans hpage).symm.trans hcompile
  exact ⟨hnumber, size, hsize, by omega, hmost⟩

theorem answer_of_run_error {run : Executor} {store : LookupStore} (hrun : run plan = .error .overflow) :
    e.answer run store (.ok plan) = .error .overflow := by
  simp only [answer, hrun, bind, Except.bind]

/-- An accepted body overflows exactly when an integer is handed over that the store does not keep. Limit, offset and
the integers of clauses about columns of integers are handed over; the page is positive and of no more than the largest
size, but there is nothing else that keeps them in range. What overflows is not answered. Where the type of a column is
not known, any scalar suits it: there the operands are to be of the kinds that requests have. -/
theorem body_overflows_iff {s : Store} {m : Model} {body given : Value} (hr : e.registry = .default)
    (hsizes : ∃ sizes, e.pageSizes = .ok sizes ∧ sizes.Bounded most) (hm : Model.find? s.models e.entity = some m)
    (h : e.compileBody body given = .ok plan)
    (hscalar : ∀ c ∈ plan.criteria.predicate.clauses, c.field.type = .other → ∀ v ∈ c.operands, v.IsScalar) :
    1 ≤ plan.page.number ∧ ∃ size : Int, plan.page.size.integer? = some size ∧ 0 < size ∧
      (∀ k, most = some k → size ≤ k) ∧
      (s.run plan = .error .overflow ↔ ∃ vs n, s.handed plan = .ok vs ∧ .int n ∈ vs ∧ fitsStore n = false) ∧
      (∀ vs, s.handed plan = .ok vs → .int size ∈ vs ∧
        ((plan.page.number - 1) * size ≠ 0 → .int ((plan.page.number - 1) * size) ∈ vs) ∧
        ∀ c ∈ plan.criteria.predicate.clauses, c.field.type = .integer → ∀ n ∈ c.value.integers, .int n ∈ vs) ∧
      ((∀ c ∈ plan.criteria.predicate.clauses, c.field.type = .integer) →
        (s.run plan = .error .overflow ↔ ¬ Store.Keeps plan size)) ∧
      (s.run plan = .error .overflow → ∀ store, e.answerBody s.run store body given = .error .overflow) := by
  obtain ⟨request, -, hcompile⟩ := bind_eq_ok_iff.mp h
  obtain ⟨hentity, fresh, hwell, hnumber, size, hsize, hpos, hmost⟩ := of_compile hr hsizes hcompile
  rw [← hentity] at hm
  refine ⟨hnumber, size, hsize, hpos, hmost, ?_, fun vs hvs => ?_, fun hintegers => ?_, fun hrun store => ?_⟩
  · refine Store.run_overflows_iff hm fresh hsize fun c hc => ⟨hwell c hc, ?_⟩
    by_cases htype : c.field.type = .other
    · exact hscalar c hc htype
    · exact Clause.isScalar_of_wellTyped (hwell c hc) htype
  · obtain ⟨hlimit, hoffset⟩ := Store.mem_handed_numbers hsize hvs
    exact ⟨hlimit, hoffset, fun c hc htype n hn => Store.mem_handed_integers hvs hc (hwell c hc) htype hn⟩
  · exact Store.run_overflows_iff_not_keeps hm fresh hsize fun c hc => ⟨hwell c hc, hintegers c hc⟩
  · rw [answerBody, h]
    exact answer_of_run_error hrun

theorem body_overflows_iff_faraway : ∃ e plan,
    configure "Product" (.ofModels Shop.employed.models) { maxPageSize := .int 100 } = .ok e ∧
      e.compileBody Shop.faraway .null = .ok plan ∧ ¬ Store.Keeps plan 100 ∧
        ∀ store, e.answerBody Shop.employed.run store Shop.faraway .null = .error .overflow := by
  obtain ⟨e, plan, he, hplan, hpage, hclauses⟩ := Shop.exists_of_planned
    (show (Shop.planned { maxPageSize := .int 100 } Shop.faraway).toOption =
      some (⟨9223372036854775808, .whole 100⟩, []) by decide +kernel)
  obtain ⟨hr, hm⟩ : e.registry = .default ∧ Model.find? Shop.employed.models e.entity = some Shop.product := by
    cases he
    exact ⟨rfl, rfl⟩
  have hsizes : ∃ sizes, e.pageSizes = .ok sizes ∧ sizes.Bounded (some 100) := by
    cases he
    have hpositive : PageSizes.IsPositive (.int 100) := ⟨100, rfl, by decide⟩
    show ∃ sizes, PageSizes.ofValues (.int 100) .null (.int 100) = .ok sizes ∧ _
    exact PageSizes.exists_ofValues hpositive (.inr hpositive)
  have hnone {P : Clause → Prop} : ∀ c ∈ plan.criteria.predicate.clauses, P c := by
    rw [List.map_eq_nil_iff.mp hclauses]
    exact fun _ hc => absurd hc List.not_mem_nil
  obtain ⟨-, size, hsize, -, -, -, -, hiff, hanswer⟩ := body_overflows_iff hr hsizes hm hplan hnone
  obtain rfl : 100 = size := by
    rw [hpage] at hsize
    exact Option.some.inj hsize
  have hkeeps : ¬ Store.Keeps plan 100 := by
    intro h
    have hoffset := h.offset
    rw [hpage] at hoffset
    exact absurd hoffset (by decide)
  exact ⟨e, plan, he, hplan, hkeeps, hanswer ((hiff hnone).mpr hkeeps)⟩

/-- With a largest size or without, pages may start where the store cannot; without one, sizes may be too large; and
columns of integers are compared with integers that the store does not keep. -/
theorem accepts_beyond_store :
    (∃ e plan, configure "Product" (.ofModels Shop.employed.models) { maxPageSize := .int 100 } = .ok e ∧
      e.compileBody Shop.faraway .null = .ok plan ∧ plan.page = ⟨9223372036854775808, .whole 100⟩ ∧
        fitsStore ((9223372036854775808 - 1) * 100) = false ∧
          e.answerBody Shop.employed.run .empty Shop.faraway .null = .error .overflow) ∧
    (∃ e plan, configure "Product" (.ofModels Shop.employed.models) {} = .ok e ∧
      e.compileBody Shop.endless .null = .ok plan ∧ plan.page = ⟨1, .whole 9223372036854775808⟩ ∧
        fitsStore 9223372036854775808 = false ∧
          e.answerBody Shop.employed.run .empty Shop.endless .null = .error .overflow) ∧
    ∃ e plan, configure "Product" (.ofModels Shop.employed.models) {} = .ok e ∧
      e.compileBody Shop.unmatched .null = .ok plan ∧
        plan.criteria.predicate.clauses.map (fun c => (c.field.type, c.value.integers)) =
          [(.integer, [9223372036854775808])] ∧
          e.answerBody Shop.employed.run .empty Shop.unmatched .null = .error .overflow := by
  have hlarge : fitsStore 9223372036854775808 = false := by decide
  have hfar : fitsStore ((9223372036854775808 - 1) * 100) = false := by decide
  refine ⟨?_, ?_, ?_⟩
  · obtain ⟨e, plan, he, hplan, hpage, -⟩ := Shop.exists_of_planned
      (show (Shop.planned { maxPageSize := .int 100 } Shop.faraway).toOption =
        some (⟨9223372036854775808, .whole 100⟩, []) by decide +kernel)
    refine ⟨e, plan, he, hplan, hpage, hfar, overflows_iff.mp ?_⟩
    cases he
    decide +kernel
  · obtain ⟨e, plan, he, hplan, hpage, -⟩ := Shop.exists_of_planned
      (show (Shop.planned {} Shop.endless).toOption = some (⟨1, .whole 9223372036854775808⟩, []) by decide +kernel)
    refine ⟨e, plan, he, hplan, hpage, hlarge, overflows_iff.mp ?_⟩
    cases he
    decide +kernel
  · obtain ⟨e, plan, he, hplan, -, hclauses⟩ := Shop.exists_of_planned
      (show (Shop.planned {} Shop.unmatched).toOption =
        some (⟨1, .whole 100⟩, [(.integer, [9223372036854775808])]) by decide +kernel)
    refine ⟨e, plan, he, hplan, hclauses, overflows_iff.mp ?_⟩
    cases he
    decide +kernel

end Endpoint

end Sift
