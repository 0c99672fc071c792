import Sift.Endpoint.Basic
import Sift.Proofs.Request.Parameters
import Sift.Proofs.Sample

/-!
# Requests as parameters and as bodies

The same statements may be written as parameters or as a body. Either is compiled to the same plan, except for the
filters that its sender is shown, or is refused with the same error.
-/

namespace Sift

/-- A plan without the filters that its sender is shown. -/
def Plan.unechoed (p : Plan) : Plan := { p with echo := .null }

def Statement.body (ss : List Statement) : Value :=
  .object (Row.ofList [
    ("filtering", .object (Row.ofList [("and", .list (ss.filterMap Statement.filter?))])),
    ("ordering", given .ordering ss),
    ("paging", .object (Row.ofList [("page", given .page ss), ("size", given .size ss)]))])

/-- What a sender may ask of the shop: two bounds of one field, a page and an ordering between them. -/
def Shop.asked : List Statement :=
  [.condition "name" none (.text "Lamp"), .control .ordering (.text "-name,id"),
    .condition "score" (some "gte") (.text "1"), .control .page (.text "2"),
    .condition "score" (some "lte") (.text "5"), .condition "category" (some "in") (.text "a:b,furniture")]

namespace Endpoint

variable {e : Endpoint}

/-- Requests that are compiled alike section by section are compiled alike. -/
theorem compile_congr {r r' : Request}
    (filtering : ∀ rules : FilterRules, rules.compile true r.filtering = rules.compile true r'.filtering)
    (ordering : ∀ rules : OrderRules, rules.compile r.ordering r.direction = rules.compile r'.ordering r'.direction)
    (paging : r.paging = r'.paging) (includes : r.includes = r'.includes) :
    Plan.unechoed <$> e.compile r = Plan.unechoed <$> e.compile r' := by
  have hcriteria (t : IncludeTree) : e.criteria t r.filtering = e.criteria t r'.filtering := by
    simp only [criteria, filtering]
  have hordering (t : IncludeTree) :
      e.ordering t r.ordering r.direction = e.ordering t r'.ordering r'.direction := by
    simp only [Endpoint.ordering, ordering]
  simp only [compile, paging, includes, hcriteria, hordering, map_bind, map_pure, Plan.unechoed]

theorem ofBody_body (ss : List Statement) (includes : Value) :
    Request.ofBody (Statement.body ss) includes = .ok {
      filtering := .object [(.text "and", .list (ss.filterMap Statement.filter?))]
      ordering := Statement.given .ordering ss
      paging := .object (Row.ofList [("page", Statement.given .page ss), ("size", Statement.given .size ss)])
      includes
      echo := .object [(.text "and", .list (ss.filterMap Statement.filter?))] } := by
  rfl

/-- Statements as parameters and as a body make the same plan or the same error. -/
theorem compileParameters_eq_compileBody {marker : String} (hmarker : e.settings.querystringPrefix = .text marker)
    {ss : List Statement} (h : ∀ s ∈ ss, s.Plain marker) (includes : Value) :
    Plan.unechoed <$> e.compileParameters (.stating marker ss) includes =
      Plan.unechoed <$> e.compileBody (Statement.body ss) includes := by
  have hpage : Parameters.control (ss.map (Statement.role marker)) "page" = Statement.given .page ss :=
    Parameters.control_given .page ss
  have hsize : Parameters.control (ss.map (Statement.role marker)) "page_size" = Statement.given .size ss :=
    Parameters.control_given .size ss
  have hordering : Parameters.control (ss.map (Statement.role marker)) "order_by" = Statement.given .ordering ss :=
    Parameters.control_given .ordering ss
  have hdirection : Parameters.orNull (Parameters.control (ss.map (Statement.role marker)) "order_dir") = .null := by
    rw [Parameters.control_direction]
    rfl
  simp only [compileParameters, compileBody, ofBody_body, Request.ofParameters, hmarker, Parameters.request,
    Parameters.roles_stating h, bind, Except.bind, pure, Except.pure]
  refine compile_congr (fun rules => ?_) (fun rules => ?_) ?_ rfl
  · rw [Parameters.compile_filtering, Parameters.filters_conditions]
  · simp only [OrderRules.compile, hdirection, hordering, Parameters.fields_orNull]
  · rw [hpage, hsize]

theorem compileParameters_eq_compileBody_shop : ∃ e plan,
    configure "Product" Shop.fullCatalog { Shop.exposing with querystringPrefix := .text "api:" } = .ok e ∧
      e.settings.querystringPrefix = .text "api:" ∧ (∀ s ∈ Shop.asked, s.Plain "api:") ∧
      e.compileBody (Statement.body Shop.asked) (.text "owner") = .ok plan ∧
      Plan.unechoed <$> e.compileParameters (.stating "api:" Shop.asked) (.text "owner") =
        Plan.unechoed <$> e.compileBody (Statement.body Shop.asked) (.text "owner") := by
  have hok : (do
      let e ← configure "Product" Shop.fullCatalog { Shop.exposing with querystringPrefix := .text "api:" }
      e.compileBody (Statement.body Shop.asked) (.text "owner")).isOk = true := by
    decide +kernel
  obtain ⟨plan, h⟩ := eq_ok_of_isOk hok
  obtain ⟨e, he, hplan⟩ := bind_eq_ok_iff.mp h
  have hmarker : e.settings.querystringPrefix = .text "api:" := by
    cases he
    rfl
  have hplain : ∀ s ∈ Shop.asked, s.Plain "api:" := by decide
  exact ⟨e, plan, he, hmarker, hplain, hplan, compileParameters_eq_compileBody hmarker hplain _⟩

end Endpoint

end Sift
