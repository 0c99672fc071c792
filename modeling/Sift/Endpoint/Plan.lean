import Sift.Request.Ordering
import Sift.Request.Paging

/-!
# Plans

A plan is a compiled request: all that an executor has to know, in a form that needs no further checks. A plan is given
to an executor only once.
-/

namespace Sift

structure Plan where
  entity : String
  criteria : Criteria
  order : List OrderTerm
  page : Page
  includes : IncludeTree
  joins : Joins
  /-- The filters as the request wrote them. -/
  echo : Value
  spent : Bool := false

/-- What an executor finds: the rows of the page, and how many there are on all pages. -/
structure Result where
  rows : List Value
  count : Value

abbrev Executor := Plan → Except Fault Result

namespace Plan

/-- Marks a plan as given to an executor. -/
def consume (p : Plan) : Except Fault Plan :=
  if p.spent then .error .planSpent else .ok { p with spent := true }

/-- A plan as messages show it. -/
def literal (p : Plan) : Except Fault String := do
  return call "ExecutionPlan" [Text.quoted p.entity, "filter=" ++ p.criteria.predicate.literal,
    "order=" ++ Value.listLiteral (p.order.map fun t => (Value.object t.toRow).literal),
    "limit=" ++ p.page.limit.toValue.plain, "offset=" ++ (← p.page.offset).toValue.plain]

end Plan

end Sift
