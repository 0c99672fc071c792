import Sift.Endpoint.Basic
import Sift.Request.Nesting

/-!
# Requests on a stack

An endpoint compiles and answers its requests on a stack with so many frames. What it comes to is the same as ever, as
long as they are enough.
-/

namespace Sift

namespace Endpoint

/-- The filter that is forced on every request, compiled with some frames left. -/
def forcedWithin (e : Endpoint) (room : Nat) (rules : FilterRules) : Except Fault (Option Criteria) :=
  match e.settings.forceFilter with
  | .null => .ok none
  | v => some <$> rules.compileWithin false room v

def criteriaWithin (e : Endpoint) (room : Nat) (includes : IncludeTree) (filtering : Value) : Except Fault Criteria := do
  let rules ← e.filterRules includes
  let own ← if e.settings.allowFiltering.truthy then rules.compileWithin true room filtering else pure {}
  return (← e.forcedWithin room rules).elim own fun forced => .conj [own, forced]

def compileWithin (e : Endpoint) (room : Nat) (r : Request) : Except Fault Plan := do
  let page ← (← e.pageSizes).compile r.paging
  let includes ← e.requestIncludes r.includes
  let criteria ← e.criteriaWithin room includes r.filtering
  let order ← worded room (e.ordering includes r.ordering r.direction)
  return {
    entity := e.entity
    criteria, page, includes
    order := order.terms
    joins := criteria.joins.union order.joins
    echo := if e.settings.allowFiltering.truthy then r.echo else .null
  }

def compileBodyWithin (e : Endpoint) (room : Nat) (body includes : Value) : Except Fault Plan := do
  e.compileWithin room (← Request.ofBody body includes)

def compileParametersWithin (e : Endpoint) (room : Nat) (p : Parameters) (includes : Value) : Except Fault Plan := do
  e.compileWithin room (← Request.ofParameters e.settings.querystringPrefix p includes)

def answerBodyWithin (e : Endpoint) (room : Nat) (run : Executor) (store : LookupStore) (body includes : Value) :
    Except Fault (Response × Nat) :=
  e.answer run store (e.compileBodyWithin room body includes)

def answerParametersWithin (e : Endpoint) (room : Nat) (run : Executor) (store : LookupStore) (p : Parameters)
    (includes : Value) : Except Fault (Response × Nat) :=
  e.answer run store (e.compileParametersWithin room p includes)

end Endpoint

end Sift
